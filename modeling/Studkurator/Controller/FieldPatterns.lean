import Studkurator.Controller.ContactTVC
import Studkurator.Controller.PhoneNumbers
import Studkurator.Library.RegexLanguage

/-!
# The patterns of the text fields as languages

Both patterns are searched in the field. The phone pattern is greedy, so the search finds
what the pattern says. The e-mail pattern takes the first label possessively and could miss
words of its language; it misses none, because no letter or digit is a full stop.
-/

namespace Studkurator

set_option autoImplicit false

theorem greedy_phonePattern : phonePattern.Greedy := by
  simp [phonePattern, Regex.Greedy, Regex.lit]

theorem matchesPhone_iff_language (text : String) :
    matchesPhone text = true ↔
      ∃ part, part <:+: text.toList ∧ part ∈ phonePattern.language :=
  Regex.hasMatch_iff_of_greedy greedy_phonePattern

namespace ContactTVC
variable {alnum : Char → Bool}

/-- What follows the first label. -/
def afterLabel (alnum : Char → Bool) : Regex :=
  .seq (.repeated (.lit '.') 1 none .greedy) (.repeated (.char alnum) 2 none .greedy)

/-- The pattern with a greedy repetition in place of the possessive one. -/
def greedyPattern (alnum : Char → Bool) : Regex :=
  .seq (.repeated (.char fun c => !isLineTerminator c) 1 none .greedy)
    (.seq (.repeated (.lit '@') 1 none .greedy)
      (.seq (.repeated (.char alnum) 2 none .greedy) (afterLabel alnum)))

theorem greedy_greedyPattern : (greedyPattern alnum).Greedy := by
  simp [greedyPattern, afterLabel, Regex.Greedy, Regex.lit]

theorem rests_afterLabel (hstop : alnum '.' = false) {c : Char} (text : List Char)
    (hc : alnum c = true) : (afterLabel alnum).rests (c :: text) = [] := by
  apply List.eq_nil_iff_forall_not_mem.mpr
  intro rest hrest
  obtain ⟨between, hbetween, -⟩ := Regex.mem_rests_seq.mp hrest
  obtain ⟨dots, htext, hdots, hone, -⟩ := Regex.mem_rests_greedy_lit.mp hbetween
  obtain _ | ⟨dot, dots⟩ := dots
  · simp at hone
  · obtain rfl : c = dot := (List.cons.inj htext).1
    rw [hdots c List.mem_cons_self, hstop] at hc
    cases hc

theorem mem_rests_emailPattern (hstop : alnum '.' = false) {text rest : List Char} :
    rest ∈ (emailPattern alnum).rests text ↔ rest ∈ (greedyPattern alnum).rests text := by
  have hdomain : ∀ text, rest ∈ (domainPattern alnum).rests text ↔
      rest ∈ (Regex.seq (.repeated (.char alnum) 2 none .greedy) (afterLabel alnum)).rests text :=
    fun text => Regex.mem_rests_seq_possessive fun c text hc => rests_afterLabel hstop text hc
  simp only [emailPattern, greedyPattern, Regex.mem_rests_seq, hdomain]

/-- Where the full stop counts as a letter, the first label takes it and nothing matches. -/
theorem matchesEmail_eq_false (hstop : alnum '.' = true) (email : String) :
    matchesEmail alnum email = false := by
  rw [← Bool.not_eq_true]
  intro hmatch
  obtain ⟨start, c, domain, -, -, hdomain⟩ := matchesEmail_iff.mp hmatch
  obtain ⟨-, dots, rest, hrun, hdots, hone, -⟩ := exists_mem_rests_domainPattern.mp hdomain
  obtain _ | ⟨dot, dots⟩ := dots
  · simp at hone
  · obtain rfl : dot = '.' := hdots dot List.mem_cons_self
    have hend := List.head?_dropWhile_not alnum domain
    simp [hrun, hstop] at hend

theorem mem_language_stops (hstop : alnum '.' = true) :
    ['x', '@', '.', '.', '.', '.', '.'] ∈ (emailPattern alnum).language := by
  have hstops : ∀ c ∈ ['.', '.'], alnum c = true := by simp [hstop]
  have hlabel : ∀ mode, ['.', '.'] ∈
      (Regex.repeated (.char alnum) 2 none mode).language :=
    fun _ => Regex.mem_language_repeated_char.mpr ⟨hstops, by simp, by simp⟩
  have hx : ['x'] ∈ (Regex.repeated (.char fun c => !isLineTerminator c) 1 none
      .greedy).language := Regex.mem_language_repeated_char.mpr (by simp [isLineTerminator])
  have hat : ['@'] ∈ (Regex.repeated (.lit '@') 1 none .greedy).language :=
    Regex.mem_language_repeated_char.mpr (by simp)
  have hdot : ['.'] ∈ (Regex.repeated (.lit '.') 1 none .greedy).language :=
    Regex.mem_language_repeated_char.mpr (by simp)
  have hdomain : ['.', '.'] ++ (['.'] ++ ['.', '.']) ∈ (domainPattern alnum).language :=
    Language.append_mem_mul (hlabel _) (Language.append_mem_mul hdot (hlabel _))
  exact Language.append_mem_mul hx (Language.append_mem_mul hat hdomain)

/-- The search accepts exactly the texts with a word of the pattern in them, as a greedy
pattern would, if and only if the full stop is no letter or digit. -/
theorem matchesEmail_language_iff (alnum : Char → Bool) :
    (∀ email, matchesEmail alnum email = true ↔
        ∃ part, part <:+: email.toList ∧ part ∈ (emailPattern alnum).language) ↔
      alnum '.' = false := by
  constructor
  · intro h
    by_contra hstop
    rw [Bool.not_eq_false] at hstop
    have hmatch := (h (String.ofList ['x', '@', '.', '.', '.', '.', '.'])).mpr
      ⟨_, by simp, mem_language_stops hstop⟩
    rw [matchesEmail_eq_false hstop] at hmatch
    cases hmatch
  · intro hstop email
    have hsame : matchesEmail alnum email = true ↔
        (greedyPattern alnum).hasMatch email.toList = true := by
      rw [matchesEmail, Regex.hasMatch_iff, Regex.hasMatch_iff]
      simp only [mem_rests_emailPattern hstop]
    exact hsame.trans (Regex.hasMatch_iff_of_greedy greedy_greedyPattern)

end ContactTVC

end Studkurator
