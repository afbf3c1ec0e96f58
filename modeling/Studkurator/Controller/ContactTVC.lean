import Mathlib.Data.List.TakeWhile
import Studkurator.Library.Regex

/-!
# The contact screen

The e-mail field is searched for the pattern. A possessive repetition takes the whole
run of letters and digits after '@', so the first label of the domain decides with the
beginning of the second.
-/

namespace Studkurator

set_option autoImplicit false

/-- What '.' does not match. -/
def isLineTerminator (c : Char) : Bool :=
  (0x0a ≤ c.toNat && c.toNat ≤ 0x0d) || [0x85, 0x2028, 0x2029].contains c.toNat

inductive Alert where
  | message (title message : String)
  /-- Its button goes back to the login screen. -/
  | sent (title message : String)
  | question (title message : String) (yes : Alert)
  deriving DecidableEq

namespace ContactTVC

/-- `alert(message:title:)` with its default title. -/
def alert (message : String) : Alert := .message "Oops.." message

def thanks : Alert :=
  .sent "Alright" "Thanks for your letter. It will be considered as soon as possible."

section pattern

-- The set `[[:alnum:]]` of the regular expression engine.
variable (alnum : Char → Bool)

def domainPattern : Regex :=
  .seq (.repeated (.char alnum) 2 none .possessive)
    (.seq (.repeated (.lit '.') 1 none .greedy) (.repeated (.char alnum) 2 none .greedy))

def emailPattern : Regex :=
  .seq (.repeated (.char fun c => !isLineTerminator c) 1 none .greedy)
    (.seq (.repeated (.lit '@') 1 none .greedy) (domainPattern alnum))

def matchesEmail (email : String) : Bool := (emailPattern alnum).hasMatch email.toList

/-- `count` is the number of characters that Swift sees in a text. -/
def sendBtnPressed (count : String → ℕ) (fullNameField emailField messageField : Option String) :
    Alert :=
  match fullNameField, emailField, messageField with
  | some fullName, some email, some message =>
    if fullName = "" then alert "Name field is empty"
    else if email = "" then alert "Email field is empty"
    else if !matchesEmail alnum email then alert "Invalid email"
    else if count message < 8 then
      .question "Are you sure?" ("You should write complex explanation of your problem, " ++
        "but your message is too short. Are you sure that you want to continue?") thanks
    else thanks
  | _, _, _ => alert "Something went wrong. Please check all fields"

end pattern

variable {alnum : Char → Bool}

/-- The second run of letters and digits follows the dots right after the first one. -/
theorem exists_mem_rests_domainPattern {domain : List Char} :
    (∃ rest, rest ∈ (domainPattern alnum).rests domain) ↔
      2 ≤ (domain.takeWhile alnum).length ∧
        ∃ dots rest, domain.dropWhile alnum = dots ++ rest ∧ (∀ c ∈ dots, c = '.') ∧
          1 ≤ dots.length ∧ 2 ≤ (rest.takeWhile alnum).length := by
  simp only [domainPattern, Regex.mem_rests_seq, Regex.mem_rests_possessive,
    Regex.mem_rests_greedy_lit]
  constructor
  · intro h
    obtain ⟨rest, _, ⟨hfirst, rfl⟩, second, ⟨dots, hdots, hall, hone, -⟩, hrest⟩ := h
    exact ⟨hfirst, dots, second, hdots, hall, hone, Regex.exists_mem_rests_greedy.mp ⟨rest, hrest⟩⟩
  · intro h
    obtain ⟨hfirst, dots, second, hdots, hall, hone, hsecond⟩ := h
    obtain ⟨rest, hrest⟩ := Regex.exists_mem_rests_greedy.mpr hsecond
    exact ⟨rest, _, ⟨hfirst, rfl⟩, second, ⟨dots, hdots, hall, hone, by simp⟩, hrest⟩

/-- Of several '@' in a row only the last matters, the others are taken by '.+'. -/
theorem matchesEmail_iff {email : String} :
    matchesEmail alnum email = true ↔
      ∃ start c domain, email.toList = start ++ c :: '@' :: domain ∧
        isLineTerminator c = false ∧ ∃ rest, rest ∈ (domainPattern alnum).rests domain := by
  rw [matchesEmail, Regex.hasMatch_iff]
  simp only [emailPattern, Regex.mem_rests_seq, Regex.mem_rests_greedy, Regex.mem_rests_greedy_lit]
  constructor
  · intro h
    obtain ⟨start, _, hemail, rest, _, ⟨taken, rfl, htaken, hsome, -⟩, domain, ⟨ats, rfl, hats,
      hone, -⟩, hrest⟩ := h
    obtain rfl | ⟨ats, last, rfl⟩ := ats.eq_nil_or_concat
    · simp at hone
    obtain rfl | ⟨taken, c, rfl⟩ := taken.eq_nil_or_concat
    · simp at hsome
    obtain rfl : last = '@' := hats last (by simp)
    obtain rfl | ⟨ats, d, rfl⟩ := ats.eq_nil_or_concat
    · refine ⟨start ++ taken, c, domain, ?_, ?_, rest, hrest⟩
      · simpa using hemail
      · simpa using htaken c (by simp)
    · obtain rfl : d = '@' := hats d (by simp)
      refine ⟨start ++ (taken ++ [c]) ++ ats, '@', domain, ?_, by decide, rest, hrest⟩
      simpa using hemail
  · intro h
    obtain ⟨start, c, domain, hemail, hc, rest, hrest⟩ := h
    exact ⟨start, c :: '@' :: domain, hemail, rest, _,
      ⟨[c], rfl, by simpa using hc, by simp, by simp⟩, domain,
      ⟨['@'], rfl, by simp, by simp, by simp⟩, hrest⟩

end ContactTVC

def isMailboxChar (c : Char) : Bool := c.isAlphanum || ['.', '_', '+', '-'].contains c

structure DomainLabel (label : List Char) : Prop where
  ne_nil : label ≠ []
  chars : ∀ c ∈ label, c.isAlphanum = true ∨ c = '-'
  head : label.head? ≠ some '-'
  last : label.getLast? ≠ some '-'

/-- A well-formed address, its domain of two labels or more. -/
structure Address where
  mailbox : List Char
  first : List Char
  second : List Char
  further : List (List Char)
  mailbox_ne_nil : mailbox ≠ []
  mailbox_chars : ∀ c ∈ mailbox, isMailboxChar c = true
  labels : ∀ label ∈ first :: second :: further, DomainLabel label
  two_letters :
    2 ≤ ((first :: second :: further).getLast (List.cons_ne_nil _ _)).countP Char.isAlpha

theorem isAlphanum_iff (c : Char) : c.isAlphanum = true ↔
    (65 ≤ c.toNat ∧ c.toNat ≤ 90) ∨ (97 ≤ c.toNat ∧ c.toNat ≤ 122) ∨
      (48 ≤ c.toNat ∧ c.toNat ≤ 57) := by
  delta Char.isAlphanum Char.isAlpha Char.isUpper Char.isLower Char.isDigit
  simp only [Bool.or_eq_true, Bool.and_eq_true, decide_eq_true_eq, ge_iff_le,
    UInt32.le_iff_toNat_le, or_assoc]
  exact Iff.rfl

theorem toNat_lt_of_isAlphanum {c : Char} (h : c.isAlphanum = true) : c.toNat < 128 := by
  have := (isAlphanum_iff c).mp h
  omega

theorem DomainLabel.toNat_lt {label : List Char} (h : DomainLabel label) {c : Char}
    (hc : c ∈ label) : c.toNat < 128 := by
  rcases h.chars c hc with halnum | rfl
  · exact toNat_lt_of_isAlphanum halnum
  · decide

theorem DomainLabel.ne_at {label : List Char} (h : DomainLabel label) : '@' ∉ label := by
  intro hat
  rcases h.chars '@' hat with halnum | heq
  · simp at halnum
  · simp at heq

theorem DomainLabel.exists_cons {label : List Char} (h : DomainLabel label) :
    ∃ c rest, label = c :: rest ∧ c.isAlphanum = true := by
  obtain _ | ⟨c, rest⟩ := label
  · exact absurd rfl h.ne_nil
  refine ⟨c, rest, rfl, ?_⟩
  rcases h.chars c List.mem_cons_self with halnum | rfl
  · exact halnum
  · exact absurd rfl h.head

theorem DomainLabel.isAlphanum_of_notMem {label : List Char} (h : DomainLabel label)
    (hhyphen : '-' ∉ label) {c : Char} (hc : c ∈ label) : c.isAlphanum = true := by
  rcases h.chars c hc with halnum | rfl
  · exact halnum
  · exact absurd hc hhyphen

theorem at_notMem_mailbox {mailbox : List Char} (h : ∀ c ∈ mailbox, isMailboxChar c = true) :
    '@' ∉ mailbox := by
  intro hat
  simpa [isMailboxChar] using h '@' hat

theorem not_isLineTerminator_of_isMailboxChar {c : Char} (h : isMailboxChar c = true) :
    isLineTerminator c = false := by
  simp only [isMailboxChar, Bool.or_eq_true, List.contains_eq_mem, decide_eq_true_eq,
    List.mem_cons, List.not_mem_nil, or_false] at h
  rcases h with halnum | rfl | rfl | rfl | rfl
  · have := (isAlphanum_iff c).mp halnum
    simp only [isLineTerminator, List.contains_eq_mem, List.mem_cons, List.not_mem_nil, or_false,
      Bool.or_eq_false_iff, Bool.and_eq_false_iff, decide_eq_false_iff_not]
    omega
  all_goals decide

theorem DomainLabel.takeWhile_of_notMem {label : List Char} (h : DomainLabel label)
    (hhyphen : '-' ∉ label) : label.takeWhile Char.isAlphanum = label :=
  List.takeWhile_eq_self_iff.mpr fun _ hc => h.isAlphanum_of_notMem hhyphen hc

theorem DomainLabel.dropWhile_of_notMem {label : List Char} (h : DomainLabel label)
    (hhyphen : '-' ∉ label) : label.dropWhile Char.isAlphanum = [] :=
  List.dropWhile_eq_nil_iff.mpr fun _ hc => h.isAlphanum_of_notMem hhyphen hc

theorem DomainLabel.dropWhile_of_mem {label : List Char} (h : DomainLabel label)
    (hhyphen : '-' ∈ label) : ∃ rest, label.dropWhile Char.isAlphanum = '-' :: rest := by
  obtain ⟨start, rest, rfl, hstart⟩ := List.eq_append_cons_of_mem hhyphen
  refine ⟨rest, ?_⟩
  rw [List.dropWhile_append_of_pos, List.dropWhile_cons_of_neg (by decide)]
  intro c hc
  rcases h.chars c (List.mem_append_left _ hc) with halnum | rfl
  · exact halnum
  · exact absurd hc hstart

section agree

variable {alnum : Char → Bool} {label tail : List Char}

theorem takeWhile_append_of_agree (hagree : ∀ c ∈ label, alnum c = c.isAlphanum)
    (htail : ∀ c ∈ tail.head?, alnum c = false) :
    (label ++ tail).takeWhile alnum = label.takeWhile Char.isAlphanum := by
  induction label with
  | nil => cases tail <;> simp_all
  | cons c label ih =>
    rw [List.cons_append, List.takeWhile_cons, List.takeWhile_cons,
      hagree c List.mem_cons_self, ih fun d hd => hagree d (List.mem_cons_of_mem c hd)]

theorem dropWhile_append_of_agree (hagree : ∀ c ∈ label, alnum c = c.isAlphanum)
    (htail : ∀ c ∈ tail.head?, alnum c = false) :
    (label ++ tail).dropWhile alnum = label.dropWhile Char.isAlphanum ++ tail := by
  induction label with
  | nil => cases tail <;> simp_all
  | cons c label ih =>
    rw [List.cons_append, List.dropWhile_cons, List.dropWhile_cons,
      hagree c List.mem_cons_self, ih fun d hd => hagree d (List.mem_cons_of_mem c hd)]
    cases c.isAlphanum <;> rfl

end agree

theorem mem_of_mem_intercalate {labels : List (List Char)} {c : Char}
    (h : c ∈ ['.'].intercalate labels) : c = '.' ∨ ∃ label ∈ labels, c ∈ label := by
  induction labels with
  | nil => simp at h
  | cons label labels ih =>
    obtain _ | ⟨next, others⟩ := labels
    · exact .inr ⟨label, List.mem_cons_self, by simpa using h⟩
    · rw [List.intercalate_cons_cons, List.mem_append, List.mem_append,
        List.mem_singleton] at h
      rcases h with (hc | hc) | hc
      · exact .inr ⟨label, List.mem_cons_self, hc⟩
      · exact .inl hc
      · rcases ih hc with heq | ⟨found, hfound, hmem⟩
        · exact .inl heq
        · exact .inr ⟨found, List.mem_cons_of_mem label hfound, hmem⟩

namespace Address

def domain (address : Address) : List Char :=
  ['.'].intercalate (address.first :: address.second :: address.further)

def text (address : Address) : List Char := address.mailbox ++ '@' :: address.domain

variable (address : Address)

theorem domain_eq : address.domain = address.first ++ '.' ::
    ['.'].intercalate (address.second :: address.further) := by
  simp [domain, List.intercalate_cons_cons]

/-- A full stop follows the second label, if anything does. -/
theorem exists_after_second : ∃ rest,
    ['.'].intercalate (address.second :: address.further) = address.second ++ rest ∧
      rest.head? ∈ [none, some '.'] := by
  obtain hfurther | ⟨third, others, hfurther⟩ :
      address.further = [] ∨ ∃ third others, address.further = third :: others := by
    cases address.further <;> simp
  · exact ⟨[], by simp [hfurther], by simp⟩
  · exact ⟨'.' :: ['.'].intercalate (third :: others),
      by simp [hfurther, List.intercalate_cons_cons], by simp⟩

theorem at_notMem_domain : '@' ∉ address.domain := by
  intro hat
  rcases mem_of_mem_intercalate hat with heq | ⟨label, hlabel, hat⟩
  · simp at heq
  · exact (address.labels label hlabel).ne_at hat

/-- The only '@' of the address is the one before the domain. -/
theorem matchesEmail_text_iff {alnum : Char → Bool} :
    ContactTVC.matchesEmail alnum (String.ofList address.text) = true ↔
      ∃ rest, rest ∈ (ContactTVC.domainPattern alnum).rests address.domain := by
  rw [ContactTVC.matchesEmail_iff, String.toList_ofList]
  constructor
  · intro h
    obtain ⟨start, c, domain, htext, -, hrest⟩ := h
    have hsplit : address.mailbox ++ '@' :: address.domain = (start ++ [c]) ++ '@' :: domain := by
      simpa [text] using htext
    obtain ⟨-, -, rfl⟩ := (List.append_cons_inj_of_notMem
      (at_notMem_mailbox address.mailbox_chars) address.at_notMem_domain).mp hsplit
    exact hrest
  · intro hrest
    obtain hnil | ⟨start, c, hmailbox⟩ := address.mailbox.eq_nil_or_concat
    · exact absurd hnil address.mailbox_ne_nil
    refine ⟨start, c, address.domain, by simp [text, hmailbox], ?_, hrest⟩
    exact not_isLineTerminator_of_isMailboxChar (address.mailbox_chars c (by simp [hmailbox]))

/-- A named sender is turned away for the address exactly when the pattern misses it. -/
theorem sendBtnPressed_address_iff {alnum : Char → Bool} {count : String → ℕ}
    {fullName : String} (hname : fullName ≠ "") (message : String) :
    ContactTVC.sendBtnPressed alnum count (some fullName) (some (String.ofList address.text))
        (some message) = ContactTVC.alert "Invalid email" ↔
      ContactTVC.matchesEmail alnum (String.ofList address.text) = false := by
  have hemail : String.ofList address.text ≠ "" := by
    intro h
    have htext : address.text = [] := by simpa using congrArg String.toList h
    simp [text] at htext
  rw [ContactTVC.sendBtnPressed, if_neg hname, if_neg hemail]
  cases ContactTVC.matchesEmail alnum (String.ofList address.text) with
  | false => simp
  | true =>
    by_cases hshort : count message < 8 <;>
      simp [hshort, ContactTVC.thanks, ContactTVC.alert]

section domain

variable {alnum : Char → Bool} (halnum : ∀ c, c.toNat < 128 → alnum c = c.isAlphanum)
include halnum

theorem alnum_eq {label : List Char} (h : DomainLabel label) :
    ∀ c ∈ label, alnum c = c.isAlphanum :=
  fun c hc => halnum c (h.toNat_lt hc)

/-- The run of letters and digits ends before a full stop. -/
theorem alnum_full_stop : alnum '.' = false :=
  halnum '.' (by decide)

theorem takeWhile_domain :
    address.domain.takeWhile alnum = address.first.takeWhile Char.isAlphanum := by
  rw [domain_eq]
  apply takeWhile_append_of_agree (alnum_eq halnum (address.labels _ (by simp)))
  simp [alnum_full_stop halnum]

theorem dropWhile_domain :
    address.domain.dropWhile alnum = address.first.dropWhile Char.isAlphanum ++
      '.' :: ['.'].intercalate (address.second :: address.further) := by
  rw [domain_eq]
  apply dropWhile_append_of_agree (alnum_eq halnum (address.labels _ (by simp)))
  simp [alnum_full_stop halnum]

theorem takeWhile_after_first :
    (['.'].intercalate (address.second :: address.further)).takeWhile alnum =
      address.second.takeWhile Char.isAlphanum := by
  obtain ⟨rest, hrest, hhead⟩ := address.exists_after_second
  rw [hrest]
  apply takeWhile_append_of_agree (alnum_eq halnum (address.labels _ (by simp)))
  rcases List.mem_pair.mp hhead with h | h
  · simp [h]
  · simp [h, alnum_full_stop halnum]

/-- The pattern passes the domain exactly when the first label has two characters or more
and no hyphen, and the second one begins with two letters or digits. -/
theorem exists_rests_domain_iff :
    (∃ rest, rest ∈ (ContactTVC.domainPattern alnum).rests address.domain) ↔
      2 ≤ address.first.length ∧ '-' ∉ address.first ∧
        2 ≤ (address.second.takeWhile Char.isAlphanum).length := by
  have hfirst := address.labels address.first (by simp)
  have hsecond := address.labels address.second (by simp)
  have hnext := address.takeWhile_after_first halnum
  obtain ⟨after, hafter, -⟩ := address.exists_after_second
  rw [ContactTVC.exists_mem_rests_domainPattern, address.takeWhile_domain halnum,
    address.dropWhile_domain halnum]
  constructor
  · intro h
    obtain ⟨htwo, dots, rest, hdots, hall, hone, hrest⟩ := h
    obtain _ | ⟨dot, dots⟩ := dots
    · simp at hone
    obtain rfl : dot = '.' := hall dot List.mem_cons_self
    have hhyphen : '-' ∉ address.first := by
      intro h
      obtain ⟨more, hmore⟩ := hfirst.dropWhile_of_mem h
      rw [hmore] at hdots
      simp at hdots
    rw [hfirst.dropWhile_of_notMem hhyphen] at hdots
    rw [hfirst.takeWhile_of_notMem hhyphen] at htwo
    -- The second label does not begin with a full stop, so one dot separates the two.
    obtain _ | ⟨dot, dots⟩ := dots
    · obtain rfl := (List.cons.inj hdots).2
      exact ⟨htwo, hhyphen, hnext ▸ hrest⟩
    · obtain rfl : dot = '.' := hall dot (by simp)
      obtain ⟨c, second, hc, hcalnum⟩ := hsecond.exists_cons
      rw [hafter, hc] at hdots
      obtain rfl : c = '.' := (List.cons.inj (List.cons.inj hdots).2).1
      simp at hcalnum
  · intro h
    obtain ⟨htwo, hhyphen, hrest⟩ := h
    rw [hfirst.dropWhile_of_notMem hhyphen, hfirst.takeWhile_of_notMem hhyphen]
    exact ⟨htwo, ['.'], _, rfl, by simp, by simp, hnext ▸ hrest⟩

theorem matchesEmail_address_iff :
    ContactTVC.matchesEmail alnum (String.ofList address.text) = true ↔
      2 ≤ address.first.length ∧ '-' ∉ address.first ∧
        2 ≤ (address.second.takeWhile Char.isAlphanum).length :=
  address.matchesEmail_text_iff.trans (address.exists_rests_domain_iff halnum)

end domain

end Address

theorem DomainLabel.of_isAlphanum {label : List Char} (hne : label ≠ [])
    (halnum : ∀ c ∈ label, c.isAlphanum = true) : DomainLabel label where
  ne_nil := hne
  chars := fun c hc => .inl (halnum c hc)
  head := fun h => absurd (halnum '-' (List.mem_of_head? h)) (by decide)
  last := fun h => absurd (halnum '-' (List.mem_of_getLast? h)) (by decide)

def sampleAddress (first : List Char) (hne : first ≠ [])
    (hfirst : ∀ c ∈ first, c.isAlphanum = true) : Address where
  mailbox := ['i', 'v', 'a', 'n']
  first := first
  second := ['u', 'a']
  further := []
  mailbox_ne_nil := by simp
  mailbox_chars := by simp; decide
  labels := by
    simp only [List.mem_cons, List.not_mem_nil, or_false, forall_eq_or_imp, forall_eq]
    exact ⟨.of_isAlphanum hne hfirst, .of_isAlphanum (by simp) (by simp)⟩
  two_letters := by simp

theorem matchesEmail_knu :
    ContactTVC.matchesEmail Char.isAlphanum "ivan@knu.ua" = true ↔
      2 ≤ 3 ∧ '-' ∉ ['k', 'n', 'u'] ∧ 2 ≤ (['u', 'a'].takeWhile Char.isAlphanum).length :=
  Address.matchesEmail_address_iff (sampleAddress ['k', 'n', 'u'] (by simp) (by simp))
    fun _ _ => rfl

theorem matchesEmail_one_letter_label :
    (sampleAddress ['k'] (by simp) (by simp)).text = "ivan@k.ua".toList ∧
      ContactTVC.matchesEmail Char.isAlphanum "ivan@k.ua" = false := by
  decide

end Studkurator
