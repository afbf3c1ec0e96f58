import Studkurator.System.AccountIsolation

/-!
# Accounts that nobody logs into

Requests to the server go to the account that `id` names, and `id` changes only when an
attempt to log in succeeds. So the roster of every other account is neither written nor read:
with another roster there, each run takes the same steps and shows the same.
-/

namespace Studkurator

open Dictionary Transition

set_option autoImplicit false

namespace AccountDevice

variable {lower : Char → List Char} {account : Account} {roster : Node} {s : AccountDevice}

/-- The same device, with another roster of `account` on the server. -/
def withRoster (account : Account) (roster : Node) (s : AccountDevice) : AccountDevice :=
  { s with remote := Function.update s.remote account roster }

/-- The completion of a login of `account`. -/
def LogsIn (account : Account) (s : AccountDevice) : AccountAction → Prop
  | .login i => s.logins[i]? = some account
  | _ => False

/-- Nothing that may still reach the server was started under `account`. -/
structure Away (account : Account) (s : AccountDevice) : Prop where
  id : s.id ≠ some account
  groups : ∀ entry ∈ s.groups, entry.1 ≠ account

theorem withRoster_issue {σ : Type} {current : Account} (hcurrent : current ≠ account)
    (source : Option Account) (outcome : Outcome σ) :
    (s.issue current source outcome).withRoster account roster =
      (s.withRoster account roster).issue current source outcome := by
  have hremote : (s.withRoster account roster).remote current = s.remote current :=
    Function.update_of_ne hcurrent _ _
  simp only [issue, hremote]
  simp only [withRoster, Function.update_comm hcurrent]

theorem remote_issue {σ : Type} {current : Account} (hcurrent : current ≠ account)
    (source : Option Account) (outcome : Outcome σ) :
    (s.issue current source outcome).remote account = s.remote account :=
  Function.update_of_ne hcurrent.symm _ _

theorem away_step [Unicode] (s : AccountDevice) (a : AccountAction) (t : AccountDevice)
    (hs : s.Away account) (hlogin : ¬ LogsIn account s a) (h : Step lower s a t) :
    t.Away account := by
  have hstarted : ∀ {i : ℕ} {current : Account} {screen : Screen GroupVC},
      s.groups[i]? = some (current, screen) → current ≠ account :=
    fun hscreen => hs.groups _ (List.mem_of_getElem? hscreen)
  cases h with
  | attempt | refuse | loginLoad | select | openNew | openEdit => exact { hs with }
  | login hattempt =>
    refine { hs with id := ?_ }
    rintro ⟨⟩
    exact hlogin hattempt
  | launch => exact { hs with groups := by simp }
  | groupLoad hid =>
    refine { hs with groups := forall_mem_concat hs.groups ?_ }
    rintro rfl
    exact hs.id hid
  | answer hscreen | giveUp hscreen | search hscreen | complete hscreen | delete _ hscreen =>
    exact { hs with groups := forall_mem_set hs.groups (hstarted hscreen) }
  | addStudent | edit => exact { hs with }

theorem remote_step [Unicode] (s : AccountDevice) (a : AccountAction) (t : AccountDevice)
    (hs : s.Away account) (h : Step lower s a t) : t.remote account = s.remote account := by
  have hnamed : ∀ current, s.id = some current → current ≠ account := by
    rintro current hid rfl
    exact hs.id hid
  cases h with
  | delete hid => exact remote_issue (hnamed _ hid) _ _
  | addStudent hid => exact remote_issue (hnamed _ hid) _ _
  | edit hid => exact remote_issue (hnamed _ hid) _ _
  | _ => rfl

/-- No step depends on the roster of an account that was not logged into. -/
theorem step_withRoster [Unicode] (s : AccountDevice) (a : AccountAction) (t : AccountDevice)
    (hs : s.Away account) (h : Step lower s a t) :
    Step lower (s.withRoster account roster) a (t.withRoster account roster) := by
  have hnamed : ∀ current, s.id = some current → current ≠ account := by
    rintro current hid rfl
    exact hs.id hid
  cases h with
  | attempt => exact .attempt
  | login hattempt => exact .login hattempt
  | refuse hattempt => exact .refuse hattempt
  | loginLoad => exact .loginLoad
  | launch => exact .launch
  | groupLoad hid => exact .groupLoad hid
  | @answer i current screen hscreen hfetch =>
    have hcurrent : current ≠ account := hs.groups _ (List.mem_of_getElem? hscreen)
    have hremote : (s.withRoster account roster).remote current = s.remote current :=
      Function.update_of_ne hcurrent _ _
    rw [← hremote]
    exact .answer hscreen hfetch
  | complete hscreen hfetch hfound horder hcompletion =>
    exact .complete hscreen hfetch hfound horder hcompletion
  | giveUp hscreen hfetch => exact .giveUp hscreen hfetch
  | search hscreen hsearch => exact .search hscreen hsearch
  | select hscreen hselect => exact .select hscreen hselect
  | delete hid hscreen hdelete =>
    rw [withRoster_issue (hnamed _ hid)]
    exact .delete hid hscreen hdelete
  | openNew hreading hload => exact .openNew hreading hload
  | addStudent hid hvc hsave =>
    rw [withRoster_issue (hnamed _ hid)]
    exact .addStudent hid hvc hsave
  | openEdit hstudent hreading hload => exact .openEdit hstudent hreading hload
  | edit hid hvc hsave =>
    rw [withRoster_issue (hnamed _ hid)]
    exact .edit hid hvc hsave

variable {s₀ : AccountDevice} {path : List (Taken AccountDevice AccountAction)}

/-- A run in which no login of an account succeeds leaves its roster alone, and goes the same
way whatever that roster is. -/
theorem frame_of_path [Unicode] (lower : Char → List Char) (roster : Node) (haway : s₀.Away account)
    (hpath : Path (Step lower) s₀ path s)
    (hlogins : ∀ k ∈ path, ¬ LogsIn account k.pre k.act) :
    s.remote account = s₀.remote account ∧
      Path (Step lower) (s₀.withRoster account roster)
        (path.map (Taken.map (withRoster account roster))) (s.withRoster account roster) := by
  constructor
  · have hstep : ∀ s a t, s.Away account ∧ s.remote account = s₀.remote account →
        ¬ LogsIn account s a → Step lower s a t →
          t.Away account ∧ t.remote account = s₀.remote account :=
      fun s a t hs hlogin h => ⟨away_step s a t hs.1 hlogin h,
        (remote_step s a t hs.1 h).trans hs.2⟩
    exact (hpath.invariant_of_guard hstep hlogins ⟨haway, rfl⟩).2
  · exact hpath.map_of_guard away_step (fun s a t hs _ h => step_withRoster s a t hs h)
      hlogins haway

/-- The login of the second account fails, then Ivan is deleted from the first. -/
theorem frame_of_path_deleted : ∃ path s,
    Path (Step latinLower) fetchedIvan path s ∧
      path.map Taken.act = [.refuse 0, .delete 0 0] ∧
      s.remote "second" = fetchedIvan.remote "second" ∧
      Path (Step latinLower) (fetchedIvan.withRoster "second" ivanNode)
        (path.map (Taken.map (withRoster "second" ivanNode)))
        (s.withRoster "second" ivanNode) := by
  have hrefuse : Step latinLower fetchedIvan (.refuse 0) { fetchedIvan with logins := [] } :=
    .refuse rfl
  have hpressed : GroupVC.delete ⟨[ivan], [ivan]⟩ 0 = some _ :=
    GroupVC.delete_eq_some_iff.mpr ⟨ivan, ivan, rfl, rfl, rfl⟩
  have hdelete : Step latinLower { fetchedIvan with logins := [] } (.delete 0 0) _ :=
    .delete rfl rfl hpressed
  have hpath := (Path.single hrefuse).snoc hdelete
  have haway : fetchedIvan.Away "second" := by
    constructor <;> simp [fetchedIvan, listed, loggedIn, loggedOut]
  refine ⟨_, _, hpath, rfl, frame_of_path latinLower ivanNode haway hpath ?_⟩
  simp only [List.forall_mem_append, List.forall_mem_singleton]
  exact ⟨not_false, not_false⟩

end AccountDevice

end Studkurator
