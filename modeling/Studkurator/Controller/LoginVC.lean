import Studkurator.Model.Store

/-!
# The login screen
-/

namespace Studkurator

set_option autoImplicit false

/-- `viewDidLoad()` clears `groupDataBase`; the roster is kept under `dataBase`. -/
def LoginVC.viewDidLoad (defaults : UserDefaults) : UserDefaults :=
  (defaults.erase "eventDataBase").erase "groupDataBase"

@[simp] theorem LoginVC.lookup_dataBase_viewDidLoad (defaults : UserDefaults) :
    (LoginVC.viewDidLoad defaults).lookup "dataBase" = defaults.lookup "dataBase" := by
  rw [LoginVC.viewDidLoad, Finmap.lookup_erase_ne (by decide),
    Finmap.lookup_erase_ne (by decide)]

@[simp] theorem LoginVC.lookup_eventDataBase_viewDidLoad (defaults : UserDefaults) :
    (LoginVC.viewDidLoad defaults).lookup "eventDataBase" = none := by
  rw [LoginVC.viewDidLoad, Finmap.lookup_erase_ne (by decide), Finmap.lookup_erase]

end Studkurator
