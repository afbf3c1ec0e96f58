import Studkurator.Controller.DetailEventTVC
import Studkurator.Controller.EventsVC
import Studkurator.Controller.LoginVC
import Studkurator.Controller.NewEventTVC
import Studkurator.Library.Transition

/-!
# The events on a device

The controllers that are alive on a device and its `UserDefaults`. Every handler sends
at most one write to `eventDataBase`, which takes effect at once. A step that encodes a
list says what the clock reads for the events without a date.
-/

namespace Studkurator

open Dictionary Transition

set_option autoImplicit false

structure EventDevice where
  defaults : UserDefaults
  screens : List (Screen EventsVC)
  forms : List NewEventTVC
  details : List DetailEventTVC

inductive EventAction where
  | loginLoad
  | launch
  | eventsLoad
  | answer (screen : ℕ)
  | complete (screen : ℕ) (clock : Event → Date)
  | giveUp (screen : ℕ)
  | search (screen : ℕ) (text : String)
  | delete (screen row : ℕ) (clock : Event → Date)
  | openNew
  | save (form : ℕ) (entered : EventForm) (clock : Event → Date)
  | openDetail (screen row : ℕ)
  | mark (detail : ℕ) (clock : Event → Date)

namespace EventDevice

/-- The writes of a handler reach the server, its dictionary the local store. -/
def issue {σ : Type} (remote : Node) (device : EventDevice) (outcome : Outcome σ) :
    Node × EventDevice :=
  (outcome.writes.foldl RemoteWrite.apply remote,
    { device with defaults := device.defaults.store "eventDataBase" outcome.cached })

inductive Step [Unicode] (formatter : DateFormatter) (lower : Char → List Char) :
    Node × EventDevice → EventAction → Node × EventDevice → Prop where
  | loginLoad {remote : Node} {device : EventDevice} :
      Step formatter lower (remote, device) .loginLoad
        (remote, { device with defaults := LoginVC.viewDidLoad device.defaults })
  | launch {remote : Node} {device : EventDevice} :
      Step formatter lower (remote, device) .launch
        (remote, ⟨LoginVC.viewDidLoad device.defaults, [], [], []⟩)
  | eventsLoad {remote : Node} {device : EventDevice} :
      Step formatter lower (remote, device) .eventsLoad
        (remote, { device with screens := device.screens ++ [⟨⟨[], []⟩, .started⟩] })
  | answer {remote : Node} {device : EventDevice} {i : ℕ} {screen : Screen EventsVC} :
      device.screens[i]? = some screen → screen.fetch = .started →
      Step formatter lower (remote, device) (.answer i)
        (remote, { device with
          screens := device.screens.set i { screen with fetch := .answered remote } })
  | complete {remote : Node} {device : EventDevice} {i : ℕ} {screen : Screen EventsVC}
      {snapshot : Node} {response : List (String × Record)} {clock : Event → Date}
      {outcome : Outcome EventsVC} :
      device.screens[i]? = some screen → screen.fetch = .answered snapshot → snapshot ≠ ∅ →
      Iterates response snapshot →
      EventsVC.fetchCompletion formatter clock response = some outcome →
      Step formatter lower (remote, device) (.complete i clock)
        (issue remote
          { device with screens := device.screens.set i ⟨outcome.controller, .done⟩ } outcome)
  | giveUp {remote : Node} {device : EventDevice} {i : ℕ} {screen : Screen EventsVC} :
      device.screens[i]? = some screen → screen.fetch = .answered ∅ →
      Step formatter lower (remote, device) (.giveUp i)
        (remote, { device with screens := device.screens.set i { screen with fetch := .done } })
  | search {remote : Node} {device : EventDevice} {i : ℕ} {screen : Screen EventsVC}
      {text : String} :
      device.screens[i]? = some screen →
      Step formatter lower (remote, device) (.search i text)
        (remote, { device with
          screens := device.screens.set i
            { screen with vc := EventsVC.updateSearchResults lower screen.vc text } })
  | delete {remote : Node} {device : EventDevice} {i row : ℕ} {screen : Screen EventsVC}
      {clock : Event → Date} {outcome : Outcome EventsVC} :
      device.screens[i]? = some screen → screen.vc.delete clock row = some outcome →
      Step formatter lower (remote, device) (.delete i row clock)
        (issue remote
          { device with screens := device.screens.set i { screen with vc := outcome.controller } }
          outcome)
  | openNew {remote : Node} {device : EventDevice} {value : Option (List (String × Record))}
      {vc : NewEventTVC} :
      Reading (device.defaults.lookup "eventDataBase") value →
      NewEventTVC.viewDidLoad formatter value = some vc →
      Step formatter lower (remote, device) .openNew
        (remote, { device with forms := device.forms ++ [vc] })
  | save {remote : Node} {device : EventDevice} {i : ℕ} {vc : NewEventTVC} {entered : EventForm}
      {clock : Event → Date} {outcome : Outcome NewEventTVC} :
      device.forms[i]? = some vc → vc.saveBtnPressed formatter clock entered = some outcome →
      Step formatter lower (remote, device) (.save i entered clock)
        (issue remote { device with forms := device.forms.set i outcome.controller } outcome)
  | openDetail {remote : Node} {device : EventDevice} {i row : ℕ} {screen : Screen EventsVC}
      {event : Event} {value : Option (List (String × Record))} {vc : DetailEventTVC} :
      device.screens[i]? = some screen → screen.vc.didSelectRow row = some event →
      Reading (device.defaults.lookup "eventDataBase") value →
      DetailEventTVC.viewDidLoad formatter event value = some vc →
      Step formatter lower (remote, device) (.openDetail i row)
        (remote, { device with details := device.details ++ [vc] })
  | mark {remote : Node} {device : EventDevice} {i : ℕ} {vc : DetailEventTVC}
      {clock : Event → Date} :
      device.details[i]? = some vc →
      Step formatter lower (remote, device) (.mark i clock)
        (issue remote
          { device with details := device.details.set i (vc.markBtnPressed clock).controller }
          (vc.markBtnPressed clock))

def Idle (device : EventDevice) : Prop :=
  device.screens = [] ∧ device.forms = [] ∧ device.details = []

end EventDevice

end Studkurator
