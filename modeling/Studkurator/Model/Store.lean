import Studkurator.Library.Dictionary

/-!
# Stores shared by the controllers

A database node is a dictionary of string records; `UserDefaults` keeps a copy of
such a dictionary under a name. Firebase stores no node without children, so the
empty dictionary stands for an absent node.
-/

namespace Studkurator

open Dictionary

set_option autoImplicit false

abbrev Record := Dict String String

/-- `[String: [String: String]]`: the content of `groupDataBase` or `eventDataBase`. -/
abbrev Node := Dict String Record

abbrev lookups (node : Node) (k : String) : Option Record := node.lookup k

/-- The dictionaries kept in `UserDefaults.standard`, by their key. -/
abbrev UserDefaults := Dict String Node

inductive RemoteWrite where
  | setValue (value : Node)
  | removeValue (key : String)
  | setLeaf (key field value : String)
  deriving DecidableEq

/-- Setting a leaf creates the records above it that do not exist. -/
def RemoteWrite.apply (node : Node) : RemoteWrite → Node
  | .setValue value => value
  | .removeValue key => node.erase key
  | .setLeaf key field value =>
    node.insert key (((node.lookup key).getD ∅).insert field value)

inductive StorageRequest where
  | putData (path : String) (data : List UInt8)
  | delete (path : String)
  deriving DecidableEq

namespace StorageRequest

def path : StorageRequest → String
  | putData path _ => path
  | delete path => path

/-- What the request leaves under its path. -/
def object : StorageRequest → Option (List UInt8)
  | putData _ data => some data
  | delete _ => none

end StorageRequest

/-- What a handler leaves behind: its controller, the dictionary it stores in
`UserDefaults`, and the requests it sends, in order. -/
structure Outcome (σ : Type) where
  controller : σ
  cached : Option Node
  writes : List RemoteWrite
  storage : List StorageRequest := []

/-- `UserDefaults.standard.set(_, forKey: key)`, when the handler calls it. -/
def UserDefaults.store (defaults : UserDefaults) (key : String) : Option Node → UserDefaults
  | none => defaults
  | some dict => defaults.insert key dict

@[simp] theorem UserDefaults.store_none (defaults : UserDefaults) (key : String) :
    defaults.store key none = defaults := rfl

@[simp] theorem UserDefaults.lookup_store_some (defaults : UserDefaults) (key : String)
    (dict : Node) : (defaults.store key (some dict)).lookup key = some dict :=
  Finmap.lookup_insert _

/-- A call of `observeSingleEvent`: the server answers with what the node holds at some
moment after the call, and the completion runs later still, or never. -/
inductive Fetch where
  | started
  | answered (snapshot : Node)
  | done
  deriving DecidableEq

structure Screen (σ : Type) where
  vc : σ
  fetch : Fetch

/-- The value `UserDefaults` holds and the order in which it is iterated, if it holds one. -/
abbrev Reading (value : Option Node) (dict : Option (List (String × Record))) : Prop :=
  Option.Rel (fun dict order => Iterates order dict) value dict

theorem exists_reading (value : Option Node) : ∃ dict, Reading value dict := by
  cases value with
  | none => exact ⟨none, .none⟩
  | some dict =>
    obtain ⟨order, horder⟩ := exists_iterates dict
    exact ⟨some order, .some horder⟩

theorem eq_none_of_reading {value : Option Node} (h : Reading value none) : value = none := by
  cases h
  rfl

theorem exists_of_reading {value : Option Node} {order : List (String × Record)}
    (h : Reading value (some order)) : ∃ dict, value = some dict ∧ Iterates order dict := by
  cases h with
  | some horder => exact ⟨_, rfl, horder⟩

/-- One controller on one device, with the node it writes to and its local copy. -/
@[ext] structure Session (σ : Type) where
  controller : σ
  remote : Node
  cached : Node

namespace Session
variable {σ : Type}

def perform (session : Session σ) (outcome : Outcome σ) : Session σ where
  controller := outcome.controller
  remote := outcome.writes.foldl RemoteWrite.apply session.remote
  cached := outcome.cached.getD session.cached

/-- A handler that returns early leaves everything as it was. -/
def press (session : Session σ) : Option (Outcome σ) → Session σ
  | none => session
  | some outcome => session.perform outcome

end Session

end Studkurator
