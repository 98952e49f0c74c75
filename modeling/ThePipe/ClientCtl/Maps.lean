import ThePipe.Jopp
import ThePipe.OsServices.ErrorHandling

/-!
# Fields of objects, and maps as objects

`get` and `getFieldAs` are the accessors of the JSON library, which throw when a value is not there
or is of another type.  A map travels as an object that has its keys as names.  The loops that
convert it are the same for all maps; they differ in what they do with a value.
-/

set_option autoImplicit false

namespace ThePipe.ClientCtl

open Jopp Lib OsServices.ErrorHandling

/-- What the accessors throw. -/
inductive AccessError
  | noSuchField (name : String)
  | wrongType
  deriving DecidableEq

/-- What the conversions throw. -/
inductive Exception
  | runtimeError (what : String)
  | systemError (e : SystemError)
  | jopp (e : AccessError)
  deriving DecidableEq

variable {α : Type}

def get (as : Value → Option α) (v : Value) : Except Exception α :=
  match as v with
  | none => .error (.jopp .wrongType)
  | some a => .ok a

/-- `get_field_as` -/
def getFieldAs (as : Value → Option α) (obj : Object) (name : String) : Except Exception α :=
  match obj.lookup name with
  | none => .error (.jopp (.noSuchField name))
  | some v => get as v

theorem get_eq_ok {as : Value → Option α} {v : Value} {a : α} :
    get as v = .ok a ↔ as v = some a := by
  unfold get
  cases as v <;> simp

theorem getFieldAs_eq_ok {as : Value → Option α} {toValue : α → Value}
    (has : ∀ {v a}, as v = some a ↔ v = toValue a) {obj : Object} {name : String} {a : α} :
    getFieldAs as obj name = .ok a ↔ obj.lookup name = some (toValue a) := by
  unfold getFieldAs
  cases obj.lookup name with
  | none => simp
  | some v => rw [get_eq_ok, has, Option.some_inj]

theorem getFieldAs_asString {obj : Object} {name s : String} :
    getFieldAs Value.asString obj name = .ok s ↔ obj.lookup name = some (.string s) :=
  getFieldAs_eq_ok Value.asString_eq_some

theorem getFieldAs_asNumber {obj : Object} {name : String} {x : Binary64} :
    getFieldAs Value.asNumber obj name = .ok x ↔ obj.lookup name = some (.number x) :=
  getFieldAs_eq_ok Value.asNumber_eq_some

theorem getFieldAs_asObject {obj object : Object} {name : String} :
    getFieldAs Value.asObject obj name = .ok object ↔ obj.lookup name = some (.object object) :=
  getFieldAs_eq_ok Value.asObject_eq_some

/-! ## Maps -/

/-- The loop of the conversions of maps to objects. -/
def mapToObject (toValue : α → Value) (object : SortedMap String α) : Object :=
  object.entries.foldl (fun ret item => Object.insert item.1 (toValue item.2) ret) []

/-- The loop of the conversions of objects to maps. -/
def makeMap (fromValue : Value → Except Exception α) (object : Object) :
    Except Exception (SortedMap String α) :=
  object.foldlM (fun ret item => (fromValue item.2).map fun v => ret.insert item.1 v) ∅

section Maps

variable {toValue : α → Value} {fromValue : Value → Except Exception α} {object : Object}
  {map : SortedMap String α}

theorem mapToObject_eq :
    mapToObject toValue map = map.entries.map fun item => (item.1, toValue item.2) := by
  unfold mapToObject
  simp only [Object.insert_eq_insertEntry]
  rw [foldl_insertEntry (by simp) map.increasing, List.nil_append]

/-- An object becomes the map that has its fields, converted. -/
theorem makeMap_eq_ok_iff (hobject : Increasing object) :
    makeMap fromValue object = .ok map ↔
      List.Forall₂ (fun field item => item.1 = field.1 ∧ fromValue field.2 = .ok item.2)
        object map.entries := by
  unfold makeMap
  rw [SortedMap.foldlM_insert_eq_ok (fun _ he => absurd he List.not_mem_nil) hobject]
  constructor
  · rintro ⟨tail, heq, htail⟩
    rw [heq]
    exact htail
  · intro hforall
    exact ⟨map.entries, rfl, hforall⟩

theorem makeMap_mapToObject (h : ∀ a, fromValue (toValue a) = .ok a) :
    makeMap fromValue (mapToObject toValue map) = .ok map := by
  rw [mapToObject_eq, makeMap_eq_ok_iff]
  · rw [List.forall₂_map_left_iff, List.forall₂_same]
    intro item _
    exact ⟨rfl, h item.2⟩
  · exact List.pairwise_map.2 map.increasing

theorem makeMap_eq_ok (h : ∀ v a, fromValue v = .ok a ↔ v = toValue a)
    (hobject : Increasing object) :
    makeMap fromValue object = .ok map ↔ object = mapToObject toValue map := by
  constructor
  · intro hmake
    have hforall := (makeMap_eq_ok_iff hobject).1 hmake
    rw [mapToObject_eq, ← forall₂_eq_map]
    refine hforall.imp ?_
    rintro ⟨name, v⟩ ⟨name', a⟩ ⟨hname, hv⟩
    exact Prod.ext hname.symm ((h v a).1 hv)
  · rintro rfl
    exact makeMap_mapToObject fun a => (h _ a).2 rfl

theorem makeMap_isOk : (∃ map, makeMap fromValue object = .ok map) ↔
    ∀ field ∈ object, ∃ a, fromValue field.2 = .ok a :=
  foldlM_map_isOk

end Maps

end ThePipe.ClientCtl
