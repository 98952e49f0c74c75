import Mathlib.Data.String.Basic
import ThePipe.Lib.Binary64
import ThePipe.Lib.Incremental
import ThePipe.Lib.SortedMap

/-!
# JSON values, and the library that reads and writes them

The JSON library is not part of the repository.  Its values are modelled here: an object is a
finite map, kept as a list of fields with increasing names.  Its parser and its serializer are
parameters of everything built on them: a `Lib.Parser` over bytes, which fills a container, and a
`Serializer`.
-/

set_option autoImplicit false

namespace ThePipe.Jopp

open Lib

inductive Value where
  | null
  | boolean (b : Bool)
  | number (x : Binary64)
  | string (s : String)
  | object (fields : List (String × Value))
  | array (items : List Value)

abbrev Object := List (String × Value)

inductive Container where
  | object (obj : Object)
  | array (items : List Value)

namespace Value

def asNumber : Value → Option Binary64
  | .number x => some x
  | _ => none

def asString : Value → Option String
  | .string s => some s
  | _ => none

def asObject : Value → Option Object
  | .object obj => some obj
  | _ => none

def asArray : Value → Option (List Value)
  | .array items => some items
  | _ => none

theorem asNumber_eq_some {v : Value} {x : Binary64} : v.asNumber = some x ↔ v = .number x := by
  cases v <;> simp [asNumber]

theorem asString_eq_some {v : Value} {s : String} : v.asString = some s ↔ v = .string s := by
  cases v <;> simp [asString]

theorem asObject_eq_some {v : Value} {obj : Object} : v.asObject = some obj ↔ v = .object obj := by
  cases v <;> simp [asObject]

theorem asArray_eq_some {v : Value} {items : List Value} :
    v.asArray = some items ↔ v = .array items := by
  cases v <;> simp [asArray]

/-- The objects in the value are finite maps: the names of their fields increase. -/
inductive Wf : Value → Prop
  | null : Wf .null
  | boolean (b : Bool) : Wf (.boolean b)
  | number (x : Binary64) : Wf (.number x)
  | string (s : String) : Wf (.string s)
  | object {fields : List (String × Value)} (hfields : Increasing fields)
      (hvalues : ∀ field ∈ fields, Wf field.2) : Wf (.object fields)
  | array {items : List Value} (hitems : ∀ v ∈ items, Wf v) : Wf (.array items)

end Value

namespace Object

/-- The fields with a new one in its place, unless its name is there already. -/
def insert (name : String) (value : Value) : Object → Object
  | [] => [(name, value)]
  | field :: fields =>
    if name < field.1 then (name, value) :: field :: fields
    else if name = field.1 then field :: fields
    else field :: insert name value fields

/-- The object is a finite map, and so are the objects in it. -/
def Wf (obj : Object) : Prop := (Value.object obj).Wf

theorem Wf.increasing {obj : Object} (h : obj.Wf) : Increasing obj := by
  cases h with
  | object hfields hvalues => exact hfields

theorem Wf.of_lookup {obj : Object} {name : String} {v : Value} (h : obj.Wf)
    (hv : obj.lookup name = some v) : v.Wf := by
  cases h with
  | object hfields hvalues => exact hvalues (name, v) (hfields.lookup_eq_some_iff.1 hv)

theorem insert_eq_insertEntry (name : String) (value : Value) (obj : Object) :
    insert name value obj = insertEntry name value obj := by
  induction obj with
  | nil => rfl
  | cons field fields ih =>
    rw [insert, insertEntry, ih]

theorem insert_insert {name name' : String} {value value' : Value} (h : name < name') :
    insert name' value' (insert name value []) = [(name, value), (name', value')] := by
  rw [insert_eq_insertEntry]
  refine insertEntry_of_forall_lt ?_
  intro field hfield
  obtain rfl := List.mem_singleton.1 hfield
  exact h

/-- The fields with these names. -/
def restrict (names : List String) (obj : Object) : Object :=
  obj.filter fun field => field.1 ∈ names

/-- What is left of an object when all but some fields that it has are removed. -/
theorem restrict_eq {obj known : Object} (hobj : Increasing obj) (hknown : Increasing known)
    (h : ∀ field ∈ known, obj.lookup field.1 = some field.2) :
    obj.restrict (known.map Prod.fst) = known := by
  refine (hobj.filter _).ext hknown ?_
  intro field
  rw [List.mem_filter, decide_eq_true_eq]
  constructor
  · rintro ⟨hmem, hname⟩
    obtain ⟨field', hfield', hname⟩ := List.mem_map.1 hname
    have hlookup := h field' hfield'
    rw [hname, hobj.lookup_eq_some_iff.2 hmem, Option.some_inj] at hlookup
    rwa [Prod.ext hname.symm hlookup]
  · intro hmem
    exact ⟨hobj.lookup_eq_some_iff.1 (h field hmem), List.mem_map_of_mem hmem⟩

theorem restrict_singleton {obj : Object} {name : String} {value : Value} (hobj : Increasing obj)
    (h : obj.lookup name = some value) : obj.restrict [name] = [(name, value)] := by
  have hknown : Increasing [(name, value)] := List.pairwise_singleton _ _
  refine restrict_eq hobj hknown ?_
  intro field hfield
  obtain rfl := List.mem_singleton.1 hfield
  exact h

theorem restrict_pair {obj : Object} {name name' : String} {value value' : Value}
    (hobj : Increasing obj) (hlt : name < name') (h : obj.lookup name = some value)
    (h' : obj.lookup name' = some value') :
    obj.restrict [name, name'] = [(name, value), (name', value')] := by
  have hknown : Increasing [(name, value), (name', value')] := List.pairwise_pair.2 hlt
  refine restrict_eq hobj hknown ?_
  intro field hfield
  rcases List.mem_pair.1 hfield with rfl | rfl
  · exact h
  · exact h'

/-- The value of a field, if it is there and has the type that `as` asks for. -/
def tryGetFieldAs {α : Type} (as : Value → Option α) (obj : Object) (name : String) : Option α :=
  (obj.lookup name).bind as

theorem lookup_insert_self {obj : Object} {name : String} (value : Value)
    (h : obj.lookup name = none) : (insert name value obj).lookup name = some value := by
  induction obj with
  | nil => simp [insert]
  | cons field fields ih =>
    obtain ⟨other, v⟩ := field
    rw [List.lookup_cons] at h
    have hne : (name == other) = false := by
      cases hb : name == other
      · rfl
      · rw [hb] at h; cases h
    rw [hne] at h
    rw [insert]
    split
    · simp
    · rw [if_neg (by simpa using hne), List.lookup_cons, hne]
      exact ih h

theorem lookup_insert_of_ne {obj : Object} {name other : String} (value : Value)
    (h : other ≠ name) : (insert name value obj).lookup other = obj.lookup other := by
  have hb : (other == name) = false := by simpa using h
  induction obj with
  | nil => simp [insert, List.lookup_cons, hb]
  | cons field fields ih =>
    rw [insert]
    split
    · rw [List.lookup_cons, hb]
    · split
      · rfl
      · rw [List.lookup_cons, ih, ← List.lookup_cons]

end Object

/-- The error codes of the parser other than `completed` and `more_data_needed`. -/
inductive SyntaxError where
  | noTopLevelNode
  | other (code : ℕ)
  deriving DecidableEq

abbrev ParserErrorCode := Verdict SyntaxError

/-- A serializer: `make` starts on an object, `serialize` fills a buffer of the given size. -/
structure Serializer (ζ : Type) where
  make : Object → ζ
  serialize : ζ → ℕ → PieceResult ζ UInt8

/-- Whatever the size of the buffer, successive calls of `serialize` emit `text obj`. -/
def Serializer.Prints {ζ : Type} (S : Serializer ζ) (text : Object → List UInt8) : Prop :=
  ∀ obj size, 0 < size → ∃ n, Emits (S.serialize · size) n (S.make obj) (text obj)

/-! ## Flat objects

The part of JSON that log items are written in: objects of strings without escapes and natural
numbers, and the empty array.  The library's parser and serializer are far more than this; on such
text they do the same. -/

/-- Where a reader of flat objects stands. -/
inductive Flat where
  | start
  | list
  | field (fields : Object) (first : Bool)
  | name (fields : Object) (chars : List Char)
  | colon (fields : Object) (key : String)
  | value (fields : Object) (key : String)
  | string (fields : Object) (key : String) (chars : List Char)
  | number (fields : Object) (key : String) (n : ℕ)
  | next (fields : Object)

namespace Flat

def isSpace (c : Char) : Bool := c == ' ' || c == '\n' || c == '\t' || c == '\r'

def bad : Move Flat Container SyntaxError := .reject (.other 0)

def step (s : Flat) (b : UInt8) : Move Flat Container SyntaxError :=
  let c := Char.ofNat b.toNat
  match s with
  | .start =>
    if c = '{' then .next (.field [] true)
    else if c = '[' then .next .list
    else if isSpace c then .next s
    else .reject .noTopLevelNode
  | .list => if c = ']' then .accept (.array []) else if isSpace c then .next s else bad
  | .field fields first =>
    if c = '"' then .next (.name fields [])
    else if c = '}' ∧ first then .accept (.object fields)
    else if isSpace c then .next s
    else bad
  | .name fields chars =>
    if c = '"' then .next (.colon fields (String.ofList chars.reverse))
    else if c = '\\' then bad
    else .next (.name fields (c :: chars))
  | .colon fields key =>
    if c = ':' then .next (.value fields key) else if isSpace c then .next s else bad
  | .value fields key =>
    if c = '"' then .next (.string fields key [])
    else if c.isDigit then .next (.number fields key (c.toNat - '0'.toNat))
    else if isSpace c then .next s
    else bad
  | .string fields key chars =>
    if c = '"' then .next (.next (fields.insert key (.string (String.ofList chars.reverse))))
    else if c = '\\' then bad
    else .next (.string fields key (c :: chars))
  | .number fields key n =>
    if c.isDigit then .next (.number fields key (10 * n + (c.toNat - '0'.toNat)))
    else if c = ',' then .next (.field (fields.insert key (.number (.finite n))) false)
    else if c = '}' then .accept (.object (fields.insert key (.number (.finite n))))
    else if isSpace c then .next (.next (fields.insert key (.number (.finite n))))
    else bad
  | .next fields =>
    if c = ',' then .next (.field fields false)
    else if c = '}' then .accept (.object fields)
    else if isSpace c then .next s
    else bad

/-- The reader of flat objects; a value is open from its bracket on. -/
def automaton : Automaton Flat UInt8 Container SyntaxError where
  start := .start
  step := step
  depth s := match s with | .start => 0 | _ => 1
  depth_start := rfl

instance : Inhabited Container := ⟨.object []⟩

def bytes (text : String) : List UInt8 := text.toList.map fun c => UInt8.ofNat c.toNat

/-- The text of a value: a string or a natural number. -/
def valueText : Value → List UInt8
  | .number (.finite q) => bytes (Nat.repr q.num.toNat)
  | .string s => bytes "\"" ++ bytes s ++ bytes "\""
  | _ => bytes "null"

def text (obj : Object) : List UInt8 :=
  bytes "\x7b" ++ (List.intersperse (bytes ",") (obj.map fun field =>
    bytes "\"" ++ bytes field.1 ++ bytes "\":" ++ valueText field.2)).flatten ++ bytes "\x7d"

/-- The serializer that prints this text. -/
def serializer : Serializer (List UInt8) := ⟨text, fun z size => chunk size z⟩

theorem serializer_prints : serializer.Prints text := fun obj _ h => chunk_emits h (text obj)

end Flat

end ThePipe.Jopp
