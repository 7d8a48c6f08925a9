import Interop.Json.Basic

/-! Records read from JSON. A record is an object whose known names occur at most once, or
an array of its fields in order; unknown names are skipped with their values. Choices
between names are written as a string, or as an object of one member. -/
namespace Interop.Json

mutual

def depth : Json → Nat
  | .array items => itemDepth items + 1
  | .object members => memberDepth members + 1
  | _ => 0

def itemDepth : List Json → Nat
  | [] => 0
  | item :: items => max item.depth (itemDepth items)

def memberDepth : List (String × Json) → Nat
  | [] => 0
  | (_, value) :: members => max value.depth (memberDepth members)

end

abbrev Record := List (String × Json)

def record? (names : List String) : Json → Option Record
  | .object members =>
    let known := members.filter (names.contains ·.1)
    if (known.map (·.1)).Nodup then some known else none
  | .array items => if items.length ≤ names.length then some (names.zip items) else none
  | _ => none

/-- What formats differ in where they write records and choices: which value may stand beside
the name of a choice and says nothing, and whether an array goes on after the last field. -/
structure Convention where
  isNothing : Json → Bool
  mayRunOn : Bool

def leadingItems (count : Nat) : Json → Json
  | .array items => .array (items.take count)
  | json => json

def Convention.record? (convention : Convention) (names : List String) (json : Json) :
    Option Record :=
  Json.record? names (if convention.mayRunOn then json.leadingItems names.length else json)

namespace Record

def required (record : Record) (name : String) (read : Json → Option α) : Option α :=
  (record.lookup name).bind read

/-- A field that may be missing, but is read if it is there. -/
def withDefault (record : Record) (name : String) (default : α) (read : Json → Option α) :
    Option α :=
  match record.lookup name with
  | none => some default
  | some value => read value

end Record

def nullable (read : Json → Option α) : Json → Option (Option α)
  | .null => some none
  | value => (read value).map some

def listOf (read : Json → Option α) (json : Json) : Option (List α) :=
  json.array?.bind (·.mapM read)

def natural? (limit : Nat) : Json → Option Nat
  | .integer value => if 0 ≤ value ∧ value < limit then some value.toNat else none
  | _ => none

def isNull : Json → Bool
  | .null => true
  | _ => false

/-- What says nothing in a format without `null`. -/
def isEmptyContainer : Json → Bool
  | .array [] | .object [] => true
  | _ => false

/-- Values taken in before their meaning is known also let an empty object be nothing. -/
def isNullOrEmpty : Json → Bool
  | .null | .object [] => true
  | _ => false

/-- A name out of several that carry no value of their own. -/
def variant? (isNothing : Json → Bool) : Json → Option String
  | .string name => some name
  | .object [(name, value)] => if isNothing value then some name else none
  | _ => none

def newtype? : Json → Option (String × Json)
  | .object [(name, value)] => some (name, value)
  | _ => none

/-- One of several forms, given by its name or, where places count, by its place. -/
def form? (forms : List String) (placesCount : Bool) : Json → Option String
  | .string name => if forms.contains name then some name else none
  | .integer place => if placesCount ∧ 0 ≤ place then forms[place.toNat]? else none
  | _ => none

/-- A record that gives its own form in one of its fields; the other fields stay as they
are. In an array the form comes first. -/
def tagged? (tag : String) : Json → Option (Json × Json)
  | .object members =>
    match members.filter (·.1 = tag) with
    | [(_, form)] => some (form, .object (members.filter (·.1 ≠ tag)))
    | _ => none
  | .array (form :: fields) => some (form, .array fields)
  | _ => none

/-- In JSON a choice carries `null` if anything, and an array of fields ends with the last. -/
def Convention.standard : Convention := ⟨isNull, false⟩

end Interop.Json
