import Interop.Json.Basic
import Interop.Toml.Moment

/-! TOML values, and how entries and sections build them up. A table remembers how it came
about, since that decides what may be added to it later. -/
namespace Interop

/-- How a table came about: written as a value, named by the header of a section, or passed
through by the header of another section or by a dotted key. -/
inductive TableOrigin where
  | inline
  | header
  | implied
  | dotted
  deriving DecidableEq, Repr

/-- Of a float, only that it is well formed is of interest. Headers in double brackets give one
table each, in order. -/
inductive Toml where
  | string (value : String)
  | integer (value : Int)
  | bool (value : Bool)
  | float
  | moment (value : Toml.Moment)
  | array (items : List Toml)
  | table (origin : TableOrigin) (members : List (String × Toml))
  | tables (elements : List (List (String × Toml)))
  deriving Inhabited, Repr

namespace Toml

abbrev Members := List (String × Toml)

namespace Members

def set (members : Members) (name : String) (value : Toml) : Members :=
  match members with
  | [] => [(name, value)]
  | entry :: rest =>
    if entry.1 = name then (name, value) :: rest else entry :: set rest name value

/-- Adds a value under a dotted key. A table named by a header takes no dotted keys from
elsewhere, and no key is given twice. -/
def put (value : Toml) : List String → Members → Option Members
  | [], _ => none
  | [name], members =>
    match members.lookup name with
    | none => some (members.set name value)
    | some _ => none
  | step :: name :: path, members =>
    match members.lookup step with
    | none => (put value (name :: path) []).map fun inner => members.set step (.table .dotted inner)
    | some (.table .dotted inner) =>
      (put value (name :: path) inner).map fun inner => members.set step (.table .dotted inner)
    | some (.table .implied inner) =>
      if path.isEmpty then none
      else (put value (name :: path) inner).map fun inner => members.set step (.table .implied inner)
    | some (.tables elements) =>
      match path, elements.getLast? with
      | _ :: _, some inner => (put value (name :: path) inner).map fun inner =>
        members.set step (.tables (elements.dropLast ++ [inner]))
      | _, _ => none
    | some _ => none

end Members

structure Entry where
  path : List String
  value : Toml
  deriving Repr

structure Header where
  path : List String
  isRepeated : Bool
  deriving DecidableEq, Repr

structure Section where
  header : Header
  entries : List Entry
  deriving Repr

namespace Members

def putAll (entries : List Entry) (members : Members) : Option Members :=
  entries.foldlM (fun members entry => members.put entry.value entry.path) members

def fill (isRepeated : Bool) (entries : List Entry) (present : Option Toml) : Option Toml :=
  match isRepeated, present with
  | false, none => (putAll entries []).map (.table .header)
  | false, some (.table .implied members) => (putAll entries members).map (.table .header)
  | true, none => (putAll entries []).map fun members => .tables [members]
  | true, some (.tables elements) =>
    (putAll entries []).map fun members => .tables (elements ++ [members])
  | _, _ => none

/-- Adds a section under the path of its header. The path leads into the last of several
tables, but never into a table written as a value. -/
def attach (isRepeated : Bool) (entries : List Entry) : List String → Members → Option Members
  | [], _ => none
  | [name], members =>
    (fill isRepeated entries (members.lookup name)).map fun table => members.set name table
  | step :: name :: path, members =>
    match members.lookup step with
    | none => (attach isRepeated entries (name :: path) []).map fun inner =>
      members.set step (.table .implied inner)
    | some (.table .inline _) => none
    | some (.table origin inner) => (attach isRepeated entries (name :: path) inner).map fun inner =>
      members.set step (.table origin inner)
    | some (.tables elements) =>
      elements.getLast?.bind fun inner =>
        (attach isRepeated entries (name :: path) inner).map fun inner =>
          members.set step (.tables (elements.dropLast ++ [inner]))
    | some _ => none

def attachAll (sections : List Section) (members : Members) : Option Members :=
  sections.foldlM (fun members part =>
    attach part.header.isRepeated part.entries part.header.path members) members

end Members

/-- A date or time is read as a table that holds its text under this name. -/
def momentName : String := "$__toml_private_datetime"

mutual

def toJson : Toml → Json
  | .string value => .string value
  | .integer value => .integer value
  | .bool value => .bool value
  | .float => .unreadable
  | .moment value => .object [(momentName, .string value.text)]
  | .array items => .array (itemsToJson items)
  | .table _ members => .object (membersToJson members)
  | .tables elements => .array (elementsToJson elements)

def itemsToJson : List Toml → List Json
  | [] => []
  | item :: items => item.toJson :: itemsToJson items

def membersToJson : List (String × Toml) → List (String × Json)
  | [] => []
  | (name, value) :: members => (name, value.toJson) :: membersToJson members

def elementsToJson : List (List (String × Toml)) → List Json
  | [] => []
  | members :: elements => .object (membersToJson members) :: elementsToJson elements

end

end Toml

end Interop
