/-! JSON values. Members keep their order and their repetitions, so a reader decides what
a repeated name means. A value that is well formed and yet stands for nothing is kept as
`unreadable`: it does no harm where values are skipped. -/
namespace Interop

/-- A decimal is a number with a fraction or an exponent, or an integer of more than 64 bits.
Unreadable are a number beyond the doubles, a string with an unpaired surrogate, and a container
nested too deep. -/
inductive Json where
  | null
  | bool (value : Bool)
  | integer (value : Int)
  | decimal (negative : Bool) (digits : Nat) (scale : Int)
  | string (value : String)
  | array (items : List Json)
  | object (members : List (String × Json))
  | unreadable
  deriving Inhabited, Repr

namespace Json

mutual

def isReadable : Json → Bool
  | .unreadable => false
  | .array items => areReadable items
  | .object members => membersAreReadable members
  | _ => true

def areReadable : List Json → Bool
  | [] => true
  | item :: items => item.isReadable && areReadable items

def membersAreReadable : List (String × Json) → Bool
  | [] => true
  | (_, value) :: members => value.isReadable && membersAreReadable members

end

/-- The last member of a name. -/
def member? (json : Json) (name : String) : Option Json :=
  match json with
  | .object members => (members.reverse.find? (·.1 = name)).map (·.2)
  | _ => none

def string? : Json → Option String
  | .string value => some value
  | _ => none

def bool? : Json → Option Bool
  | .bool value => some value
  | _ => none

def array? : Json → Option (List Json)
  | .array items => some items
  | _ => none

def strings (values : List String) : Json := .array (values.map .string)

/-- Nothing is written as `null`. -/
def optional (write : α → Json) : Option α → Json
  | some value => write value
  | none => .null

end Json

end Interop
