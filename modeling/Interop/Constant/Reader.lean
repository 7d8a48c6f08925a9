import Interop.Constant.Numeral

/-! Constants read back from their bare text, given their type. -/
namespace Interop

/-- A plain decimal integer: digits after an optional sign. -/
def decimal? (text : String) : Option Int :=
  let (negative, digits) := Floating.splitSign text.toList
  if digits.isEmpty ∨ ¬ digits.all Char.isDigit then none
  else some (Floating.signed negative (Floating.digitsValue digits))

/-- An unsigned kind has no minus sign, not even before zero. -/
def IntegerKind.read (kind : IntegerKind) (text : String) : Option Constant :=
  if ¬ kind.isSigned ∧ text.toList.head? = some '-' then none
  else (decimal? text).bind fun n =>
    if kind.least ≤ n ∧ n ≤ kind.greatest then some (kind.wrap n) else none

def Constant.read (type : ConstantType) (text : String) : Option Constant :=
  match type with
  | .number (.integer kind) => kind.read text
  | .number .single => (Floating.readSingle text).map .single
  | .number .double => (Floating.readDouble text).map .double
  | .bool => if text = "true" then some (.bool true)
    else if text = "false" then some (.bool false)
    else none
  | .string => some (.string text)

def IntegerKind.all : List IntegerKind := [.int, .uint, .long, .ulong]

def Kind.all : List Kind := IntegerKind.all.map .integer ++ [.single, .double]

def Kind.ofName? (name : String) : Option Kind := Kind.all.find? (·.name = name)

def ConstantType.ofName? (name : String) : Option ConstantType :=
  (Kind.all.map ConstantType.number ++ [ConstantType.bool, ConstantType.string]).find?
    (·.name = name)

end Interop
