import Interop.Constant.Basic

/-! Numeric literals. A literal is read without regard to case. It is a floating one if
it has a point, an exponent or a final `f` and no radix mark; otherwise it is an integer
with a radix, ignored underscores and a suffix that restricts the kinds it may take, and
it gets the first of these kinds that holds its value. -/
namespace Interop

inductive NumeralError where
  | floating
  | suffix
  | integer
  | range
  deriving DecidableEq, Repr

def NumeralError.message (text : String) : NumeralError → String
  | .floating => "invalid floating literal `" ++ text ++ "`"
  | .suffix => "invalid integer suffix in `" ++ text ++ "`"
  | .integer => "invalid integer literal `" ++ text ++ "`"
  | .range => "integer literal `" ++ text ++ "` is out of range"

namespace Numeral

/-- The value of a digit: decimal digits, then the small letters. -/
def digit? (c : Char) : Option Nat :=
  if c.isDigit then some (c.toNat - 48)
  else if c.isLower then some (c.toNat - 87)
  else none

def value? (radix : Nat) (digits : List Char) : Option Nat :=
  digits.foldlM (fun value c =>
    (digit? c).bind fun digit => if digit < radix then some (radix * value + digit) else none) 0

/-- Reads an unsigned number below `2 ^ 128`; one plus sign may precede its digits. -/
def unsigned? (radix : Nat) (text : List Char) : Option Nat :=
  let digits := match text with
    | '+' :: digits => digits
    | digits => digits
  if digits.isEmpty then none
  else (value? radix digits).filter (· < Nat.pow 2 128)

/-- The radix of an integer body and its digits, by the mark it starts with. -/
def splitRadix : List Char → Nat × List Char
  | '0' :: 'x' :: digits => (16, digits)
  | '0' :: 'b' :: digits => (2, digits)
  | '0' :: second :: digits => (8, second :: digits)
  | digits => (10, digits)

/-- The kinds that a suffix admits, in the order they are tried. -/
def candidates (unsigned long : Bool) : List IntegerKind :=
  match unsigned, long with
  | false, false => [.int, .uint, .long, .ulong]
  | true, false => [.uint, .ulong]
  | false, true => [.long, .ulong]
  | true, true => [.ulong]

def isSuffixLetter (c : Char) : Bool := c = 'u' || c = 'l'

def splitSuffix (text : List Char) : List Char × List Char :=
  let (suffix, body) := text.reverse.span isSuffixLetter
  (body.reverse, suffix)

/-- The first kind that holds a number. -/
def typed (kinds : List IntegerKind) (value : Nat) : Except NumeralError Constant :=
  match kinds.find? (value ≤ ·.greatest) with
  | some kind => .ok (kind.wrap value)
  | none => .error .range

def integer (text : List Char) : Except NumeralError Constant :=
  let (body, suffix) := splitSuffix text
  if 1 < suffix.count 'u' ∨ 2 < suffix.count 'l' then .error .suffix
  else
    let (radix, digits) := splitRadix body
    match unsigned? radix (digits.filter (· ≠ '_')) with
    | none => .error .integer
    | some value => typed (candidates (suffix.contains 'u') (suffix.contains 'l')) value

def hasRadixMark : List Char → Bool
  | '0' :: 'x' :: _ | '0' :: 'b' :: _ => true
  | _ => false

def isFloating (text : List Char) : Bool :=
  !hasRadixMark text && (text.contains '.' || text.contains 'e' || text.getLast? == some 'f')

/-- A final `f` asks for the narrow width, which the nearest double is rounded to; a
final `l` is allowed and means nothing. -/
def floating (text : List Char) : Except NumeralError Constant :=
  let read (text : List Char) := Floating.readDouble (String.ofList text)
  let constant := match text.getLast? with
    | some 'f' => (read text.dropLast).map fun value => .single value.toFloat32
    | some 'l' => (read text.dropLast).map .double
    | _ => (read text).map .double
  match constant with
  | some constant => .ok constant
  | none => .error .floating

end Numeral

def Constant.ofNumeral (text : String) : Except NumeralError Constant :=
  let lower := text.toList.map Char.toLower
  if Numeral.isFloating lower then Numeral.floating lower else Numeral.integer lower

end Interop
