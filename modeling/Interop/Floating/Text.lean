import Interop.Floating.Decimal
import Interop.Floating.Shortest

/-! Floating-point numbers as text. The digits are the shortest that read back. From
`10 ^ -4` up to `10 ^ 16` they are written positionally, with at least one digit on both
sides of the point, and elsewhere with an exponent that has neither plus nor padding. -/
namespace Interop.Floating

/-- Leading digits have positional notation while their exponent is in this range. -/
def isPositional (exponent : Int) : Bool := -4 ≤ exponent && exponent < 16

def zeros (n : Nat) : List Char := List.replicate n '0'

/-- Positional notation; `point` counts the digits before the point. -/
def positional (digits : List Char) (point : Int) : List Char :=
  if point ≤ 0 then '0' :: '.' :: zeros (-point).toNat ++ digits
  else if digits.length ≤ point.toNat then digits ++ zeros (point.toNat - digits.length) ++ ['.', '0']
  else digits.take point.toNat ++ '.' :: digits.drop point.toNat

def scientific (digits : List Char) (exponent : Int) : List Char :=
  let mantissa := match digits with
    | leading :: second :: rest => leading :: '.' :: second :: rest
    | digits => digits
  mantissa ++ 'e' :: (toString exponent).toList

def magnitudeText (f : Format) (significand : Nat) (exponent : Int) : List Char :=
  if significand = 0 then ['0', '.', '0']
  else
    let (number, scale) := f.shortest significand exponent
    let digits := Nat.toDigits 10 number
    let leading := digits.length + scale - 1
    if isPositional leading then positional digits (leading + 1) else scientific digits leading

def signText (negative : Bool) : List Char := if negative then ['-'] else []

def Datum.text (f : Format) : Datum → String
  | .nan => "NaN"
  | .infinite negative => String.ofList (signText negative ++ "inf".toList)
  | .finite negative significand exponent =>
    String.ofList (signText negative ++ magnitudeText f significand exponent)

def doubleText (x : Float) : String := (Format.double.decode x.toBits.toNat).text .double
def singleText (x : Float32) : String := (Format.single.decode x.toBits.toNat).text .single

def readDouble (text : String) : Option Float :=
  (Format.double.read text.toList).map fun word => Float.ofBits (UInt64.ofNat word)

def readSingle (text : String) : Option Float32 :=
  (Format.single.read text.toList).map fun word => Float32.ofBits (UInt32.ofNat word)

end Interop.Floating
