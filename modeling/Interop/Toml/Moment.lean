import Interop.Floating.Decimal

/-! Dates and times of TOML documents. They are read with either case of their letters and
written in one way: a `T` between date and time, a fraction of a second without trailing
zeros, an offset in hours and minutes unless it is written `Z`. -/
namespace Interop.Toml

structure Date where
  year : Nat
  month : Nat
  day : Nat
  deriving DecidableEq, Repr

structure ClockTime where
  hour : Nat
  minute : Nat
  second : Nat
  nanosecond : Nat
  deriving DecidableEq, Repr

inductive Offset where
  | universal
  | ahead (minutes : Int)
  deriving DecidableEq, Repr

inductive Moment where
  | date (date : Date)
  | time (time : ClockTime)
  | dateTime (date : Date) (time : ClockTime) (offset : Option Offset)
  deriving DecidableEq, Repr

def paddedDigits (width n : Nat) : List Char :=
  let digits := Nat.toDigits 10 n
  List.replicate (width - digits.length) '0' ++ digits

def Date.characters (date : Date) : List Char :=
  paddedDigits 4 date.year ++ '-' :: paddedDigits 2 date.month ++ '-' :: paddedDigits 2 date.day

def fractionCharacters (nanosecond : Nat) : List Char :=
  if nanosecond = 0 then []
  else '.' :: ((paddedDigits 9 nanosecond).reverse.dropWhile (· = '0')).reverse

def minuteCharacters (hour minute : Nat) : List Char :=
  paddedDigits 2 hour ++ ':' :: paddedDigits 2 minute

def ClockTime.characters (time : ClockTime) : List Char :=
  minuteCharacters time.hour time.minute ++ ':' :: paddedDigits 2 time.second
    ++ fractionCharacters time.nanosecond

/-- No difference from universal time is written with a plus sign. -/
def Offset.characters : Offset → List Char
  | .universal => ['Z']
  | .ahead minutes =>
    (if minutes < 0 then '-' else '+') ::
      minuteCharacters (minutes.natAbs / 60) (minutes.natAbs % 60)

def Moment.text (moment : Moment) : String :=
  String.ofList <| match moment with
    | .date day => day.characters
    | .time clock => clock.characters
    | .dateTime day clock offset =>
      day.characters ++ 'T' :: clock.characters ++ (offset.map Offset.characters).getD []

/-- A number of exactly `count` digits within limits, and what follows. -/
def boundedDigits? (count low high : Nat) (text : List Char) : Option (Nat × List Char) :=
  let digits := text.take count
  let value := Floating.digitsValue digits
  if digits.length = count ∧ digits.all Char.isDigit ∧ low ≤ value ∧ value ≤ high then
    some (value, text.drop count)
  else none

def after? (c : Char) : List Char → Option (List Char)
  | d :: rest => if c = d then some rest else none
  | [] => none

def isLeapYear (year : Nat) : Bool := year % 4 = 0 && (year % 100 ≠ 0 || year % 400 = 0)

def daysInMonth (year month : Nat) : Nat :=
  if month = 2 then if isLeapYear year then 29 else 28
  else if month ∈ [4, 6, 9, 11] then 30
  else 31

def readDate (text : List Char) : Option (Date × List Char) := do
  let (year, rest) ← boundedDigits? 4 0 9999 text
  let (month, rest) ← boundedDigits? 2 1 12 (← after? '-' rest)
  let (day, rest) ← boundedDigits? 2 1 (daysInMonth year month) (← after? '-' rest)
  return (⟨year, month, day⟩, rest)

def readMinutes (text : List Char) : Option (Nat × Nat × List Char) := do
  let (hour, rest) ← boundedDigits? 2 0 23 text
  let (minute, rest) ← boundedDigits? 2 0 59 (← after? ':' rest)
  return (hour, minute, rest)

/-- Digits beyond the ninth place of a fraction are dropped. -/
def nanoseconds (fraction : List Char) : Nat :=
  Floating.digitsValue ((fraction ++ List.replicate 9 '0').take 9)

/-- Reads a time with its seconds, of which there may be one more in a minute. -/
def readTime (text : List Char) : Option (ClockTime × List Char) := do
  let (hour, minute, rest) ← readMinutes text
  let (second, rest) ← boundedDigits? 2 0 60 (← after? ':' rest)
  match rest with
  | '.' :: rest =>
    let (fraction, rest) := rest.span Char.isDigit
    if fraction.isEmpty then none
    else return (⟨hour, minute, second, nanoseconds fraction⟩, rest)
  | rest => return (⟨hour, minute, second, 0⟩, rest)

def Offset.ofText? : List Char → Option Offset
  | ['Z'] | ['z'] => some .universal
  | sign :: rest => do
    if sign ≠ '+' ∧ sign ≠ '-' then none
    let (hour, minute, rest) ← readMinutes rest
    let minutes : Int := hour * 60 + minute
    if rest.isEmpty then some (.ahead (if sign = '-' then -minutes else minutes)) else none
  | [] => none

namespace Moment

def onDate? (day : Date) (text : List Char) : Option Moment :=
  match readTime text with
  | none => none
  | some (clock, []) => some (.dateTime day clock none)
  | some (clock, rest) => (Offset.ofText? rest).map fun offset => .dateTime day clock (some offset)

def ofWord? (word : List Char) : Option Moment :=
  match readDate word with
  | some (day, []) => some (.date day)
  | some (day, c :: rest) => if c = 'T' ∨ c = 't' then onDate? day rest else none
  | none =>
    match readTime word with
    | some (clock, []) => some (.time clock)
    | _ => none

end Moment

end Interop.Toml
