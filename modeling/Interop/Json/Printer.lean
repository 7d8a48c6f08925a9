import Interop.Json.Basic

/-! JSON values written as text on one line, without blanks. -/
namespace Interop.Json

def hexDigits (width n : Nat) : List Char :=
  let digits := Nat.toDigits 16 n
  List.replicate (width - digits.length) '0' ++ digits

/-- A character inside a string; only what must be escaped is. -/
def escapedChar (c : Char) : List Char :=
  if c = '"' then ['\\', '"']
  else if c = '\\' then ['\\', '\\']
  else if c.toNat < 0x20 then '\\' :: 'u' :: hexDigits 4 c.toNat
  else [c]

def stringText (text : String) : List Char := '"' :: text.toList.flatMap escapedChar ++ ['"']

mutual

def characters : Json → List Char
  | .null | .unreadable => "null".toList
  | .bool value => (if value then "true" else "false").toList
  | .integer value => (toString value).toList
  | .decimal negative digits scale =>
    (if negative then ['-'] else []) ++ (toString digits).toList ++ 'e' :: (toString scale).toList
  | .string value => stringText value
  | .array items => '[' :: itemCharacters items ++ [']']
  | .object members => '\x7b' :: memberCharacters members ++ ['\x7d']

def itemCharacters : List Json → List Char
  | [] => []
  | [item] => item.characters
  | item :: items => item.characters ++ ',' :: itemCharacters items

def memberCharacters : List (String × Json) → List Char
  | [] => []
  | [(name, value)] => stringText name ++ ':' :: value.characters
  | (name, value) :: members =>
    stringText name ++ ':' :: value.characters ++ ',' :: memberCharacters members

end

def print (json : Json) : String := String.ofList json.characters

end Interop.Json
