/-! Quoted text for messages. A quoted string stands between double quotes, a quoted
character between single quotes; the delimiter and the backslash are escaped, and so are
the four control characters that have an escape of their own. -/
namespace Interop.Text

def escapeControl (c : Char) : Option (List Char) :=
  if c = '\n' then some ['\\', 'n']
  else if c = '\r' then some ['\\', 'r']
  else if c = '\t' then some ['\\', 't']
  else if c.toNat = 0 then some ['\\', '0']
  else none

def escaped (delimiter c : Char) : List Char :=
  match escapeControl c with
  | some spelling => spelling
  | none => if c = delimiter ∨ c = '\\' then ['\\', c] else [c]

def quoted (text : String) : String :=
  String.ofList ('"' :: text.toList.flatMap (escaped '"') ++ ['"'])

def quotedChar (c : Char) : String := String.ofList ('\'' :: escaped '\'' c ++ ['\''])

end Interop.Text
