/-! Generated code as a tree of lines and braced blocks, and as the text of the tree: four
spaces for every block around a line, a line feed after each line. -/
namespace Interop

/-- One move of a writer of indented lines. -/
inductive WriterStep where
  | line (text : String)
  | blank
  | openBlock (header : String)
  | closeBlock
  deriving DecidableEq, Repr

namespace WriterStep

def indentation (depth : Nat) : String := String.ofList (List.replicate (4 * depth) ' ')

def indented (depth : Nat) (text : String) : String := indentation depth ++ text ++ "\n"

def depthAfter (depth : Nat) : WriterStep → Nat
  | .openBlock _ => depth + 1
  | .closeBlock => depth - 1
  | _ => depth

def text (depth : Nat) : WriterStep → String
  | .line text => indented depth text
  | .blank => "\n"
  | .openBlock header => indented depth header ++ indented depth "\x7b"
  | .closeBlock => indented (depth - 1) "\x7d"

def writeAll (depth : Nat) : List WriterStep → String
  | [] => ""
  | step :: steps => step.text depth ++ writeAll (step.depthAfter depth) steps

end WriterStep

inductive Code where
  | line (text : String)
  | blank
  | block (header : String) (body : List Code)
  deriving Repr

namespace Code

mutual

def steps : Code → List WriterStep
  | .line text => [.line text]
  | .blank => [.blank]
  | .block header body => .openBlock header :: allSteps body ++ [.closeBlock]

def allSteps : List Code → List WriterStep
  | [] => []
  | code :: rest => code.steps ++ allSteps rest

end

def text (code : List Code) : String := WriterStep.writeAll 0 (allSteps code)

/-- Lists of lines with a blank line between two neighbours. -/
def separated : List (List Code) → List Code
  | [] => []
  | [item] => item
  | item :: items => item ++ .blank :: separated items

/-- The elements of an enumeration, with a comma after all but the last. -/
def commaLines : List String → List Code
  | [] => []
  | [text] => [.line text]
  | text :: texts => .line (text ++ ",") :: commaLines texts

end Code

end Interop
