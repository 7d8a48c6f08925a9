import Interop.Declaration.Reader
import Interop.Json.Parser
import Interop.Path

/-! Dumps of declaration graphs: what a scan of headers reported, its diagnostics and the
units it found. A dump stands in for a scan of the requested headers, so it fails like one
where a header has no unit. -/
namespace Interop

structure Diagnostic where
  fileName : String
  line : Nat
  column : Nat
  message : String
  deriving DecidableEq, Repr

def Diagnostic.display (diagnostic : Diagnostic) : String :=
  diagnostic.fileName ++ ":" ++ toString diagnostic.line ++ ":" ++ toString diagnostic.column
    ++ ": " ++ diagnostic.message

/-- What a scan came to: a graph, or the kind of its failure; diagnostics either way. -/
structure Scan where
  result : Except String Graph
  diagnostics : List Diagnostic

inductive DumpStatus where
  | success
  | error
  | fileNotFound
  deriving DecidableEq, Repr

def DumpStatus.ofName? : String → Option DumpStatus
  | "success" => some .success
  | "error" => some .error
  | "file_not_found" => some .fileNotFound
  | _ => none

structure Dump where
  status : DumpStatus
  diagnostics : List Diagnostic
  units : List TranslationUnit
  deriving DecidableEq, Repr

open Json (record? listOf natural?)

def Diagnostic.read (json : Json) : Option Diagnostic := do
  let record ← record? ["file_name", "line", "column", "message"] json
  let fileName ← record.required "file_name" Json.string?
  let line ← record.required "line" (natural? (Nat.pow 2 32))
  let column ← record.required "column" (natural? (Nat.pow 2 32))
  return ⟨fileName, line, column, ← record.required "message" Json.string?⟩

def DumpStatus.read (json : Json) : Option DumpStatus :=
  (Json.variant? Json.isNull json).bind DumpStatus.ofName?

namespace Dump

def read (json : Json) : Option Dump := do
  let record ← record? ["status", "diagnostics", "translation_units"] json
  let status ← record.withDefault "status" .success DumpStatus.read
  let diagnostics ← record.withDefault "diagnostics" [] (listOf Diagnostic.read)
  return ⟨status, diagnostics,
    ← record.withDefault "translation_units" [] (listOf TranslationUnit.read)⟩

def parse (text : String) : Option Dump := (Json.parse text).bind read

def covers (dump : Dump) (headers : List String) : Bool :=
  headers.all fun header => dump.units.any fun unit => Path.sameFile unit.fileName header

def scan (dump : Dump) (headers : List String) : Scan :=
  let result := match dump.status with
    | .error => .error "Error"
    | .fileNotFound => .error "FileNotFound"
    | .success => if dump.covers headers then .ok ⟨dump.units⟩ else .error "FileNotFound"
  ⟨result, dump.diagnostics⟩

end Dump

end Interop
