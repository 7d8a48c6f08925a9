import Mathlib.Data.List.Basic
import Interop.Proofs.Document.Literal
import Interop.Proofs.Document.Signature
import Interop.Proofs.Document.StringLiteral
import Interop.Proofs.Identifier

/-! The members of generated types read back from the text of an artifact. An interface has declarations
only. A class has public members, each a declaration with a call or an expression behind it, and beside them
private fields and constructors. A class of entry points declares each under an attribute that names the
binary. All four artifacts of a library show the same declarations in the same order. -/
namespace Interop

/-- What is behind a mark at the front of a text. -/
def after? (mark text : String) : Option String := (mark.toList.isPrefixOf? text.toList).map String.ofList

/-- What is in front of a mark at the end of a text. -/
def before? (mark text : String) : Option String := (mark.toList.isSuffixOf? text.toList).map String.ofList

def Declaration.document (namespaceName : String) (declaration : Declaration) : List Code :=
  (if declaration.usesInterop then [.line "using System.Runtime.InteropServices;", .blank] else []) ++
    [.block ("namespace " ++ namespaceName) declaration.code]

theorem Declaration.text_eq_document (namespaceName : String) (declaration : Declaration) :
    declaration.text namespaceName = Code.text (declaration.document namespaceName) := rfl

namespace Surface

inductive Body where
  | call (call : Call)
  | value (expression : String)
  deriving DecidableEq

/-- A public member of a class, with its declaration as it is written. -/
structure Member where
  declaration : String
  body : Body
  deriving DecidableEq

/-- A function of a native binary, with its declaration as it is written. -/
structure EntryPoint where
  binary : String
  declaration : String
  deriving DecidableEq

def lastBlock? (code : List Code) : Option (String × List Code) :=
  match code.getLast? with
  | some (.block header body) => some (header, body)
  | _ => none

/-- The header and the body of the type that an artifact declares in its namespace. -/
def type? (text : String) : Option (String × List Code) := do
  let (_, declared) ← lastBlock? (← Code.ofText? text)
  lastBlock? declared

/-- The body of a type of a certain kind, and what its header has behind the kind. -/
def ofKind? (kind text : String) : Option (String × List Code) := do
  let (header, body) ← type? text
  return (← after? kind header, body)

def declaration? : Code → Option String
  | .line text => (before? ";" text).or (before? " \x7b get; \x7d" text)
  | _ => none

def contract? (text : String) : Option (List String) := do
  let (_, body) ← ofKind? "internal unsafe interface " text
  body.mapM declaration?

/-- Whether a public declaration has parameters behind its first word, where others have a name. -/
def isConstructor (header : String) : Bool :=
  ((after? "public " header).bind fun declaration => (readWord declaration.toList).2.head?) = some '('

def isMember : Code → Bool
  | .line text => (after? "public " text).isSome
  | .block header _ => (after? "public " header).isSome && !isConstructor header
  | .blank => false

def member? : Code → Option Member
  | .line text => do
    let property ← (after? "public " text).bind (before? ";")
    let declaration ← before? " " (String.ofList (property.toList.takeWhile (· ≠ '=')))
    let expression ← after? "=> " (String.ofList (property.toList.dropWhile (· ≠ '=')))
    return ⟨declaration, .value expression⟩
  | .block header [.line statement] => do
    return ⟨← after? "public " header, .call (← Call.ofText? statement)⟩
  | _ => none

def members? (text : String) : Option (List Member) := do
  let (_, body) ← (ofKind? "internal unsafe class " text).or (ofKind? "public unsafe class " text)
  (body.filter isMember).mapM member?

def isVisible : Code → Bool
  | .blank => false
  | _ => true

/-- The entry points in lines of code, each behind the attribute that names its binary. -/
def readEntryPoints : List Code → Option (List EntryPoint)
  | [] => some []
  | .line imported :: .line header :: code => do
    let literal ← (after? "[DllImport(" imported).bind (before? ", CallingConvention = CallingConvention.Cdecl)]")
    let binary ← StringLiteral.content? ['\n'] literal
    let declaration ← (after? "public static extern " header).bind (before? ";")
    return ⟨binary, declaration⟩ :: (← readEntryPoints code)
  | _ => none

def entryPoints? (text : String) : Option (List EntryPoint) := do
  let (_, body) ← ofKind? "internal static unsafe class " text
  readEntryPoints (body.filter isVisible)

def property? (declaration : String) : Option (String × String) :=
  match readWord declaration.toList with
  | (type, ' ' :: rest) =>
    match readWord rest with
    | (name, []) => some (type, name)
    | _ => none
  | _ => none

def property (expression : NamedConstant → String) (constant : NamedConstant) : Code :=
  .line ("public " ++ constant.header ++ " => " ++ expression constant ++ ";")

/-- The member that a signature becomes in a class that passes calls on. -/
def passing (receiver : String) (signature : Signature) : Member :=
  ⟨signature.text, .call ⟨!signature.result.isVoid, receiver, signature.name, signature.parameters.map (·.name)⟩⟩

section Marks

variable {mark text rest : String}

theorem after?_eq_some_iff : after? mark text = some rest ↔ mark ++ rest = text := by
  simp only [after?, Option.map_eq_some_iff, List.isPrefixOf?_eq_some_iff_append_eq]
  constructor
  · rintro ⟨behind, whole, rfl⟩
    rw [← String.toList_inj, String.toList_append, String.toList_ofList, whole]
  · rintro rfl
    exact ⟨rest.toList, String.toList_append.symm, String.ofList_toList⟩

theorem before?_eq_some_iff : before? mark text = some rest ↔ rest ++ mark = text := by
  simp only [before?, Option.map_eq_some_iff, List.isSuffixOf?_eq_some_iff_append_eq]
  constructor
  · rintro ⟨front, whole, rfl⟩
    rw [← String.toList_inj, String.toList_append, String.toList_ofList, whole]
  · rintro rfl
    exact ⟨rest.toList, String.toList_append.symm, String.ofList_toList⟩

theorem after?_append (mark rest : String) : after? mark (mark ++ rest) = some rest := after?_eq_some_iff.mpr rfl

theorem before?_append (rest mark : String) : before? mark (rest ++ mark) = some rest := before?_eq_some_iff.mpr rfl

/-- A text that begins with another mark has no such mark. -/
theorem after?_eq_none {other : String} (apart : ¬ mark.toList <+: other.toList ∧ ¬ other.toList <+: mark.toList)
    (rest : String) : after? mark (other ++ rest) = none := by
  rw [Option.eq_none_iff_forall_ne_some]
  intro behind found
  have same := congrArg String.toList (after?_eq_some_iff.mp found)
  rw [String.toList_append, String.toList_append] at same
  have whole := List.prefix_append other.toList rest.toList
  rw [← same] at whole
  exact (List.prefix_or_prefix_of_prefix (List.prefix_append _ _) whole).elim apart.1 apart.2

/-- A text that ends otherwise has no such mark. -/
theorem before?_eq_none {c d : Char} (last : c ∈ mark.toList.getLast?) (other : d ∈ text.toList.getLast?)
    (apart : c ≠ d) : before? mark text = none := by
  rw [Option.eq_none_iff_forall_ne_some]
  intro rest found
  rw [← before?_eq_some_iff.mp found, String.toList_append, List.getLast?_append, Option.mem_def.mp last] at other
  exact apart (Option.some.inj other)

end Marks

section Unbroken

theorem unbroken_of_isWord {word : String} (inside : isWord word) : Unbroken word :=
  fun member => absurd (isWordPart_of_mem inside member) (by decide)

theorem unbroken_of_isIdentifier {name : String} (identifier : isIdentifier name) : Unbroken name :=
  unbroken_of_isWord (isWord_of_isIdentifier identifier)

theorem isWord_names {constants : List NamedConstant}
    (identifiers : constants.all fun constant => isIdentifier constant.name) :
    constants.all fun constant => isWord constant.name :=
  List.all_eq_true.mpr fun constant member => isWord_of_isIdentifier (List.all_eq_true.mp identifiers constant member)

theorem isWord_of_all {names : List String} (identifiers : names.all isIdentifier) : names.all isWord :=
  List.all_eq_true.mpr fun name member => isWord_of_isIdentifier (List.all_eq_true.mp identifiers name member)

/-- What begins with a word begins a line. -/
theorem isLine_of_head {text : String} (first : ∃ c ∈ text.toList.head?, isWordPart c = true)
    (unbroken : Unbroken text) : IsLine text := by
  obtain ⟨c, first, part⟩ := first
  refine ⟨⟨c, first, ?_, ?_, ?_⟩, unbroken⟩ <;> rintro rfl <;> exact absurd part (by decide)

theorem isLine_of_isIdentifier {name : String} (identifier : isIdentifier name) : IsLine name :=
  isLine_of_head (head?_of_isIdentifier identifier) (unbroken_of_isIdentifier identifier)

variable {m : TargetMember} {signature : Signature} {constant : NamedConstant}

theorem unbroken_type {type : Target} (identifiers : type.leaves.all isIdentifier) : Unbroken type.text := by
  have parts := List.all_eq_true.mp (Target.all_text type (isWord_of_all identifiers))
  exact fun member => absurd (parts _ member) (by decide)

theorem unbroken_member (spelled : m.isSpelled) : Unbroken m.text := by
  obtain ⟨name, leaves⟩ := Bool.and_eq_true_iff.mp spelled
  rw [TargetMember.text, unbroken_append, unbroken_append]
  exact ⟨⟨unbroken_type leaves, by decide⟩, unbroken_of_isIdentifier name⟩

theorem isLine_signature (spelled : signature.isSpelled) : IsLine signature.text := by
  obtain ⟨own, parameters⟩ := Bool.and_eq_true_iff.mp spelled
  obtain ⟨c, first, part⟩ := Target.head?_text signature.result (Bool.and_eq_true_iff.mp own).2
  have list : Unbroken signature.parameterText := by
    refine unbroken_intercalate (by decide) fun text member => ?_
    obtain ⟨m, inside, rfl⟩ := List.mem_map.mp member
    exact unbroken_member (List.all_eq_true.mp parameters m inside)
  have head : IsLine (TargetMember.text ⟨signature.name, signature.result⟩) :=
    isLine_of_head ⟨c, head?_append (head?_append first " ") signature.name, part⟩ (unbroken_member own)
  exact ((head.append (by decide)).append list).append (by decide)

theorem isLine_forward {receiver : String} (spelled : signature.isSpelled) (identifier : isIdentifier receiver) :
    IsLine (signature.forward receiver) := by
  obtain ⟨own, parameters⟩ := Bool.and_eq_true_iff.mp spelled
  have name := unbroken_of_isIdentifier (Bool.and_eq_true_iff.mp own).1
  have list : Unbroken signature.argumentText := by
    refine unbroken_intercalate (by decide) fun text member => ?_
    obtain ⟨m, inside, rfl⟩ := List.mem_map.mp member
    have own := Bool.and_eq_true_iff.mp (List.all_eq_true.mp parameters m inside)
    exact unbroken_of_isIdentifier own.1
  have own := isLine_of_isIdentifier identifier
  have call : IsLine (receiver ++ "." ++ signature.name ++ "(" ++ signature.argumentText ++ ");") :=
    ((((own.append (by decide)).append name).append (by decide)).append list).append (by decide)
  rw [Signature.forward]
  split
  · exact call
  · exact IsLine.append (by decide) call.unbroken

theorem isIdentifier_targetType (constant : Constant) : isIdentifier constant.targetType := by
  have words : ∀ word ∈ ["int", "uint", "CLong", "CULong", "float", "double", "bool", "string"],
      isIdentifier word = true := by decide
  refine words _ ?_
  cases constant with
  | integer kind word =>
    cases kind <;> simp [Constant.targetType, Constant.type, ConstantType.name, Kind.name, IntegerKind.name]
  | single value | double value | bool value | string value =>
    simp [Constant.targetType, Constant.type, ConstantType.name, Kind.name]

theorem isWord_escape {name : String} (word : isWord name) : isWord (Identifier.escape name) := by
  rw [Identifier.escape]
  split
  · rw [isWord, String.toList_append, List.all_append]
    exact Bool.and_eq_true_iff.mpr ⟨by decide, word⟩
  · exact word

theorem isWord_identifier (word : isWord constant.name) : isWord constant.identifier := isWord_escape word

theorem isLine_header (word : isWord constant.name) : IsLine constant.header := by
  have type := isLine_of_isIdentifier (isIdentifier_targetType constant.value)
  exact (type.append (by decide)).append (unbroken_of_isWord (isWord_identifier word))

end Unbroken

section Lists

variable {α β γ : Type} {read : β → Option γ} {write : α → β} {content : α → γ}

theorem mapM_map_eq_some {items : List α} (reads : ∀ item ∈ items, read (write item) = some (content item)) :
    (items.map write).mapM read = some (items.map content) := by
  induction items with
  | nil => rfl
  | cons item items ih =>
    obtain ⟨first, others⟩ := List.forall_mem_cons.mp reads
    rw [List.map_cons, List.mapM_cons, first, ih others]
    rfl

theorem flatMap_eq_map {f : α → List β} {items : List α} (single : ∀ item ∈ items, f item = [write item]) :
    items.flatMap f = items.map write := by
  rw [List.map_eq_flatMap, List.flatMap_congr single]

end Lists

section Layout

theorem separated_cons_cons (item next : List Code) (items : List (List Code)) :
    Code.separated (item :: next :: items) = item ++ .blank :: Code.separated (next :: items) := rfl

theorem lines_separated (items : List (List Code)) :
    Code.lines (Code.separated items) = items.flatMap Code.lines := by
  induction items with
  | nil => rfl
  | cons item items ih =>
    cases items with
    | nil => simp [Code.separated]
    | cons next items =>
      rw [separated_cons_cons, Code.lines_append, Code.lines_blank, ih]
      rfl

theorem filter_separated {keeps : Code → Bool} (blank : keeps .blank = false) (items : List (List Code)) :
    (Code.separated items).filter keeps = items.flatMap (·.filter keeps) := by
  induction items with
  | nil => rfl
  | cons item items ih =>
    cases items with
    | nil => simp [Code.separated]
    | cons next items =>
      rw [separated_cons_cons, List.filter_append, List.filter_cons_of_neg (by simp [blank]), ih]
      rfl

variable {namespaceName header : String} {declaration : Declaration} {body : List Code}

/-- The lines of an artifact are lines of their own if those of its declaration are. -/
theorem isLine_lines_document (unbroken : Unbroken namespaceName)
    (clean : ∀ line ∈ Code.lines declaration.code, IsLine line) :
    ∀ line ∈ Code.lines (declaration.document namespaceName), IsLine line := by
  have outer : IsLine ("namespace " ++ namespaceName) := IsLine.append (by decide) unbroken
  rw [Declaration.document, Code.lines_append, Code.lines_block, Code.lines_nil, List.append_nil,
    List.forall_mem_append, List.forall_mem_cons]
  refine ⟨?_, outer, clean⟩
  split
  · rw [Code.lines_line, Code.lines_blank, Code.lines_nil, List.forall_mem_singleton]
    decide
  · simp

/-- The type of an artifact is read back if its lines are lines of their own. -/
theorem type?_eq (unbroken : Unbroken namespaceName)
    (clean : ∀ line ∈ Code.lines declaration.code, IsLine line) :
    type? (declaration.text namespaceName) = lastBlock? declaration.code := by
  rw [type?, Declaration.text_eq_document, Code.ofText?_text (isLine_lines_document unbroken clean)]
  simp only [Option.bind_eq_bind, Option.bind_some, lastBlock?, Declaration.document, List.getLast?_concat]

theorem type?_text (unbroken : Unbroken namespaceName) (code : declaration.code = [.block header body])
    (head : IsLine header) (clean : ∀ line ∈ Code.lines body, IsLine line) :
    type? (declaration.text namespaceName) = some (header, body) := by
  rw [type?_eq unbroken, code]
  · rfl
  · rw [code, Code.lines_block, Code.lines_nil, List.append_nil]
    exact List.forall_mem_cons.mpr ⟨head, clean⟩

theorem ofKind?_of_type {text kind name : String} (type : type? text = some (kind ++ name, body)) :
    ofKind? kind text = some (name, body) := by
  rw [ofKind?, type]
  simp only [Option.bind_eq_bind, Option.bind_some, after?_append]
  rfl

/-- The kind of a type is the one that its header begins with. -/
theorem ofKind?_eq_none {text kind other name : String} (type : type? text = some (other ++ name, body))
    (apart : ¬ kind.toList <+: other.toList ∧ ¬ other.toList <+: kind.toList) : ofKind? kind text = none := by
  rw [ofKind?, type]
  simp only [Option.bind_eq_bind, Option.bind_some, after?_eq_none apart, Option.bind_none]

end Layout

section Classes

variable {signature : Signature} {receiver : String}

theorem member?_method (spelled : signature.isSpelled) (word : isWord receiver) :
    member? (signature.method receiver) = some (passing receiver signature) := by
  rw [Signature.method, member?, after?_append, Call.ofText?_forward spelled word]
  rfl

/-- A declaration has a type in front of its name, so its first word has no parameters. -/
theorem isMember_method (spelled : signature.isSpelled) : isMember (signature.method receiver) = true := by
  have words := isWord_of_all (Bool.and_eq_true_iff.mp (Bool.and_eq_true_iff.mp spelled).1).2
  have behind (front : List Char) (inside : front.all Target.isTypePart) (rest : List Char) :
      ((front ++ ' ' :: rest).dropWhile isWordPart).head? ≠ some '(' := by
    induction front with
    | nil => exact fun same => absurd (Option.some.inj same) (by decide)
    | cons c front ih =>
      obtain ⟨own, others⟩ := Bool.and_eq_true_iff.mp ((List.all_cons ..).symm.trans inside)
      rw [List.cons_append, List.dropWhile_cons]
      split
      · exact ih others
      · rintro ⟨⟩
        exact absurd own (by decide)
  have text : signature.text.toList = signature.result.text.toList ++
      ' ' :: (signature.name ++ "(" ++ signature.parameterText ++ ")").toList := by
    simp [Signature.text]
  have notConstructor : isConstructor ("public " ++ signature.text) = false := by
    rw [isConstructor, after?_append, Option.bind_some, readWord, text]
    exact decide_eq_false (behind _ (Target.all_text _ words) _)
  rw [Signature.method, isMember, after?_append, notConstructor]
  rfl

variable {constant : NamedConstant} {expression : NamedConstant → String}

theorem isMember_property : isMember (property expression constant) = true := by
  rw [property, isMember, String.append_assoc, String.append_assoc, String.append_assoc, after?_append]
  rfl

/-- A property is declared by two words with a blank between them. -/
theorem not_mem_header {c : Char} (word : isWord constant.name) (other : isWordPart c = false) (visible : c ≠ ' ') :
    c ∉ constant.header.toList := by
  have type := isWord_of_isIdentifier (isIdentifier_targetType constant.value)
  have absent {word : String} (inside : isWord word) : c ∉ word.toList :=
    fun member => Bool.false_ne_true (other.symm.trans (isWordPart_of_mem inside member))
  have blank : c ∉ " ".toList := by simpa using visible
  rw [NamedConstant.header, String.toList_append, String.toList_append]
  simp only [List.mem_append, not_or]
  exact ⟨⟨absent type, blank⟩, absent (isWord_identifier word)⟩

theorem member?_property (word : isWord constant.name) :
    member? (property expression constant) = some ⟨constant.header, .value (expression constant)⟩ := by
  have text : "public " ++ constant.header ++ " => " ++ expression constant ++ ";" =
      "public " ++ (constant.header ++ " => " ++ expression constant ++ ";") := by
    simp only [String.append_assoc]
  have plain : ∀ c ∈ constant.header.toList ++ [' '], decide (c ≠ '=') = true := by
    intro c member
    refine decide_eq_true ?_
    rintro rfl
    rcases List.mem_append.mp member with member | member
    · exact not_mem_header word (by decide) (by decide) member
    · exact absurd member (by decide)
  have split : (constant.header ++ " => " ++ expression constant).toList =
      (constant.header.toList ++ [' ']) ++ '=' :: ("> " ++ expression constant).toList := by
    simp
  have front : String.ofList ((constant.header ++ " => " ++ expression constant).toList.takeWhile (· ≠ '=')) =
      constant.header ++ " " := by
    rw [split, List.takeWhile_append_of_pos plain]
    simp [String.ofList_append]
  have back : String.ofList ((constant.header ++ " => " ++ expression constant).toList.dropWhile (· ≠ '=')) =
      "=> " ++ expression constant := by
    have tail : '=' :: ("> " ++ expression constant).toList = ("=> " ++ expression constant).toList := by simp
    rw [split, List.dropWhile_append_of_pos plain, List.dropWhile_cons_of_neg (by simp), tail, String.ofList_toList]
  rw [property, member?, text, after?_append, Option.bind_some, before?_append]
  simp only [Option.bind_eq_bind, Option.bind_some, front, back, before?_append, after?_append]
  rfl

theorem isLine_public {text : String} (unbroken : Unbroken text) : IsLine ("public " ++ text) :=
  IsLine.append (by decide) unbroken

theorem isLine_lines_method (spelled : signature.isSpelled) (identifier : isIdentifier receiver) :
    ∀ line ∈ Code.lines [signature.method receiver], IsLine line := by
  rw [Signature.method]
  simp only [Code.lines_block, Code.lines_line, Code.lines_nil, List.append_nil, List.forall_mem_cons]
  exact ⟨isLine_public (isLine_signature spelled).unbroken, isLine_forward spelled identifier, by simp⟩

theorem isLine_lines_property (word : isWord constant.name) (unbroken : Unbroken (expression constant)) :
    ∀ line ∈ Code.lines [property expression constant], IsLine line := by
  have declared := isLine_public (isLine_header word).unbroken
  rw [property]
  simp only [Code.lines_line, Code.lines_nil, List.forall_mem_cons]
  exact ⟨((declared.append (by decide)).append unbroken).append (by decide), by simp⟩

theorem filter_methods {signatures : List Signature} (spelled : signatures.all Signature.isSpelled)
    (receiver : String) :
    signatures.flatMap (fun signature => [signature.method receiver].filter isMember) =
      signatures.map (·.method receiver) := by
  refine flatMap_eq_map fun signature member => ?_
  have kept := @isMember_method signature receiver (List.all_eq_true.mp spelled signature member)
  rw [List.filter_cons_of_pos kept, List.filter_nil]

theorem filter_properties (constants : List NamedConstant) (expression : NamedConstant → String) :
    constants.flatMap (fun constant => [property expression constant].filter isMember) =
      constants.map (property expression) := by
  refine flatMap_eq_map fun constant _ => ?_
  rw [List.filter_cons_of_pos isMember_property, List.filter_nil]

/-- The members of a class are read back, whatever else its body holds. -/
theorem members?_eq {text name : String} {body : List Code} {signatures : List Signature}
    {constants : List NamedConstant}
    (read : (ofKind? "internal unsafe class " text).or (ofKind? "public unsafe class " text) = some (name, body))
    (kept : body.filter isMember = signatures.map (·.method receiver) ++ constants.map (property expression))
    (spelled : signatures.all Signature.isSpelled) (word : isWord receiver)
    (words : constants.all fun constant => isWord constant.name) :
    members? text = some (signatures.map (passing receiver) ++
      constants.map fun constant => ⟨constant.header, .value (expression constant)⟩) := by
  have methods := mapM_map_eq_some fun signature member =>
    member?_method (List.all_eq_true.mp spelled signature member) word
  have properties := mapM_map_eq_some fun constant member =>
    @member?_property constant expression (List.all_eq_true.mp words constant member)
  rw [members?, read]
  simp only [Option.bind_eq_bind, Option.bind_some, kept, List.mapM_append, methods, properties]
  rfl

end Classes

section Facade

variable {facade : String} (platforms : List Platform) (defaultPlatform : Option Platform)

theorem not_isMember_constructor {header rest : String} (identifier : isIdentifier facade)
    (text : header = "public " ++ (facade ++ rest)) (opens : '(' ∈ rest.toList.head?) (body : List Code) :
    isMember (.block header body) = false := by
  obtain ⟨others, letters⟩ := List.head?_eq_some_iff.mp opens
  have behind : (facade ++ rest).toList = facade.toList ++ '(' :: others := by rw [String.toList_append, letters]
  have constructs : isConstructor header = true := by
    rw [isConstructor, text, after?_append, Option.bind_some, behind,
      readWord_append (isWord_of_isIdentifier identifier) (by simp [isWordPart])]
    rfl
  rw [isMember, constructs, Bool.not_true, Bool.and_false]

theorem filter_constructors (identifier : isIdentifier facade) :
    (Declaration.constructors facade platforms defaultPlatform).filter isMember = [] := by
  have last (body : List Code) : isMember (.block ("public " ++ facade ++ "(Platform platform)") body) = false :=
    not_isMember_constructor identifier (String.append_assoc ..) rfl body
  have first (platform : Platform) :
      isMember (.block ("public " ++ facade ++ "() : this(Platform." ++ platform.display ++ ")") []) = false := by
    have text : "public " ++ facade ++ "() : this(Platform." ++ platform.display ++ ")" =
        "public " ++ (facade ++ ("() : this(Platform." ++ (platform.display ++ ")"))) := by
      simp only [String.append_assoc]
    exact not_isMember_constructor identifier text (head?_append (by decide) _) []
  have blank : isMember .blank = false := rfl
  cases defaultPlatform <;> simp [Declaration.constructors, last, first, blank]

theorem unbroken_display (platform : Platform) : Unbroken platform.display := by
  cases platform <;> decide

theorem isLine_lines_dispatch (unbroken : Unbroken facade) :
    ∀ line ∈ Code.lines (Declaration.dispatch facade platforms), IsLine line := by
  have branch {keyword : String} (own : IsLine keyword) (platforms : List Platform) :
      ∀ line ∈ Code.lines (platforms.map (Declaration.dispatch.branch facade keyword)), IsLine line := by
    induction platforms with
    | nil => simp
    | cons platform platforms ih =>
      have creates : IsLine ("lib = new " ++ facade ++ platform.display ++ "();") :=
        ((IsLine.append (by decide) unbroken).append (unbroken_display platform)).append (by decide)
      rw [List.map_cons, Declaration.dispatch.branch]
      simp only [Code.lines_block, Code.lines_line, Code.lines_nil, List.cons_append, List.nil_append,
        List.forall_mem_cons]
      exact ⟨((own.append (by decide)).append (unbroken_display platform)).append (by decide), creates, ih⟩
  cases platforms with
  | nil => simp [Declaration.dispatch]
  | cons platform platforms =>
    have first := branch (by decide : IsLine "if") [platform]
    have others := branch (by decide : IsLine "else if") platforms
    rw [Declaration.dispatch, ← List.singleton_append, Code.lines_append, List.forall_mem_append]
    exact ⟨first, others⟩

theorem isLine_lines_constructors (unbroken : Unbroken facade) :
    ∀ line ∈ Code.lines (Declaration.constructors facade platforms defaultPlatform), IsLine line := by
  have own := isLine_public unbroken
  have chooses := isLine_lines_dispatch platforms unbroken
  have last : ∀ line ∈ Code.lines [.blank, .block ("public " ++ facade ++ "(Platform platform)")
      (Declaration.dispatch facade platforms ++
        [.block "else" [.line "throw new System.NotSupportedException(\"not supported\");"]])], IsLine line := by
    simp only [Code.lines_blank, Code.lines_block, Code.lines_line, Code.lines_nil, Code.lines_append,
      List.append_nil, List.forall_mem_cons, List.forall_mem_append]
    exact ⟨own.append (by decide), chooses, by decide, by decide, by simp⟩
  cases defaultPlatform with
  | none => exact last
  | some platform =>
    have first : IsLine ("public " ++ facade ++ "() : this(Platform." ++ platform.display ++ ")") :=
      ((own.append (by decide)).append (unbroken_display platform)).append (by decide)
    exact List.forall_mem_cons.mpr ⟨first, last⟩

variable {contract : String} {signatures : List Signature} {constants : List NamedConstant}

/-- What the class of a library holds: the wrapper that it chooses, its constructors and its members. -/
def facadeBody (facade contract : String) (platforms : List Platform) (defaultPlatform : Option Platform)
    (signatures : List Signature) (constants : List NamedConstant) : List Code :=
  .line ("private readonly " ++ contract ++ " lib;") ::
    (Declaration.constructors facade platforms defaultPlatform ++
      (signatures.flatMap (fun signature => [.blank, signature.method "lib"]) ++
        constants.flatMap fun constant =>
          [.blank, property (fun constant => "lib." ++ constant.identifier) constant]))

theorem code_facade (contract : String) (signatures : List Signature) (constants : List NamedConstant) :
    (Declaration.facade facade contract platforms defaultPlatform signatures constants).code =
      [.block ("public unsafe class " ++ facade)
        (facadeBody facade contract platforms defaultPlatform signatures constants)] := by
  have mark (text : String) : " => lib." ++ text = " => " ++ ("lib." ++ text) := by
    rw [← String.append_assoc]
    rfl
  simp only [facadeBody, Declaration.code, property, String.append_assoc, List.append_assoc, List.cons_append, mark]

theorem isLine_lines_facadeBody (identifier : isIdentifier facade) (contracted : Unbroken contract)
    (spelled : signatures.all Signature.isSpelled) (words : constants.all fun constant => isWord constant.name) :
    ∀ line ∈ Code.lines (facadeBody facade contract platforms defaultPlatform signatures constants), IsLine line := by
  have field : IsLine ("private readonly " ++ contract ++ " lib;") :=
    (IsLine.append (by decide) contracted).append (by decide)
  have constructors := isLine_lines_constructors platforms defaultPlatform (unbroken_of_isIdentifier identifier)
  rw [facadeBody, Code.lines_line, Code.lines_append, Code.lines_append, Code.lines_flatMap, Code.lines_flatMap,
    List.forall_mem_cons, List.forall_mem_append, List.forall_mem_append, List.forall_mem_flatMap,
    List.forall_mem_flatMap]
  simp only [Code.lines_blank]
  refine ⟨field, constructors, fun signature member => ?_, fun constant member => ?_⟩
  · exact isLine_lines_method (List.all_eq_true.mp spelled signature member) (by decide)
  · have word := List.all_eq_true.mp words constant member
    have own := unbroken_of_isWord (isWord_identifier word)
    have value : Unbroken ("lib." ++ constant.identifier) := unbroken_append.mpr ⟨by decide, own⟩
    exact isLine_lines_property word value

/-- The field and the constructors are no members. -/
theorem filter_facadeBody (identifier : isIdentifier facade) (contract : String)
    (spelled : signatures.all Signature.isSpelled) (constants : List NamedConstant) :
    (facadeBody facade contract platforms defaultPlatform signatures constants).filter isMember =
      signatures.map (·.method "lib") ++ constants.map (property fun constant => "lib." ++ constant.identifier) := by
  have hidden : isMember (.line ("private readonly " ++ contract ++ " lib;")) = false := by
    rw [isMember, String.append_assoc, after?, String.toList_append]
    rfl
  rw [facadeBody, List.filter_cons_of_neg (by simp [hidden]), List.filter_append, List.filter_append,
    filter_constructors platforms defaultPlatform identifier, List.nil_append, List.filter_flatMap,
    List.filter_flatMap, ← filter_methods spelled, ← filter_properties]
  rfl

end Facade

section Native

variable {binary : String} {signature : Signature}

theorem isLine_lines_entryPoint (spelled : signature.isSpelled) :
    ∀ line ∈ Code.lines (Declaration.entryPoint binary signature), IsLine line := by
  have imported : IsLine ("[DllImport(" ++ stringLiteral binary ++ ", CallingConvention = CallingConvention.Cdecl)]") :=
    (IsLine.append (by decide) (unbroken_stringLiteral binary)).append (by decide)
  have header : IsLine ("public static extern " ++ signature.text ++ ";") :=
    (IsLine.append (by decide) (isLine_signature spelled).unbroken).append (by decide)
  rw [Declaration.entryPoint]
  simp only [Code.lines_line, Code.lines_nil, List.forall_mem_cons]
  exact ⟨imported, header, by simp⟩

theorem isLine_lines_entryPoints {signatures : List Signature} (spelled : signatures.all Signature.isSpelled) :
    ∀ line ∈ Code.lines (Code.separated (signatures.map (Declaration.entryPoint binary))), IsLine line := by
  rw [lines_separated, List.flatMap_map, List.forall_mem_flatMap]
  exact fun signature member => isLine_lines_entryPoint (List.all_eq_true.mp spelled signature member)

theorem readEntryPoints_flatMap (binary : String) (signatures : List Signature) :
    readEntryPoints (signatures.flatMap (Declaration.entryPoint binary)) =
      some (signatures.map fun signature => ⟨binary, signature.text⟩) := by
  have literal : StringLiteral.content? ['\n'] (stringLiteral binary) = some binary := by
    have none : StringLiteral.unescaped ['\n'] = [] := by decide
    rw [StringLiteral.content?_eq, none]
    simp
  induction signatures with
  | nil => rfl
  | cons signature signatures ih =>
    rw [List.flatMap_cons, Declaration.entryPoint, String.append_assoc, String.append_assoc, List.cons_append,
      List.cons_append, List.nil_append, readEntryPoints, ih, after?_append, Option.bind_some, before?_append,
      after?_append, Option.bind_some, before?_append]
    simp only [Option.bind_eq_bind, Option.bind_some, literal]
    rfl

end Native

section Bodies

variable {signatures : List Signature} {constants : List NamedConstant}
  (spelled : signatures.all Signature.isSpelled) (words : constants.all fun constant => isWord constant.name)

include spelled words

theorem isLine_lines_declarations :
    ∀ line ∈ Code.lines (signatures.map (fun signature => Code.line (signature.text ++ ";")) ++
      constants.map fun constant => .line (constant.header ++ " \x7b get; \x7d")), IsLine line := by
  have method (signature) (member : signature ∈ signatures) :=
    isLine_signature (List.all_eq_true.mp spelled signature member)
  have property (constant) (member : constant ∈ constants) :=
    isLine_header (List.all_eq_true.mp words constant member)
  rw [Code.lines_append, List.forall_mem_append, List.map_eq_flatMap, List.map_eq_flatMap, Code.lines_flatMap,
    Code.lines_flatMap, List.forall_mem_flatMap, List.forall_mem_flatMap]
  simp only [Code.lines_line, Code.lines_nil, List.forall_mem_singleton]
  exact ⟨fun signature member => (method signature member).append (by decide),
    fun constant member => (property constant member).append (by decide)⟩

theorem isLine_lines_wrapperBody {native : String} (receiver : isIdentifier native) :
    ∀ line ∈ Code.lines (Code.separated (signatures.map (fun signature => [signature.method native]) ++
      constants.map fun constant => [property (·.value.literal) constant])), IsLine line := by
  rw [lines_separated, List.flatMap_append, List.forall_mem_append, List.flatMap_map, List.flatMap_map,
    List.forall_mem_flatMap, List.forall_mem_flatMap]
  exact ⟨fun signature member => isLine_lines_method (List.all_eq_true.mp spelled signature member) receiver,
    fun constant member => isLine_lines_property (List.all_eq_true.mp words constant member) (unbroken_literal _)⟩

end Bodies

section

variable {namespaceName contract : String} {signatures : List Signature} {constants : List NamedConstant}
  (unbroken : Unbroken namespaceName) (contracted : Unbroken contract)
  (spelled : signatures.all Signature.isSpelled) (words : constants.all fun constant => isWord constant.name)

include unbroken spelled

theorem entryPoints?_native {name : String} (named : Unbroken name) (binary : String) :
    (∃ body, type? ((Declaration.native name binary signatures).text namespaceName) =
      some ("internal static unsafe class " ++ name, body)) ∧
    entryPoints? ((Declaration.native name binary signatures).text namespaceName) =
      some (signatures.map fun signature => ⟨binary, signature.text⟩) := by
  have header : IsLine ("internal static unsafe class " ++ name) := IsLine.append (by decide) named
  have visible : (Code.separated (signatures.map (Declaration.entryPoint binary))).filter isVisible =
      signatures.flatMap (Declaration.entryPoint binary) := by
    rw [filter_separated rfl, List.flatMap_map]
    rfl
  have code : (Declaration.native name binary signatures).code =
      [.block ("internal static unsafe class " ++ name)
        (Code.separated (signatures.map (Declaration.entryPoint binary)))] := rfl
  have type := type?_text unbroken code header (isLine_lines_entryPoints spelled)
  refine ⟨⟨_, type⟩, ?_⟩
  rw [entryPoints?, ofKind?_of_type type]
  simp only [Option.bind_eq_bind, Option.bind_some, visible, readEntryPoints_flatMap]

include contracted words

theorem contract?_interface :
    (∃ body, type? ((Declaration.interface contract signatures constants).text namespaceName) =
      some ("internal unsafe interface " ++ contract, body)) ∧
    contract? ((Declaration.interface contract signatures constants).text namespaceName) =
      some (signatures.map Signature.text ++ constants.map NamedConstant.header) := by
  have header : IsLine ("internal unsafe interface " ++ contract) := IsLine.append (by decide) contracted
  have methods : (signatures.map fun signature => Code.line (signature.text ++ ";")).mapM declaration? =
      some (signatures.map Signature.text) := by
    refine mapM_map_eq_some fun signature _ => ?_
    rw [declaration?, before?_append, Option.some_or]
  have properties : (constants.map fun constant => Code.line (constant.header ++ " \x7b get; \x7d")).mapM declaration? =
      some (constants.map NamedConstant.header) := by
    refine mapM_map_eq_some fun constant _ => ?_
    have last : '\x7d' ∈ (constant.header ++ " \x7b get; \x7d").toList.getLast? := by simp
    rw [declaration?, before?_eq_none rfl last (by decide), before?_append, Option.none_or]
  have code : (Declaration.interface contract signatures constants).code =
      [.block ("internal unsafe interface " ++ contract)
        (signatures.map (fun signature => Code.line (signature.text ++ ";")) ++
          constants.map fun constant => .line (constant.header ++ " \x7b get; \x7d"))] := rfl
  have type := type?_text unbroken code header (isLine_lines_declarations spelled words)
  refine ⟨⟨_, type⟩, ?_⟩
  rw [contract?, ofKind?_of_type type]
  simp only [Option.bind_eq_bind, Option.bind_some, List.mapM_append, methods, properties]
  rfl

theorem members?_wrapper {name native : String} (named : Unbroken name) (receiver : isIdentifier native) :
    (∃ body, type? ((Declaration.wrapper name contract native signatures constants).text namespaceName) =
      some ("internal unsafe class " ++ (name ++ (" : " ++ contract)), body)) ∧
    members? ((Declaration.wrapper name contract native signatures constants).text namespaceName) =
      some (signatures.map (passing native) ++
        constants.map fun constant => ⟨constant.header, .value constant.value.literal⟩) := by
  have header : IsLine ("internal unsafe class " ++ (name ++ (" : " ++ contract))) :=
    IsLine.append (by decide) (unbroken_append.mpr ⟨named, unbroken_append.mpr ⟨by decide, contracted⟩⟩)
  have code : (Declaration.wrapper name contract native signatures constants).code =
      [.block ("internal unsafe class " ++ (name ++ (" : " ++ contract)))
        (Code.separated (signatures.map (fun signature => [signature.method native]) ++
          constants.map fun constant => [property (·.value.literal) constant]))] := by
    simp only [← String.append_assoc]
    rfl
  have type := type?_text unbroken code header (isLine_lines_wrapperBody spelled words receiver)
  have read := ofKind?_of_type type
  refine ⟨⟨_, type⟩, members?_eq (by rw [read, Option.some_or]) ?_ spelled (isWord_of_isIdentifier receiver) words⟩
  rw [filter_separated rfl, List.flatMap_append, List.flatMap_map, List.flatMap_map, filter_methods spelled,
    filter_properties]

theorem members?_facade {name : String} (identifier : isIdentifier name) (platforms : List Platform)
    (defaultPlatform : Option Platform) :
    (∃ body, type? ((Declaration.facade name contract platforms defaultPlatform signatures constants).text
      namespaceName) = some ("public unsafe class " ++ name, body)) ∧
    members? ((Declaration.facade name contract platforms defaultPlatform signatures constants).text namespaceName) =
      some (signatures.map (passing "lib") ++
        constants.map fun constant => ⟨constant.header, .value ("lib." ++ constant.identifier)⟩) := by
  have header : IsLine ("public unsafe class " ++ name) :=
    IsLine.append (by decide) (unbroken_of_isIdentifier identifier)
  have type := type?_text unbroken (code_facade platforms defaultPlatform contract signatures constants) header
    (isLine_lines_facadeBody platforms defaultPlatform identifier contracted spelled words)
  have other : ofKind? "internal unsafe class " _ = none := ofKind?_eq_none type (by decide)
  have read := ofKind?_of_type type
  exact ⟨⟨_, type⟩, members?_eq (by rw [other, Option.none_or, read])
    (filter_facadeBody platforms defaultPlatform identifier contract spelled constants) spelled (by decide) words⟩

end

/-- A property is read back as its type and its escaped name. -/
theorem property?_header {constant : NamedConstant} (word : isWord constant.name) :
    property? constant.header = some (constant.value.targetType, Identifier.escape constant.name) := by
  have text : constant.header.toList = constant.value.targetType.toList ++ ' ' :: constant.identifier.toList := by
    simp [NamedConstant.header]
  have type := @readWord_append _ (' ' :: constant.identifier.toList)
    (isWord_of_isIdentifier (isIdentifier_targetType constant.value)) (by simp [isWordPart])
  have name := @readWord_append _ [] (isWord_identifier word) (by simp)
  rw [List.append_nil] at name
  rw [property?, text, type]
  simp only [name]
  rfl

variable {namespaceName contract : String} {signatures : List Signature} {constants : List NamedConstant}

/-- The artifacts of a library declare the same methods and properties in the same order: the ones that its
signatures and constants stand for. Each method of a class is one call, which passes the parameters on. -/
theorem declarations_agree (unbroken : Unbroken namespaceName) (contracted : Unbroken contract)
    (spelled : signatures.all Signature.isSpelled) (words : constants.all fun constant => isWord constant.name) :
    (signatures.map Signature.text).mapM Signature.ofText? = some (signatures.map Signature.shape) ∧
    (constants.map NamedConstant.header).mapM property? =
      some (constants.map fun constant => (constant.value.targetType, Identifier.escape constant.name)) ∧
    contract? ((Declaration.interface contract signatures constants).text namespaceName) =
      some (signatures.map Signature.text ++ constants.map NamedConstant.header) ∧
    (∀ name native, Unbroken name → isIdentifier native →
      members? ((Declaration.wrapper name contract native signatures constants).text namespaceName) =
        some (signatures.map (passing native) ++
          constants.map fun constant => ⟨constant.header, .value constant.value.literal⟩)) ∧
    (∀ name platforms defaultPlatform, isIdentifier name →
      members? ((Declaration.facade name contract platforms defaultPlatform signatures constants).text namespaceName) =
        some (signatures.map (passing "lib") ++
          constants.map fun constant => ⟨constant.header, .value ("lib." ++ constant.identifier)⟩)) ∧
    (∀ name binary, Unbroken name →
      entryPoints? ((Declaration.native name binary signatures).text namespaceName) =
        some (signatures.map fun signature => ⟨binary, signature.text⟩)) := by
  refine ⟨?_, ?_, (contract?_interface unbroken contracted spelled words).2, fun name native named receiver => ?_,
    fun name platforms defaultPlatform identifier => ?_, fun name binary named => ?_⟩
  · exact mapM_map_eq_some fun signature member => Signature.ofText?_text (List.all_eq_true.mp spelled signature member)
  · exact mapM_map_eq_some fun constant member => property?_header (List.all_eq_true.mp words constant member)
  · exact (members?_wrapper unbroken contracted spelled words named receiver).2
  · exact (members?_facade unbroken contracted spelled words identifier platforms defaultPlatform).2
  · exact (entryPoints?_native unbroken spelled named binary).2

def visits : List Signature :=
  [⟨"visit",
      [⟨"callback", .functionPointer [.pointer (.named "Node")] (.primitive "void")⟩, ⟨"_base", .primitive "int"⟩],
      .primitive "void"⟩,
   ⟨"count", [], .primitive "nuint"⟩]

def limits : List NamedConstant := [⟨"LIMIT", .integer .int 3⟩, ⟨"default", .string "a\nb"⟩]

theorem declarations_agree_visits :
    Unbroken "Bindings" ∧ Unbroken "ITree" ∧ (visits.all Signature.isSpelled : Bool) ∧
    (limits.all fun constant => isWord constant.name : Bool) ∧
    contract? ((Declaration.interface "ITree" visits limits).text "Bindings") =
      some ["void visit(delegate* unmanaged<Node*, void> callback, int _base)", "nuint count()",
        "int LIMIT", "string _default"] ∧
    members? ((Declaration.wrapper "TreeLinux" "ITree" "TreeLinuxNative" visits limits).text "Bindings") =
      some [⟨"void visit(delegate* unmanaged<Node*, void> callback, int _base)",
          .call ⟨false, "TreeLinuxNative", "visit", ["callback", "_base"]⟩⟩,
        ⟨"nuint count()", .call ⟨true, "TreeLinuxNative", "count", []⟩⟩,
        ⟨"int LIMIT", .value "3"⟩, ⟨"string _default", .value "\"a\\nb\""⟩] := by
  have unbroken : Unbroken "Bindings" := by decide
  have contracted : Unbroken "ITree" := by decide
  have spelled : visits.all Signature.isSpelled = true := by decide
  have words : limits.all (fun constant => isWord constant.name) = true := by decide
  obtain ⟨-, -, interface, wrapper, -⟩ := declarations_agree unbroken contracted spelled words
  have wrapper := wrapper "TreeLinux" "TreeLinuxNative" (by decide) (by decide)
  refine ⟨unbroken, contracted, spelled, words, interface.trans ?_, wrapper.trans ?_⟩ <;> decide +kernel

end Surface

end Interop
