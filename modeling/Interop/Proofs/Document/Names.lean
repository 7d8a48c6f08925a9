import Interop.Proofs.Document.FixedArray
import Interop.Proofs.Document.Member

/-! The names that artifacts introduce, read back from their text. A structure introduces itself, its fields
and the structures nested for them, an enumeration itself and its elements, and a library its functions with
their parameters and its constants. -/
namespace Interop

def Signature.names (signature : Signature) : List String :=
  signature.name :: signature.parameters.map (·.name)

namespace Declaration

/-- The names that an artifact introduces, but for those of classes, which no header declares. -/
def introduced : Declaration → List String
  | .structure name _ fields => name :: fields.flatMap memberNames
  | .enumeration name _ items => name :: items.map fun item => Identifier.escape item.name
  | .native _ _ signatures => signatures.flatMap Signature.names
  | .wrapper _ _ _ signatures constants | .interface _ signatures constants
  | .facade _ _ _ _ signatures constants =>
    signatures.flatMap Signature.names ++ constants.map NamedConstant.identifier
  | .platformEnum => "Platform" :: Platform.all.map Platform.display

/-- All names of an artifact are identifiers, and so are the names in its types. -/
def isSpelled : Declaration → Bool
  | .structure name _ fields => isIdentifier name && fields.all TargetMember.isSpelled
  | .enumeration name underlying items =>
    isIdentifier name && underlying.leaves.all isIdentifier && items.all fun item => isIdentifier item.name
  | .native name _ signatures => isIdentifier name && signatures.all Signature.isSpelled
  | .wrapper name contract receiver signatures constants =>
    isIdentifier name && isIdentifier contract && isIdentifier receiver && signatures.all Signature.isSpelled &&
      constants.all fun constant => isIdentifier constant.name
  | .interface name signatures constants =>
    isIdentifier name && signatures.all Signature.isSpelled && constants.all fun constant => isIdentifier constant.name
  | .facade name contract _ _ signatures constants =>
    isIdentifier name && isIdentifier contract && signatures.all Signature.isSpelled &&
      constants.all fun constant => isIdentifier constant.name
  | .platformEnum => true

end Declaration

namespace Surface

def structureNames? (text : String) : Option (List String) := do
  let (name, body) ← ofKind? "public unsafe struct " text
  return name :: body.filterMap Code.declared?

def element? : Code → Option String
  | .line text => some (readWord text.toList).1
  | _ => none

def enumerationNames? (text : String) : Option (List String) := do
  let (head, body) ← ofKind? "public enum " text
  return (readWord head.toList).1 :: (← body.mapM element?)

def declarationNames? (declaration : String) : Option (List String) :=
  if '(' ∈ declaration.toList then (Signature.ofText? declaration).map Signature.names
  else (property? declaration).map fun (_, name) => [name]

def declarations? (text : String) : Option (List String) :=
  (contract? text).or
    (((members? text).map (·.map (·.declaration))).or ((entryPoints? text).map (·.map (·.declaration))))

/-- The names that the text of an artifact introduces. -/
def introduced? (text : String) : Option (List String) :=
  (structureNames? text).or ((enumerationNames? text).or do
    return (← (← declarations? text).mapM declarationNames?).flatten)

section Elements

theorem lines_commaLines {texts : List String} (own : ∀ text ∈ texts, IsLine text) :
    ∀ line ∈ Code.lines (Code.commaLines texts), IsLine line := by
  induction texts with
  | nil => simp [Code.commaLines]
  | cons text texts ih =>
    obtain ⟨first, others⟩ := List.forall_mem_cons.mp own
    cases texts with
    | nil =>
      rw [Code.commaLines, Code.lines_line, Code.lines_nil, List.forall_mem_singleton]
      exact first
    | cons next texts => exact List.forall_mem_cons.mpr ⟨first.append (by decide), ih others⟩

variable {α : Type} {text name : α → String}

/-- A comma behind an element is no part of its name. -/
theorem mapM_commaLines {items : List α} (alone : ∀ item ∈ items, (readWord (text item).toList).1 = name item)
    (followed : ∀ item ∈ items, (readWord (text item ++ ",").toList).1 = name item) :
    (Code.commaLines (items.map text)).mapM element? = some (items.map name) := by
  induction items with
  | nil => rfl
  | cons item items ih =>
    obtain ⟨own, others⟩ := List.forall_mem_cons.mp alone
    obtain ⟨own', others'⟩ := List.forall_mem_cons.mp followed
    cases items with
    | nil => simp [Code.commaLines, element?, own]
    | cons next items =>
      have step : Code.commaLines ((item :: next :: items).map text) =
          .line (text item ++ ",") :: Code.commaLines ((next :: items).map text) := rfl
      rw [step, List.mapM_cons, ih others others', element?, own']
      rfl

end Elements

section Structures

variable {m : TargetMember} {isUnion : Bool}

theorem isPlain_of_isWord {word : String} (inside : isWord word) : IsPlain word := by
  intro c member
  have part := isWordPart_of_mem inside member
  refine ⟨?_, ?_, ?_⟩ <;> rintro rfl <;> exact absurd part (by decide)

theorem isLine_slot {slot : Slot} (type : Unbroken slot.type) (name : Unbroken slot.name) : IsLine slot.line := by
  unfold Slot.line
  split
  · exact ((((IsLine.append (by decide) type).append (by decide)).append name).append (by decide))
  · next length _ =>
    exact (((((IsLine.append (by decide) type).append (by decide)).append name).append (by decide)).append
      (unbroken_nat length)).append (by decide)

theorem unbroken_bufferName (word : isWord m.name) : Unbroken (Declaration.bufferName m.name) :=
  unbroken_append.mpr ⟨unbroken_of_isWord word, by decide⟩

theorem unbroken_slot (spelled : m.isSpelled) : Unbroken (Declaration.slot m).type := by
  obtain ⟨name, leaves⟩ := Bool.and_eq_true_iff.mp spelled
  have buffer := unbroken_bufferName (isWord_of_isIdentifier name)
  unfold Declaration.slot
  split
  · next element length array =>
    rw [array] at leaves
    split
    · exact unbroken_type leaves
    · exact buffer
  · exact unbroken_type leaves

/-- A nested structure is called after its field, and all its fields have the type of an element. -/
theorem isLine_nested (spelled : m.isSpelled) {nested : Nested} (found : Declaration.nested? m = some nested) :
    Unbroken nested.name ∧ ∀ slot ∈ nested.slots, IsLine slot.line := by
  obtain ⟨name, leaves⟩ := Bool.and_eq_true_iff.mp spelled
  refine ⟨Declaration.name_nested found ▸ unbroken_bufferName (isWord_of_isIdentifier name), fun slot member => ?_⟩
  unfold Declaration.nested? at found
  split at found
  · next element length array =>
    rw [array] at leaves
    split at found
    · cases found
    · cases found
      obtain ⟨index, -, rfl⟩ := List.mem_map.mp member
      exact isLine_slot (unbroken_type leaves) (unbroken_append.mpr ⟨by decide, unbroken_nat index⟩)
  · cases found

theorem isLine_lines_field (spelled : m.isSpelled) :
    ∀ line ∈ Code.lines (Declaration.field isUnion m), IsLine line := by
  obtain ⟨name, -⟩ := Bool.and_eq_true_iff.mp spelled
  have own : IsLine (Declaration.slot m).line := by
    refine isLine_slot (unbroken_slot spelled) ?_
    rw [Declaration.name_slot]
    exact unbroken_of_isIdentifier name
  intro line member
  simp only [lines_field, List.mem_append, List.mem_flatMap, Option.mem_toList, List.mem_cons, List.mem_map,
    List.not_mem_nil, or_false] at member
  rcases member with (⟨nested, found, rfl | rfl | ⟨slot, present, rfl⟩⟩ | offset) | rfl
  · decide
  · exact IsLine.append (by decide) (isLine_nested spelled found).1
  · exact (isLine_nested spelled found).2 slot present
  · cases isUnion with
    | false => cases offset
    | true =>
      obtain rfl := List.mem_singleton.mp offset
      decide
  · exact own

variable {namespaceName name : String} {fields : List TargetMember}

theorem isLine_lines_structure (spelled : (Declaration.structure name isUnion fields).isSpelled) :
    ∀ line ∈ Code.lines (Declaration.structure name isUnion fields).code, IsLine line := by
  obtain ⟨own, members⟩ := Bool.and_eq_true_iff.mp spelled
  rw [Declaration.code, Code.lines_line, Code.lines_block, Code.lines_nil, List.append_nil, List.forall_mem_cons,
    List.forall_mem_cons, Code.lines_flatMap, List.forall_mem_flatMap]
  refine ⟨by cases isUnion <;> decide, IsLine.append (by decide) ?_, fun m member => ?_⟩
  · exact unbroken_of_isIdentifier own
  · exact isLine_lines_field (List.all_eq_true.mp members m member)

theorem structureNames?_text (unbroken : Unbroken namespaceName)
    (spelled : (Declaration.structure name isUnion fields).isSpelled) :
    structureNames? ((Declaration.structure name isUnion fields).text namespaceName) =
      some (name :: fields.flatMap Declaration.memberNames) := by
  obtain ⟨-, members⟩ := Bool.and_eq_true_iff.mp spelled
  have plain : ∀ m ∈ fields, IsPlain m.name := fun m member =>
    isPlain_of_isWord (isWord_of_isIdentifier (Bool.and_eq_true_iff.mp (List.all_eq_true.mp members m member)).1)
  have type : type? ((Declaration.structure name isUnion fields).text namespaceName) =
      some ("public unsafe struct " ++ name, fields.flatMap (Declaration.field isUnion)) :=
    type?_eq unbroken (isLine_lines_structure spelled)
  rw [structureNames?, ofKind?_of_type type]
  simp only [Option.bind_eq_bind, Option.bind_some, Declaration.declared_body plain]
  rfl

end Structures

section Enumerations

variable {namespaceName name : String} {underlying : Target} {items : List EnumItem}

theorem isIdentifier_escape (identifier : isIdentifier name) : isIdentifier (Identifier.escape name) := by
  obtain ⟨nonempty, word⟩ := Bool.and_eq_true_iff.mp identifier
  refine Bool.and_eq_true_iff.mpr ⟨decide_eq_true ?_, isWord_escape word⟩
  rw [Identifier.escape]
  split
  · simp
  · exact of_decide_eq_true nonempty

theorem readWord_name {word rest : String} {c : Char} (inside : isWord word) (first : c ∈ rest.toList.head?)
    (stops : isWordPart c = false) : (readWord (word ++ rest).toList).1 = word := by
  rw [String.toList_append, readWord_append inside]
  intro d found
  exact Option.some.inj (first.symm.trans found) ▸ stops

theorem isLine_item {item : EnumItem} (identifier : isIdentifier item.name) : IsLine (Declaration.item item) :=
  ((isLine_of_isIdentifier (isIdentifier_escape identifier)).append (by decide)).append (unbroken_int item.value.number)

/-- A blank ends the name of an element, before its value. -/
theorem readWord_item {item : EnumItem} (identifier : isIdentifier item.name) (rest : String) :
    (readWord (Declaration.item item ++ rest).toList).1 = Identifier.escape item.name := by
  rw [Declaration.item, String.append_assoc, String.append_assoc]
  exact readWord_name (isWord_escape (isWord_of_isIdentifier identifier)) (head?_append rfl _) (by decide)

theorem isLine_lines_items (identifiers : items.all fun item => isIdentifier item.name) :
    ∀ line ∈ Code.lines (Code.commaLines (items.map Declaration.item)), IsLine line := by
  refine lines_commaLines fun text member => ?_
  obtain ⟨item, inside, rfl⟩ := List.mem_map.mp member
  exact isLine_item (List.all_eq_true.mp identifiers item inside)

theorem enumerationNames?_text (unbroken : Unbroken namespaceName)
    (spelled : (Declaration.enumeration name underlying items).isSpelled) :
    (∃ behind body, type? ((Declaration.enumeration name underlying items).text namespaceName) =
      some ("public enum " ++ behind, body)) ∧
    enumerationNames? ((Declaration.enumeration name underlying items).text namespaceName) =
      some (name :: items.map fun item => Identifier.escape item.name) := by
  obtain ⟨head, elements⟩ := Bool.and_eq_true_iff.mp spelled
  obtain ⟨own, leaves⟩ := Bool.and_eq_true_iff.mp head
  have word := isWord_of_isIdentifier own
  have identifier := List.all_eq_true.mp elements
  have code : (Declaration.enumeration name underlying items).code =
      [.block ("public enum " ++ (name ++ (" : " ++ underlying.text)))
        (Code.commaLines (items.map Declaration.item))] := by
    simp only [← String.append_assoc]
    rfl
  have header : IsLine ("public enum " ++ (name ++ (" : " ++ underlying.text))) := by
    refine IsLine.append (by decide) (unbroken_append.mpr ⟨unbroken_of_isWord word, ?_⟩)
    exact unbroken_append.mpr ⟨by decide, unbroken_type leaves⟩
  have type := type?_text unbroken code header (isLine_lines_items elements)
  have read := mapM_commaLines (fun item member => by simpa using readWord_item (identifier item member) "")
    (fun item member => readWord_item (identifier item member) ",")
  have named : (readWord (name ++ (" : " ++ underlying.text)).toList).1 = name :=
    readWord_name word (head?_append rfl _) (by decide)
  refine ⟨⟨_, _, type⟩, ?_⟩
  rw [enumerationNames?, ofKind?_of_type type]
  simp only [Option.bind_eq_bind, Option.bind_some, read, named]
  rfl

theorem enumerationNames?_platformEnum (unbroken : Unbroken namespaceName) :
    (∃ behind body, type? (Declaration.platformEnum.text namespaceName) = some ("public enum " ++ behind, body)) ∧
    enumerationNames? (Declaration.platformEnum.text namespaceName) =
      some ("Platform" :: Platform.all.map Platform.display) := by
  have code : Declaration.platformEnum.code =
      [.block ("public enum " ++ "Platform") (Code.commaLines (Platform.all.map Platform.display))] := rfl
  have type := type?_text unbroken code (by decide) (lines_commaLines (by decide))
  refine ⟨⟨_, _, type⟩, ?_⟩
  rw [enumerationNames?, ofKind?_of_type type]
  rfl

end Enumerations

section Surfaces

variable {namespaceName : String} {signatures : List Signature} {constants : List NamedConstant}

theorem declarationNames?_text {signature : Signature} (spelled : signature.isSpelled) :
    declarationNames? signature.text = some signature.names := by
  have opens : '(' ∈ signature.text.toList := by simp [Signature.text]
  have names : signature.shape.names = signature.names := by
    simp [Signature.shape, Signature.names, TargetMember.shape, Function.comp_def]
  rw [declarationNames?, if_pos opens, Signature.ofText?_text spelled, Option.map_some, names]

theorem declarationNames?_header {constant : NamedConstant} (word : isWord constant.name) :
    declarationNames? constant.header = some [constant.identifier] := by
  have closed : '(' ∉ constant.header.toList := not_mem_header word (by decide) (by decide)
  rw [declarationNames?, if_neg closed, property?_header word]
  rfl

/-- The names in the declarations of a library. -/
theorem mapM_declarationNames? (spelled : signatures.all Signature.isSpelled)
    (words : constants.all fun constant => isWord constant.name) :
    ((signatures.map Signature.text ++ constants.map NamedConstant.header).mapM declarationNames?).map List.flatten =
      some (signatures.flatMap Signature.names ++ constants.map NamedConstant.identifier) := by
  have methods := mapM_map_eq_some fun signature member =>
    declarationNames?_text (List.all_eq_true.mp spelled signature member)
  have properties := mapM_map_eq_some fun constant member =>
    declarationNames?_header (List.all_eq_true.mp words constant member)
  rw [List.mapM_append, methods, properties]
  simp [← List.flatMap_def, ← List.map_eq_flatMap]

/-- A type of another kind introduces what its declarations do. -/
theorem introduced?_of_declarations {text kind name : String} {body : List Code}
    (type : type? text = some (kind ++ name, body))
    (noStructure : ¬ "public unsafe struct ".toList <+: kind.toList ∧ ¬ kind.toList <+: "public unsafe struct ".toList)
    (noEnumeration : ¬ "public enum ".toList <+: kind.toList ∧ ¬ kind.toList <+: "public enum ".toList)
    (read : declarations? text = some (signatures.map Signature.text ++ constants.map NamedConstant.header))
    (spelled : signatures.all Signature.isSpelled) (words : constants.all fun constant => isWord constant.name) :
    introduced? text = some (signatures.flatMap Signature.names ++ constants.map NamedConstant.identifier) := by
  obtain ⟨lists, found, flattened⟩ := Option.map_eq_some_iff.mp (mapM_declarationNames? spelled words)
  rw [introduced?, structureNames?, enumerationNames?, read, ofKind?_eq_none type noStructure,
    ofKind?_eq_none type noEnumeration]
  simp only [Option.bind_eq_bind, Option.bind_none, Option.none_or, Option.bind_some, found, ← flattened]
  rfl

variable (unbroken : Unbroken namespaceName) (spelled : signatures.all Signature.isSpelled)

include unbroken spelled

theorem introduced?_native {name : String} (named : Unbroken name) (binary : String) :
    introduced? ((Declaration.native name binary signatures).text namespaceName) =
      some (signatures.flatMap Signature.names) := by
  obtain ⟨⟨body, type⟩, read⟩ := entryPoints?_native unbroken spelled named binary
  have noContract : ofKind? "internal unsafe interface " _ = none := ofKind?_eq_none type (by decide)
  have noWrapper : ofKind? "internal unsafe class " _ = none := ofKind?_eq_none type (by decide)
  have noFacade : ofKind? "public unsafe class " _ = none := ofKind?_eq_none type (by decide)
  have declared : declarations? ((Declaration.native name binary signatures).text namespaceName) =
      some (signatures.map Signature.text ++ ([] : List NamedConstant).map NamedConstant.header) := by
    rw [declarations?, contract?, members?, read, noContract, noWrapper, noFacade]
    simp [Function.comp_def]
  have introduced := introduced?_of_declarations type (by decide) (by decide) declared spelled rfl
  rwa [List.map_nil, List.append_nil] at introduced

variable {contract : String} (contracted : Unbroken contract)
  (words : constants.all fun constant => isWord constant.name)

include contracted words

theorem introduced?_interface :
    introduced? ((Declaration.interface contract signatures constants).text namespaceName) =
      some (signatures.flatMap Signature.names ++ constants.map NamedConstant.identifier) := by
  obtain ⟨⟨body, type⟩, read⟩ := contract?_interface unbroken contracted spelled words
  refine introduced?_of_declarations type (by decide) (by decide) ?_ spelled words
  rw [declarations?, read, Option.some_or]

theorem introduced?_wrapper {name native : String} (named : Unbroken name) (receiver : isIdentifier native) :
    introduced? ((Declaration.wrapper name contract native signatures constants).text namespaceName) =
      some (signatures.flatMap Signature.names ++ constants.map NamedConstant.identifier) := by
  obtain ⟨⟨body, type⟩, read⟩ := members?_wrapper unbroken contracted spelled words named receiver
  have noContract : ofKind? "internal unsafe interface " _ = none := ofKind?_eq_none type (by decide)
  refine introduced?_of_declarations type (by decide) (by decide) ?_ spelled words
  rw [declarations?, contract?, noContract, read]
  simp [passing, Function.comp_def]

theorem introduced?_facade {name : String} (identifier : isIdentifier name) (platforms : List Platform)
    (defaultPlatform : Option Platform) :
    introduced? ((Declaration.facade name contract platforms defaultPlatform signatures constants).text namespaceName) =
      some (signatures.flatMap Signature.names ++ constants.map NamedConstant.identifier) := by
  obtain ⟨⟨body, type⟩, read⟩ :=
    members?_facade unbroken contracted spelled words identifier platforms defaultPlatform
  have noContract : ofKind? "internal unsafe interface " _ = none := ofKind?_eq_none type (by decide)
  refine introduced?_of_declarations type (by decide) (by decide) ?_ spelled words
  rw [declarations?, contract?, noContract, read]
  simp [passing, Function.comp_def]

end Surfaces

/-- The names that an artifact introduces are read back from its text. -/
theorem introduced?_text {namespaceName : String} {declaration : Declaration} (unbroken : Unbroken namespaceName)
    (spelled : declaration.isSpelled) :
    introduced? (declaration.text namespaceName) = some declaration.introduced := by
  cases declaration with
  | «structure» name isUnion fields =>
    rw [introduced?, structureNames?_text unbroken spelled, Option.some_or]
    rfl
  | enumeration name underlying items =>
    obtain ⟨⟨behind, body, type⟩, read⟩ := enumerationNames?_text unbroken spelled
    have noStructure : ofKind? "public unsafe struct " _ = none := ofKind?_eq_none type (by decide)
    rw [introduced?, structureNames?, noStructure, read]
    rfl
  | platformEnum =>
    obtain ⟨⟨behind, body, type⟩, read⟩ := enumerationNames?_platformEnum unbroken
    have noStructure : ofKind? "public unsafe struct " _ = none := ofKind?_eq_none type (by decide)
    rw [introduced?, structureNames?, noStructure, read]
    rfl
  | native name binary signatures =>
    obtain ⟨own, spelled⟩ := Bool.and_eq_true_iff.mp spelled
    exact introduced?_native unbroken spelled (unbroken_of_isIdentifier own) binary
  | wrapper name contract receiver signatures constants =>
    simp only [Declaration.isSpelled, Bool.and_eq_true] at spelled
    obtain ⟨⟨⟨⟨own, contracted⟩, receiver⟩, spelled⟩, named⟩ := spelled
    exact introduced?_wrapper unbroken spelled (unbroken_of_isIdentifier contracted) (isWord_names named)
      (unbroken_of_isIdentifier own) receiver
  | interface name signatures constants =>
    simp only [Declaration.isSpelled, Bool.and_eq_true] at spelled
    obtain ⟨⟨own, spelled⟩, named⟩ := spelled
    exact introduced?_interface unbroken spelled (unbroken_of_isIdentifier own) (isWord_names named)
  | facade name contract platforms defaultPlatform signatures constants =>
    simp only [Declaration.isSpelled, Bool.and_eq_true] at spelled
    obtain ⟨⟨⟨own, contracted⟩, spelled⟩, named⟩ := spelled
    exact introduced?_facade unbroken spelled (unbroken_of_isIdentifier contracted) (isWord_names named) own platforms
      defaultPlatform

end Surface

end Interop
