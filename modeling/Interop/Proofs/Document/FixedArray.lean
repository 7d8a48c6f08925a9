import Interop.Proofs.Document.Code
import Interop.Proofs.Document.Structure

/-! Arrays of fixed length in structures. A structure has to be read with its nested structures to see what
a field of it holds. The outermost array of a field becomes a fixed buffer or a nested structure; arrays
inside it keep their type, a managed array without a length. So a field holds all its elements exactly if
its type is one array at most, or if the outermost array is empty, and otherwise there is a managed array
in the text. -/
namespace Interop

/-- The types of the elements of a field: its own, or those of the structure that it has as its type. -/
def Slot.elements (structures : List (String × List Code)) (slot : Slot) : List String :=
  match structures.lookup slot.type with
  | some body => (body.filterMap Code.slot?).flatMap Slot.own
  | none => slot.own

namespace Code

def contents (body : List Code) : List (List String) :=
  (body.filterMap slot?).map (Slot.elements (body.filterMap structure?))

def contents? (code : List Code) (name : String) : Option (List (List String)) :=
  ((code.filterMap structure?).lookup name).map contents

end Code

def HasManagedArray (text : String) : Prop := ['[', ']'] <:+: text.toList

/-- No opening bracket stands at the end or in front of a closing one. -/
def isSealed : List Char → Bool
  | [] => true
  | c :: rest => (c ≠ '[' || rest.head?.any (· ≠ ']')) && isSealed rest

/-- An array of arrays over an element, with the lengths from the outermost array inwards. -/
def Target.nest (element : Target) : List Nat → Target
  | [] => element
  | length :: lengths => .array (element.nest lengths) (some length)

/-- A field with an array of any depth, which has a length at every level. -/
structure ArrayField where
  name : String
  element : Target
  lengths : List Nat
  plainName : IsPlain name
  plainElement : IsPlain element.text

namespace ArrayField

def toMember (field : ArrayField) : TargetMember := ⟨field.name, field.element.nest field.lengths⟩

def whole (field : ArrayField) : List String :=
  List.replicate (field.lengths.foldr (· * ·) 1) field.element.text

/-- The elements of the outermost array. -/
def held (field : ArrayField) : List String :=
  match field.lengths with
  | [] => [field.element.text]
  | length :: lengths => List.replicate length (field.element.nest lengths).text

/-- There is no array inside an array that has elements. -/
def IsFlat (field : ArrayField) : Prop := field.lengths.length ≤ 1 ∨ field.lengths.head? = some 0

instance (field : ArrayField) : Decidable field.IsFlat := inferInstanceAs (Decidable (_ ∨ _))

end ArrayField

section

variable {front rest : List Char}

theorem isSealed_append (first : isSealed front = true) (second : isSealed rest = true) :
    isSealed (front ++ rest) = true := by
  induction front with
  | nil => exact second
  | cons c front ih =>
    simp only [isSealed, Bool.and_eq_true] at first
    simp only [List.cons_append, isSealed, Bool.and_eq_true]
    refine ⟨?_, ih first.2⟩
    cases front with
    | nil =>
      have other : c ≠ '[' := by simpa using first.1
      simp [other]
    | cons d front => exact first.1

theorem isSealed_of_not_mem (absent : '[' ∉ front) : isSealed front = true := by
  induction front with
  | nil => rfl
  | cons c front ih =>
    rw [List.mem_cons, not_or] at absent
    simp [isSealed, Ne.symm absent.1, ih absent.2]

theorem not_hasManagedArray {text : String} (closed : isSealed text.toList = true) : ¬ HasManagedArray text := by
  rintro ⟨front, rest, split⟩
  rw [← split] at closed
  clear split
  induction front with
  | nil => simp [isSealed] at closed
  | cons c front ih =>
    simp only [List.cons_append, isSealed, Bool.and_eq_true] at closed
    exact ih closed.2

theorem composes_isSealed : Composes (isSealed · = true) where
  nil := rfl
  blank := rfl
  feed := rfl
  opening := rfl
  closing := rfl
  append := isSealed_append

end

namespace Declaration

def structures (fields : List TargetMember) : List (String × List Code) :=
  fields.filterMap fun m =>
    (nested? m).map fun nested => (nested.name, nested.slots.map fun slot => .line slot.line)

variable {isUnion : Bool} {fields : List TargetMember} {m : TargetMember} {nested : Nested}

theorem structures_body : (fields.flatMap (field isUnion)).filterMap Code.structure? = structures fields := by
  rw [List.filterMap_flatMap, structures, List.filterMap_eq_flatMap_toList]
  exact List.flatMap_congr fun m _ => structures_field

theorem lookup_structures_of_ne {type : String} (apart : ∀ m ∈ fields, type ≠ bufferName m.name) :
    (structures fields).lookup type = none := by
  rw [List.lookup_eq_none_iff]
  intro entry member
  obtain ⟨m, present, found⟩ := List.mem_filterMap.mp member
  obtain ⟨nested, given, rfl⟩ := Option.map_eq_some_iff.mp found
  dsimp only
  rw [name_nested given]
  simpa using apart m present

/-- Fields of different names have different structures. -/
theorem lookup_structures (distinct : (fields.map (·.name)).Nodup) (member : m ∈ fields)
    (found : nested? m = some nested) :
    (structures fields).lookup nested.name = some (nested.slots.map fun slot => Code.line slot.line) := by
  induction fields with
  | nil => cases member
  | cons first fields ih =>
    rw [List.map_cons, List.nodup_cons] at distinct
    rcases List.mem_cons.mp member with rfl | member
    · simp [structures, found]
    · have other : bufferName first.name ≠ nested.name := by
        rw [name_nested found]
        intro same
        have same := (String.append_left_inj _).mp same
        exact distinct.1 (same ▸ List.mem_map_of_mem member)
      have rest := ih distinct.2 member
      cases front : nested? first with
      | none => simpa [structures, front] using rest
      | some nested' =>
        have different : (nested.name == nested'.name) = false := by
          rw [name_nested front]
          simpa using other.symm
        simpa [structures, front, List.lookup_cons, different] using rest

end Declaration

namespace ArrayField

open Declaration

variable {name : String} {element : Target} {length : Nat} {lengths : List Nat}

theorem text_nest_cons : (element.nest (length :: lengths)).text = (element.nest lengths).text ++ "[]" := rfl

/-- A plain element is no array. -/
theorem slot_element (name : String) (plain : IsPlain element.text) :
    slot ⟨name, element⟩ = ⟨element.text, name, none⟩ ∧ nested? ⟨name, element⟩ = none := by
  cases element with
  | array inner length =>
    have bracket : '[' ∈ (Target.array inner length).text.toList := by
      change '[' ∈ (inner.text ++ "[]").toList
      simp
    exact absurd rfl (plain '[' bracket).2.1
  | primitive | named | pointer | functionPointer => exact ⟨rfl, rfl⟩

theorem isPlain_numbered (index : Nat) : IsPlain ("e" ++ toString index) :=
  .append (by decide) (isPlain_toString index)

/-- The fields of a nested structure are elements, one each. -/
theorem contents_nested (type : String) (length : Nat) :
    ((((List.range length).map fun index => (⟨type, "e" ++ toString index, none⟩ : Slot)).map fun slot =>
      Code.line slot.line).filterMap Code.slot?).flatMap Slot.own = List.replicate length type := by
  have read (index : Nat) : (Code.line (Slot.line ⟨type, "e" ++ toString index, none⟩)).slot? =
      some ⟨type, "e" ++ toString index, none⟩ := Code.slot?_line (isPlain_numbered index)
  induction length with
  | zero => rfl
  | succ length ih =>
    rw [List.range_succ, List.map_append, List.map_append, List.filterMap_append, List.flatMap_append, ih,
      List.replicate_succ']
    simp only [List.map_cons, List.map_nil, List.filterMap_cons, read]
    rfl

/-- The elements of an array of buffer elements are a fixed buffer, others a nested structure. -/
theorem form_cons (name : String) (element : Target) (length : Nat) (lengths : List Nat) :
    (lengths = [] ∧ slot ⟨name, element.nest (length :: lengths)⟩ = ⟨element.text, name, some length⟩ ∧
      nested? ⟨name, element.nest (length :: lengths)⟩ = none) ∨
    (slot ⟨name, element.nest (length :: lengths)⟩ = ⟨bufferName name, name, none⟩ ∧
      nested? ⟨name, element.nest (length :: lengths)⟩ = some ⟨bufferName name,
        (List.range length).map fun index => ⟨(element.nest lengths).text, "e" ++ toString index, none⟩⟩) := by
  cases isElement : (element.nest lengths).isBufferElement with
  | true =>
    cases lengths with
    | nil => exact .inl ⟨rfl, if_pos isElement, if_pos isElement⟩
    | cons => cases isElement
  | false =>
    have refused := Bool.eq_false_iff.mp isElement
    exact .inr ⟨if_neg refused, if_neg refused⟩

theorem elements_slot {structures : List (String × List Code)} {field : ArrayField}
    (apart : structures.lookup field.element.text = none)
    (own : ∀ nested, nested? field.toMember = some nested →
      structures.lookup nested.name = some (nested.slots.map fun slot => Code.line slot.line)) :
    (slot field.toMember).elements structures = field.held := by
  obtain ⟨name, element, lengths, plainName, plainElement⟩ := field
  simp only [toMember, held] at apart own ⊢
  cases lengths with
  | nil =>
    obtain ⟨slot_eq, -⟩ := slot_element name plainElement
    simp only [Target.nest, slot_eq, Slot.elements, apart]
    rfl
  | cons length lengths =>
    rcases form_cons name element length lengths with ⟨rfl, slot_eq, -⟩ | ⟨slot_eq, nested_eq⟩
    · simp only [slot_eq, Slot.elements, apart]
      rfl
    · have found := own _ nested_eq
      simp only [slot_eq, Slot.elements, found]
      exact contents_nested _ length

theorem bracket_nest : '[' ∈ (element.nest (length :: lengths)).text.toList := by
  rw [text_nest_cons]
  simp

/-- The outermost array holds all elements only if no other array is inside it, or nothing is. -/
theorem held_eq_whole_iff {field : ArrayField} : field.held = field.whole ↔ field.IsFlat := by
  obtain ⟨name, element, lengths, plainName, plainElement⟩ := field
  simp only [held, whole, IsFlat]
  rcases lengths with _ | ⟨length, _ | ⟨inner, lengths⟩⟩
  · simp
  · simp [Target.nest]
  · cases length with
    | zero => simp
    | succ length =>
      have different : (element.nest (inner :: lengths)).text ≠ element.text := by
        intro same
        exact absurd rfl (plainElement '[' (same ▸ bracket_nest)).2.1
      simp [List.replicate_inj, different]

end ArrayField

section

variable {isUnion : Bool}

/-- A length has a digit behind its opening bracket. -/
theorem isSealed_length (length : Nat) : isSealed ('[' :: (Nat.toDigits 10 length ++ [']', ';'])) = true := by
  have absent : '[' ∉ Nat.toDigits 10 length ++ [']', ';'] := by
    intro member
    rcases List.mem_append.mp member with inside | last
    · exact absurd (Numeral.isDigit_of_mem inside) (by decide)
    · exact absurd last (by decide)
  cases digits : Nat.toDigits 10 length with
  | nil => exact absurd digits Nat.toDigits_ne_nil
  | cons first rest =>
    have digit : first.isDigit = true := Numeral.isDigit_of_mem (digits ▸ List.mem_cons_self)
    have other : first ≠ ']' := by
      rintro rfl
      exact absurd digit (by decide)
    rw [digits] at absent
    rw [List.cons_append, isSealed, List.head?_cons, ← List.cons_append, isSealed_of_not_mem absent]
    simp [other]

theorem Slot.isSealed_line {slot : Slot} (plainType : '[' ∉ slot.type.toList)
    (plainName : '[' ∉ slot.name.toList) : isSealed slot.line.toList = true := by
  obtain ⟨type, name, length⟩ := slot
  cases length with
  | none =>
    refine isSealed_of_not_mem ?_
    simpa [line] using ⟨plainType, plainName⟩
  | some length =>
    have front : '[' ∉ ("public fixed " ++ type ++ " " ++ name).toList := by simpa using ⟨plainType, plainName⟩
    have line : (Slot.line ⟨type, name, some length⟩).toList =
        ("public fixed " ++ type ++ " " ++ name).toList ++ '[' :: (Nat.toDigits 10 length ++ [']', ';']) := by
      simp [Slot.line]
    rw [line]
    exact isSealed_append (isSealed_of_not_mem front) (isSealed_length length)

theorem lines_field {m : TargetMember} : Code.lines (Declaration.field isUnion m) =
    ((Declaration.nested? m).toList.flatMap fun nested =>
      "[StructLayout(LayoutKind.Sequential)]" :: ("public unsafe struct " ++ nested.name) ::
        nested.slots.map Slot.line) ++
      (if isUnion then ["[FieldOffset(0)]"] else []) ++ [(Declaration.slot m).line] := by
  have inside (slots : List Slot) : Code.lines (slots.map fun slot => .line slot.line) = slots.map Slot.line := by
    induction slots with
    | nil => rfl
    | cons slot slots ih => rw [List.map_cons, Code.lines_line, ih, List.map_cons]
  rw [Declaration.field_eq, Code.lines_append, Code.lines_append, Code.lines_flatMap]
  cases isUnion <;> simp [Nested.code, Declaration.sequentialLayout, Declaration.offset, inside]

/-- A field is declared in sealed lines if its own line and those of its nested structure are. -/
theorem isSealed_field {m : TargetMember} {line : String}
    (own : isSealed (Declaration.slot m).line.toList = true)
    (inner : ∀ nested, Declaration.nested? m = some nested → '[' ∉ nested.name.toList ∧
      ∀ slot ∈ nested.slots, isSealed slot.line.toList = true)
    (member : line ∈ Code.lines (Declaration.field isUnion m)) : isSealed line.toList = true := by
  simp only [lines_field, List.mem_append, List.mem_flatMap, Option.mem_toList, List.mem_cons, List.mem_map,
    List.not_mem_nil, or_false] at member
  rcases member with (⟨nested, found, rfl | rfl | ⟨slot, present, rfl⟩⟩ | offset) | rfl
  · decide +kernel
  · rw [String.toList_append]
    exact isSealed_append (by decide +kernel) (isSealed_of_not_mem (inner nested found).1)
  · exact (inner nested found).2 slot present
  · cases isUnion with
    | false => cases offset
    | true =>
      obtain rfl := List.mem_singleton.mp offset
      decide +kernel
  · exact own

end

namespace ArrayField

open Declaration

variable {field : ArrayField} {isUnion : Bool} {line : String}

theorem bracket_not_mem {text : String} (plain : IsPlain text) : '[' ∉ text.toList :=
  fun member => absurd rfl (plain '[' member).2.1

/-- A flat field is declared without managed arrays. -/
theorem isSealed_of_isFlat (flat : field.IsFlat)
    (member : line ∈ Code.lines (Declaration.field isUnion field.toMember)) : isSealed line.toList = true := by
  obtain ⟨name, element, lengths, plainName, plainElement⟩ := field
  have named : '[' ∉ name.toList := bracket_not_mem plainName
  have typed : '[' ∉ element.text.toList := bracket_not_mem plainElement
  have buffered : '[' ∉ (bufferName name).toList := by simpa [bufferName] using named
  simp only [IsFlat] at flat
  cases lengths with
  | nil =>
    obtain ⟨slot_eq, nested_eq⟩ := slot_element name plainElement
    refine isSealed_field ?_ ?_ member <;> simp only [toMember, Target.nest, slot_eq, nested_eq]
    · exact Slot.isSealed_line typed named
    · rintro _ ⟨⟩
  | cons length lengths =>
    have inner : lengths = [] ∨ length = 0 := by simpa using flat
    rcases form_cons name element length lengths with ⟨-, slot_eq, nested_eq⟩ | ⟨slot_eq, nested_eq⟩ <;>
      refine isSealed_field ?_ ?_ member <;> simp only [toMember, slot_eq, nested_eq]
    · exact Slot.isSealed_line typed named
    · rintro _ ⟨⟩
    · exact Slot.isSealed_line buffered named
    · rintro _ ⟨rfl⟩
      refine ⟨buffered, fun slot present => ?_⟩
      obtain ⟨index, within, rfl⟩ := List.mem_map.mp present
      rcases inner with rfl | rfl
      · exact Slot.isSealed_line typed (bracket_not_mem (isPlain_numbered index))
      · cases within

/-- A field with other arrays inside its elements is declared with a managed array. -/
theorem exists_line_of_not_isFlat (deep : ¬ field.IsFlat) :
    ∃ line ∈ Code.lines (Declaration.field isUnion field.toMember), HasManagedArray line := by
  obtain ⟨name, element, lengths, plainName, plainElement⟩ := field
  simp only [IsFlat, not_or, Nat.not_le] at deep
  obtain ⟨deep, nonempty⟩ := deep
  rcases lengths with _ | ⟨length, _ | ⟨inner, lengths⟩⟩
  · exact absurd deep (by simp)
  · exact absurd deep (by simp)
  · cases length with
    | zero => exact absurd rfl nonempty
    | succ length =>
      rcases form_cons name element (length + 1) (inner :: lengths) with ⟨absurdity, -⟩ | ⟨-, nested_eq⟩
      · cases absurdity
      · -- the first element is a row, and its type is spelled as a managed array
        refine ⟨Slot.line ⟨(element.nest (inner :: lengths)).text, "e" ++ toString 0, none⟩, ?_, ?_⟩
        · have first : 0 ∈ List.range (length + 1) := List.mem_range.mpr (Nat.zero_lt_succ length)
          simp only [lines_field, toMember, nested_eq, List.mem_append, List.mem_flatMap, Option.mem_toList,
            Option.some.injEq, exists_eq_left', List.mem_cons]
          exact .inl (.inl (.inr (.inr (List.mem_map_of_mem (List.mem_map_of_mem first)))))
        · refine ⟨("public " ++ (element.nest lengths).text).toList, (" e0;").toList, ?_⟩
          simp [Slot.line, text_nest_cons]

end ArrayField

section

variable {namespaceName name : String} {isUnion : Bool}

theorem contents_structure {fields : List TargetMember} :
    Code.contents? (Declaration.structure name isUnion fields).code name =
      some (Code.contents (fields.flatMap (Declaration.field isUnion))) := by
  simp only [Code.contents?, Declaration.code, List.filterMap_cons, Code.structure?_line, Code.structure?_block,
    List.lookup_cons_self, Option.map_some]

theorem text_structure {fields : List TargetMember} :
    ∃ code, (Declaration.structure name isUnion fields).text namespaceName = Code.text code ∧
      Code.lines code = ["using System.Runtime.InteropServices;", "namespace " ++ namespaceName,
        "[StructLayout(LayoutKind." ++ (if isUnion then "Explicit" else "Sequential") ++ ")]",
        "public unsafe struct " ++ name] ++ fields.flatMap fun m => Code.lines (Declaration.field isUnion m) := by
  refine ⟨_, rfl, ?_⟩
  simp [Declaration.usesInterop, Declaration.code, Code.lines_flatMap]

variable {fields : List ArrayField}

/-- A structure holds the elements of the outermost array of each field. -/
theorem contents_fixedArrays (distinct : (fields.map (·.name)).Nodup)
    (apart : ∀ f ∈ fields, ∀ g ∈ fields, f.element.text ≠ Declaration.bufferName g.name) :
    Code.contents? (Declaration.structure name isUnion (fields.map ArrayField.toMember)).code name =
      some (fields.map ArrayField.held) := by
  have plain : ∀ m ∈ fields.map ArrayField.toMember, IsPlain m.name := by
    intro m member
    obtain ⟨f, -, rfl⟩ := List.mem_map.mp member
    exact f.plainName
  have names : (fields.map ArrayField.toMember).map (·.name) = fields.map (·.name) := List.map_map
  rw [contents_structure, Code.contents, Declaration.slots_body plain, Declaration.structures_body, List.map_map,
    List.map_map]
  refine congrArg some (List.map_congr_left fun f member => ArrayField.elements_slot ?_ ?_)
  · refine Declaration.lookup_structures_of_ne fun m present => ?_
    obtain ⟨g, within, rfl⟩ := List.mem_map.mp present
    exact apart f member g within
  · intro nested found
    exact Declaration.lookup_structures (names ▸ distinct) (List.mem_map_of_mem member) found

/-- A structure has no managed arrays if its fields are flat, and otherwise it has one. -/
theorem hasManagedArray_iff (plainNamespace : '[' ∉ namespaceName.toList) (plainName : '[' ∉ name.toList) :
    HasManagedArray ((Declaration.structure name isUnion (fields.map ArrayField.toMember)).text namespaceName) ↔
      ∃ f ∈ fields, ¬ f.IsFlat := by
  obtain ⟨code, text_eq, lines_eq⟩ := text_structure
  rw [text_eq]
  constructor
  · contrapose!
    intro flat
    refine not_hasManagedArray (Code.holds_text composes_isSealed fun line member => ?_)
    rw [lines_eq, List.mem_append, List.mem_flatMap] at member
    rcases member with header | ⟨m, present, inside⟩
    · simp only [List.mem_cons, List.not_mem_nil, or_false] at header
      rcases header with rfl | rfl | rfl | rfl
      · decide +kernel
      · exact isSealed_of_not_mem (by simpa using plainNamespace)
      · cases isUnion <;> decide +kernel
      · exact isSealed_of_not_mem (by simpa using plainName)
    · obtain ⟨f, within, rfl⟩ := List.mem_map.mp present
      exact ArrayField.isSealed_of_isFlat (flat f within) inside
  · rintro ⟨f, present, deep⟩
    obtain ⟨line, inside, array⟩ := ArrayField.exists_line_of_not_isFlat deep
    have member : line ∈ Code.lines code := by
      rw [lines_eq]
      exact List.mem_append_right _ (List.mem_flatMap.mpr ⟨_, List.mem_map_of_mem present, inside⟩)
    exact array.trans (Code.infix_text member)

/-- The fields of a structure hold all the elements of their types, and the structure is free of managed
arrays, exactly if no array with elements has arrays as its elements. -/
theorem fixedArrays_iff (plainNamespace : '[' ∉ namespaceName.toList) (plainName : '[' ∉ name.toList)
    (distinct : (fields.map (·.name)).Nodup)
    (apart : ∀ f ∈ fields, ∀ g ∈ fields, f.element.text ≠ Declaration.bufferName g.name) :
    (Code.contents? (Declaration.structure name isUnion (fields.map ArrayField.toMember)).code name =
      some (fields.map ArrayField.whole) ↔ ∀ f ∈ fields, f.IsFlat) ∧
    (¬ HasManagedArray ((Declaration.structure name isUnion (fields.map ArrayField.toMember)).text namespaceName) ↔
      ∀ f ∈ fields, f.IsFlat) := by
  constructor
  · rw [contents_fixedArrays distinct apart, Option.some_inj, List.map_inj_left]
    simp only [ArrayField.held_eq_whole_iff]
  · rw [hasManagedArray_iff plainNamespace plainName]
    push Not
    rfl

def ArrayField.labels : List ArrayField :=
  [⟨"count", .primitive "int", [], by decide, by decide⟩,
   ⟨"labels", .pointer (.primitive "byte"), [2], by decide, by decide⟩]

theorem fixedArrays_iff_labels :
    '[' ∉ "Lib".toList ∧ '[' ∉ "Table".toList ∧ (ArrayField.labels.map (·.name)).Nodup ∧
    (∀ f ∈ ArrayField.labels, ∀ g ∈ ArrayField.labels, f.element.text ≠ Declaration.bufferName g.name) ∧
    Code.contents? (Declaration.structure "Table" false (ArrayField.labels.map ArrayField.toMember)).code "Table" =
      some [["int"], ["byte*", "byte*"]] ∧
    ¬ HasManagedArray ((Declaration.structure "Table" false (ArrayField.labels.map ArrayField.toMember)).text "Lib") := by
  have plainNamespace : '[' ∉ "Lib".toList := by decide
  have plainName : '[' ∉ "Table".toList := by decide
  have distinct : (ArrayField.labels.map (·.name)).Nodup := by decide
  have apart : ∀ f ∈ ArrayField.labels, ∀ g ∈ ArrayField.labels,
      f.element.text ≠ Declaration.bufferName g.name := by decide
  have flat : ∀ f ∈ ArrayField.labels, f.IsFlat := by decide
  exact ⟨plainNamespace, plainName, distinct, apart,
    (fixedArrays_iff plainNamespace plainName distinct apart).1.mpr flat,
    (fixedArrays_iff plainNamespace plainName distinct apart).2.mpr flat⟩

/-- The numbers inside two rows of three are lost: a row is a managed array. -/
theorem not_always_whole : ¬ ∀ (isUnion : Bool) (fields : List ArrayField), (fields.map (·.name)).Nodup →
    Code.contents? (Declaration.structure "Grid" isUnion (fields.map ArrayField.toMember)).code "Grid" =
      some (fields.map ArrayField.whole) := by
  intro always
  have rows := always false [⟨"cells", .primitive "int", [2, 3], by decide, by decide⟩] (by decide)
  revert rows
  decide +kernel

end

end Interop
