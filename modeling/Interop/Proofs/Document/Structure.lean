import Mathlib.Data.List.Nodup
import Mathlib.Data.List.Perm.Basic
import Interop.Document.Artifact
import Interop.Proofs.Constant.Numeral

/-! Bodies of structures read back. A line of a body declares a field: its name is what follows the last
blank, and a length stands in brackets behind the name. A block declares a nested structure. Each field of
a structure is written as one such line, with a nested structure in front of it where its elements do not
fit into a fixed buffer. -/
namespace Interop

/-- A field as a line declares it; only a fixed buffer has a length. -/
structure Slot where
  type : String
  name : String
  length : Option Nat
  deriving DecidableEq, Repr

/-- A name without the characters that end a name in a body. -/
def IsPlain (name : String) : Prop := ∀ c ∈ name.toList, c ≠ ' ' ∧ c ≠ '[' ∧ c ≠ ';'

instance (name : String) : Decidable (IsPlain name) := List.decidableBAll _ name.toList

theorem IsPlain.append {front rest : String} (plain : IsPlain front) (plain' : IsPlain rest) :
    IsPlain (front ++ rest) := by
  intro c member
  rw [String.toList_append] at member
  exact (List.mem_append.mp member).elim (plain c) (plain' c)

theorem isPlain_toString (number : Nat) : IsPlain (toString number) := by
  intro c member
  rw [Nat.toString_eq_repr, Nat.toList_repr] at member
  have digit := Numeral.isDigit_of_mem member
  refine ⟨?_, ?_, ?_⟩ <;> rintro rfl <;> exact absurd digit (by decide)

namespace Slot

def line (slot : Slot) : String :=
  match slot.length with
  | none => "public " ++ slot.type ++ " " ++ slot.name ++ ";"
  | some length => "public fixed " ++ slot.type ++ " " ++ slot.name ++ "[" ++ toString length ++ "];"

def own (slot : Slot) : List String := List.replicate (slot.length.getD 1) slot.type

def lastWord (text : List Char) : List Char := (text.reverse.takeWhile (· ≠ ' ')).reverse

def beforeLast (text : List Char) : List Char := (text.reverse.dropWhile (· ≠ ' ')).tail.reverse

def isNameChar (c : Char) : Bool := c ≠ '[' && c ≠ ';'

def ofLine? (line : String) : Option Slot :=
  let front := beforeLast line.toList
  let declarator := lastWord line.toList
  let name := String.ofList (declarator.takeWhile isNameChar)
  match declarator.dropWhile isNameChar with
  | [';'] => ("public ".toList.isPrefixOf? front).map fun type => ⟨String.ofList type, name, none⟩
  | '[' :: rest =>
    if rest.dropWhile Char.isDigit = [']', ';'] then
      ("public fixed ".toList.isPrefixOf? front).map fun type =>
        ⟨String.ofList type, name, some (Nat.ofDigitChars 10 (rest.takeWhile Char.isDigit) 0)⟩
    else none
  | _ => none

section

variable {front word : List Char} (unbroken : ∀ c ∈ word, c ≠ ' ')

theorem reverse_line : (front ++ ' ' :: word).reverse = word.reverse ++ ' ' :: front.reverse := by simp

include unbroken

theorem lastWord_append : lastWord (front ++ ' ' :: word) = word := by
  rw [lastWord, reverse_line, List.takeWhile_append_of_pos (by simpa using unbroken)]
  simp

theorem beforeLast_append : beforeLast (front ++ ' ' :: word) = front := by
  rw [beforeLast, reverse_line, List.dropWhile_append_of_pos (by simpa using unbroken)]
  simp

end

theorem isPrefixOf?_append (front rest : List Char) : front.isPrefixOf? (front ++ rest) = some rest :=
  List.isPrefixOf?_eq_some_iff_append_eq.mpr rfl

/-- A plain name ends where another character stops it, and is not broken before. -/
theorem declarator {name : String} {stop : Char} {rest : List Char} (plain : IsPlain name)
    (stops : isNameChar stop = false) (unbroken : ∀ c ∈ stop :: rest, c ≠ ' ') :
    (name.toList ++ stop :: rest).takeWhile isNameChar = name.toList ∧
    (name.toList ++ stop :: rest).dropWhile isNameChar = stop :: rest ∧
    ∀ c ∈ name.toList ++ stop :: rest, c ≠ ' ' := by
  have named : ∀ c ∈ name.toList, isNameChar c = true := fun c member => by simp [isNameChar, (plain c member).2]
  refine ⟨?_, ?_, fun c member => ?_⟩
  · rw [List.takeWhile_append_of_pos named, List.takeWhile_cons, stops]
    simp
  · rw [List.dropWhile_append_of_pos named, List.dropWhile_cons, stops]
    simp
  · exact (List.mem_append.mp member).elim (fun inside => (plain c inside).1) (unbroken c)

theorem ofLine?_unsized {type name : String} (plain : IsPlain name) :
    ofLine? ("public " ++ type ++ " " ++ name ++ ";") = some ⟨type, name, none⟩ := by
  have line : ("public " ++ type ++ " " ++ name ++ ";").toList =
      ("public ".toList ++ type.toList) ++ ' ' :: (name.toList ++ [';']) := by simp
  have behind : ∀ c ∈ [';'], c ≠ ' ' := by simp
  obtain ⟨taken, dropped, unbroken⟩ := declarator plain rfl behind
  simp only [ofLine?, line, lastWord_append unbroken, beforeLast_append unbroken, taken, dropped,
    isPrefixOf?_append, Option.map_some, String.ofList_toList]

theorem ofLine?_sized {type name : String} (plain : IsPlain name) (length : Nat) :
    ofLine? ("public fixed " ++ type ++ " " ++ name ++ "[" ++ toString length ++ "];") =
      some ⟨type, name, some length⟩ := by
  have line : ("public fixed " ++ type ++ " " ++ name ++ "[" ++ toString length ++ "];").toList =
      ("public fixed ".toList ++ type.toList) ++
        ' ' :: (name.toList ++ '[' :: (Nat.toDigits 10 length ++ [']', ';'])) := by simp
  have digit : ∀ c ∈ Nat.toDigits 10 length, c.isDigit = true := fun c member => Numeral.isDigit_of_mem member
  have behind : ∀ c ∈ '[' :: (Nat.toDigits 10 length ++ [']', ';']), c ≠ ' ' := by
    simp only [List.mem_cons, List.mem_append, List.not_mem_nil, or_false]
    rintro c (rfl | inside | rfl | rfl)
    · decide
    · rintro rfl
      exact absurd (digit _ inside) (by decide)
    · decide
    · decide
  obtain ⟨taken, dropped, unbroken⟩ := declarator plain rfl behind
  have closes : Char.isDigit ']' = false := rfl
  simp only [ofLine?, line, lastWord_append unbroken, beforeLast_append unbroken, taken, dropped,
    List.takeWhile_append_of_pos digit, List.dropWhile_append_of_pos digit, List.takeWhile_cons, List.dropWhile_cons,
    closes, Bool.false_eq_true, if_false, if_true, List.append_nil, Nat.ofDigitChars_ten_toDigits,
    isPrefixOf?_append, Option.map_some, String.ofList_toList]

/-- A field is read back from its line. -/
theorem ofLine?_line {slot : Slot} (plain : IsPlain slot.name) : ofLine? slot.line = some slot := by
  obtain ⟨type, name, length⟩ := slot
  cases length with
  | none => exact ofLine?_unsized plain
  | some length => exact ofLine?_sized plain length

end Slot

namespace Code

def slot? : Code → Option Slot
  | .line text => Slot.ofLine? text
  | _ => none

def structure? : Code → Option (String × List Code)
  | .block header body =>
    ("public unsafe struct ".toList.isPrefixOf? header.toList).map fun name => (String.ofList name, body)
  | _ => none

def declared? (code : Code) : Option String := (code.slot?.map (·.name)).or (code.structure?.map (·.1))

theorem slot?_line {slot : Slot} (plain : IsPlain slot.name) : (Code.line slot.line).slot? = some slot :=
  Slot.ofLine?_line plain

@[simp] theorem slot?_block (header : String) (body : List Code) : (Code.block header body).slot? = none := rfl

@[simp] theorem slot?_layout : Declaration.sequentialLayout.slot? = none := by decide +kernel

@[simp] theorem slot?_offset : (Code.line "[FieldOffset(0)]").slot? = none := by decide +kernel

@[simp] theorem structure?_line (text : String) : (Code.line text).structure? = none := rfl

@[simp] theorem structure?_layout : Declaration.sequentialLayout.structure? = none := rfl

@[simp] theorem structure?_block (name : String) (body : List Code) :
    (Code.block ("public unsafe struct " ++ name) body).structure? = some (name, body) := by
  rw [structure?, String.toList_append, Slot.isPrefixOf?_append, Option.map_some, String.ofList_toList]

end Code

/-- A structure for the elements of an array, nested in front of its field. -/
structure Nested where
  name : String
  slots : List Slot

def Nested.code (nested : Nested) : List Code :=
  [Declaration.sequentialLayout,
    .block ("public unsafe struct " ++ nested.name) (nested.slots.map fun slot => .line slot.line)]

namespace Declaration

def slot (m : TargetMember) : Slot :=
  match m.type with
  | .array element (some length) =>
    if element.isBufferElement then ⟨element.text, m.name, some length⟩ else ⟨bufferName m.name, m.name, none⟩
  | type => ⟨type.text, m.name, none⟩

def nested? (m : TargetMember) : Option Nested :=
  match m.type with
  | .array element (some length) =>
    if element.isBufferElement then none
    else some ⟨bufferName m.name, (List.range length).map fun index => ⟨element.text, "e" ++ toString index, none⟩⟩
  | _ => none

def offset (isUnion : Bool) : List Code := if isUnion then [.line "[FieldOffset(0)]"] else []

/-- The names that a field takes up in the body of a structure. -/
def memberNames (m : TargetMember) : List String := ((nested? m).map (·.name)).toList ++ [m.name]

variable {isUnion : Bool} {m : TargetMember}

theorem name_slot : (slot m).name = m.name := by
  unfold slot
  split
  · split <;> rfl
  · rfl

theorem name_nested {nested : Nested} (found : nested? m = some nested) : nested.name = bufferName m.name := by
  unfold nested? at found
  split at found
  · split at found
    · cases found
    · cases found
      rfl
  · cases found

theorem line_element (type : String) (index : Nat) :
    Slot.line ⟨type, "e" ++ toString index, none⟩ = "public " ++ type ++ " e" ++ toString index ++ ";" := by
  have blank : " e" = " " ++ "e" := rfl
  simp only [Slot.line, blank, String.append_assoc]

/-- A field is written as one line, behind its nested structure if it has one. -/
theorem field_eq : field isUnion m =
    (nested? m).toList.flatMap Nested.code ++ offset isUnion ++ [.line (slot m).line] := by
  obtain ⟨name, type⟩ := m
  cases type with
  | array element length =>
    cases length with
    | none => rfl
    | some length =>
      cases isElement : element.isBufferElement with
      | true =>
        simp only [field, nested?, slot, isElement, if_true]
        rfl
      | false =>
        have code : buffer name element length = Nested.code ⟨bufferName name,
            (List.range length).map fun index => ⟨element.text, "e" ++ toString index, none⟩⟩ := by
          simp only [buffer, Nested.code, List.map_map, Function.comp_def, line_element]
        simp only [field, nested?, slot, isElement, Bool.false_eq_true, if_false, code]
        simp [Slot.line, offset]
  | primitive | named | pointer | functionPointer => rfl

section

variable (plain : IsPlain m.name)

include plain

theorem slots_field : (field isUnion m).filterMap Code.slot? = [slot m] := by
  have own : (Code.line (slot m).line).slot? = some (slot m) := Code.slot?_line (name_slot.symm ▸ plain)
  rw [field_eq]
  cases nested? m <;> cases isUnion <;> simp [List.filterMap_cons, Nested.code, offset, own]

theorem declared_field : (field isUnion m).filterMap Code.declared? = memberNames m := by
  have own : (Code.line (slot m).line).slot? = some (slot m) := Code.slot?_line (name_slot.symm ▸ plain)
  rw [field_eq, memberNames]
  cases nested? m <;> cases isUnion <;> simp [Code.declared?, Nested.code, offset, own, name_slot]

end

theorem structures_field : (field isUnion m).filterMap Code.structure? =
    ((nested? m).map fun nested => (nested.name, nested.slots.map fun slot => Code.line slot.line)).toList := by
  rw [field_eq]
  cases nested? m <;> cases isUnion <;> simp [List.filterMap_cons, Nested.code, offset]

section

variable {fields : List TargetMember} (plain : ∀ m ∈ fields, IsPlain m.name)

include plain

theorem slots_body : (fields.flatMap (field isUnion)).filterMap Code.slot? = fields.map slot := by
  rw [List.filterMap_flatMap, List.map_eq_flatMap]
  exact List.flatMap_congr fun m member => slots_field (plain m member)

/-- A body declares the names of its fields and of the structures nested for them. -/
theorem declared_body : (fields.flatMap (field isUnion)).filterMap Code.declared? = fields.flatMap memberNames := by
  rw [List.filterMap_flatMap]
  exact List.flatMap_congr fun m member => declared_field (plain m member)

end

/-- A structure declares no name twice if its fields have different names, and none of them is called as a
structure nested for another. -/
theorem nodup_memberNames_iff {fields : List TargetMember} : (fields.flatMap memberNames).Nodup ↔
    (fields.map (·.name)).Nodup ∧
      ¬ ∃ m ∈ fields, (nested? m).isSome ∧ bufferName m.name ∈ fields.map (·.name) := by
  have mem_nested {m : TargetMember} {name : String} : name ∈ ((nested? m).map (·.name)).toList ↔
      (nested? m).isSome ∧ name = bufferName m.name := by
    cases found : nested? m with
    | none => simp
    | some nested => simp [name_nested found]
  have parts := List.flatMap_append_perm fields (fun m => ((nested? m).map (·.name)).toList) fun m => [m.name]
  have names : (fields.flatMap fun m => [m.name]) = fields.map (·.name) := List.map_eq_flatMap.symm
  change (fields.flatMap fun m => ((nested? m).map (·.name)).toList ++ [m.name]).Nodup ↔ _
  rw [← parts.nodup_iff, names, List.nodup_append, List.nodup_flatMap]
  constructor
  · rintro ⟨-, distinct, apart⟩
    refine ⟨distinct, ?_⟩
    rintro ⟨m, member, given, taken⟩
    exact apart _ (List.mem_flatMap.mpr ⟨m, member, mem_nested.mpr ⟨given, rfl⟩⟩) _ taken rfl
  · rintro ⟨distinct, free⟩
    refine ⟨⟨?_, ?_⟩, distinct, ?_⟩
    · intro m _
      cases nested? m <;> simp
    · refine (List.pairwise_map.mp distinct).imp fun different => ?_
      intro name first second
      obtain ⟨-, rfl⟩ := mem_nested.mp first
      obtain ⟨-, same⟩ := mem_nested.mp second
      exact different ((String.append_left_inj _).mp same)
    · rintro _ nested _ taken rfl
      obtain ⟨m, member, inside⟩ := List.mem_flatMap.mp nested
      obtain ⟨given, rfl⟩ := mem_nested.mp inside
      exact free ⟨m, member, given, taken⟩

end Declaration

end Interop
