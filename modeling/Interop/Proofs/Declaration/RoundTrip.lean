import Interop.Proofs.Declaration
import Interop.Proofs.Declaration.Literal

/-! Declaration graphs written as JSON values and read again. Every part is read from its own form,
so a graph comes back whole, as long as its numbers are numbers of 64 bits and its literals have a sign
where they can. -/
namespace Interop

namespace Json

/-- An object whose members have the names of a record is that record. -/
theorem record?_object {names : List String} {members : List (String × Json)}
    (named : members.map Prod.fst = names) (distinct : names.Nodup) :
    record? names (.object members) = some members := by
  have known : members.filter (names.contains ·.1) = members := by
    refine List.filter_eq_self.mpr fun entry member => ?_
    rw [List.contains_eq_mem, decide_eq_true_eq, ← named]
    exact List.mem_map_of_mem member
  rw [record?, known]
  exact if_pos (named ▸ distinct)

/-- The form of an object is its first member, if no other member has the name of the tag. -/
theorem tagged?_object {tag : String} {form : Json} {members : List (String × Json)}
    (other : ∀ entry ∈ members, entry.1 ≠ tag) :
    tagged? tag (.object ((tag, form) :: members)) = some (form, .object members) := by
  have untagged : members.filter (·.1 = tag) = [] :=
    List.filter_eq_nil_iff.mpr fun entry member => by simpa using other entry member
  have kept : members.filter (·.1 ≠ tag) = members :=
    List.filter_eq_self.mpr fun entry member => by simpa using other entry member
  have first : ((tag, form) :: members).filter (·.1 = tag) = [(tag, form)] := by
    rw [List.filter_cons_of_pos (by simp), untagged]
  have rest : ((tag, form) :: members).filter (·.1 ≠ tag) = members := by
    rw [List.filter_cons_of_neg (by simp), kept]
  simp only [tagged?, first, rest]

variable {α : Type} {read : Json → Option α} {write : α → Json}

namespace Record

variable {name other : String} {value : Json} {record : Record} {default : α}

@[simp] theorem required_self : required ((name, value) :: record) name read = read value := by
  rw [required, List.lookup_cons_self, Option.bind_some]

@[simp] theorem required_other (different : name ≠ other) :
    required ((other, value) :: record) name read = required record name read := by
  rw [required, required, List.lookup_cons, beq_false_of_ne different]

@[simp] theorem withDefault_self : withDefault ((name, value) :: record) name default read = read value := by
  rw [withDefault, List.lookup_cons_self]

@[simp] theorem withDefault_other (different : name ≠ other) :
    withDefault ((other, value) :: record) name default read = withDefault record name default read := by
  rw [withDefault, withDefault, List.lookup_cons, beq_false_of_ne different]

end Record

theorem listOf_map {items : List α} (each : ∀ item ∈ items, read (write item) = some item) :
    listOf read (.array (items.map write)) = some items := by
  change (items.map write).mapM read = some items
  induction items with
  | nil => rfl
  | cons item items ih =>
    rw [List.map_cons, List.mapM_cons, each item List.mem_cons_self,
      ih fun other member => each other (List.mem_cons_of_mem _ member)]
    rfl

theorem mem_of_listOf {json : Json} {items : List α} (listed : listOf read json = some items) :
    ∀ item ∈ items, ∃ value, read value = some item := by
  obtain ⟨values, -, found⟩ := Option.bind_eq_some_iff.mp listed
  clear listed
  induction values generalizing items with
  | nil =>
    obtain rfl := Option.some.inj found
    exact List.forall_mem_nil _
  | cons value values ih =>
    rw [List.mapM_cons] at found
    obtain ⟨first, own, rest⟩ := Option.bind_eq_some_iff.mp found
    obtain ⟨others, late, same⟩ := Option.bind_eq_some_iff.mp rest
    obtain rfl := Option.some.inj same
    exact List.forall_mem_cons.mpr ⟨⟨value, own⟩, ih late⟩

/-- The items of a list that may be missing are read one by one. -/
theorem Record.mem_of_withDefault {record : Record} {name : String} {items : List α}
    (found : record.withDefault name [] (listOf read) = some items) :
    ∀ item ∈ items, ∃ value, read value = some item := by
  rw [withDefault] at found
  split at found
  · obtain rfl := Option.some.inj found
    exact List.forall_mem_nil _
  · exact mem_of_listOf found

theorem natural?_integer {limit n : Nat} (below : n < limit) : natural? limit (.integer n) = some n := by
  simp [natural?, below]

end Json

namespace CType

mutual

def numbers : CType → List Nat
  | .builtin _ | .tag (.named _) | .typedef _ => []
  | .tag (.anonymous index) => [index]
  | .pointer type => type.numbers
  | .function parameters result => listNumbers parameters ++ result.numbers
  | .array element length => element.numbers ++ length.toList

def listNumbers : List CType → List Nat
  | [] => []
  | type :: types => type.numbers ++ listNumbers types

end

def Representable (type : CType) : Prop := ∀ n ∈ type.numbers, n < Nat.pow 2 64

mutual

theorem isReadable_write : (type : CType) → type.write.isReadable
  | .builtin _ | .tag (.named _) | .tag (.anonymous _) | .typedef _ => rfl
  | .pointer pointee => by
    simp [write, Json.isReadable, Json.membersAreReadable, isReadable_write pointee]
  | .function parameters result => by
    simp [write, Json.isReadable, Json.membersAreReadable, areReadable_writeAll parameters, isReadable_write result]
  | .array element none => by
    simp [write, Json.isReadable, Json.membersAreReadable, isReadable_write element, Json.optional]
  | .array element (some _) => by
    simp [write, Json.isReadable, Json.membersAreReadable, isReadable_write element, Json.optional]

theorem areReadable_writeAll : (types : List CType) → Json.areReadable (writeAll types)
  | [] => rfl
  | type :: types => by
    simp [writeAll, Json.areReadable, isReadable_write type, areReadable_writeAll types]

end

theorem read_writeReference {reference : TagReference} (representable : (tag reference).Representable) :
    TagReference.read reference.write = some reference := by
  cases reference with
  | named => rfl
  | anonymous index =>
    have below : index < Nat.pow 2 64 := representable index (List.mem_singleton_self index)
    simp only [TagReference.read, TagReference.write, Json.newtype?, Json.natural?_integer below]
    rfl

theorem read_writeLength {element : CType} {length : Option Nat}
    (representable : (array element length).Representable) :
    Json.nullable (Json.natural? (Nat.pow 2 64)) (Json.optional (fun (length : Nat) => .integer length) length) =
      some length := by
  cases length with
  | none => rfl
  | some n =>
    have below : n < Nat.pow 2 64 := representable n (List.mem_append_right _ (List.mem_singleton_self n))
    simp only [Json.optional, Json.nullable, Json.natural?_integer below]
    rfl

mutual

/-- A type is read from its own form whatever the bound, if its form nests less deep. -/
theorem readWithin_write (isPart : Bool) : (type : CType) → type.Representable → (bound : Nat) →
    type.write.depth < bound → readWithin isPart bound type.write = some type
  | type, representable, 0, below => absurd below (Nat.not_lt_zero _)
  | .builtin primitive, _, bound + 1, _ => by
    have read : Primitive.read Json.isNullOrEmpty (.string primitive.name) = some primitive :=
      Primitive.ofName?_name primitive
    simp [readWithin, write, Json.tagged?_object, Json.form?, forms, Json.record?_object, read]
  | .pointer pointee, representable, bound + 1, below => by
    have inner : pointee.write.depth < bound := by
      simp only [write, Json.depth, Json.memberDepth] at below
      omega
    simp [readWithin, write, Json.tagged?_object, Json.form?, forms, Json.record?_object,
      readWithin_write true pointee representable bound inner]
  | .tag reference, representable, bound + 1, _ => by
    simp [readWithin, write, Json.tagged?_object, Json.form?, forms, Json.record?_object,
      read_writeReference representable]
  | .typedef name, _, bound + 1, _ => by
    simp [readWithin, write, Json.tagged?_object, Json.form?, forms, Json.record?_object,
      Json.string?]
  | .function parameters result, representable, bound + 1, below => by
    -- A part nests one container less deep than the whole, and a parameter, which lies in a list, two.
    have depths : Json.itemDepth (writeAll parameters) < bound ∧ result.write.depth < bound := by
      simp only [write, Json.depth, Json.memberDepth] at below
      omega
    have first := mapM_readWithin_write parameters (fun n used => representable n (List.mem_append_left _ used))
      bound depths.1
    have second := readWithin_write true result (fun n used => representable n (List.mem_append_right _ used))
      bound depths.2
    simp [readWithin, write, Json.tagged?_object, Json.form?, forms, Json.record?_object,
      Json.listOf, Json.array?, first, second]
  | .array element length, representable, bound + 1, below => by
    have inner : element.write.depth < bound := by
      simp only [write, Json.depth, Json.memberDepth] at below
      omega
    have first := readWithin_write true element (fun n used => representable n (List.mem_append_left _ used))
      bound inner
    simp [-Nat.pow_eq, readWithin, write, Json.tagged?_object, Json.form?, forms, Json.record?_object, first,
      read_writeLength representable]

theorem mapM_readWithin_write : (types : List CType) → (∀ n ∈ listNumbers types, n < Nat.pow 2 64) → (bound : Nat) →
    Json.itemDepth (writeAll types) < bound → (writeAll types).mapM (readWithin true bound) = some types
  | [], _, _, _ => rfl
  | type :: types, representable, bound, below => by
    have depths : type.write.depth < bound ∧ Json.itemDepth (writeAll types) < bound := by
      simp only [writeAll, Json.itemDepth] at below
      omega
    have first := readWithin_write true type (fun n used => representable n (List.mem_append_left _ used))
      bound depths.1
    have rest := mapM_readWithin_write types (fun n used => representable n (List.mem_append_right _ used))
      bound depths.2
    simp [writeAll, first, rest]

end

theorem read_write {type : CType} (representable : type.Representable) : read type.write = some type := by
  rw [read, if_pos (isReadable_write type)]
  exact readWithin_write false type representable _ (Nat.lt_succ_self _)

end CType

/-- The types in a graph hold numbers of 64 bits only, and the values of its enumerators are signed, or
unsigned and too great for a sign. -/
structure Graph.Representable (graph : Graph) : Prop where
  items : ∀ enumeration ∈ graph.enums, ∀ item ∈ enumeration.items, item.value.IsCanonical
  types : ∀ type ∈ graph.types, type.Representable

open Json (listOf_map)

theorem Member.read_write {m : Member} (representable : m.type.Representable) : read m.write = some m := by
  simp [read, write, Json.record?_object, Json.string?, CType.read_write representable]

theorem Struct.read_write {struct : Struct} (representable : ∀ m ∈ struct.fields, m.type.Representable) :
    read struct.write = some struct := by
  have fields := listOf_map fun m member => Member.read_write (representable m member)
  simp [read, write, Json.record?_object, Json.string?, Json.bool?, fields]

theorem EnumItem.read_write {item : EnumItem} (canonical : item.value.IsCanonical) :
    read item.write = some item := by
  simp [read, write, Json.record?_object, Json.string?, IntegerLiteral.read_write canonical]

/-- A name that is empty is not the same as none. -/
theorem Enumeration.read_write {enumeration : Enumeration}
    (canonical : ∀ item ∈ enumeration.items, item.value.IsCanonical) :
    read enumeration.write = some enumeration := by
  have name : Json.nullable Json.string? (Json.optional .string enumeration.name) = some enumeration.name := by
    cases enumeration.name <;> rfl
  have underlying : Primitive.read Json.isNull (.string enumeration.underlying.name) =
      some enumeration.underlying := Primitive.ofName?_name _
  have items := listOf_map fun item member => EnumItem.read_write (canonical item member)
  simp [read, write, Json.record?_object, name, underlying, items]

theorem Typedef.read_write {typedef : Typedef} (representable : typedef.underlying.Representable) :
    read typedef.write = some typedef := by
  simp [read, write, Json.record?_object, Json.string?, CType.read_write representable]

theorem Function.read_write {function : Function} (representable : ∀ type ∈ function.types, type.Representable) :
    read function.write = some function := by
  have parameters := listOf_map fun m member =>
    Member.read_write (representable m.type (List.mem_append_left _ (List.mem_map_of_mem member)))
  have result := CType.read_write (representable function.result
    (List.mem_append_right _ (List.mem_singleton_self _)))
  simp [read, write, Json.record?_object, Json.string?, parameters, result]

theorem Macro.read_write (m : Macro) : read m.write = some m := by
  simp [read, write, Json.record?_object, Json.string?]

theorem TranslationUnit.read_write {unit : TranslationUnit}
    (items : ∀ enumeration ∈ unit.enums, ∀ item ∈ enumeration.items, item.value.IsCanonical)
    (types : ∀ type ∈ unit.types, type.Representable) : read unit.write = some unit := by
  simp only [TranslationUnit.types, List.mem_append, List.mem_flatMap, List.mem_map] at types
  have structs := listOf_map fun struct listed => Struct.read_write fun m member =>
    types m.type (.inl (.inl ⟨struct, listed, m, member, rfl⟩))
  have enums := listOf_map fun enumeration listed => Enumeration.read_write (items enumeration listed)
  have typedefs := listOf_map fun typedef listed =>
    Typedef.read_write (types typedef.underlying (.inl (.inr ⟨typedef, listed, rfl⟩)))
  have functions := listOf_map fun function listed => Function.read_write fun type used =>
    types type (.inr ⟨function, listed, used⟩)
  have macros := listOf_map fun m (_ : m ∈ unit.macros) => m.read_write
  simp [read, write, Json.record?_object, Json.string?, structs, enums, typedefs, functions, macros]

section

open Json.Record (mem_of_withDefault)

variable {json : Json}

theorem EnumItem.isCanonical_of_read {item : EnumItem} (found : read json = some item) : item.value.IsCanonical := by
  simp only [read, Json.Record.required, bind, pure, Option.bind_eq_some_iff, Option.some.injEq] at found
  obtain ⟨record, -, name, -, value, ⟨number, -, read⟩, rfl⟩ := found
  exact (IntegerLiteral.read_eq_some_iff.mp read).2

theorem Enumeration.isCanonical_of_read {enumeration : Enumeration} (found : read json = some enumeration) :
    ∀ item ∈ enumeration.items, item.value.IsCanonical := by
  simp only [read, bind, pure, Option.bind_eq_some_iff, Option.some.injEq] at found
  obtain ⟨record, -, name, -, underlying, -, items, listed, rfl⟩ := found
  intro item member
  obtain ⟨value, read⟩ := mem_of_withDefault listed item member
  exact EnumItem.isCanonical_of_read read

theorem TranslationUnit.isCanonical_of_read {unit : TranslationUnit} (found : read json = some unit) :
    ∀ enumeration ∈ unit.enums, ∀ item ∈ enumeration.items, item.value.IsCanonical := by
  simp only [read, bind, pure, Option.bind_eq_some_iff, Option.some.injEq] at found
  obtain ⟨record, -, fileName, -, structs, -, enums, listed, typedefs, -, functions, -, macros, -, rfl⟩ := found
  intro enumeration member
  obtain ⟨value, read⟩ := mem_of_withDefault listed enumeration member
  exact Enumeration.isCanonical_of_read read

/-- A graph that was read has canonical literals only. -/
theorem Graph.isCanonical_of_read {graph : Graph} (found : read json = some graph) :
    ∀ enumeration ∈ graph.enums, ∀ item ∈ enumeration.items, item.value.IsCanonical := by
  simp only [read, bind, pure, Option.bind_eq_some_iff, Option.some.injEq] at found
  obtain ⟨record, -, units, listed, rfl⟩ := found
  intro enumeration member
  obtain ⟨unit, inside, declared⟩ := List.mem_flatMap.mp member
  obtain ⟨value, read⟩ := mem_of_withDefault listed unit inside
  exact TranslationUnit.isCanonical_of_read read enumeration declared

end

/-- A graph that is written is read again as it was. -/
theorem Graph.read_undoes_write {graph : Graph} (representable : graph.Representable) :
    read graph.write = some graph := by
  have units := listOf_map fun unit listed => TranslationUnit.read_write
    (fun enumeration member => representable.items enumeration (List.mem_flatMap.mpr ⟨unit, listed, member⟩))
    (fun type used => representable.types type (List.mem_flatMap.mpr ⟨unit, listed, used⟩))
  simp [read, write, Json.record?_object, units]

/-- Types within types, enumerations with a name, an empty name and none, and the greatest value. -/
def nestedGraph : Graph :=
  let handler := "handler"
  ⟨[{
  fileName := "nested.h"
  structs := [⟨"Node", [⟨"next", .pointer (.tag (.named "Node"))⟩,
    ⟨"", .array (.array (.typedef handler) (some 4)) none⟩], true, false⟩]
  enums := [⟨some "Color", .unsignedLong, [⟨"ALL", .unsigned 18446744073709551615⟩]⟩,
    ⟨some "", .int, [⟨"LAST", .signed (-1)⟩]⟩, ⟨none, .int, []⟩]
  typedefs := [⟨handler, .pointer (.function
    [.tag (.anonymous 1), .pointer (.function [] (.builtin .void))] (.builtin .int))⟩]
  functions := [⟨"visit", [⟨"node", .pointer (.tag (.named "Node"))⟩], .builtin .void⟩]
  macros := [⟨"LIMIT", "1 << 3"⟩] }]⟩

theorem Graph.read_undoes_write_nested :
    nestedGraph.Representable ∧ read nestedGraph.write = some nestedGraph := by
  have representable : nestedGraph.Representable := by
    have items : ∀ enumeration ∈ nestedGraph.enums, ∀ item ∈ enumeration.items, item.value.IsCanonical := by
      decide
    have types : ∀ type ∈ nestedGraph.types, ∀ n ∈ type.numbers, n < Nat.pow 2 64 := by decide
    exact ⟨items, types⟩
  exact ⟨representable, read_undoes_write representable⟩

example : EnumItem.read (EnumItem.write ⟨"FEW", .unsigned 5⟩) = some ⟨"FEW", .signed 5⟩ := by decide

end Interop
