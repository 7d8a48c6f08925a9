import Interop.Declaration.Dump

/-! Which dumps stand in for a scan of headers. A path is the end of another only if it ends with the same
component, unless it has none, and the only such path is the empty text. So a dump that is accepted has a unit
for every header, or one without a file name, which is taken for the unit of every header. -/
namespace Interop

namespace Path

/-- The last components of two paths agree, and so do those in front of them as far as both go. -/
structure Agree (first second : String) : Prop where
  last : ∃ component ∈ (components first).getLast?, component ∈ (components second).getLast?
  ending : components first <:+ components second ∨ components second <:+ components first

variable {first second text : String}

theorem innerComponent?_eq_none_iff {piece : List Char} :
    innerComponent? piece = none ↔ piece = [] ∨ piece = ['.'] := by
  unfold innerComponent?
  split
  · next blank => simp [blank]
  · next visible =>
    split <;> simp [visible]

theorem splitSlash_cons {c : Char} (inner : c ≠ '/') (rest : List Char) :
    splitSlash (c :: rest) = (c :: (splitSlash rest).1, (splitSlash rest).2) := by
  simp [splitSlash, inner]

/-- A dot alone is a component where a path starts with it, so every text but the empty one has some. -/
theorem components_eq_nil_iff : components text = [] ↔ text = "" := by
  constructor
  · intro none
    unfold components at none
    split at none
    · next empty => exact String.toList_eq_nil_iff.mp empty
    · cases none
    · next empty absolute =>
      exfalso
      obtain ⟨c, rest, characters⟩ := List.exists_cons_of_ne_nil empty
      have inner : c ≠ '/' := by
        rintro rfl
        exact absolute rest characters
      rw [characters, splitSlash_cons inner] at none
      dsimp only at none
      split at none
      · cases none
      · next visible =>
        obtain ⟨first, -⟩ := List.append_eq_nil_iff.mp none
        rcases innerComponent?_eq_none_iff.mp (Option.toList_eq_nil_iff.mp first) with blank | dot
        · cases blank
        · exact visible dot
  · rintro rfl
    rfl

theorem agree_of_isSuffix (suffix : components first <:+ components second) (filled : components first ≠ []) :
    Agree first second := by
  have found := List.getLast?_eq_some_getLast filled
  obtain ⟨front, whole⟩ := suffix
  refine ⟨⟨_, found, ?_⟩, .inl ⟨front, whole⟩⟩
  rw [← whole, List.getLast?_append, found]
  rfl

theorem Agree.symm (agree : Agree first second) : Agree second first := by
  obtain ⟨⟨last, own, other⟩, ending⟩ := agree
  exact ⟨⟨last, other, own⟩, ending.symm⟩

theorem endsWith_iff {text ending : String} : endsWith text ending ↔ components ending <:+ components text :=
  List.isSuffixOf_iff_suffix

/-- A path without components is taken for every file. -/
theorem sameFile_iff (filled : components second ≠ []) : sameFile first second ↔ first = "" ∨ Agree first second := by
  rw [sameFile, Bool.or_eq_true, endsWith_iff, endsWith_iff]
  constructor
  · rintro (suffix | suffix)
    · exact .inr (agree_of_isSuffix suffix filled).symm
    · by_cases empty : components first = []
      · exact .inl (components_eq_nil_iff.mp empty)
      · exact .inr (agree_of_isSuffix suffix empty)
  · rintro (rfl | agree)
    · exact .inr List.nil_suffix
    · exact agree.ending.symm

end Path

namespace Dump

variable {dump : Dump} {headers : List String} {graph : Graph}

/-- A scan succeeds with the units of its dump, and only if they cover the headers. -/
theorem scan_eq_ok_iff : (dump.scan headers).result = .ok graph ↔
    dump.status = .success ∧ dump.covers headers ∧ graph = ⟨dump.units⟩ := by
  rw [scan]
  cases dump.status <;> simp
  cases dump.covers headers <;> simp [eq_comm]

def Accepts (text : String) (headers : List String) (graph : Graph) : Prop :=
  ∃ dump, parse text = some dump ∧ (dump.scan headers).result = .ok graph

theorem covers_iff (filled : ∀ header ∈ headers, Path.components header ≠ []) : dump.covers headers ↔
    (∃ unit ∈ dump.units, unit.fileName = "") ∨
      ∀ header ∈ headers, ∃ unit ∈ dump.units, Path.Agree unit.fileName header := by
  simp only [covers, List.all_eq_true, List.any_eq_true]
  constructor
  · intro covered
    by_cases unnamed : ∃ unit ∈ dump.units, unit.fileName = ""
    · exact .inl unnamed
    · refine .inr fun header member => ?_
      obtain ⟨unit, inside, same⟩ := covered header member
      rcases (Path.sameFile_iff (filled header member)).mp same with empty | agree
      · exact absurd ⟨unit, inside, empty⟩ unnamed
      · exact ⟨unit, inside, agree⟩
  · rintro (⟨unit, inside, empty⟩ | agrees) header member
    · exact ⟨unit, inside, (Path.sameFile_iff (filled header member)).mpr (.inl empty)⟩
    · obtain ⟨unit, inside, agree⟩ := agrees header member
      exact ⟨unit, inside, (Path.sameFile_iff (filled header member)).mpr (.inr agree)⟩

/-- A dump is accepted exactly if it reports success and either has a unit for every header, whose path agrees
with it, or a unit without a file name. -/
theorem accepts_iff {text : String} (filled : ∀ header ∈ headers, Path.components header ≠ []) :
    Accepts text headers graph ↔ ∃ dump, parse text = some dump ∧ dump.status = .success ∧ graph = ⟨dump.units⟩ ∧
      ((∃ unit ∈ dump.units, unit.fileName = "") ∨
        ∀ header ∈ headers, ∃ unit ∈ dump.units, Path.Agree unit.fileName header) := by
  unfold Accepts
  refine exists_congr fun dump => and_congr_right fun _ => ?_
  rw [scan_eq_ok_iff, covers_iff filled]
  exact and_congr_right fun _ => and_comm

def unitNamed (fileName : String) : TranslationUnit := ⟨fileName, [], [], [], [], []⟩

/-- Slashes and dots that leave no component make no difference. -/
def includedText : String := "\x7b\"translation_units\": [\x7b\"file_name\": \"/usr//include/tree.h/.\"\x7d]\x7d"

theorem accepts_iff_included :
    Accepts includedText ["include/tree.h", "tree.h"] ⟨[unitNamed "/usr//include/tree.h/."]⟩ := by
  have parsed : parse includedText = some ⟨.success, [], [unitNamed "/usr//include/tree.h/."]⟩ := by
    decide +kernel
  have agree (header : String) (member : header ∈ ["include/tree.h", "tree.h"]) :
      Path.Agree "/usr//include/tree.h/." header := by
    simp only [List.mem_cons, List.not_mem_nil, or_false] at member
    rcases member with rfl | rfl <;> exact ⟨⟨.name "tree.h".toList, rfl, rfl⟩, .inr (by decide)⟩
  refine (accepts_iff (by decide)).mpr ⟨_, parsed, rfl, rfl, .inr fun header member => ?_⟩
  exact ⟨_, List.mem_singleton_self _, agree header member⟩

/-- A unit without a file name is the unit of a header whose file is not there. -/
def unnamedText : String := "\x7b\"translation_units\": [\x7b\"file_name\": \"\"\x7d]\x7d"

theorem not_always_contained : ¬ ∀ (text : String) (headers : List String) (graph : Graph),
    (∀ header ∈ headers, Path.components header ≠ []) → Accepts text headers graph →
      ∀ header ∈ headers, ∃ unit ∈ graph.units, Path.Agree unit.fileName header := by
  intro contained
  have parsed : parse unnamedText = some ⟨.success, [], [unitNamed ""]⟩ := by decide +kernel
  have accepts : Accepts unnamedText ["tree.h"] ⟨[unitNamed ""]⟩ := ⟨_, parsed, rfl⟩
  obtain ⟨unit, member, agree⟩ := contained _ _ _ (by decide) accepts "tree.h" (by decide)
  obtain rfl := List.mem_singleton.mp member
  obtain ⟨component, own, -⟩ := agree.last
  cases own

end Dump

end Interop
