import Mathlib.Data.List.Basic
import Interop.FileTree

/-! How files and directories change. Where a path leads depends on directories only, so writing
and removing files takes no path elsewhere, and making directories changes no file. -/
namespace Interop

namespace Path

/-- The pieces of a text between slashes, the first one among them. -/
def pieces (text : List Char) : List (List Char) := (splitSlash text).1 :: (splitSlash text).2

theorem pieces_slash (text : List Char) : pieces ('/' :: text) = [] :: pieces text := rfl

theorem pieces_cons {c : Char} (inner : c ≠ '/') (text : List Char) :
    pieces (c :: text) = (c :: (splitSlash text).1) :: (splitSlash text).2 := by
  simp [pieces, splitSlash, inner]

theorem pieces_append_slash (early late : List Char) :
    pieces (early ++ '/' :: late) = pieces early ++ pieces late := by
  induction early with
  | nil => exact pieces_slash late
  | cons c early ih =>
    rw [List.cons_append]
    by_cases slash : c = '/'
    · subst slash
      rw [pieces_slash, pieces_slash, ih, List.cons_append]
    · rw [pieces, pieces, List.cons_append, List.cons.injEq] at ih
      rw [pieces_cons slash, pieces_cons slash, ih.1, ih.2, List.cons_append]

theorem pieces_of_not_mem {text : List Char} (whole : '/' ∉ text) : pieces text = [text] := by
  induction text with
  | nil => rfl
  | cons c text ih =>
    obtain ⟨inner, whole⟩ := not_or.mp (mt List.mem_cons.mpr whole)
    have rest := ih whole
    rw [pieces, List.cons.injEq] at rest
    rw [pieces_cons (Ne.symm inner), rest.1, rest.2]

variable {directory name : String}

theorem join_eq (filled : directory ≠ "") (whole : '/' ∉ name.toList) : join directory name =
    if directory.toList.getLast? = some '/' then directory ++ name else directory ++ "/" ++ name := by
  have relative : ¬ (isAbsolute name ∨ directory = "") := by
    rintro (absolute | empty)
    · exact whole (List.mem_of_mem_head? (of_decide_eq_true absolute))
    · exact filled empty
  rw [join, if_neg relative]

/-- A name in a directory is one piece more, in place of an empty one after a trailing slash. -/
theorem pieces_join (filled : directory ≠ "") (whole : '/' ∉ name.toList) :
    ∃ early, (pieces directory.toList = early ∨ pieces directory.toList = early ++ [[]]) ∧
      pieces (join directory name).toList = early ++ [name.toList] := by
  rw [join_eq filled whole]
  split
  · next trailing =>
    obtain ⟨stem, same⟩ := List.getLast?_eq_some_iff.mp trailing
    refine ⟨pieces stem, .inr ?_, ?_⟩
    · rw [same, pieces_append_slash]
      rfl
    · rw [String.toList_append, same, List.append_assoc, List.singleton_append, pieces_append_slash,
        pieces_of_not_mem whole]
  · have slash : "/".toList = ['/'] := rfl
    refine ⟨pieces directory.toList, .inl rfl, ?_⟩
    rw [String.toList_append, String.toList_append, List.append_assoc, slash, List.singleton_append,
      pieces_append_slash, pieces_of_not_mem whole]

theorem isAbsolute_join (filled : directory ≠ "") (whole : '/' ∉ name.toList) :
    isAbsolute (join directory name) = isAbsolute directory := by
  obtain ⟨first, rest, characters⟩ := List.exists_cons_of_ne_nil (mt String.toList_eq_nil_iff.mp filled)
  rw [join_eq filled whole]
  split <;> simp [isAbsolute, characters]

end Path

namespace FileTree

variable {tree other : FileTree} {location place : Location} {name path text : String}

structure SameDirectories (tree other : FileTree) : Prop where
  workingDirectory : other.workingDirectory = tree.workingDirectory
  directories : ∀ location, other.isDirectory location = tree.isDirectory location

namespace SameDirectories

theorem refl (tree : FileTree) : SameDirectories tree tree := ⟨rfl, fun _ => rfl⟩

theorem trans {third : FileTree} (early : SameDirectories tree other) (late : SameDirectories other third) :
    SameDirectories tree third :=
  ⟨late.workingDirectory.trans early.workingDirectory,
    fun location => (late.directories location).trans (early.directories location)⟩

variable (same : SameDirectories tree other)

include same

theorem walk_eq (location : Location) (pieces : List String) :
    other.walk location pieces = tree.walk location pieces := by
  induction pieces generalizing location with
  | nil => rfl
  | cons piece pieces ih => simp only [walk, same.directories, ih]

theorem locate?_eq (path : String) : other.locate? path = tree.locate? path := by
  simp only [locate?, start, same.workingDirectory, same.walk_eq]

theorem directory?_eq (path : String) : other.directory? path = tree.directory? path := by
  have same_filter : other.isDirectory = tree.isDirectory := funext same.directories
  rw [directory?, directory?, same.locate?_eq, same_filter]

end SameDirectories

theorem isDirectory_congr (same : other.lookup place = tree.lookup place) :
    other.isDirectory place = tree.isDirectory place := by
  rw [isDirectory, isDirectory, same]

theorem ne_nil_of_not_isDirectory (held : ¬ tree.isDirectory location) : location ≠ [] := by
  rintro rfl
  exact held rfl

theorem sameDirectories_put (held : ¬ tree.isDirectory location) (text : String) :
    SameDirectories tree (tree.put location (.file text)) := by
  refine ⟨rfl, fun place => ?_⟩
  by_cases same : place = location
  · subst same
    rw [isDirectory, lookup_put_self _ _ _ (ne_nil_of_not_isDirectory held), Bool.eq_false_iff.mpr held]
    rfl
  · exact isDirectory_congr (lookup_put_other _ _ _ _ same)

theorem sameDirectories_remove (held : ¬ tree.isDirectory location) :
    SameDirectories tree (tree.remove location) := by
  refine ⟨rfl, fun place => ?_⟩
  by_cases same : place = location
  · subst same
    rw [isDirectory, lookup_remove_self _ _ (ne_nil_of_not_isDirectory held), Bool.eq_false_iff.mpr held]
    rfl
  · exact isDirectory_congr (lookup_remove_other _ _ _ same)

theorem walk_append (location : Location) (early late : List String) :
    tree.walk location (early ++ late) = (tree.walk location early).bind (tree.walk · late) := by
  induction early generalizing location with
  | nil => rfl
  | cons piece early ih =>
    rw [List.cons_append, walk, walk]
    split
    · rfl
    split
    · exact ih location
    split
    · exact ih location.dropLast
    split
    · exact ih (location ++ [piece])
    · rfl

theorem walk_empty (ends : tree.walk location [""] = some place) : location = place := by
  rw [walk] at ends
  split at ends
  · cases ends
  · exact Option.some.inj ends

/-- A name that a path can end in: no piece with a meaning of its own, and no slash in it. -/
structure Plain (name : String) : Prop where
  filled : name ≠ ""
  notCurrent : name ≠ "."
  notParent : name ≠ ".."
  whole : '/' ∉ name.toList

theorem walk_plain (plain : Plain name) (ends : tree.walk location [name] = some place) :
    place = location ++ [name] := by
  rw [walk] at ends
  simp only [plain.filled, plain.notCurrent, plain.notParent, or_self, if_false, walk] at ends
  split at ends
  · cases ends
  · split at ends
    · exact (Option.some.inj ends).symm
    · cases ends

theorem locate?_eq_some (leads : tree.locate? path = some place) :
    path ≠ "" ∧ tree.walk (if Path.isAbsolute path then [] else tree.workingDirectory)
      ((Path.pieces path.toList).map String.ofList) = some place := by
  rw [locate?] at leads
  split at leads
  · cases leads
  · next possible => exact ⟨fun empty => possible (.inl empty), leads⟩

/-- A path through a directory leads to a place in it. -/
theorem locate?_join {directory : String} (found : tree.directory? directory = some location)
    (plain : Plain name) (leads : tree.locate? (Path.join directory name) = some place) :
    place = location ++ [name] := by
  obtain ⟨filled, walked⟩ := locate?_eq_some (Option.filter_eq_some_iff.mp found).1
  obtain ⟨-, walks⟩ := locate?_eq_some leads
  obtain ⟨early, ended, joined⟩ := Path.pieces_join filled plain.whole
  rw [joined, Path.isAbsolute_join filled plain.whole, List.map_append, List.map_singleton,
    String.ofList_toList, walk_append] at walks
  obtain ⟨between, reached, last⟩ := Option.bind_eq_some_iff.mp walks
  obtain rfl : between = location := by
    rcases ended with ended | ended
    · rw [ended] at walked
      exact Option.some.inj (reached.symm.trans walked)
    · rw [ended, List.map_append, walk_append, reached, Option.bind_some] at walked
      exact walk_empty walked
  exact walk_plain plain last

theorem write?_eq_some_iff {written : FileTree} : tree.write? path text = some written ↔
    ∃ place, tree.locate? path = some place ∧ ¬ tree.isDirectory place ∧
      tree.put place (.file text) = written := by
  simp [write?, Option.bind_eq_some_iff]

theorem isFile_iff (leads : tree.locate? path = some place) :
    tree.isFile path ↔ ∃ text, tree.lookup place = some (.file text) := by
  rw [isFile, read?, leads, Option.bind_some]
  cases tree.lookup place with
  | none => simp
  | some entry => cases entry <;> simp

/-- A file is still what it was when directories have been made along a path. -/
theorem lookup_makeAlong (pieces : List String) :
    (tree.makeAlong location pieces).1.lookup place = some (.file text) ↔
      tree.lookup place = some (.file text) := by
  fun_induction makeAlong tree location pieces with
  | case1 => rfl
  | case2 => assumption
  | case3 => assumption
  | case4 => assumption
  | case5 => rfl
  | case6 tree location piece pieces _ _ made missing _ ih =>
    rw [ih]
    by_cases same : place = made
    · subst same
      have inner : made ≠ [] := List.append_ne_nil_of_right_ne_nil _ (List.cons_ne_nil _ _)
      simp [lookup_put_self _ _ _ inner, missing]
    · rw [lookup_put_other _ _ _ _ same]
  | case7 => rfl

theorem lookup_makeDirectories (path : String) :
    (tree.makeDirectories path).1.lookup place = some (.file text) ↔ tree.lookup place = some (.file text) := by
  rw [makeDirectories]
  split
  · exact lookup_makeAlong _
  · rfl

theorem mem_entries (found : tree.lookup place = some (.file text)) : (place, .file text) ∈ tree.entries := by
  rw [lookup] at found
  split at found
  · cases found
  · obtain ⟨early, late, same, -⟩ := List.lookup_eq_some_iff.mp found
    rw [same]
    exact List.mem_append_right _ List.mem_cons_self

theorem lookup_ne_none {entry : FileEntry} (member : (place, entry) ∈ tree.entries) :
    tree.lookup place ≠ none := by
  rw [lookup]
  split
  · exact Option.some_ne_none _
  · intro missing
    simpa using List.lookup_eq_none_iff.mp missing _ member

theorem mem_fileNames : name ∈ tree.fileNames location ↔
    ∃ text, (location ++ [name], .file text) ∈ tree.entries := by
  rw [fileNames, List.mem_filterMap]
  constructor
  · rintro ⟨⟨held, entry⟩, member, kept⟩
    cases entry with
    | directory => cases kept
    | file text =>
      cases last : held.getLast? with
      | none => simp [last] at kept
      | some ending =>
        obtain ⟨stem, rfl⟩ := List.getLast?_eq_some_iff.mp last
        obtain ⟨rfl, rfl⟩ : stem = location ∧ ending = name := by simpa using kept
        exact ⟨text, member⟩
  · rintro ⟨text, member⟩
    exact ⟨_, member, by simp⟩

end FileTree

end Interop
