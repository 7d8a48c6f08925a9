import Mathlib.Data.List.Basic
import Interop.Target

/-! Types read back from their spelling. The stars and brackets behind a type belong to it as far as they
go, and the parameters and the result of a function pointer stand between angle brackets, each a whole type.
So a spelling stands for one type only, up to what is not spelled: the lengths of arrays, and whether a name
is a primitive's or a declaration's. -/
namespace Interop

/-- Letters, digits and the underscore; what is not ASCII counts as a letter. -/
def isWordPart (c : Char) : Bool := c.isAlphanum || c = '_' || 128 ≤ c.toNat

def isWord (text : String) : Bool := text.toList.all isWordPart

def isIdentifier (text : String) : Bool := text ≠ "" && isWord text

theorem isWord_of_isIdentifier {text : String} (identifier : isIdentifier text) : isWord text :=
  (Bool.and_eq_true_iff.mp identifier).2

theorem isWordPart_of_mem {text : String} {c : Char} (word : isWord text) (member : c ∈ text.toList) :
    isWordPart c = true :=
  List.all_eq_true.mp word c member

theorem head?_of_isIdentifier {text : String} (identifier : isIdentifier text) :
    ∃ c ∈ text.toList.head?, isWordPart c = true := by
  obtain ⟨nonempty, word⟩ := Bool.and_eq_true_iff.mp identifier
  cases letters : text.toList with
  | nil => exact absurd (String.toList_eq_nil_iff.mp letters) (of_decide_eq_true nonempty)
  | cons c rest => exact ⟨c, rfl, isWordPart_of_mem word (by simp [letters])⟩

theorem head?_append {front : String} {c : Char} (first : c ∈ front.toList.head?) (rest : String) :
    c ∈ (front ++ rest).toList.head? := by
  rw [String.toList_append, List.head?_append, Option.mem_def.mp first]
  rfl

/-- What stops a word at the front of a text is no part of the word. -/
theorem span_isWordPart {word rest : List Char} (inside : word.all isWordPart)
    (stops : ∀ c ∈ rest.head?, isWordPart c = false) :
    (word ++ rest).takeWhile isWordPart = word ∧ (word ++ rest).dropWhile isWordPart = rest := by
  have all := List.all_eq_true.mp inside
  rw [List.takeWhile_append_of_pos all, List.dropWhile_append_of_pos all]
  cases rest with
  | nil => simp
  | cons c rest =>
    have stop : isWordPart c = false := stops c rfl
    simp [stop]

namespace Target

mutual

def leaves : Target → List String
  | .primitive name | .named name => [name]
  | .pointer pointee => pointee.leaves
  | .functionPointer parameters result => allLeaves parameters ++ result.leaves
  | .array element _ => element.leaves

def allLeaves : List Target → List String
  | [] => []
  | type :: types => type.leaves ++ allLeaves types

end

mutual

/-- A type without what its spelling leaves out. -/
def shape : Target → Target
  | .primitive name | .named name => .named name
  | .pointer pointee => .pointer pointee.shape
  | .functionPointer parameters result => .functionPointer (shapes parameters) result.shape
  | .array element _ => .array element.shape none

def shapes : List Target → List Target
  | [] => []
  | type :: types => type.shape :: shapes types

end

def opening : String := "delegate* unmanaged<"

def suffixed (type : Target) : List Char → Target × List Char
  | '*' :: rest => suffixed (.pointer type) rest
  | '[' :: ']' :: rest => suffixed (.array type none) rest
  | rest => (type, rest)

mutual

/-- Reads a type at the front of a text, with less than `bound` readings inside one another. -/
def readWithin : Nat → List Char → Option (Target × List Char)
  | 0, _ => none
  | bound + 1, text =>
    match opening.toList.isPrefixOf? text with
    | some inside => do
      let (parameters, result, rest) ← readAllWithin bound inside
      return suffixed (.functionPointer parameters result) rest
    | none =>
      some (suffixed (.named (String.ofList (text.takeWhile isWordPart))) (text.dropWhile isWordPart))

def readAllWithin : Nat → List Char → Option (List Target × Target × List Char)
  | 0, _ => none
  | bound + 1, text => do
    let (type, rest) ← readWithin bound text
    match rest with
    | ',' :: ' ' :: rest =>
      let (parameters, result, rest) ← readAllWithin bound rest
      return (type :: parameters, result, rest)
    | '>' :: rest => return ([], type, rest)
    | _ => none

end

/-- Nothing at the front of a text can belong to a word in front of it, nor make a function pointer of that
word. -/
structure Apart (rest : List Char) : Prop where
  stops : ∀ c ∈ rest.head?, isWordPart c = false
  closed : ¬ " unmanaged<".toList <+: rest
  starred : ¬ "* unmanaged<".toList <+: rest

variable {rest : List Char}

theorem Apart.star (apart : Apart rest) : Apart ('*' :: rest) where
  stops := by simp [isWordPart]
  closed := by simp
  starred := by simpa using apart.closed

theorem Apart.brackets : Apart ('[' :: ']' :: rest) := ⟨by simp [isWordPart], by simp, by simp⟩

theorem Apart.comma : Apart (',' :: rest) := ⟨by simp [isWordPart], by simp, by simp⟩

theorem Apart.angle : Apart ('>' :: rest) := ⟨by simp [isWordPart], by simp, by simp⟩

theorem Apart.nil : Apart [] := ⟨by simp, by simp, by simp⟩

/-- A word does not open a function pointer: the first word of one has a star and another word behind it. -/
theorem isPrefixOf?_word {word : List Char} (inside : word.all isWordPart) (apart : Apart rest) :
    opening.toList.isPrefixOf? (word ++ rest) = none := by
  rw [Option.eq_none_iff_forall_ne_some]
  intro behind found
  have same : opening.toList ++ behind = word ++ rest := List.isPrefixOf?_eq_some_iff_append_eq.mp found
  have dropped := (span_isWordPart inside apart.stops).2
  rw [← same] at dropped
  exact apart.starred ⟨behind, dropped⟩

mutual

/-- A type is read from its spelling, with the stars and brackets behind it. -/
theorem readWithin_text : (type : Target) → type.leaves.all isWord → (bound : Nat) → type.text.length ≤ bound →
    (rest : List Char) → Apart rest →
    readWithin (bound + 1) (type.text.toList ++ rest) = some (suffixed type.shape rest)
  | .primitive name, word, bound, _, rest, apart | .named name, word, bound, _, rest, apart => by
    have inside : isWord name := by simpa [leaves] using word
    obtain ⟨taken, dropped⟩ := span_isWordPart inside apart.stops
    change readWithin (bound + 1) (name.toList ++ rest) = some (suffixed (.named name) rest)
    simp only [readWithin, isPrefixOf?_word inside apart, taken, dropped, String.ofList_toList]
  | .pointer pointee, words, bound, within, rest, apart => by
    have spelled : (pointer pointee).text = pointee.text ++ "*" := rfl
    rw [spelled, String.length_append] at within
    have read := readWithin_text pointee words bound (by omega) ('*' :: rest) apart.star
    rw [spelled, String.toList_append, List.append_assoc]
    exact read
  | .array element length, words, bound, within, rest, apart => by
    have spelled : (array element length).text = element.text ++ "[]" := rfl
    rw [spelled, String.length_append] at within
    have read := readWithin_text element words bound (by omega) ('[' :: ']' :: rest) Apart.brackets
    rw [spelled, String.toList_append, List.append_assoc]
    exact read
  | .functionPointer parameters result, words, bound, within, rest, apart => by
    have spelled : (functionPointer parameters result).text =
        opening ++ (parameterText parameters ++ result.text) ++ ">" := by
      rw [← String.append_assoc]
      rfl
    obtain ⟨before, last⟩ : (allLeaves parameters).all isWord ∧ result.leaves.all isWord := by
      rw [← Bool.and_eq_true, ← List.all_append]
      exact words
    have letters : opening.length = 20 := rfl
    rw [spelled, String.length_append, String.length_append] at within
    obtain ⟨bound, rfl⟩ : ∃ smaller, bound = smaller + 1 := ⟨bound - 1, by omega⟩
    have read := readAllWithin_text parameters before result (readWithin_text result last) bound (by omega) rest
    have inside : opening.toList.isPrefixOf? ((functionPointer parameters result).text.toList ++ rest) =
        some ((parameterText parameters ++ result.text).toList ++ '>' :: rest) := by
      rw [List.isPrefixOf?_eq_some_iff_append_eq, spelled]
      simp
    rw [readWithin, inside]
    simp only [read]
    rfl

/-- The result stands behind the parameters, so that it can be read is part of what is given. -/
theorem readAllWithin_text : (parameters : List Target) → (allLeaves parameters).all isWord → (result : Target) →
    (∀ bound, result.text.length ≤ bound → ∀ rest, Apart rest →
      readWithin (bound + 1) (result.text.toList ++ rest) = some (suffixed result.shape rest)) →
    (bound : Nat) → (parameterText parameters ++ result.text).length + 1 ≤ bound → (rest : List Char) →
    readAllWithin (bound + 1) ((parameterText parameters ++ result.text).toList ++ '>' :: rest) =
      some (shapes parameters, result.shape, rest)
  | [], _, result, last, bound, within, rest => by
    have spelled : parameterText [] ++ result.text = result.text := String.empty_append
    rw [spelled] at within ⊢
    obtain ⟨bound, rfl⟩ : ∃ smaller, bound = smaller + 1 := ⟨bound - 1, by omega⟩
    have read : readWithin (bound + 1) (result.text.toList ++ '>' :: rest) = some (result.shape, '>' :: rest) :=
      last bound (by omega) ('>' :: rest) Apart.angle
    rw [readAllWithin, read]
    rfl
  | type :: types, words, result, last, bound, within, rest => by
    have spelled : parameterText (type :: types) ++ result.text =
        type.text ++ ", " ++ (parameterText types ++ result.text) := by
      rw [← String.append_assoc]
      rfl
    obtain ⟨first, others⟩ : type.leaves.all isWord ∧ (allLeaves types).all isWord := by
      rw [← Bool.and_eq_true, ← List.all_append]
      exact words
    have separator : ", ".length = 2 := rfl
    rw [spelled, String.length_append, String.length_append] at within
    obtain ⟨bound, rfl⟩ : ∃ smaller, bound = smaller + 1 := ⟨bound - 1, by omega⟩
    have later := readAllWithin_text types others result last bound (by omega) rest
    have read (behind : List Char) : readWithin (bound + 1) (type.text.toList ++ ',' :: behind) =
        some (type.shape, ',' :: behind) := readWithin_text type first bound (by omega) (',' :: behind) Apart.comma
    have text : (parameterText (type :: types) ++ result.text).toList ++ '>' :: rest =
        type.text.toList ++ ',' :: ' ' :: ((parameterText types ++ result.text).toList ++ '>' :: rest) := by
      rw [spelled]
      simp
    rw [text, readAllWithin, read]
    simp only [Option.bind_eq_bind, Option.bind_some, later]
    rfl

end

def read (text : List Char) : Option (Target × List Char) := readWithin (text.length + 1) text

theorem read_text {type : Target} (words : type.leaves.all isWord) (apart : Apart rest) :
    read (type.text.toList ++ rest) = some (suffixed type.shape rest) := by
  refine readWithin_text type words _ ?_ rest apart
  rw [List.length_append, String.length_toList]
  omega

mutual

theorem text_shape : (type : Target) → type.shape.text = type.text
  | .primitive _ | .named _ => rfl
  | .pointer pointee => congrArg (· ++ "*") (text_shape pointee)
  | .functionPointer parameters result => by
    change opening ++ parameterText (shapes parameters) ++ result.shape.text ++ ">" = _
    rw [parameterText_shapes parameters, text_shape result]
    rfl
  | .array element _ => congrArg (· ++ "[]") (text_shape element)

theorem parameterText_shapes : (types : List Target) → parameterText (shapes types) = parameterText types
  | [] => rfl
  | type :: types => by
    change type.shape.text ++ ", " ++ parameterText (shapes types) = _
    rw [text_shape type, parameterText_shapes types]
    rfl

end

def isTypePart (c : Char) : Bool := isWordPart c || [' ', '*', '[', ']', '<', '>', ','].contains c

mutual

theorem all_text : (type : Target) → type.leaves.all isWord → type.text.toList.all isTypePart
  | .primitive name, word | .named name, word => by
    have inside : isWord name := by simpa [leaves] using word
    exact List.all_eq_true.mpr fun c member => by simp [isTypePart, isWordPart_of_mem inside member]
  | .pointer pointee, words => by
    have spelled : (pointer pointee).text.toList = pointee.text.toList ++ ['*'] := String.toList_append
    rw [spelled, List.all_append, all_text pointee words]
    rfl
  | .functionPointer parameters result, words => by
    have spelled : (functionPointer parameters result).text.toList =
        opening.toList ++ (parameterText parameters).toList ++ result.text.toList ++ ['>'] := by
      simp only [← String.toList_append]
      exact String.toList_append
    obtain ⟨before, last⟩ : (allLeaves parameters).all isWord ∧ result.leaves.all isWord := by
      rw [← Bool.and_eq_true, ← List.all_append]
      exact words
    rw [spelled, List.all_append, List.all_append, List.all_append, all_parameterText parameters before,
      all_text result last]
    decide +kernel
  | .array element _, words => by
    have spelled : (array element none).text.toList = element.text.toList ++ ['[', ']'] := String.toList_append
    change (array element none).text.toList.all isTypePart = true
    rw [spelled, List.all_append, all_text element words]
    rfl

theorem all_parameterText : (types : List Target) → (allLeaves types).all isWord →
    (parameterText types).toList.all isTypePart
  | [], _ => rfl
  | type :: types, words => by
    have spelled : (parameterText (type :: types)).toList =
        type.text.toList ++ [',', ' '] ++ (parameterText types).toList := by
      change (type.text ++ ", " ++ parameterText types).toList = _
      simp
    obtain ⟨first, others⟩ : type.leaves.all isWord ∧ (allLeaves types).all isWord := by
      rw [← Bool.and_eq_true, ← List.all_append]
      exact words
    rw [spelled, List.all_append, List.all_append, all_text type first, all_parameterText types others]
    rfl

end

/-- A spelling starts with a word. -/
theorem head?_text : (type : Target) → type.leaves.all isIdentifier →
    ∃ c ∈ type.text.toList.head?, isWordPart c = true
  | .primitive name, word | .named name, word => by
    have identifier : isIdentifier name := by simpa [leaves] using word
    exact head?_of_isIdentifier identifier
  | .pointer pointee, words => by
    obtain ⟨c, first, part⟩ := head?_text pointee words
    exact ⟨c, head?_append first "*", part⟩
  | .functionPointer parameters result, _ =>
    ⟨'d', head?_append (head?_append (head?_append rfl _) _) _, rfl⟩
  | .array element _, words => by
    obtain ⟨c, first, part⟩ := head?_text element words
    exact ⟨c, head?_append first "[]", part⟩

/-- Types whose names are words are spelled alike exactly if they differ in lengths and in kinds of names only. -/
theorem text_eq_text_iff {first second : Target} (words : first.leaves.all isWord) (words' : second.leaves.all isWord) :
    first.text = second.text ↔ first.shape = second.shape := by
  constructor
  · intro same
    have read := read_text words Apart.nil
    rw [same, read_text words' Apart.nil] at read
    exact (congrArg Prod.fst (Option.some.inj read)).symm
  · intro same
    rw [← text_shape first, same, text_shape second]

/-- A callback with an array and a pointer to another callback among its parameters. -/
def visitor (length : Option Nat) (node : Target) : Target :=
  .functionPointer [.array (.primitive "int") length,
    .pointer (.functionPointer [.pointer node] (.primitive "void"))] (.pointer node)

theorem text_eq_text_iff_visitor :
    (visitor (some 4) (.named "Node")).leaves.all isWord ∧ (visitor none (.primitive "Node")).leaves.all isWord ∧
    (visitor (some 4) (.named "Node")).text = "delegate* unmanaged<int[], delegate* unmanaged<Node*, void>*, Node*>" ∧
    (visitor (some 4) (.named "Node")).text = (visitor none (.primitive "Node")).text := by
  have words : (visitor (some 4) (.named "Node")).leaves.all isWord := by decide
  have words' : (visitor none (.primitive "Node")).leaves.all isWord := by decide
  exact ⟨words, words', by decide +kernel, (text_eq_text_iff words words').mpr rfl⟩

end Target

end Interop
