import Interop.Document.Artifact
import Interop.Proofs.Target

/-! Signatures and calls read back from their text. A signature is its result and its name, and in
parentheses its parameters, each a type and a name; a call names the one who takes it, the method and the
arguments. Both are read from the front, item by item, and no item needs to know what comes after it. -/
namespace Interop

section

variable {α : Type} (item : List Char → Option (α × List Char))

/-- Reads items with commas between them, at most `bound`. -/
def listWithin : Nat → List Char → Option (List α × List Char)
  | 0, _ => none
  | bound + 1, text => do
    let (value, rest) ← item text
    match rest with
    | ',' :: ' ' :: rest =>
      let (values, rest) ← listWithin bound rest
      return (value :: values, rest)
    | rest => return ([value], rest)

def parenthesized? : List Char → Option (List α × List Char)
  | '(' :: ')' :: rest => some ([], rest)
  | '(' :: text =>
    match listWithin item text.length text with
    | some (values, ')' :: rest) => some (values, rest)
    | _ => none
  | _ => none

variable {item} {β : Type} {text : β → String} {value : β → α} {values : List β}

def Delimits (rest : List Char) : Prop := ∃ c ∈ rest.head?, c = ',' ∨ c = ')'

theorem listWithin_intercalate (read : ∀ x ∈ values, ∀ rest, Delimits rest →
      item ((text x).toList ++ rest) = some (value x, rest))
    (nonempty : values ≠ []) (bound : Nat) (enough : values.length ≤ bound) (rest : List Char) :
    listWithin item bound ((", ".intercalate (values.map text)).toList ++ ')' :: rest) =
      some (values.map value, ')' :: rest) := by
  induction values generalizing bound with
  | nil => exact absurd rfl nonempty
  | cons x values ih =>
    obtain ⟨bound, rfl⟩ : ∃ smaller, bound = smaller + 1 := ⟨bound - 1, by simp at enough; omega⟩
    obtain ⟨first, others⟩ := List.forall_mem_cons.mp read
    cases values with
    | nil =>
      have last := first (')' :: rest) ⟨')', rfl, .inr rfl⟩
      rw [List.map_singleton, String.intercalate_singleton, listWithin, last]
      rfl
    | cons y values =>
      have later := ih others (by simp) bound (by simpa using enough)
      have spelled : (", ".intercalate ((x :: y :: values).map text)).toList ++ ')' :: rest =
          (text x).toList ++ ',' :: ' ' :: ((", ".intercalate ((y :: values).map text)).toList ++ ')' :: rest) := by
        simp
      rw [spelled, listWithin, first _ ⟨',', rfl, .inl rfl⟩]
      simp only [Option.bind_eq_bind, Option.bind_some, later]
      rfl

theorem length_le_intercalate (items : List String) : items.length ≤ (", ".intercalate items).length + 1 := by
  induction items with
  | nil => exact Nat.zero_le _
  | cons first items ih =>
    cases items with
    | nil => simp
    | cons second items =>
      have separator : ", ".length = 2 := rfl
      rw [String.intercalate_cons_cons, String.length_append, String.length_append]
      simp only [List.length_cons] at ih ⊢
      omega

theorem exists_intercalate_cons (first : String) (items : List String) :
    ∃ behind, ", ".intercalate (first :: items) = first ++ behind := by
  cases items with
  | nil => exact ⟨"", by simp⟩
  | cons second items => exact ⟨", " ++ ", ".intercalate (second :: items), by simp [String.append_assoc]⟩

/-- A list is read back from its items if no item can be taken for the end of the list. -/
theorem parenthesized?_intercalate (read : ∀ x ∈ values, ∀ rest, Delimits rest →
      item ((text x).toList ++ rest) = some (value x, rest))
    (opens : ∀ x ∈ values, ∃ c ∈ (text x).toList.head?, c ≠ ')') (rest : List Char) :
    parenthesized? item ('(' :: ((", ".intercalate (values.map text)).toList ++ ')' :: rest)) =
      some (values.map value, rest) := by
  cases values with
  | nil => rfl
  | cons x values =>
    have enough :
        (x :: values).length ≤ ((", ".intercalate ((x :: values).map text)).toList ++ ')' :: rest).length := by
      have items := length_le_intercalate ((x :: values).map text)
      rw [List.length_map] at items
      simp only [List.length_append, String.length_toList, List.length_cons] at items ⊢
      omega
    have list := listWithin_intercalate read (by simp) _ enough rest
    obtain ⟨c, first, other⟩ := opens x List.mem_cons_self
    obtain ⟨later, spelled⟩ :
        ∃ later, (", ".intercalate ((x :: values).map text)).toList ++ ')' :: rest = c :: later := by
      obtain ⟨others, letters⟩ := List.head?_eq_some_iff.mp first
      obtain ⟨behind, joined⟩ := exists_intercalate_cons (text x) (values.map text)
      exact ⟨others ++ behind.toList ++ ')' :: rest, by simp [joined, letters]⟩
    rw [spelled] at list ⊢
    rw [parenthesized?]
    · simp only [list]
    · exact fun _ closed => other (List.cons.inj closed).1

end

def readWord (text : List Char) : String × List Char :=
  (String.ofList (text.takeWhile isWordPart), text.dropWhile isWordPart)

theorem readWord_append {word : String} {rest : List Char} (inside : isWord word)
    (stops : ∀ c ∈ rest.head?, isWordPart c = false) : readWord (word.toList ++ rest) = (word, rest) := by
  obtain ⟨taken, dropped⟩ := span_isWordPart inside stops
  rw [readWord, taken, dropped, String.ofList_toList]

namespace TargetMember

def shape (m : TargetMember) : TargetMember := ⟨m.name, m.type.shape⟩

def isSpelled (m : TargetMember) : Bool := isIdentifier m.name && m.type.leaves.all isIdentifier

def read (text : List Char) : Option (TargetMember × List Char) := do
  let (type, rest) ← Target.read text
  match rest with
  | ' ' :: rest =>
    let (name, rest) := readWord rest
    return (⟨name, type⟩, rest)
  | _ => none

theorem read_text {m : TargetMember} (spelled : m.isSpelled) {rest : List Char}
    (stops : ∃ c ∈ rest.head?, isWordPart c = false ∧ c ≠ '<') :
    read (m.text.toList ++ rest) = some (m.shape, rest) := by
  obtain ⟨c, first, stop, notAngle⟩ := stops
  obtain ⟨name, leaves⟩ := Bool.and_eq_true_iff.mp spelled
  have stops : ∀ d ∈ rest.head?, isWordPart d = false := fun d found => Option.some.inj (first.symm.trans found) ▸ stop
  have words : m.type.leaves.all isWord :=
    List.all_eq_true.mpr fun leaf member => isWord_of_isIdentifier (List.all_eq_true.mp leaves leaf member)
  -- A word and an angle bracket behind a blank would belong to the type.
  have apart : Target.Apart (' ' :: (m.name.toList ++ rest)) := by
    refine ⟨by simp [isWordPart], ?_, by simp⟩
    rintro ⟨behind, same⟩
    have same : "unmanaged".toList ++ '<' :: behind = m.name.toList ++ rest := (List.cons.inj same).2
    have dropped := (span_isWordPart (isWord_of_isIdentifier name) stops).2
    rw [← same] at dropped
    exact notAngle (Option.some.inj (first.symm.trans (congrArg List.head? dropped.symm)))
  have type : Target.read (m.type.text.toList ++ ' ' :: (m.name.toList ++ rest)) =
      some (m.type.shape, ' ' :: (m.name.toList ++ rest)) := Target.read_text words apart
  have text : m.text.toList ++ rest = m.type.text.toList ++ ' ' :: (m.name.toList ++ rest) := by
    simp [TargetMember.text]
  rw [text, read, type]
  simp only [Option.bind_eq_bind, Option.bind_some, readWord_append (isWord_of_isIdentifier name) stops]
  rfl

end TargetMember

namespace Signature

/-- A signature without what the spelling of its types leaves out. -/
def shape (signature : Signature) : Signature :=
  ⟨signature.name, signature.parameters.map TargetMember.shape, signature.result.shape⟩

def isSpelled (signature : Signature) : Bool :=
  TargetMember.isSpelled ⟨signature.name, signature.result⟩ && signature.parameters.all TargetMember.isSpelled

def ofText? (text : String) : Option Signature := do
  let (head, rest) ← TargetMember.read text.toList
  match parenthesized? TargetMember.read rest with
  | some (parameters, []) => return ⟨head.name, parameters, head.type⟩
  | _ => none

/-- A signature is read back from its text. -/
theorem ofText?_text {signature : Signature} (spelled : signature.isSpelled) :
    ofText? signature.text = some signature.shape := by
  obtain ⟨own, parameters⟩ := Bool.and_eq_true_iff.mp spelled
  have head := @TargetMember.read_text ⟨signature.name, signature.result⟩ own
    ('(' :: (signature.parameterText.toList ++ [')'])) ⟨'(', rfl, by decide, by decide⟩
  have parameters : parenthesized? TargetMember.read ('(' :: (signature.parameterText.toList ++ [')'])) =
      some (signature.parameters.map TargetMember.shape, []) := by
    refine parenthesized?_intercalate (fun m member rest delimits => ?_) (fun m member => ?_) []
    · refine TargetMember.read_text (List.all_eq_true.mp parameters m member) ?_
      obtain ⟨c, first, rfl | rfl⟩ := delimits
      · exact ⟨',', first, by decide, by decide⟩
      · exact ⟨')', first, by decide, by decide⟩
    · obtain ⟨c, first, part⟩ := Target.head?_text m.type
        (Bool.and_eq_true_iff.mp (List.all_eq_true.mp parameters m member)).2
      refine ⟨c, head?_append (head?_append first " ") m.name, ?_⟩
      rintro rfl
      exact absurd part (by decide)
  have text : signature.text.toList = (TargetMember.text ⟨signature.name, signature.result⟩).toList ++
      '(' :: (signature.parameterText.toList ++ [')']) := by
    simp [Signature.text, TargetMember.text]
  rw [ofText?, text, head]
  simp only [Option.bind_eq_bind, Option.bind_some, parameters]
  rfl

end Signature

structure Call where
  returns : Bool
  receiver : String
  name : String
  arguments : List String
  deriving DecidableEq

namespace Call

/-- Reads a call that is a whole statement, behind the word that returns its value. -/
def read (returns : Bool) (text : List Char) : Option Call :=
  match readWord text with
  | (receiver, '.' :: rest) =>
    let (name, rest) := readWord rest
    match parenthesized? (fun text => some (readWord text)) rest with
    | some (arguments, [';']) => some ⟨returns, receiver, name, arguments⟩
    | _ => none
  | _ => none

def ofText? (statement : String) : Option Call :=
  match "return ".toList.isPrefixOf? statement.toList with
  | some call => read true call
  | none => read false statement.toList

variable {signature : Signature} {receiver : String}

/-- The call that is passed on, in any statement. -/
theorem read_call (spelled : signature.isSpelled) (word : isWord receiver) (returns : Bool) :
    read returns (receiver ++ "." ++ signature.name ++ "(" ++ signature.argumentText ++ ");").toList =
      some ⟨returns, receiver, signature.name, signature.parameters.map (·.name)⟩ := by
  obtain ⟨own, parameters⟩ := Bool.and_eq_true_iff.mp spelled
  have name := isWord_of_isIdentifier (Bool.and_eq_true_iff.mp own).1
  have identifier : ∀ m ∈ signature.parameters, isIdentifier m.name := fun m member =>
    (Bool.and_eq_true_iff.mp (List.all_eq_true.mp parameters m member)).1
  have arguments : parenthesized? (fun text => some (readWord text))
      ('(' :: (signature.argumentText.toList ++ [')', ';'])) = some (signature.parameters.map (·.name), [';']) := by
    refine parenthesized?_intercalate (fun m member rest delimits => ?_) (fun m member => ?_) [';']
    · obtain ⟨c, first, delimits⟩ := delimits
      refine congrArg some (readWord_append (isWord_of_isIdentifier (identifier m member)) fun d found => ?_)
      obtain rfl := Option.some.inj (first.symm.trans found)
      rcases delimits with rfl | rfl <;> decide
    · obtain ⟨c, first, part⟩ := head?_of_isIdentifier (identifier m member)
      refine ⟨c, first, ?_⟩
      rintro rfl
      exact absurd part (by decide)
  have text : (receiver ++ "." ++ signature.name ++ "(" ++ signature.argumentText ++ ");").toList =
      receiver.toList ++ '.' :: (signature.name.toList ++ '(' :: (signature.argumentText.toList ++ [')', ';'])) := by
    simp
  have named : readWord (signature.name.toList ++ '(' :: (signature.argumentText.toList ++ [')', ';'])) =
      (signature.name, '(' :: (signature.argumentText.toList ++ [')', ';'])) :=
    readWord_append name (by simp [isWordPart])
  rw [text, read, readWord_append word (by simp [isWordPart])]
  simp only [named, arguments]

/-- A call is passed on with the parameters as arguments, and its value is returned if it has one. -/
theorem ofText?_forward (spelled : signature.isSpelled) (word : isWord receiver) :
    ofText? (signature.forward receiver) =
      some ⟨!signature.result.isVoid, receiver, signature.name, signature.parameters.map (·.name)⟩ := by
  have call := read_call spelled word
  rw [Signature.forward, ofText?]
  cases signature.result.isVoid with
  | true =>
    have unreturned : "return ".toList.isPrefixOf?
        (receiver ++ "." ++ signature.name ++ "(" ++ signature.argumentText ++ ");").toList = none := by
      rw [Option.eq_none_iff_forall_ne_some]
      intro behind found
      obtain ⟨rest, text⟩ : ∃ rest,
          (receiver ++ "." ++ signature.name ++ "(" ++ signature.argumentText ++ ");").toList =
            receiver.toList ++ '.' :: rest :=
        ⟨signature.name.toList ++ '(' :: (signature.argumentText.toList ++ [')', ';']), by simp⟩
      rw [text, List.isPrefixOf?_eq_some_iff_append_eq] at found
      -- A blank ends the first word of the one text, a point that of the other.
      have words := congrArg (fun text => (readWord text).2) found
      rw [readWord_append word (by simp [isWordPart])] at words
      exact absurd (List.cons.inj words).1 (by decide)
    rw [if_pos rfl, unreturned]
    exact call false
  | false =>
    have returned := @List.isPrefixOf?_eq_some_iff_append_eq Char _ _ "return ".toList
    rw [if_neg (by decide), String.toList_append, returned.mpr rfl]
    exact call true

end Call

end Interop
