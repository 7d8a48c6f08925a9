import Interop.Expression.CastType
import Mathlib.Data.List.Basic
import Mathlib.Data.List.Perm.Basic

/-! Type words in other orders. A word marks a sign or a length, which may happen at any time,
or gives the base. A second base is refused unless it is the `int` of a `short int`, and this is
the only place where order matters: `short int` is a type and `int short` is none. -/
namespace Interop.CastType

def Base.word : Base → String
  | .char => "char"
  | .short => "short"
  | .int => "int"
  | .float => "float"
  | .double => "double"

theorem Base.ofWord?_eq_some_iff {word : String} {base : Base} :
    Base.ofWord? word = some base ↔ word = base.word := by
  constructor
  · intro known
    unfold Base.ofWord? at known
    split at known <;> cases known <;> rfl
  · rintro rfl
    cases base <;> rfl

inductive Role where
  | isUnsigned
  | isSigned
  | long
  | qualifier
  | base (base : Base)
  | stranger

def Role.ofWord (word : String) : Role :=
  if word = "unsigned" then .isUnsigned
  else if word = "signed" then .isSigned
  else if word = "long" then .long
  else if word = "const" then .qualifier
  else (Base.ofWord? word).elim .stranger .base

theorem Role.word_of_base {word : String} {base : Base} (role : ofWord word = .base base) :
    word = base.word := by
  unfold ofWord at role
  split_ifs at role
  cases known : Base.ofWord? word with
  | none => simp [known] at role
  | some other =>
    obtain rfl : other = base := by simpa [known] using role
    exact Base.ofWord?_eq_some_iff.mp known

/-- The base after one more is given: the first one stays if it is a `short int`. -/
def Base.after (base : Base) : Option Base → Option Base
  | none => some base
  | some first => if first = .short ∧ base = .int then some first else none

theorem Base.after_comm (before : Option Base) {first second : Base}
    (apart : ¬ (first = .int ∧ second = .short)) (apart' : ¬ (first = .short ∧ second = .int)) :
    (first.after before).bind (second.after <| some ·) = (second.after before).bind (first.after <| some ·) := by
  cases before with
  | none => cases first <;> cases second <;> simp_all [after]
  | some base => by_cases short : base = .short <;> cases first <;> cases second <;> simp_all [after]

namespace Specifiers

def withBase (specifiers : Specifiers) (base : Base) : Option Specifiers :=
  (base.after specifiers.base).map fun base => { specifiers with base := some base }

def take (specifiers : Specifiers) : Role → Option Specifiers
  | .isUnsigned => some { specifiers with isUnsigned := true }
  | .isSigned => some { specifiers with isSigned := true }
  | .long => some { specifiers with longs := specifiers.longs + 1 }
  | .qualifier => some specifiers
  | .base base => specifiers.withBase base
  | .stranger => .none

/-- Of a word only its role is taken in. -/
theorem add_eq_take (specifiers : Specifiers) (word : String) :
    specifiers.add word = specifiers.take (Role.ofWord word) := by
  unfold add Role.ofWord
  split_ifs with _ _ _ _ whole <;> try rfl
  · obtain ⟨rfl, short⟩ := whole
    have same : { specifiers with base := some .short } = specifiers := by rw [← short]
    simp [Base.ofWord?, take, withBase, Base.after, short, same]
  · cases known : Base.ofWord? word with
    | none => rfl
    | some base =>
      cases before : specifiers.base with
      | none => simp [take, withBase, Base.after, before]
      | some first =>
        have apart : ¬ (first = .short ∧ base = .int) := by
          rintro ⟨rfl, rfl⟩
          exact whole ⟨Base.ofWord?_eq_some_iff.mp known, before⟩
        simp [take, withBase, Base.after, before, apart]

theorem withBase_comm (specifiers : Specifiers) {first second : Base}
    (apart : ¬ (first = .int ∧ second = .short)) (apart' : ¬ (first = .short ∧ second = .int)) :
    (specifiers.withBase first).bind (·.withBase second) =
      (specifiers.withBase second).bind (·.withBase first) := by
  have bases := congrArg (Option.map fun base => { specifiers with base := some base })
    (Base.after_comm specifiers.base apart apart')
  simpa [withBase, Option.map_eq_bind, Option.bind_assoc] using bases

/-- Apart from `int` and `short`, words can be exchanged. -/
theorem add_comm (specifiers : Specifiers) {first second : String}
    (apart : ¬ (first = "int" ∧ second = "short")) (apart' : ¬ (first = "short" ∧ second = "int")) :
    (specifiers.add first).bind (·.add second) = (specifiers.add second).bind (·.add first) := by
  simp only [add_eq_take]
  cases role : Role.ofWord first <;> cases role' : Role.ofWord second <;> try rfl
  case base.base base base' =>
    have word := Role.word_of_base role
    have word' := Role.word_of_base role'
    refine specifiers.withBase_comm ?_ ?_
    · rintro ⟨rfl, rfl⟩
      exact apart ⟨word, word'⟩
    · rintro ⟨rfl, rfl⟩
      exact apart' ⟨word, word'⟩
  all_goals
    simp only [take, withBase, Option.bind_some]
    cases Base.after _ specifiers.base <;> rfl

/-- Once there is a base, there is always one. -/
theorem isSome_base_of_add {before after : Specifiers} {word : String} (added : before.add word = some after)
    (based : before.base.isSome) : after.base.isSome := by
  rw [add_eq_take] at added
  cases role : Role.ofWord word <;> simp only [role, take, withBase, Option.map_eq_some_iff] at added
  case base =>
    obtain ⟨base, _, rfl⟩ := added
    rfl
  case stranger => cases added
  all_goals
    cases added
    exact based

theorem isSome_base_of_int {before after : Specifiers} (added : before.add "int" = some after) :
    after.base.isSome := by
  simp only [add_eq_take, show Role.ofWord "int" = .base .int from rfl, take, withBase,
    Option.map_eq_some_iff] at added
  obtain ⟨base, _, rfl⟩ := added
  rfl

theorem add_short {specifiers : Specifiers} (based : specifiers.base.isSome) :
    specifiers.add "short" = .none := by
  obtain ⟨base, known⟩ := Option.isSome_iff_exists.mp based
  simp [add, Base.ofWord?, known]

end Specifiers

theorem foldlM_perm {words other : List String} (same : words.Perm other) (specifiers : Specifiers)
    (apart : ¬ ("int" ∈ words ∧ "short" ∈ words)) :
    words.foldlM Specifiers.add specifiers = other.foldlM Specifiers.add specifiers := by
  simp only [List.foldlM_eq_foldl]
  refine same.foldl_eq' (fun first member second member' specifiers => ?_) (some specifiers)
  cases specifiers with
  | none => rfl
  | some specifiers =>
    refine specifiers.add_comm ?_ ?_
    · rintro ⟨rfl, rfl⟩
      exact apart ⟨member, member'⟩
    · rintro ⟨rfl, rfl⟩
      exact apart ⟨member', member⟩

def IntBeforeShort (words : List String) : Prop := ["int", "short"].Sublist words

theorem IntBeforeShort.cons {word : String} {words : List String} (inside : IntBeforeShort words) :
    IntBeforeShort (word :: words) :=
  List.Sublist.cons word inside

def shortFirst (words : List String) : List String :=
  List.replicate (words.count "short") "short" ++ words.filter (· != "short")

/-- As long as no `int` stands before it, a `short` might as well come first. -/
theorem foldlM_shortFirst {words : List String} (ordered : ¬ IntBeforeShort words) (specifiers : Specifiers) :
    words.foldlM Specifiers.add specifiers = (shortFirst words).foldlM Specifiers.add specifiers := by
  induction words generalizing specifiers with
  | nil => rfl
  | cons word words ih =>
    have later := ih fun inside => ordered inside.cons
    by_cases short : word = "short"
    · simp [shortFirst, short, List.replicate_succ, later]
    by_cases int : word = "int"
    · have absent : "short" ∉ words := fun member =>
        ordered (int ▸ List.Sublist.cons_cons "int" (List.singleton_sublist.mpr member))
      have others : words.filter (· != "short") = words :=
        List.filter_eq_self.mpr fun other member => bne_iff_ne.mpr fun same => absent (same ▸ member)
      simp [shortFirst, short, others, List.count_eq_zero.mpr absent]
    · -- The word moves behind all words `short`.
      have moved : (word :: List.replicate (words.count "short") "short").foldlM Specifiers.add specifiers =
          (List.replicate (words.count "short") "short" ++ [word]).foldlM Specifiers.add specifiers :=
        foldlM_perm (List.perm_append_singleton word _).symm specifiers (by simp [Ne.symm int])
      calc (word :: words).foldlM Specifiers.add specifiers
        _ = (word :: shortFirst words).foldlM Specifiers.add specifiers := by simp [later]
        _ = (shortFirst (word :: words)).foldlM Specifiers.add specifiers := by
          rw [shortFirst, ← List.cons_append, List.foldlM_append, moved, ← List.foldlM_append]
          simp [shortFirst, short]

/-- Words of which none has an `int` before a `short` say the same in any order. -/
theorem foldlM_eq_of_ordered {words other : List String} (same : words.Perm other)
    (ordered : ¬ IntBeforeShort words) (ordered' : ¬ IntBeforeShort other) (specifiers : Specifiers) :
    words.foldlM Specifiers.add specifiers = other.foldlM Specifiers.add specifiers := by
  rw [foldlM_shortFirst ordered, foldlM_shortFirst ordered', shortFirst, shortFirst, List.foldlM_append,
    List.foldlM_append, same.count_eq]
  congr 1
  funext middle
  exact foldlM_perm (same.filter _) middle (by simp)

theorem foldlM_short {words : List String} (member : "short" ∈ words) {specifiers : Specifiers}
    (based : specifiers.base.isSome) : words.foldlM Specifiers.add specifiers = none := by
  induction words generalizing specifiers with
  | nil => cases member
  | cons word words ih =>
    rw [List.foldlM_cons]
    by_cases short : word = "short"
    · rw [short, Specifiers.add_short based]
      rfl
    · cases added : specifiers.add word with
      | none => rfl
      | some after =>
        have later := (List.mem_cons.mp member).resolve_left (Ne.symm short)
        exact ih later (Specifiers.isSome_base_of_add added based)

theorem foldlM_intBeforeShort {words : List String} (disordered : IntBeforeShort words)
    (specifiers : Specifiers) : words.foldlM Specifiers.add specifiers = none := by
  induction words generalizing specifiers with
  | nil => cases disordered
  | cons word words ih =>
    rw [List.foldlM_cons]
    cases added : specifiers.add word with
    | none => rfl
    | some after =>
      cases disordered with
      | cons _ inside => exact ih inside after
      | cons_cons _ rest =>
        exact foldlM_short (List.singleton_sublist.mp rest) (Specifiers.isSome_base_of_int added)

theorem ofWords?_of_intBeforeShort {words : List String} (disordered : IntBeforeShort words) :
    ofWords? words = none := by
  rw [ofWords?, foldlM_intBeforeShort disordered]
  rfl

theorem ofWords?_eq_of_ordered {words other : List String} (same : words.Perm other)
    (ordered : ¬ IntBeforeShort words) (ordered' : ¬ IntBeforeShort other) :
    ofWords? words = ofWords? other := by
  rw [ofWords?, ofWords?, foldlM_eq_of_ordered same ordered ordered']

/-- An arrangement without an `int` before a `short` speaks for all others. -/
theorem forall_arranged_iff {words : List String} (ordered : ¬ IntBeforeShort words) :
    (∀ arranged : List String, arranged.Perm words → ofWords? arranged = none) ↔ ofWords? words = none := by
  constructor
  · intro never
    exact never words (List.Perm.refl words)
  · intro nothing arranged same
    by_cases disordered : IntBeforeShort arranged
    · exact ofWords?_of_intBeforeShort disordered
    · exact (ofWords?_eq_of_ordered same disordered ordered).trans nothing

/-- Words in two orders name the same type, or neither of them names one, exactly if an `int`
stands before a `short` in both or in neither, or if they name no type in any order. Where an
`int` stands before a `short` no type is named. -/
theorem ofWords?_perm_iff {words other : List String} (same : words.Perm other) :
    (IntBeforeShort words → ofWords? words = none) ∧
    (ofWords? words = ofWords? other ↔ (IntBeforeShort words ↔ IntBeforeShort other) ∨
      ∀ arranged : List String, arranged.Perm words → ofWords? arranged = none) := by
  refine ⟨ofWords?_of_intBeforeShort, ?_⟩
  by_cases disordered : IntBeforeShort words <;> by_cases disordered' : IntBeforeShort other
  · simp [disordered, disordered', ofWords?_of_intBeforeShort]
  · rw [ofWords?_of_intBeforeShort disordered, eq_comm, ← forall_arranged_iff disordered']
    simp [disordered, disordered', same.congr_right]
  · simp [disordered, disordered', ofWords?_of_intBeforeShort, forall_arranged_iff]
  · simp [disordered, disordered', ofWords?_eq_of_ordered same disordered disordered']

/-- `unsigned` may stand between the words of a `short int`. -/
theorem ofWords?_perm_iff_unsignedShort :
    ["short", "unsigned", "int"].Perm ["unsigned", "short", "int"] ∧
    ofWords? ["short", "unsigned", "int"] = ofWords? ["unsigned", "short", "int"] := by
  have same : ["short", "unsigned", "int"].Perm ["unsigned", "short", "int"] := by decide
  have ordered : ¬ IntBeforeShort ["short", "unsigned", "int"] := by unfold IntBeforeShort; decide
  have ordered' : ¬ IntBeforeShort ["unsigned", "short", "int"] := by unfold IntBeforeShort; decide
  exact ⟨same, (ofWords?_perm_iff same).2.mpr (Or.inl (iff_of_false ordered ordered'))⟩

/-- The words of a `short int` name nothing in the other order. -/
theorem not_in_every_order :
    ¬ ∀ words other : List String, words.Perm other → ofWords? words = ofWords? other := by
  intro always
  have exchanged := always ["short", "int"] ["int", "short"] (by decide)
  revert exchanged
  decide

end Interop.CastType
