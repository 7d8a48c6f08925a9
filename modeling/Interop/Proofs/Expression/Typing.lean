import Interop.Proofs.Expression.Arithmetic
import Interop.Proofs.Expression.Inquiry
import Interop.Proofs.Expression.Outcome

/-! Types of values in two scopes. Where the names of two scopes have values of the same types,
operators and casts keep it so. A conditional does not: its value is that of the operand it picks,
as it is, so the type changes with the decision if the operands are of different types. -/
namespace Interop.Expression

variable {values values' : String → Evaluated}

theorem bind_eq_ok_iff {α β : Type} {first : Except EvaluationError α} {next : α → Except EvaluationError β}
    {result : β} : first >>= next = .ok result ↔ ∃ value, first = .ok value ∧ next value = .ok result := by
  cases first with
  | error error => simp [bind, Except.bind]
  | ok value => simp [bind, Except.bind]

theorem evaluate_unary_eq_ok {operator : UnaryOperator} {operand : Expression} {result : Constant} :
    (unary operator operand).evaluate values = .ok result ↔
      ∃ value, operand.evaluate values = .ok value ∧ value.applyUnary operator = .ok result := by
  simp only [evaluate, bind_eq_ok_iff, ofExcept_eq]

theorem evaluate_cast_eq_ok {type : CastType} {operand : Expression} {result : Constant} :
    (cast type operand).evaluate values = .ok result ↔
      ∃ value, operand.evaluate values = .ok value ∧ value.cast type = .ok result := by
  simp only [evaluate, bind_eq_ok_iff, ofExcept_eq]

theorem evaluate_strict_eq_ok {operator : BinaryOperator} (strict : operator ≠ .and ∧ operator ≠ .or)
    {left right : Expression} {result : Constant} :
    (binary operator left right).evaluate values = .ok result ↔
      ∃ first, left.evaluate values = .ok first ∧ ∃ second, right.evaluate values = .ok second ∧
        Constant.applyBinary operator first second = .ok result := by
  simp only [evaluate_strict strict, bind_eq_ok_iff, ofExcept_eq]

theorem evaluate_conditional_eq_ok {condition accepted rejected : Expression} {result : Constant} :
    (conditional condition accepted rejected).evaluate values = .ok result ↔
      ∃ truth, Counts values condition truth ∧
        (bif truth then accepted else rejected).evaluate values = .ok result := by
  simp only [evaluate, bind_eq_ok_iff, ofExcept_eq, Constant.condition_eq_ok, Counts]
  constructor
  · rintro ⟨value, evaluated, truth, counts, picked⟩
    refine ⟨truth, ⟨value, evaluated, counts⟩, ?_⟩
    cases truth <;> exact picked
  · rintro ⟨truth, ⟨value, evaluated, counts⟩, picked⟩
    refine ⟨value, evaluated, truth, counts, ?_⟩
    cases truth <;> exact picked

/-- The operators `&&` and `||` give truth values, whichever operand decides. -/
theorem type_logical {operator : BinaryOperator} (logical : operator = .and ∨ operator = .or)
    {left right : Expression} {result : Constant}
    (evaluated : (binary operator left right).evaluate values = .ok result) : result.type = .bool := by
  rcases logical with rfl | rfl
  all_goals
    simp only [evaluate, bind_eq_ok_iff] at evaluated
    obtain ⟨_, _, truth, _, decided⟩ := evaluated
    cases truth <;> simp only [Bool.false_eq_true, if_true, if_false, bind_eq_ok_iff] at decided
  case inl.false | inr.true =>
    cases decided
    rfl
  case inl.true | inr.false =>
    obtain ⟨_, _, truth, _, decided⟩ := decided
    cases decided
    rfl

def parts (expression : Expression) : List Expression :=
  expression :: match expression with
    | .literal _ | .identifier _ => []
    | .unary _ operand | .cast _ operand => operand.parts
    | .binary _ left right => left.parts ++ right.parts
    | .conditional condition accepted rejected => condition.parts ++ accepted.parts ++ rejected.parts

theorem mem_parts_self (expression : Expression) : expression ∈ expression.parts := by
  cases expression <;> simp [parts]

theorem parts_subset {part expression : Expression} (member : part ∈ expression.parts) :
    part.parts ⊆ expression.parts := by
  induction expression with
  | literal value | identifier name =>
    obtain rfl := List.mem_singleton.mp member
    exact List.Subset.refl _
  | unary operator operand ih | cast type operand ih =>
    rcases List.mem_cons.mp member with rfl | inside
    · exact List.Subset.refl _
    · exact List.subset_cons_of_subset _ (ih inside)
  | binary operator left right ih ih' =>
    rcases List.mem_cons.mp member with rfl | inside
    · exact List.Subset.refl _
    refine List.subset_cons_of_subset _ ?_
    rcases List.mem_append.mp inside with inside | inside
    · exact List.subset_append_of_subset_left _ (ih inside)
    · exact List.subset_append_of_subset_right _ (ih' inside)
  | conditional condition accepted rejected ih ih' ih'' =>
    rcases List.mem_cons.mp member with rfl | inside
    · exact List.Subset.refl _
    refine List.subset_cons_of_subset _ ?_
    rcases List.mem_append.mp inside with inside | inside
    · refine List.subset_append_of_subset_left _ ?_
      rcases List.mem_append.mp inside with inside | inside
      · exact List.subset_append_of_subset_left _ (ih inside)
      · exact List.subset_append_of_subset_right _ (ih' inside)
    · exact List.subset_append_of_subset_right _ (ih'' inside)

/-- If there are values in both scopes, they are of one type. -/
def SameType (values values' : String → Evaluated) (expression : Expression) : Prop :=
  ∀ value value', expression.evaluate values = .ok value → expression.evaluate values' = .ok value' →
    value.type = value'.type

/-- The conditional is decided one way in one scope and the other way in the other, between values of
different types. -/
def Splits (values values' : String → Evaluated) (condition accepted rejected : Expression) : Prop :=
  ∃ truth, Counts values condition truth ∧ Counts values' condition (!truth) ∧
    ∃ value value', (bif truth then accepted else rejected).evaluate values = .ok value ∧
      (bif truth then rejected else accepted).evaluate values' = .ok value' ∧ value.type ≠ value'.type

def Uniform (values values' : String → Evaluated) (expression : Expression) : Prop :=
  ∀ condition accepted rejected, conditional condition accepted rejected ∈ expression.parts →
    ¬ Splits values values' condition accepted rejected

theorem Uniform.part {part expression : Expression} (uniform : Uniform values values' expression)
    (member : part ∈ expression.parts) : Uniform values values' part :=
  fun condition accepted rejected inside => uniform condition accepted rejected (parts_subset member inside)

section

variable {operand left right condition accepted rejected : Expression}

theorem SameType.unary (operator : UnaryOperator) (same : SameType values values' operand) :
    SameType values values' (unary operator operand) := by
  intro result result' evaluated evaluated'
  obtain ⟨value, found, applied⟩ := evaluate_unary_eq_ok.mp evaluated
  obtain ⟨value', found', applied'⟩ := evaluate_unary_eq_ok.mp evaluated'
  have outcome := Constant.outcome_unary operator value
  rw [same value value' found found'] at outcome
  exact outcome.type_unique (Constant.outcome_unary operator value') applied applied'

/-- The type of a cast is written in it. -/
theorem SameType.cast (type : CastType) : SameType values values' (cast type operand) := by
  intro result result' evaluated evaluated'
  obtain ⟨value, _, applied⟩ := evaluate_cast_eq_ok.mp evaluated
  obtain ⟨value', _, applied'⟩ := evaluate_cast_eq_ok.mp evaluated'
  exact (Constant.outcome_cast type value).type_unique (Constant.outcome_cast type value') applied applied'

theorem SameType.binary (operator : BinaryOperator) (same : SameType values values' left)
    (same' : SameType values values' right) : SameType values values' (binary operator left right) := by
  intro result result' evaluated evaluated'
  by_cases logical : operator = .and ∨ operator = .or
  · exact (type_logical logical evaluated).trans (type_logical logical evaluated').symm
  have strict := not_or.mp logical
  obtain ⟨first, found, second, next, applied⟩ := (evaluate_strict_eq_ok strict).mp evaluated
  obtain ⟨first', found', second', next', applied'⟩ := (evaluate_strict_eq_ok strict).mp evaluated'
  have outcome := Constant.outcome_binary operator first second
  rw [same first first' found found', same' second second' next next'] at outcome
  exact outcome.type_unique (Constant.outcome_binary operator first' second') applied applied'

theorem SameType.conditional (same : SameType values values' accepted) (same' : SameType values values' rejected)
    (unsplit : ¬ Splits values values' condition accepted rejected) :
    SameType values values' (conditional condition accepted rejected) := by
  intro result result' evaluated evaluated'
  obtain ⟨truth, counts, picked⟩ := evaluate_conditional_eq_ok.mp evaluated
  obtain ⟨truth', counts', picked'⟩ := evaluate_conditional_eq_ok.mp evaluated'
  by_cases alike : truth' = truth
  · subst alike
    cases truth' with
    | true => exact same result result' picked picked'
    | false => exact same' result result' picked picked'
  · obtain rfl := Bool.eq_not.mpr alike
    by_contra different
    refine unsplit ⟨truth, counts, counts', result, result', picked, ?_, different⟩
    cases truth <;> exact picked'

end

def Alike (values values' : String → Evaluated) : Prop :=
  ∀ name value value', values name = .ok value → values' name = .ok value' → value.type = value'.type

theorem sameType_of_uniform (alike : Alike values values') {expression : Expression}
    (uniform : Uniform values values' expression) : SameType values values' expression := by
  induction expression with
  | literal constant =>
    rintro _ _ ⟨⟩ ⟨⟩
    rfl
  | identifier name => exact alike name
  | unary operator operand ih => exact (ih (uniform.part (by simp [parts, mem_parts_self]))).unary operator
  | cast type operand => exact SameType.cast type
  | binary operator left right ih ih' =>
    exact (ih (uniform.part (by simp [parts, mem_parts_self]))).binary operator
      (ih' (uniform.part (by simp [parts, mem_parts_self])))
  | conditional condition accepted rejected _ ih ih' =>
    exact (ih (uniform.part (by simp [parts, mem_parts_self]))).conditional
      (ih' (uniform.part (by simp [parts, mem_parts_self])))
      (uniform condition accepted rejected (mem_parts_self _))

/-- A conditional that splits the scopes has values of different types. -/
theorem Splits.not_sameType {condition accepted rejected : Expression}
    (splits : Splits values values' condition accepted rejected) :
    ¬ SameType values values' (conditional condition accepted rejected) := by
  obtain ⟨truth, counts, counts', value, value', picked, picked', different⟩ := splits
  intro same
  refine different (same value value' (evaluate_conditional_eq_ok.mpr ⟨truth, counts, picked⟩)
    (evaluate_conditional_eq_ok.mpr ⟨!truth, counts', ?_⟩))
  cases truth <;> exact picked'

/-- In two scopes that give names values of the same types, everything in an expression has values
of the same types, exactly as long as no conditional in it is decided one way in one scope and the
other way in the other between values of different types. -/
theorem sameType_iff_uniform (alike : Alike values values') (expression : Expression) :
    (∀ part ∈ expression.parts, SameType values values' part) ↔ Uniform values values' expression := by
  constructor
  · intro same condition accepted rejected inside splits
    exact splits.not_sameType (same _ inside)
  · intro uniform part inside
    exact sameType_of_uniform alike (uniform.part inside)

theorem alike_single (name : String) {first second : Constant} (same : first.type = second.type) :
    Alike (lookup [(name, first)]) (lookup [(name, second)]) := by
  intro other value value' given given'
  by_cases named : other = name
  · subst named
    simp only [lookup, List.lookup_cons_self, Except.ok.injEq] at given given'
    rw [← given, ← given', same]
  · simp [lookup, List.lookup_cons, beq_false_of_ne named] at given

/-- `A ? 1u + 2 : 3L` is a `long` whatever `A` is, because `1u + 2` is one. -/
theorem sameType_iff_uniform_long :
    Alike (lookup [("A", .integer .int 1)]) (lookup [("A", .integer .int 0)]) ∧
    ∀ part ∈ (conditional (identifier "A") (binary .add (literal (.integer .uint 1)) (literal (.integer .int 2)))
        (literal (.integer .long 3))).parts,
      SameType (lookup [("A", .integer .int 1)]) (lookup [("A", .integer .int 0)]) part := by
  have alike : Alike (lookup [("A", .integer .int 1)]) (lookup [("A", .integer .int 0)]) := alike_single "A" rfl
  have sum (values : String → Evaluated) {value : Constant}
      (evaluated : (binary .add (literal (.integer .uint 1)) (literal (.integer .int 2))).evaluate values = .ok value) :
      value.type = .number (.integer .long) := by
    cases evaluated
    rfl
  refine ⟨alike, (sameType_iff_uniform alike _).mpr ?_⟩
  rintro condition accepted rejected inside ⟨truth, _, _, value, value', picked, picked', different⟩
  simp only [parts, List.mem_cons, List.mem_append, List.not_mem_nil, or_false, conditional.injEq, reduceCtorEq] at inside
  obtain ⟨rfl, rfl, rfl⟩ := inside
  cases truth with
  | true =>
    cases picked'
    exact different (sum _ picked)
  | false =>
    cases picked
    exact different (sum _ picked').symm

/-- `A ? 1 : 2L` is an `int` or a `long`, as `A` decides. -/
theorem not_always_sameType :
    ¬ ∀ (values values' : String → Evaluated) (expression : Expression), Alike values values' →
      SameType values values' expression := by
  intro always
  have same := always (lookup [("A", .integer .int 1)]) (lookup [("A", .integer .int 0)])
    (conditional (identifier "A") (literal (.integer .int 1)) (literal (.integer .long 2))) (alike_single "A" rfl)
    (.integer .int 1) (.integer .long 2) rfl rfl
  cases same

end Interop.Expression
