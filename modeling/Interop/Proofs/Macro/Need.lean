import Interop.Proofs.Macro.Memory

/-! What macros need. Calls before a call leave no macro open and do not change what it comes
to, so every macro has its result once and for all. It is a value exactly if the macro's own
text has one, given the results of the macros it needs; these then all have values and never
lead in a circle. -/
namespace Interop.Macro

variable {definitions : List (String × String)}

def Memory.after (definitions : List (String × String)) (calls : List String) : Memory :=
  calls.foldl (fun memory name => (outcome (evaluate definitions name) memory).2) .empty

/-- What a macro comes to before anything is remembered. -/
def fresh (definitions : List (String × String)) (name : String) : Evaluated :=
  (outcome (evaluate definitions name) .empty).1

def Needs (definitions : List (String × String)) (name other : String) : Prop :=
  ∃ source expression, definitions.lookup name = some source ∧
    Expression.parse source = .ok expression ∧ expression.Demands (fresh definitions) other

theorem outcome_evaluate {memory : Memory} (name : String) (consistent : Consistent definitions [] memory) :
    ∃ after, outcome (evaluate definitions name) memory =
        (guarded definitions (definitions.length + 1) [] name, after) ∧ Consistent definitions [] after :=
  outcome_evaluateWithin room_start (waiting_nil name) consistent

theorem fresh_eq_guarded (name : String) :
    fresh definitions name = guarded definitions (definitions.length + 1) [] name := by
  obtain ⟨after, computed, _⟩ := outcome_evaluate name (consistent_empty : Consistent definitions [] .empty)
  rw [fresh, computed]

/-- A call comes to the same from every memory that calls can leave. -/
theorem outcome_evaluate_eq_fresh {memory : Memory} (name : String) (consistent : Consistent definitions [] memory) :
    (outcome (evaluate definitions name) memory).1 = fresh definitions name := by
  obtain ⟨after, computed, _⟩ := outcome_evaluate name consistent
  rw [computed, fresh_eq_guarded]

theorem consistent_after (calls : List String) : Consistent definitions [] (Memory.after definitions calls) := by
  have kept (memory : Memory) (consistent : Consistent definitions [] memory) : Consistent definitions []
      (calls.foldl (fun memory name => (outcome (evaluate definitions name) memory).2) memory) := by
    induction calls generalizing memory with
    | nil => exact consistent
    | cons name calls ih =>
      obtain ⟨after, computed, still⟩ := outcome_evaluate name consistent
      rw [List.foldl_cons, computed]
      exact ih after still
  exact kept .empty consistent_empty

theorem fresh_eq_ok {name : String} {value : Constant} :
    fresh definitions name = .ok value ↔ Denotes definitions name value := by
  rw [fresh_eq_guarded]
  constructor
  · exact fun found => ⟨_, approximate_of_guarded found⟩
  · exact fun denotes => guarded_of_denotes denotes room_start (waiting_nil name)

/-- Finitely many values are all found at one depth. -/
theorem run_approximate {α : Type} {inquiry : Inquiry α} {result : α}
    (answered : inquiry.run (fresh definitions) = .ok result) :
    ∃ depth, inquiry.run (approximate definitions depth) = .ok result := by
  induction inquiry with
  | answer value => exact ⟨0, answered⟩
  | fail error => cases answered
  | ask name next ih =>
    obtain ⟨value, given, answered⟩ := Inquiry.run_ask_eq_ok.mp answered
    obtain ⟨first, found⟩ := fresh_eq_ok.mp given
    obtain ⟨second, rest⟩ := ih value answered
    refine ⟨max first second, Inquiry.run_ask_eq_ok.mpr ⟨value, ?_, ?_⟩⟩
    · exact approximate_mono (Nat.le_max_left first second) found
    · exact Inquiry.run_of_extends rest fun _ _ => approximate_mono (Nat.le_max_right first second)

/-- A macro has the value of its own text. -/
theorem fresh_eq_ok_iff_text {name : String} {value : Constant} :
    fresh definitions name = .ok value ↔
      ∃ source expression, definitions.lookup name = some source ∧
        Expression.parse source = .ok expression ∧ expression.evaluate (fresh definitions) = .ok value := by
  constructor
  · intro found
    obtain ⟨depth, found⟩ := fresh_eq_ok.mp found
    obtain ⟨source, defined, computed⟩ := approximate_succ.mp (approximate_step found)
    have computed := body_of_extends computed fun _ _ given => fresh_eq_ok.mpr ⟨depth, given⟩
    obtain ⟨expression, parsed, evaluated⟩ := body_eq_ok.mp computed
    exact ⟨source, expression, defined, parsed, evaluated⟩
  · rintro ⟨source, expression, defined, parsed, evaluated⟩
    rw [Expression.evaluate_eq_run] at evaluated
    obtain ⟨depth, evaluated⟩ := run_approximate evaluated
    rw [← Expression.evaluate_eq_run] at evaluated
    refine fresh_eq_ok.mpr ⟨depth + 1, approximate_succ.mpr ⟨source, defined, ?_⟩⟩
    exact body_eq_ok.mpr ⟨expression, parsed, evaluated⟩

/-- What a macro needs, directly or not, has its value before the macro has one. -/
theorem approximate_of_needs {name other : String} (needs : Relation.TransGen (Needs definitions) name other)
    {depth : Nat} {value : Constant} (found : approximate definitions depth name = .ok value) :
    ∃ before, before < depth ∧ ∃ value, approximate definitions before other = .ok value := by
  have direct {name other : String} (needs : Needs definitions name other) {depth : Nat} {value : Constant}
      (found : approximate definitions depth name = .ok value) :
      ∃ before, before < depth ∧ ∃ value, approximate definitions before other = .ok value := by
    obtain ⟨source, expression, defined, parsed, demands⟩ := needs
    exact approximate_of_asks (fun _ _ => fresh_eq_ok.mp) defined parsed
      (Expression.demands_iff_asks.mp demands) found
  induction needs with
  | single needs => exact direct needs found
  | tail _ needs ih =>
    obtain ⟨before, less, value, earlier⟩ := ih
    obtain ⟨sooner, less', result⟩ := direct needs earlier
    exact ⟨sooner, Nat.lt_trans less' less, result⟩

/-- A macro that needs itself has no value. -/
theorem not_denotes_of_cycle {name : String} (cycle : Relation.TransGen (Needs definitions) name name) {depth : Nat} :
    ∀ value, approximate definitions depth name ≠ .ok value := by
  induction depth using Nat.strongRecOn with
  | ind depth ih =>
    intro value found
    obtain ⟨before, less, first, earlier⟩ := approximate_of_needs cycle found
    exact ih before less first earlier

/-- Whatever was evaluated before, with or without success, a macro comes to what it comes to
alone, and no macro stays open. It has a value exactly if what it needs leads in no circle and
has values, and its own text has one with these. -/
theorem evaluate_after_calls (graph : Graph) :
    (∀ calls, (Memory.after (Macro.definitions graph.macros) calls).inProgress = [] ∧
      ∀ name, (outcome (evaluate (Macro.definitions graph.macros) name)
          (Memory.after (Macro.definitions graph.macros) calls)).1 =
        fresh (Macro.definitions graph.macros) name) ∧
    ∀ name, (∃ value, fresh (Macro.definitions graph.macros) name = .ok value) ↔
      (∀ other, Relation.ReflTransGen (Needs (Macro.definitions graph.macros)) name other →
        ¬ Relation.TransGen (Needs (Macro.definitions graph.macros)) other other) ∧
      (∀ other, Relation.TransGen (Needs (Macro.definitions graph.macros)) name other →
        ∃ value, fresh (Macro.definitions graph.macros) other = .ok value) ∧
      ∃ source expression value, (Macro.definitions graph.macros).lookup name = some source ∧
        Expression.parse source = .ok expression ∧
        expression.evaluate (fresh (Macro.definitions graph.macros)) = .ok value := by
  refine ⟨fun calls => ?_, fun name => ⟨?_, ?_⟩⟩
  · have consistent : Consistent (Macro.definitions graph.macros) [] _ := consistent_after calls
    exact ⟨consistent.inProgress, fun name => outcome_evaluate_eq_fresh name consistent⟩
  · rintro ⟨value, found⟩
    obtain ⟨depth, denotes⟩ := fresh_eq_ok.mp found
    have valued {other : String} (needs : Relation.TransGen (Needs (Macro.definitions graph.macros)) name other) :
        ∃ value, Denotes (Macro.definitions graph.macros) other value := by
      obtain ⟨before, _, value, earlier⟩ := approximate_of_needs needs denotes
      exact ⟨value, before, earlier⟩
    refine ⟨fun other reaches cycle => ?_, fun other needs => ?_, ?_⟩
    · rcases Relation.reflTransGen_iff_eq_or_transGen.mp reaches with rfl | needs
      · exact not_denotes_of_cycle cycle value denotes
      · obtain ⟨value, depth, earlier⟩ := valued needs
        exact not_denotes_of_cycle cycle value earlier
    · obtain ⟨value, earlier⟩ := valued needs
      exact ⟨value, fresh_eq_ok.mpr earlier⟩
    · obtain ⟨source, expression, text⟩ := fresh_eq_ok_iff_text.mp found
      exact ⟨source, expression, value, text⟩
  · rintro ⟨_, _, source, expression, value, text⟩
    exact ⟨value, fresh_eq_ok_iff_text.mpr ⟨source, expression, text⟩⟩

/-- A division by zero needs nothing and has no value. -/
theorem needs_do_not_decide :
    ¬ ∀ (graph : Graph), ∀ name ∈ graph.macros.map (·.name),
      (∃ value, fresh (Macro.definitions graph.macros) name = .ok value) ↔
        (∀ other, Relation.ReflTransGen (Needs (Macro.definitions graph.macros)) name other →
          ¬ Relation.TransGen (Needs (Macro.definitions graph.macros)) other other) ∧
        ∀ other, Relation.TransGen (Needs (Macro.definitions graph.macros)) name other →
          ∃ value, fresh (Macro.definitions graph.macros) other = .ok value := by
  intro always
  let graph : Graph := ⟨[⟨"a.h", [], [], [], [], [⟨"A", "1 / 0"⟩]⟩]⟩
  have failing : fresh (Macro.definitions graph.macros) "A" = .error .divisionByZero := by decide +kernel
  have parsed : Expression.parse "1 / 0" =
      .ok (.binary .divide (.literal (.integer .int 1)) (.literal (.integer .int 0))) := by decide +kernel
  have free (other : String) : ¬ Relation.TransGen (Needs (Macro.definitions graph.macros)) "A" other := by
    intro needs
    obtain ⟨_, ⟨source, expression, defined, parsed', demands⟩, _⟩ := Relation.TransGen.head'_iff.mp needs
    obtain rfl : "1 / 0" = source := Option.some.inj defined
    obtain rfl := Except.ok.inj (parsed.symm.trans parsed')
    cases demands with
    | left inner => cases inner
    | right _ _ inner => cases inner
  obtain ⟨value, found⟩ := (always graph "A" (List.mem_singleton_self "A")).mpr (by
    refine ⟨fun other reaches => ?_, fun other needs => absurd needs (free other)⟩
    rcases Relation.reflTransGen_iff_eq_or_transGen.mp reaches with rfl | needs
    · exact free "A"
    · exact absurd needs (free other))
  rw [failing] at found
  cases found

end Interop.Macro
