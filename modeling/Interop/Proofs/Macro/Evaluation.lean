import Interop.Macro.Evaluation
import Interop.Proofs.Expression.Inquiry
import Mathlib.Data.List.Nodup

/-! Values of macros without a memory. `approximate` evaluates to a depth and knows neither
values found earlier nor macros in progress; what it finds it finds at every greater depth. The
evaluation that stops at open macros finds the same values, because a value never depends on
itself, and the evaluation with a memory finds the same values and the same errors. -/
namespace Interop.Macro

variable (definitions : List (String × String))

def approximate : Nat → String → Evaluated
  | 0, name => .error (.cycle name)
  | depth + 1, name =>
    match definitions.lookup name with
    | none => .error (.unknownIdentifier name)
    | some source => body source (approximate depth)

/-- Evaluation that stops at the macros that are open, and at a bound. -/
def guarded : Nat → List String → String → Evaluated
  | 0, _, name => .error (.cycle name)
  | bound + 1, opened, name =>
    match definitions.lookup name with
    | none => .error (.unknownIdentifier name)
    | some source =>
      if name ∈ opened then .error (.cycle name) else body source (guarded bound (name :: opened))

variable {definitions}

/-- A text has a value only if it can be parsed. -/
theorem body_eq_ok {source : String} {values : String → Evaluated} {value : Constant} :
    body source values = .ok value ↔
      ∃ expression, Expression.parse source = .ok expression ∧ expression.evaluate values = .ok value := by
  unfold body
  cases Expression.parse source with
  | ok expression => simp
  | error failure => simp [throw, throwThe, MonadExceptOf.throw]

/-- Values that are found again leave the value of a text as it is. -/
theorem body_of_extends {source : String} {values values' : String → Evaluated} {value : Constant}
    (found : body source values = .ok value)
    (extend : ∀ name value, values name = .ok value → values' name = .ok value) :
    body source values' = .ok value := by
  obtain ⟨expression, parsed, evaluated⟩ := body_eq_ok.mp found
  refine body_eq_ok.mpr ⟨expression, parsed, ?_⟩
  rw [Expression.evaluate_eq_run] at evaluated ⊢
  exact Inquiry.run_of_extends evaluated extend

theorem approximate_succ {depth : Nat} {name : String} {value : Constant} :
    approximate definitions (depth + 1) name = .ok value ↔
      ∃ source, definitions.lookup name = some source ∧
        body source (approximate definitions depth) = .ok value := by
  rw [approximate]
  cases definitions.lookup name <;> simp

theorem approximate_step {depth : Nat} {name : String} {value : Constant}
    (found : approximate definitions depth name = .ok value) :
    approximate definitions (depth + 1) name = .ok value := by
  induction depth generalizing name value with
  | zero => cases found
  | succ depth ih =>
    obtain ⟨source, defined, found⟩ := approximate_succ.mp found
    exact approximate_succ.mpr ⟨source, defined, body_of_extends found fun _ _ => ih⟩

theorem approximate_mono {depth depth' : Nat} {name : String} {value : Constant} (deeper : depth ≤ depth')
    (found : approximate definitions depth name = .ok value) :
    approximate definitions depth' name = .ok value := by
  induction deeper with
  | refl => exact found
  | step _ ih => exact approximate_step ih

/-- The depth decides whether there is a value, not which. -/
theorem approximate_unique {depth depth' : Nat} {name : String} {value value' : Constant}
    (first : approximate definitions depth name = .ok value)
    (second : approximate definitions depth' name = .ok value') : value = value' := by
  have first := approximate_mono (Nat.le_max_left depth depth') first
  have second := approximate_mono (Nat.le_max_right depth depth') second
  exact Except.ok.inj (first.symm.trans second)

def Denotes (definitions : List (String × String)) (name : String) (value : Constant) : Prop :=
  ∃ depth, approximate definitions depth name = .ok value

theorem Denotes.unique {name : String} {value value' : Constant} (first : Denotes definitions name value)
    (second : Denotes definitions name value') : value = value' := by
  obtain ⟨_, first⟩ := first
  obtain ⟨_, second⟩ := second
  exact approximate_unique first second

/-- Stopping earlier adds no values. -/
theorem approximate_of_guarded {bound : Nat} {opened : List String} {name : String} {value : Constant}
    (found : guarded definitions bound opened name = .ok value) :
    approximate definitions bound name = .ok value := by
  induction bound generalizing opened name value with
  | zero => cases found
  | succ bound ih =>
    rw [guarded] at found
    cases defined : definitions.lookup name with
    | none =>
      rw [defined] at found
      cases found
    | some source =>
      simp only [defined] at found
      split at found
      · cases found
      · exact approximate_succ.mpr ⟨source, defined, body_of_extends found fun _ _ => ih⟩

/-- The open macros are distinct and defined, and the bound has room for the others. -/
structure Room (definitions : List (String × String)) (bound : Nat) (opened : List String) : Prop where
  distinct : opened.Nodup
  defined : ∀ name ∈ opened, name ∈ definitions.map Prod.fst
  enough : definitions.length < bound + opened.length

theorem room_start : Room definitions (definitions.length + 1) [] :=
  ⟨List.nodup_nil, by simp, by simp⟩

theorem mem_names_of_lookup {name source : String} (defined : definitions.lookup name = some source) :
    name ∈ definitions.map Prod.fst := by
  obtain ⟨before, after, rfl, _⟩ := List.lookup_eq_some_iff.mp defined
  simp

theorem Room.length_le {bound : Nat} {opened : List String} (room : Room definitions bound opened) :
    opened.length ≤ definitions.length := by
  have fits := List.Nodup.length_le_of_subset room.distinct room.defined
  rwa [List.length_map] at fits

theorem Room.open {bound : Nat} {opened : List String} {name source : String}
    (room : Room definitions (bound + 1) opened) (defined : definitions.lookup name = some source)
    (closed : name ∉ opened) : Room definitions bound (name :: opened) := by
  refine ⟨List.nodup_cons.mpr ⟨closed, room.distinct⟩, ?_, ?_⟩
  · intro other member
    rcases List.mem_cons.mp member with rfl | member
    · exact mem_names_of_lookup defined
    · exact room.defined other member
  · have enough := room.enough
    simp only [List.length_cons]
    omega

/-- Evaluation never runs out of its bound. -/
theorem Room.pos {bound : Nat} {opened : List String} (room : Room definitions bound opened) : 0 < bound := by
  have enough := room.enough
  have few := room.length_le
  omega

/-- Open macros that have no value to the same depth are in nobody's way. -/
theorem guarded_of_approximate {depth bound : Nat} {opened : List String} {name : String} {value : Constant}
    (found : approximate definitions depth name = .ok value) (room : Room definitions bound opened)
    (apart : ∀ other ∈ opened, ∀ value, approximate definitions depth other ≠ .ok value) :
    guarded definitions bound opened name = .ok value := by
  induction depth generalizing bound opened name value with
  | zero => cases found
  | succ depth ih =>
    have shallow : ∀ other ∈ opened, ∀ value, approximate definitions depth other ≠ .ok value :=
      fun other member value early => apart other member value (approximate_step early)
    by_cases sooner : ∃ value, approximate definitions depth name = .ok value
    · obtain ⟨early, earlier⟩ := sooner
      obtain rfl := approximate_unique earlier found
      exact ih earlier room shallow
    obtain ⟨source, defined, computed⟩ := approximate_succ.mp found
    have closed : name ∉ opened := fun member => apart name member value found
    obtain ⟨bound, rfl⟩ := Nat.exists_eq_add_one.mpr room.pos
    simp only [guarded, defined, if_neg closed]
    refine body_of_extends computed fun other first given => ih given (room.open defined closed) ?_
    intro blocker member value early
    rcases List.mem_cons.mp member with rfl | member
    · exact sooner ⟨value, early⟩
    · exact shallow blocker member value early

/-- What is open waits for the name: were it to have a value, the name would have one before. -/
def Waiting (definitions : List (String × String)) (opened : List String) (name : String) : Prop :=
  ∀ other ∈ opened, ∀ depth value, approximate definitions depth other = .ok value →
    ∃ before, before < depth ∧ ∃ value, approximate definitions before name = .ok value

theorem waiting_nil (name : String) : Waiting definitions [] name := by simp [Waiting]

/-- A value is found even if it is looked for while other macros wait for it. -/
theorem guarded_of_denotes {bound : Nat} {opened : List String} {name : String} {value : Constant}
    (denotes : Denotes definitions name value) (room : Room definitions bound opened)
    (waiting : Waiting definitions opened name) : guarded definitions bound opened name = .ok value := by
  obtain ⟨depth, found⟩ := denotes
  induction depth using Nat.strongRecOn with
  | ind depth ih =>
    by_cases sooner : ∃ before, before < depth ∧ ∃ value, approximate definitions before name = .ok value
    · obtain ⟨before, less, early, earlier⟩ := sooner
      obtain rfl := approximate_unique earlier found
      exact ih before less earlier
    · refine guarded_of_approximate found room ?_
      intro other member first early
      exact sooner (waiting other member depth first early)

/-- What a macro asks for has its value before the macro has one. -/
theorem approximate_of_asks {values : String → Evaluated} {name other source : String}
    {expression : Expression} {depth : Nat} {value : Constant}
    (founded : ∀ name value, values name = .ok value → Denotes definitions name value)
    (defined : definitions.lookup name = some source) (parsed : Expression.parse source = .ok expression)
    (asks : expression.inquiry.Asks values other)
    (found : approximate definitions depth name = .ok value) :
    ∃ before, before < depth ∧ ∃ value, approximate definitions before other = .ok value := by
  cases depth with
  | zero => cases found
  | succ depth =>
    obtain ⟨source', defined', computed⟩ := approximate_succ.mp found
    obtain rfl := Option.some.inj (defined.symm.trans defined')
    obtain ⟨expression', parsed', evaluated⟩ := body_eq_ok.mp computed
    obtain rfl := Except.ok.inj (parsed.symm.trans parsed')
    rw [Expression.evaluate_eq_run] at evaluated
    have asks := asks.transfer
      (fun name _ second given given' => (founded name _ given).unique ⟨depth, given'⟩) evaluated
    exact ⟨depth, Nat.lt_succ_self depth, asks.exists_value evaluated⟩

/-- A macro that asks for another one waits for it, and so does all that waits for the macro. -/
theorem Waiting.asks {bound : Nat} {opened : List String} {name other source : String}
    {expression : Expression} (waiting : Waiting definitions opened name)
    (defined : definitions.lookup name = some source) (parsed : Expression.parse source = .ok expression)
    (asks : expression.inquiry.Asks (guarded definitions bound (name :: opened)) other) :
    Waiting definitions (name :: opened) other := by
  have direct {depth : Nat} {value : Constant} (found : approximate definitions depth name = .ok value) :
      ∃ before, before < depth ∧ ∃ value, approximate definitions before other = .ok value :=
    approximate_of_asks (fun _ _ given => ⟨bound, approximate_of_guarded given⟩) defined parsed asks found
  intro blocker member depth value found
  rcases List.mem_cons.mp member with rfl | member
  · exact direct found
  · obtain ⟨before, less, first, earlier⟩ := waiting blocker member depth value found
    obtain ⟨sooner, less', result⟩ := direct earlier
    exact ⟨sooner, Nat.lt_trans less' less, result⟩

end Interop.Macro
