import Mathlib.Data.List.Induction
import Interop.Macro.Extraction
import Interop.Proofs.Context
import Interop.Proofs.Macro.Need

/-! Which constants macros give, and in which order. Each search settles the macros that it selects and that
no search before it selected. What a macro comes to is decided by the first definitions of the graph, so a settled
macro becomes a constant or is reported as skipped, and the order of evaluation leaves no trace. -/
namespace Interop

def Event.skippedName? : Event → Option String
  | .skippedMacro name _ => some name
  | _ => none

def Graph.macroNames (graph : Graph) : List String := (graph.macros.map (·.name)).eraseDups

/-- The text of a macro in the first definition that a graph has of it. -/
def Graph.definition? (graph : Graph) (name : String) : Option String :=
  (graph.macros.find? (·.name = name)).map (·.expression)

def Graph.firstDefinitions (graph : Graph) : List (String × String) :=
  graph.macroNames.filterMap fun name => (graph.definition? name).map (name, ·)

namespace Macro

/-- The macros that searches settle one after another: each those that it selects and none before it does. -/
def settlement (names : List String) (searches : List MacroSearch) : List String :=
  searches.zipIdx.flatMap fun entry => names.filter fun name =>
    entry.1.selects name && !(searches.take entry.2).any (·.selects name)

section

variable (definitions : List (String × String))

def constant? (name : String) : Option NamedConstant :=
  match fresh definitions name with
  | .ok value => some ⟨name, value⟩
  | .error _ => none

def skipped? (name : String) : Option Event :=
  match fresh definitions name with
  | .ok _ => none
  | .error error => some (.skippedMacro name error)

/-- Extraction has settled some macros, in this order. -/
structure Settles (order : List String) (state : Extraction) : Prop where
  memory : Consistent definitions [] state.memory
  distinct : order.Nodup
  settled : ∀ name, name ∈ state.settled ↔ name ∈ order
  constants : state.constants = order.filterMap (constant? definitions)
  events : state.events = order.filterMap (skipped? definitions)

end

variable {definitions definitions' : List (String × String)} {order names : List String} {name : String}
  {state : Extraction} {search : MacroSearch} {searches : List MacroSearch}

theorem settles_start : Settles definitions [] .start :=
  ⟨consistent_empty, List.nodup_nil, fun _ => Iff.rfl, rfl, rfl⟩

/-- A macro that is selected for the first time is settled with what it comes to by itself. -/
theorem Settles.visit_new (settles : Settles definitions order state) (selected : search.selects name)
    (new : name ∉ order) : Settles definitions (order ++ [name]) (Extraction.visit definitions search state name) := by
  obtain ⟨memory, computed, consistent⟩ := outcome_evaluate name settles.memory
  have alone := outcome_evaluate_eq_fresh name settles.memory
  have fresh' : name ∉ state.settled := fun held => new ((settles.settled name).mp held)
  have distinct : (order ++ [name]).Nodup :=
    List.nodup_append_comm.mpr (List.nodup_cons.mpr ⟨new, settles.distinct⟩)
  have settled (other : String) : other ∈ name :: state.settled ↔ other ∈ order ++ [name] := by
    rw [List.mem_cons, List.mem_append, List.mem_singleton, settles.settled, or_comm]
  rw [computed] at alone
  have run : (evaluate definitions name).run.run state.memory = (fresh definitions name, memory) := by
    rw [← alone]
    exact computed
  simp only [Extraction.visit, selected, List.contains_eq_mem, fresh', run]
  cases found : fresh definitions name with
  | ok value =>
    refine ⟨consistent, distinct, settled, ?_, ?_⟩
    · simp [settles.constants, constant?, found]
    · simp [settles.events, skipped?, found]
  | error error =>
    refine ⟨consistent, distinct, settled, ?_, ?_⟩
    · simp [settles.constants, constant?, found]
    · simp [settles.events, skipped?, found]

theorem Settles.visit_other (settles : Settles definitions order state)
    (other : ¬ (search.selects name ∧ name ∉ order)) :
    Settles definitions order (Extraction.visit definitions search state name) := by
  have skips : (!search.selects name || state.settled.contains name) = true := by
    by_cases selected : search.selects name
    · have held := (settles.settled name).mpr (not_not.mp fun new => other ⟨selected, new⟩)
      simp [held]
    · simp [selected]
  rw [Extraction.visit, if_pos skips]
  exact settles

def newly (search : MacroSearch) (order names : List String) : List String :=
  names.filter fun name => search.selects name && !order.contains name

theorem mem_newly : name ∈ newly search order names ↔ name ∈ names ∧ search.selects name ∧ name ∉ order := by
  simp [newly]

theorem newly_append_new (selected : search.selects name) (new : name ∉ order) :
    newly search order (names ++ [name]) = newly search order names ++ [name] := by
  simp [newly, selected, new]

theorem newly_append_other (other : ¬ (search.selects name ∧ name ∉ order)) :
    newly search order (names ++ [name]) = newly search order names := by
  have skips : (search.selects name && !order.contains name) = false := by simpa using other
  rw [newly, List.filter_append, List.filter_singleton, skips]
  exact List.append_nil _

/-- One search settles what it selects among the names, each at its first place; by induction on the names
from the back, so that the others have been passed before. -/
theorem Settles.foldl_visit (settles : Settles definitions order state) (all : List String) :
    Settles definitions (order ++ newly search order all.eraseDups)
      (all.foldl (Extraction.visit definitions search) state) := by
  induction all using List.reverseRecOn with
  | nil => simpa [newly] using settles
  | append_singleton all name ih =>
    rw [List.foldl_append, List.foldl_cons, List.foldl_nil]
    by_cases seen : name ∈ all
    · rw [Context.eraseDups_known seen]
      refine ih.visit_other fun chosen => chosen.2 ?_
      by_cases held : name ∈ order
      · exact List.mem_append_left _ held
      · exact List.mem_append_right _ (mem_newly.mpr ⟨List.mem_eraseDups.mpr seen, chosen.1, held⟩)
    · rw [Context.eraseDups_unknown seen]
      by_cases selected : search.selects name ∧ name ∉ order
      · rw [newly_append_new selected.1 selected.2, ← List.append_assoc]
        refine ih.visit_new selected.1 fun held => ?_
        rcases List.mem_append.mp held with former | own
        · exact selected.2 former
        · exact seen (List.mem_eraseDups.mp (mem_newly.mp own).1)
      · rw [newly_append_other selected]
        exact ih.visit_other fun chosen => selected ⟨chosen.1, fun held => chosen.2 (List.mem_append_left _ held)⟩

theorem settlement_append (names : List String) (searches : List MacroSearch) (search : MacroSearch) :
    settlement names (searches ++ [search]) =
      settlement names searches ++ names.filter fun name => search.selects name && !searches.any (·.selects name) := by
  rw [settlement, List.zipIdx_append, List.flatMap_append]
  congr 1
  · refine List.flatMap_congr fun entry member => ?_
    obtain ⟨before, -⟩ := List.getElem?_eq_some_iff.mp (List.mem_zipIdx_iff_getElem?.mp member)
    rw [List.take_append_of_le_length (Nat.le_of_lt before)]
  · simp

theorem mem_settlement : name ∈ settlement names searches ↔
    name ∈ names ∧ ∃ search ∈ searches, search.selects name := by
  induction searches using List.reverseRecOn with
  | nil => simp [settlement]
  | append_singleton searches search ih =>
    have either : (∃ other ∈ searches ++ [search], other.selects name) ↔
        (∃ other ∈ searches, other.selects name) ∨ search.selects name := by
      simp [or_and_right, exists_or]
    have own : name ∈ names.filter (fun name => search.selects name && !searches.any (·.selects name)) ↔
        name ∈ names ∧ search.selects name ∧ ¬ ∃ other ∈ searches, other.selects name := by
      simp
    rw [settlement_append, List.mem_append, ih, either, own]
    by_cases earlier : ∃ other ∈ searches, other.selects name
    · simp only [earlier, not_true, and_false, or_false, true_or]
    · simp only [earlier, not_false_eq_true, and_false, false_or, and_true]

/-- What a search settles is what it selects and is not settled. -/
theorem settlement_concat (names : List String) (searches : List MacroSearch) (search : MacroSearch) :
    settlement names (searches ++ [search]) =
      settlement names searches ++ newly search (settlement names searches) names := by
  rw [settlement_append, newly]
  congr 1
  refine List.filter_congr fun name member => ?_
  have settled : (settlement names searches).contains name = searches.any (·.selects name) := by
    rw [Bool.eq_iff_iff, List.contains_iff_mem, mem_settlement, List.any_eq_true]
    exact and_iff_right member
  rw [settled]

theorem settles_run (graph : Graph) (searches : List MacroSearch) :
    Settles (Macro.definitions graph.macros) (settlement graph.macroNames searches)
      (Extraction.run graph.macros searches) := by
  induction searches using List.reverseRecOn with
  | nil => exact settles_start
  | append_singleton searches search ih =>
    rw [settlement_concat, Extraction.run, List.foldl_append, List.foldl_cons, List.foldl_nil]
    exact ih.foldl_visit _

/-- With the same first definitions macros come to the same, however many others there are. -/
theorem guarded_congr (same : ∀ name, definitions.lookup name = definitions'.lookup name) {bound bound' : Nat}
    {opened : List String} (room : Room definitions bound opened) (room' : Room definitions' bound' opened)
    (name : String) : guarded definitions bound opened name = guarded definitions' bound' opened name := by
  induction bound generalizing bound' opened name with
  | zero => exact absurd room.pos (Nat.lt_irrefl 0)
  | succ bound ih =>
    obtain ⟨bound', rfl⟩ := Nat.exists_eq_add_one.mpr room'.pos
    simp only [guarded, same name]
    cases defined : definitions'.lookup name with
    | none => rfl
    | some source =>
      dsimp only
      split
      · rfl
      · next closed =>
        have alike : guarded definitions bound (name :: opened) = guarded definitions' bound' (name :: opened) :=
          funext fun other => ih (room.open ((same name).trans defined) closed) (room'.open defined closed) other
        rw [alike]

theorem fresh_congr (same : ∀ name, definitions.lookup name = definitions'.lookup name) :
    fresh definitions = fresh definitions' := by
  refine funext fun name => ?_
  rw [fresh_eq_guarded, fresh_eq_guarded]
  exact guarded_congr same room_start room_start name

section Definitions

variable (graph : Graph)

/-- Evaluation looks up the definition that comes first. -/
theorem lookup_definitions (name : String) :
    (Macro.definitions graph.macros).lookup name = graph.definition? name := by
  rw [Graph.definition?]
  induction graph.macros with
  | nil => rfl
  | cons first others ih =>
    rw [Macro.definitions, List.map_cons, ← Macro.definitions, List.lookup_cons, List.find?_cons]
    by_cases own : first.name = name
    · simp [own]
    · have other : (name == first.name) = false := beq_eq_false_iff_ne.mpr (Ne.symm own)
      simpa [own, other] using ih

theorem definition?_eq_none {name : String} (unlisted : name ∉ graph.macroNames) : graph.definition? name = none := by
  rw [Graph.macroNames, List.mem_eraseDups, List.mem_map, not_exists] at unlisted
  rw [Graph.definition?, Option.map_eq_none_iff, List.find?_eq_none]
  exact fun definition member own => unlisted definition ⟨member, of_decide_eq_true own⟩

theorem lookup_filterMap (names : List String) (text? : String → Option String) (name : String) :
    (names.filterMap fun other => (text? other).map (other, ·)).lookup name =
      if name ∈ names then text? name else none := by
  induction names with
  | nil => rfl
  | cons first others ih =>
    by_cases own : name = first
    · subst own
      cases found : text? name with
      | none => simp [found, ih]
      | some text => simp [found]
    · have other : (name == first) = false := beq_eq_false_iff_ne.mpr own
      cases found : text? first <;> simp [found, ih, own, List.lookup_cons, other]

theorem lookup_firstDefinitions (name : String) : graph.firstDefinitions.lookup name = graph.definition? name := by
  rw [Graph.firstDefinitions, lookup_filterMap]
  split
  · rfl
  · next unlisted => exact (definition?_eq_none graph unlisted).symm

theorem fresh_definitions : fresh (Macro.definitions graph.macros) = fresh graph.firstDefinitions :=
  fresh_congr fun name => (lookup_definitions graph name).trans (lookup_firstDefinitions graph name).symm

end Definitions

theorem constant?_names : (order.filterMap (constant? definitions)).map (·.name) =
    order.filter fun name => (fresh definitions name).isOk := by
  induction order with
  | nil => rfl
  | cons name order ih =>
    cases found : fresh definitions name with
    | ok value => simp [constant?, found, ih, Except.isOk, Except.toBool]
    | error error => simp [constant?, found, ih, Except.isOk, Except.toBool]

theorem skipped?_names : (order.filterMap (skipped? definitions)).filterMap Event.skippedName? =
    order.filter fun name => !(fresh definitions name).isOk := by
  induction order with
  | nil => rfl
  | cons name order ih =>
    cases found : fresh definitions name with
    | ok value => simp [skipped?, found, ih, Except.isOk, Except.toBool]
    | error error => simp [skipped?, found, ih, Except.isOk, Except.toBool, Event.skippedName?]

theorem extract_eq (graph : Graph) (searches : List MacroSearch) :
    extract graph searches =
      ((settlement graph.macroNames searches).filterMap (constant? graph.firstDefinitions),
        (settlement graph.macroNames searches).filterMap (skipped? graph.firstDefinitions)) := by
  have alike : constant? (Macro.definitions graph.macros) = constant? graph.firstDefinitions ∧
      skipped? (Macro.definitions graph.macros) = skipped? graph.firstDefinitions := by
    constructor <;> funext name <;> simp only [constant?, skipped?, fresh_definitions]
  rw [← alike.1, ← alike.2]
  exact Prod.ext (settles_run graph searches).constants (settles_run graph searches).events

/-- What extraction comes to. Search by search and name by name, a macro that a search selects and no earlier
search does gives a constant, if its first definition has a value by itself, and a report otherwise; so no constant
is there twice, each macro that is selected is extracted once or skipped once, and graphs with the same first
definitions give the same. -/
theorem extract_settlement (graph : Graph) (searches : List MacroSearch) :
    extract graph searches =
      ((settlement graph.macroNames searches).filterMap (constant? graph.firstDefinitions),
        (settlement graph.macroNames searches).filterMap (skipped? graph.firstDefinitions)) ∧
    (∀ name, graph.firstDefinitions.lookup name = (graph.macros.find? (·.name = name)).map (·.expression)) ∧
    ((extract graph searches).1.map (·.name)).Nodup ∧
    (∀ name ∈ graph.macroNames, (∃ search ∈ searches, search.selects name) →
      ((extract graph searches).1.map (·.name)).count name +
        ((extract graph searches).2.filterMap Event.skippedName?).count name = 1) ∧
    ∀ other : Graph, other.macroNames = graph.macroNames →
      (∀ name, other.macros.find? (·.name = name) = graph.macros.find? (·.name = name)) →
      extract other searches = extract graph searches := by
  have distinct := (settles_run graph searches).distinct
  refine ⟨extract_eq graph searches, lookup_firstDefinitions graph, ?_, fun name listed selected => ?_,
    fun other names same => ?_⟩
  · rw [extract_eq, constant?_names]
    exact distinct.filter _
  · have once : (settlement graph.macroNames searches).count name = 1 :=
      List.count_eq_one_of_mem distinct (mem_settlement.mpr ⟨listed, selected⟩)
    rw [extract_eq, constant?_names, skipped?_names]
    cases value : (fresh graph.firstDefinitions name).isOk <;>
      simp [List.count_filter, value, once, List.count_eq_zero]
  · have texts : other.definition? = graph.definition? := funext fun name => congrArg _ (same name)
    have definitions : other.firstDefinitions = graph.firstDefinitions := by
      rw [Graph.firstDefinitions, Graph.firstDefinitions, names, texts]
    rw [extract_eq other, extract_eq graph, names, definitions]

def redefinedGraph : Graph :=
  ⟨[⟨"log.h", [], [], [], [], [⟨"LOG_ON", "1"⟩, ⟨"LOG_NEXT", "LOG_ON + 1"⟩, ⟨"LOG_ON", "2"⟩, ⟨"LOG_ON", "1 /"⟩]⟩]⟩

def definedGraph : Graph :=
  ⟨[⟨"log.h", [], [], [], [], [⟨"LOG_ON", "1"⟩, ⟨"LOG_NEXT", "LOG_ON + 1"⟩]⟩]⟩

theorem extract_settlement_redefined :
    redefinedGraph.macroNames = definedGraph.macroNames ∧
    (∀ name, redefinedGraph.macros.find? (·.name = name) = definedGraph.macros.find? (·.name = name)) ∧
    extract redefinedGraph [⟨"LOG_", none⟩] = extract definedGraph [⟨"LOG_", none⟩] ∧
    (extract redefinedGraph [⟨"LOG_", none⟩]).1 =
      [⟨"LOG_ON", .integer .int 1⟩, ⟨"LOG_NEXT", .integer .int 2⟩] := by
  have names : redefinedGraph.macroNames = definedGraph.macroNames := by decide
  have first (name : String) :
      redefinedGraph.macros.find? (·.name = name) = definedGraph.macros.find? (·.name = name) := by
    by_cases own : "LOG_ON" = name
    · subst own
      decide
    · simp [redefinedGraph, definedGraph, Graph.macros, List.find?_cons, own]
  obtain ⟨-, -, -, -, settled⟩ := extract_settlement definedGraph [⟨"LOG_", none⟩]
  have same := settled redefinedGraph names first
  refine ⟨names, first, same, ?_⟩
  rw [same]
  decide +kernel

example : extract ⟨[⟨"log.h", [], [], [], [],
      [⟨"LOG_ON", "1"⟩, ⟨"LOG_BAD", "1 / 0"⟩, ⟨"LOG_ON", "2"⟩, ⟨"LOG_X", "LOG_ON + 1"⟩]⟩]⟩
    [⟨"LOG_", some "LOG_X"⟩, ⟨"LOG_", none⟩] =
    ([⟨"LOG_ON", .integer .int 1⟩, ⟨"LOG_X", .integer .int 2⟩], [.skippedMacro "LOG_BAD" .divisionByZero]) := by
  decide +kernel

end Macro

end Interop
