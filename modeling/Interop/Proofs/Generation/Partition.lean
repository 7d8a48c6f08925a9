import Mathlib.Data.List.Flatten
import Mathlib.Data.Nat.Find
import Interop.Proofs.Generation.Closure
import Interop.Proofs.Session.Surface

/-! How a run shares the functions of a graph out among its libraries. Earlier libraries take
precedence, and within a library earlier declarations. -/
namespace Interop

section

variable {claimed : List String} {candidates : List Function} {name : String}

theorem mem_claimed_claimFunctions : name ∈ (claimFunctions claimed candidates).2 ↔
    name ∈ claimed ∨ ∃ function ∈ candidates, function.name = name := by
  induction candidates generalizing claimed with
  | nil => simp [claimFunctions]
  | cons first rest ih =>
    rw [claimFunctions]
    split
    · next taken =>
      rw [ih]
      constructor
      · rintro (before | ⟨function, member, named⟩)
        · exact .inl before
        · exact .inr ⟨function, List.mem_cons_of_mem _ member, named⟩
      · rintro (before | ⟨function, member, rfl⟩)
        · exact .inl before
        · rcases List.mem_cons.mp member with rfl | later
          · exact .inl taken
          · exact .inr ⟨function, later, rfl⟩
    · change name ∈ (claimFunctions (first.name :: claimed) rest).2 ↔ _
      simp [ih, eq_comm, or_assoc, or_left_comm]

theorem claimFunctions_sublist : (claimFunctions claimed candidates).1.Sublist candidates := by
  induction candidates generalizing claimed with
  | nil => exact List.Sublist.slnil
  | cons first rest ih =>
    rw [claimFunctions]
    split
    · exact ih.cons first
    · exact ih.cons_cons first

theorem nodup_claimFunctions : ((claimFunctions claimed candidates).1.map (·.name)).Nodup := by
  induction candidates generalizing claimed with
  | nil => exact List.nodup_nil
  | cons first rest ih =>
    rw [claimFunctions]
    split
    · exact ih
    · refine List.nodup_cons.mpr ⟨fun again => ?_, ih⟩
      obtain ⟨function, member, same⟩ := List.mem_map.mp again
      exact (mem_claimFunctions.mp member).1 (same ▸ List.mem_cons_self)

end

def Library.Declares (library : Library) (graph : Graph) (name : String) : Prop :=
  ∃ unit ∈ graph.units, Path.sameFile unit.fileName library.header ∧
    ∃ function ∈ unit.functions, function.name = name

theorem Library.mem_functions {library : Library} {graph : Graph} {function : Function} :
    function ∈ library.functions graph ↔
      ∃ unit ∈ graph.units, Path.sameFile unit.fileName library.header ∧ function ∈ unit.functions := by
  simp [Library.functions, Library.units, and_assoc]

theorem Library.declares_iff {library : Library} {graph : Graph} {name : String} :
    library.Declares graph name ↔ ∃ function ∈ library.functions graph, function.name = name := by
  simp only [Library.mem_functions]
  constructor
  · rintro ⟨unit, listed, matching, function, member, named⟩
    exact ⟨function, ⟨unit, listed, matching, member⟩, named⟩
  · rintro ⟨function, ⟨unit, listed, matching, member⟩, named⟩
    exact ⟨unit, listed, matching, function, member, named⟩

/-- A library with the functions that it binds and the signatures that they got. -/
structure Binding where
  library : Library
  functions : List Function
  signatures : List Signature

namespace Binding

def Binds (binding : Binding) (name : String) : Prop := name ∈ binding.functions.map (·.name)

def surface (constants : List NamedConstant) (binding : Binding) : List (String × Declaration) :=
  binding.library.surface binding.signatures constants

end Binding

/-- Every name that libraries declare is bound by the first library that declares it, with the
first declaration there, and by no other library. -/
structure Partitions (graph : Graph) (bindings : List Binding) : Prop where
  matching : ∀ binding ∈ bindings, ∀ function ∈ binding.functions, ∃ unit ∈ graph.units,
    Path.sameFile unit.fileName binding.library.header ∧ function ∈ unit.functions
  ordered : ∀ binding ∈ bindings, binding.functions.Sublist (graph.units.flatMap (·.functions))
  distinct : ∀ binding ∈ bindings, (binding.functions.map (·.name)).Nodup
  first : ∀ (position : Nat) (binding : Binding), bindings[position]? = some binding →
    ∀ function, function ∈ binding.functions ↔
      (binding.library.functions graph).find? (·.name = function.name) = some function ∧
      ∀ earlier < position, ∀ other, bindings[earlier]? = some other →
        ¬ other.library.Declares graph function.name
  once : ∀ name, (∃ binding ∈ bindings, binding.library.Declares graph name) →
    ∃! position : Nat, ∃ binding, bindings[position]? = some binding ∧ binding.Binds name

/-- Libraries bind, one after another, what those before them and the claimed names leave. -/
inductive Shares (graph : Graph) : List String → List Binding → Prop
  | nil {claimed : List String} : Shares graph claimed []
  | cons {claimed : List String} {binding : Binding} {bindings : List Binding} :
    binding.functions = (claimFunctions claimed (binding.library.functions graph)).1 →
    Shares graph (claimFunctions claimed (binding.library.functions graph)).2 bindings →
    Shares graph claimed (binding :: bindings)

namespace Shares

variable {graph : Graph} {claimed : List String} {bindings : List Binding} {binding : Binding}

/-- The names that are claimed when the turn of a library comes. -/
theorem exists_claimed (shares : Shares graph claimed bindings) {position : Nat}
    (found : bindings[position]? = some binding) : ∃ before,
      binding.functions = (claimFunctions before (binding.library.functions graph)).1 ∧
      ∀ name, name ∈ before ↔ name ∈ claimed ∨
        ∃ earlier < position, ∃ other, bindings[earlier]? = some other ∧ other.library.Declares graph name := by
  induction shares generalizing position with
  | nil => cases found
  | @cons claimed first rest bound shares ih =>
    cases position with
    | zero =>
      obtain rfl := Option.some.inj found
      exact ⟨claimed, bound, fun name => by simp⟩
    | succ position =>
      -- The rest starts from the claimed names and those that the first library declares.
      obtain ⟨before, binds, mem_iff⟩ := ih found
      refine ⟨before, binds, fun name => ?_⟩
      rw [mem_iff, mem_claimed_claimFunctions, ← Library.declares_iff, or_assoc, Nat.exists_lt_succ_left]
      simp

/-- A library binds the first of its declarations of a name, unless the name was claimed at the
start or an earlier library declares it too. -/
theorem mem_functions (shares : Shares graph claimed bindings) {position : Nat}
    (found : bindings[position]? = some binding) {function : Function} : function ∈ binding.functions ↔
      (binding.library.functions graph).find? (·.name = function.name) = some function ∧
      function.name ∉ claimed ∧ ∀ earlier < position, ∀ other, bindings[earlier]? = some other →
        ¬ other.library.Declares graph function.name := by
  obtain ⟨before, binds, mem_iff⟩ := shares.exists_claimed found
  rw [binds, mem_claimFunctions, mem_iff, and_comm]
  refine and_congr_right fun _ => ?_
  simp only [not_or, not_exists, not_and]

theorem declares_of_binds (shares : Shares graph claimed bindings) {position : Nat} {name : String}
    (found : bindings[position]? = some binding) (binds : binding.Binds name) :
    binding.library.Declares graph name ∧ ∀ earlier < position, ∀ other,
      bindings[earlier]? = some other → ¬ other.library.Declares graph name := by
  obtain ⟨function, member, rfl⟩ := List.mem_map.mp binds
  obtain ⟨chosen, -, unclaimed⟩ := (shares.mem_functions found).mp member
  exact ⟨Library.declares_iff.mpr ⟨function, List.mem_of_find?_eq_some chosen, rfl⟩, unclaimed⟩

/-- The least position of a library that declares a name is the one that binds it. -/
theorem existsUnique_binds (shares : Shares graph claimed bindings) {name : String} (free : name ∉ claimed)
    (declared : ∃ binding ∈ bindings, binding.library.Declares graph name) :
    ∃! position : Nat, ∃ binding, bindings[position]? = some binding ∧ binding.Binds name := by
  classical
  have declares : ∃ (position : Nat) (binding : Binding), bindings[position]? = some binding ∧
      binding.library.Declares graph name := by
    obtain ⟨binding, member, declared⟩ := declared
    obtain ⟨position, found⟩ := List.mem_iff_getElem?.mp member
    exact ⟨position, binding, found, declared⟩
  obtain ⟨binding, found, own⟩ := Nat.find_spec declares
  refine ⟨Nat.find declares, ⟨binding, found, ?_⟩, ?_⟩
  · obtain ⟨candidate, member, named⟩ := Library.declares_iff.mp own
    have present : ((binding.library.functions graph).find? (·.name = name)).isSome :=
      List.find?_isSome.mpr ⟨candidate, member, decide_eq_true named⟩
    obtain ⟨function, chosen⟩ := Option.isSome_iff_exists.mp present
    have same := List.find?_some chosen
    obtain rfl : function.name = name := of_decide_eq_true same
    exact List.mem_map.mpr ⟨function, (shares.mem_functions found).mpr ⟨chosen, free,
      fun earlier before other held declared => Nat.find_min declares before ⟨other, held, declared⟩⟩, rfl⟩
  · rintro position ⟨other, held, binds⟩
    obtain ⟨declared, unclaimed⟩ := shares.declares_of_binds held binds
    rcases Nat.lt_or_eq_of_le (Nat.find_min' declares ⟨other, held, declared⟩) with before | same
    · exact absurd own (unclaimed _ before binding found)
    · exact same.symm

theorem partitions (shares : Shares graph [] bindings) : Partitions graph bindings := by
  have share (binding : Binding) (member : binding ∈ bindings) :
      ∃ before, binding.functions = (claimFunctions before (binding.library.functions graph)).1 := by
    obtain ⟨position, found⟩ := List.mem_iff_getElem?.mp member
    obtain ⟨before, binds, -⟩ := shares.exists_claimed found
    exact ⟨before, binds⟩
  exact {
    matching := by
      intro binding member function bound
      obtain ⟨before, binds⟩ := share binding member
      exact Library.mem_functions.mp (claimFunctions_sublist.subset (binds ▸ bound))
    ordered := by
      intro binding member
      obtain ⟨before, binds⟩ := share binding member
      rw [binds]
      exact claimFunctions_sublist.trans (List.filter_sublist.flatMap _)
    distinct := by
      intro binding member
      obtain ⟨before, binds⟩ := share binding member
      rw [binds]
      exact nodup_claimFunctions
    first := by
      intro position binding found function
      simpa only [List.not_mem_nil, not_false_eq_true, true_and] using shares.mem_functions found
    once := fun name declared => shares.existsUnique_binds List.not_mem_nil declared }

end Shares

namespace Session

open Work

/-- Libraries that are bound one after another share the functions of the graph, and each writes
its own artifacts. -/
theorem shares_libraries {setting : Setting} {graph : Graph} {libraries : List Library}
    {claimed claimed' : List String} {before after : Progress}
    (gives : Gives (libraries.foldlM (bindLibrary setting graph) claimed) before claimed' after) :
    ∃ bindings, bindings.map Binding.library = libraries ∧ Shares graph claimed bindings ∧
      (∀ binding ∈ bindings, List.Forall₂ (Signs setting) binding.functions binding.signatures) ∧
      surfaces after.artifacts =
        surfaces before.artifacts ++ bindings.flatMap (Binding.surface setting.constants) := by
  induction libraries generalizing claimed before with
  | nil =>
    obtain ⟨-, rfl⟩ := gives_pure.mp gives
    exact ⟨[], rfl, .nil, nofun, by simp⟩
  | cons library libraries ih =>
    rw [List.foldlM_cons] at gives
    obtain ⟨_, middle, first, rest⟩ := gives_bind.mp gives
    obtain ⟨rfl, signatures, signs, written⟩ := surfaces_bindLibrary first
    obtain ⟨bindings, rfl, shares, signed, later⟩ := ih rest
    let binding : Binding := ⟨library, (claimFunctions claimed (library.functions graph)).1, signatures⟩
    refine ⟨binding :: bindings, rfl, .cons rfl shares, List.forall_mem_cons.mpr ⟨signs, signed⟩, ?_⟩
    rw [later, written, List.append_assoc, List.flatMap_cons]
    rfl

end Session

namespace Generation

open Session Work

/-- The libraries of a successful run partition what they declare, and what they write is made from
the signatures of the functions that they bind. -/
theorem exists_partitions {configuration : Configuration} {graph : Graph} {sink : Sink} {report : Report}
    (success : (fromGraph configuration graph sink).result = .ok report) :
    ∃ setting events bindings, prepare configuration graph sink = .ok (setting, events) ∧
      bindings.map Binding.library = configuration.libraries ∧ Partitions graph bindings ∧
      (∀ binding ∈ bindings,
        binding.signatures.map (·.name) = binding.functions.map (·.name) ∧
        List.Forall₂ (Signs setting) binding.functions binding.signatures) ∧
      surfaces (fromGraph configuration graph sink).artifacts =
        ("Platform", .platformEnum) :: bindings.flatMap (Binding.surface setting.constants) := by
  obtain ⟨setting, events, after, prepared, gives, artifacts, -⟩ := fromGraph_ok success
  obtain ⟨rfl, -⟩ := named_prepare prepared
  obtain ⟨_, middle, platforms, gives⟩ := gives_bind.mp gives
  obtain ⟨_, bound, libraries, forced⟩ := gives_bind.mp gives
  obtain ⟨bindings, aligned, shares, signs, written⟩ := shares_libraries libraries
  refine ⟨setting, events, bindings, prepared, aligned, shares.partitions, fun binding member => ?_, ?_⟩
  · refine ⟨?_, signs binding member⟩
    have names := (signs binding member).imp fun _ _ => Signs.name
    rw [← List.forall₂_eq_eq_eq, List.forall₂_map_left_iff, List.forall₂_map_right_iff]
    exact names.flip
  · have same : surfaces after.artifacts = surfaces bound.artifacts := sameSurfaces_forceTypes.of_gives forced
    rw [artifacts, same, written, surfaces_write platforms rfl]
    rfl

/-- Two headers that declare a function of the same name, one of them twice, and a third that no
library is bound to. -/
def sharedGraph : Graph :=
  let unit (fileName : String) (functions : List Function) : TranslationUnit := {
    fileName, functions, structs := [], enums := [], typedefs := [], macros := [] }
  ⟨[unit "port.h" [⟨"send", [], .builtin .int⟩],
    unit "lib/link.h" [⟨"open", [], .builtin .int⟩, ⟨"open", [], .builtin .unsignedInt⟩, ⟨"close", [], .builtin .int⟩],
    unit "port.h" [⟨"open", [], .builtin .long⟩, ⟨"send", [], .builtin .unsignedInt⟩],
    unit "stray.h" [⟨"stray", [], .builtin .int⟩]]⟩

def sharedConfiguration : Configuration :=
  { treeConfiguration with libraries := [⟨"Link", "link.h", [], none⟩, ⟨"Port", "port.h", [], none⟩] }

theorem exists_partitions_shared :
    (fromGraph sharedConfiguration sharedGraph (.memory none)).result =
      .ok ⟨["Platform", "ILink", "Link", "IPort", "Port"], []⟩ ∧
    ∃ bindings : List Binding, bindings.map Binding.library = sharedConfiguration.libraries ∧
      Partitions sharedGraph bindings := by
  have success : (fromGraph sharedConfiguration sharedGraph (.memory none)).result =
      .ok ⟨["Platform", "ILink", "Link", "IPort", "Port"], []⟩ := rfl
  obtain ⟨setting, events, bindings, -, aligned, partitions, -⟩ := exists_partitions success
  exact ⟨success, bindings, aligned, partitions⟩

end Generation

end Interop
