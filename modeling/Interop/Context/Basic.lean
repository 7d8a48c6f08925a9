import Interop.Declaration.Basic
import Interop.Generation.Error

/-! The declarations of a graph by name. Structures and named enumerations share one
namespace and keep the order of their first declarations; a definition takes the place of
its forward declarations. Enumerations without a name are numbered and may be given one. -/
namespace Interop

inductive TagDeclaration where
  | struct (declaration : Struct)
  | enumeration (declaration : Enumeration)
  deriving DecidableEq, Repr

structure AnonymousEnum where
  declaration : Enumeration
  name : Option String
  deriving DecidableEq, Repr

structure Context where
  tags : List (String × TagDeclaration)
  typedefs : List (String × Typedef)
  anonymous : List AnonymousEnum
  deriving DecidableEq, Repr

namespace Context

def empty : Context := ⟨[], [], []⟩

def tag? (context : Context) (name : String) : Option TagDeclaration := context.tags.lookup name

def struct? (context : Context) (name : String) : Option Struct :=
  match context.tag? name with
  | some (.struct declaration) => some declaration
  | _ => none

def enumeration? (context : Context) (name : String) : Option Enumeration :=
  match context.tag? name with
  | some (.enumeration declaration) => some declaration
  | _ => none

def typedef? (context : Context) (name : String) : Option Typedef := context.typedefs.lookup name

def isKnown (context : Context) (name : String) : Bool := (context.tag? name).isSome

/-- The known names in the order of their first declarations. -/
def knownNames (context : Context) : List String := context.tags.map (·.1)

theorem mem_knownNames {context : Context} {name : String} :
    name ∈ context.knownNames ↔ context.isKnown name := by
  simp only [knownNames, isKnown, tag?, List.lookup_isSome_iff, List.mem_map, beq_iff_eq]
  exact ⟨fun ⟨entry, member, same⟩ => ⟨entry, member, same.symm⟩,
    fun ⟨entry, member, same⟩ => ⟨entry, member, same.symm⟩⟩

def anonymousName? (context : Context) (index : Nat) : Option String :=
  context.anonymous[index]?.bind (·.name)

/-- The known names that are not among the registered ones, and then the enumerations that
never got a name. -/
def orphans (context : Context) (registered : List String) : List String :=
  context.knownNames.filter (fun name => !registered.contains name) ++
    context.anonymous.zipIdx.filterMap fun (entry, index) =>
      if entry.name.isNone then some (TagReference.anonymous index).display else none

def append (context : Context) (name : String) (declaration : TagDeclaration) : Context :=
  { context with tags := context.tags ++ [(name, declaration)] }

def replace (context : Context) (name : String) (declaration : TagDeclaration) : Context :=
  { context with tags := context.tags.map fun entry =>
      if entry.1 = name then (name, declaration) else entry }

def addStruct (context : Context) (struct : Struct) : Except GenerationError Context :=
  match context.tag? struct.name with
  | none => .ok (context.append struct.name (.struct struct))
  | some (.enumeration _) => .error (.duplicateDeclaration struct.name)
  | some (.struct existing) =>
    if struct.incomplete then .ok context
    else if existing.incomplete then .ok (context.replace struct.name (.struct struct))
    else if existing = struct then .ok context
    else .error (.duplicateDeclaration struct.name)

def addEnumeration (context : Context) (enumeration : Enumeration) :
    Except GenerationError Context :=
  match enumeration.declaredName? with
  | none => .ok { context with anonymous := context.anonymous ++ [⟨enumeration, none⟩] }
  | some name =>
    match context.tag? name with
    | none => .ok (context.append name (.enumeration enumeration))
    | some existing =>
      if existing = .enumeration enumeration then .ok context
      else .error (.duplicateDeclaration name)

def addTypedef (context : Context) (typedef : Typedef) : Except GenerationError Context :=
  match context.typedef? typedef.name with
  | none => .ok { context with typedefs := context.typedefs ++ [(typedef.name, typedef)] }
  | some existing =>
    if existing = typedef then .ok context else .error (.duplicateDeclaration typedef.name)

def addUnit (context : Context) (unit : TranslationUnit) : Except GenerationError Context := do
  let context ← unit.structs.foldlM addStruct context
  let context ← unit.enums.foldlM addEnumeration context
  unit.typedefs.foldlM addTypedef context

def index (graph : Graph) : Except GenerationError Context := graph.units.foldlM addUnit empty

/-- Adds an enumeration that is declared nowhere; its name must be free. One without a
name is dropped. -/
def insertEnumeration (context : Context) (enumeration : Enumeration) :
    Except GenerationError Context :=
  match enumeration.declaredName? with
  | none => .ok context
  | some name =>
    if context.isKnown name then .error (.duplicateDeclaration name)
    else .ok (context.append name (.enumeration enumeration))

def nameAnonymous (context : Context) (index : Nat) (name : String) : Context :=
  { context with anonymous := context.anonymous.modify index fun entry =>
      { entry with name := some name } }

end Context

end Interop
