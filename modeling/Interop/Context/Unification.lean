import Interop.Context.Basic

/-! Names for enumerations without one. Such an enumeration is named after the longest
given opening of its first member; those that get the same name become one enumeration, to
which each contributes its members in order. -/
namespace Interop

/-- The longest of the openings that a name starts with; of equals the first. -/
def longestOpening (name : String) (openings : List String) : Option String :=
  openings.foldl (fun best opening =>
    if opening.toList.isPrefixOf name.toList ∧ best.all (·.utf8ByteSize < opening.utf8ByteSize)
    then some opening else best) none

/-- Adds members that are not there yet, up to the first whose name is there with another
value; that name is given back. -/
def mergeItems (items : List EnumItem) : List EnumItem → List EnumItem × Option String
  | [] => (items, none)
  | item :: rest =>
    match items.find? (·.name = item.name) with
    | none => mergeItems (items ++ [item]) rest
    | some existing => if existing.value = item.value then mergeItems items rest else (items, some item.name)

def Enumeration.unifiedName? (enumeration : Enumeration) (openings : List String) : Option String :=
  enumeration.items.head?.bind fun item => longestOpening item.name openings

namespace Context

/-- Contributes the enumeration at an index. `made` are the names that earlier ones have
got; members merged before a collision stay. -/
def unifyAt (openings : List String) (made : List String) (index : Nat) (enumeration : Enumeration) :
    Work Context (List String) := do
  let context ← get
  match enumeration.unifiedName? openings with
  | none => return made
  | some name =>
    if name ∈ made then
      match context.enumeration? name with
      | none => return made
      | some target =>
        let (items, collision) := mergeItems target.items enumeration.items
        let merged := context.replace name (.enumeration { target with items })
        set merged
        match collision with
        | some memberName => throw (.memberCollision name memberName)
        | none =>
          set (merged.nameAnonymous index name)
          return made
    else
      match mergeItems [] enumeration.items with
      | (_, some memberName) => throw (.memberCollision name memberName)
      | (items, none) =>
        let extended ← context.insertEnumeration ⟨some name, enumeration.underlying, items⟩
        set (extended.nameAnonymous index name)
        return name :: made

def unify (openings : List String) : Work Context Unit := do
  let context ← get
  let _ ← context.anonymous.zipIdx.foldlM (fun made (entry, index) =>
    unifyAt openings made index entry.declaration) []

end Context

end Interop
