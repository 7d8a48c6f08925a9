import Interop.Configuration.Basic
import Interop.Context.Basic

/-! Typedefs that count as enumerations of their own. Such a typedef is followed to the
enumeration it ends at, and gets that enumeration's members under its own name. -/
namespace Interop.Context

/-- The enumeration that a type leads to through at most `bound` typedefs, and its index
if it has no name of its own. -/
def aliasSource (context : Context) : Nat → CType → Option (Enumeration × Option Nat)
  | _, .tag (.named name) => (context.enumeration? name).map (·, none)
  | _, .tag (.anonymous index) =>
    context.anonymous[index]?.map fun entry => (entry.declaration, some index)
  | bound + 1, .typedef name =>
    (context.typedef? name).bind fun typedef => aliasSource context bound typedef.underlying
  | _, _ => none

/-- A chain of typedefs that does not repeat itself is no longer than their number. -/
def aliased? (context : Context) (name : String) : Option (Enumeration × Option Nat) :=
  (context.typedef? name).bind fun typedef =>
    aliasSource context (context.typedefs.length + 1) typedef.underlying

def nameIfUnnamed (context : Context) (index : Nat) (name : String) : Context :=
  if (context.anonymousName? index).isNone then context.nameAnonymous index name else context

def aliasTypedef (name : String) (strategy : TypedefStrategy) : Work Context Unit := do
  let context ← get
  if strategy = .namedEnum ∧ (context.enumeration? name).isNone then
    match context.aliased? name with
    | none => return
    | some (source, index) =>
      let extended ← context.insertEnumeration { source with name := some name }
      set (match index with
        | some index => extended.nameIfUnnamed index name
        | none => extended)

def aliasAll (strategies : Table TypedefStrategy) : Work Context Unit :=
  strategies.forM fun (name, strategy) => aliasTypedef name strategy

end Interop.Context
