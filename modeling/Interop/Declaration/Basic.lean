import Interop.Primitive

/-! Declarations found in C headers, as plain data: the types, the declarations of one
translation unit in order, and the graph of all units. Enumerations without a name are
referred to by their position among all of them. -/
namespace Interop

inductive TagReference where
  | named (name : String)
  | anonymous (index : Nat)
  deriving DecidableEq, Repr

def TagReference.display : TagReference → String
  | .named name => name
  | .anonymous index => "<anonymous enum #" ++ toString index ++ ">"

inductive CType where
  | builtin (primitive : Primitive)
  | pointer (pointee : CType)
  | tag (reference : TagReference)
  | typedef (name : String)
  | function (parameters : List CType) (result : CType)
  | array (element : CType) (length : Option Nat)
  deriving Repr

namespace CType

mutual

def decEq : (a b : CType) → Decidable (a = b)
  | .builtin a, .builtin b => decidable_of_iff (a = b) (by simp)
  | .pointer a, .pointer b =>
    have := decEq a b
    decidable_of_iff (a = b) (by simp)
  | .tag a, .tag b => decidable_of_iff (a = b) (by simp)
  | .typedef a, .typedef b => decidable_of_iff (a = b) (by simp)
  | .function as a, .function bs b =>
    have := decEqList as bs
    have := decEq a b
    decidable_of_iff (as = bs ∧ a = b) (by simp)
  | .array a m, .array b n =>
    have := decEq a b
    decidable_of_iff (a = b ∧ m = n) (by simp)
  | .builtin _, .pointer _ | .builtin _, .tag _ | .builtin _, .typedef _
  | .builtin _, .function .. | .builtin _, .array .. => isFalse nofun
  | .pointer _, .builtin _ | .pointer _, .tag _ | .pointer _, .typedef _
  | .pointer _, .function .. | .pointer _, .array .. => isFalse nofun
  | .tag _, .builtin _ | .tag _, .pointer _ | .tag _, .typedef _
  | .tag _, .function .. | .tag _, .array .. => isFalse nofun
  | .typedef _, .builtin _ | .typedef _, .pointer _ | .typedef _, .tag _
  | .typedef _, .function .. | .typedef _, .array .. => isFalse nofun
  | .function .., .builtin _ | .function .., .pointer _ | .function .., .tag _
  | .function .., .typedef _ | .function .., .array .. => isFalse nofun
  | .array .., .builtin _ | .array .., .pointer _ | .array .., .tag _
  | .array .., .typedef _ | .array .., .function .. => isFalse nofun

def decEqList : (as bs : List CType) → Decidable (as = bs)
  | [], [] => isTrue rfl
  | a :: as, b :: bs =>
    have := decEq a b
    have := decEqList as bs
    decidable_of_iff (a = b ∧ as = bs) (by simp)
  | [], _ :: _ | _ :: _, [] => isFalse nofun

end

instance : DecidableEq CType := decEq

end CType

/-- A field of a structure or a parameter of a function; the name may be empty. -/
structure Member where
  name : String
  type : CType
  deriving DecidableEq, Repr

/-- A structure or a union. An incomplete one is a forward declaration. -/
structure Struct where
  name : String
  fields : List Member
  isUnion : Bool
  incomplete : Bool
  deriving DecidableEq, Repr

/-- The value of an enumerator, kept as it is given: the same number with a sign and without one
makes two literals. -/
inductive IntegerLiteral where
  | signed (value : Int64)
  | unsigned (value : UInt64)
  deriving DecidableEq, Repr

namespace IntegerLiteral

def number : IntegerLiteral → Int
  | .signed value => value.toInt
  | .unsigned value => value.toNat

def text (literal : IntegerLiteral) : String := toString literal.number

end IntegerLiteral

structure EnumItem where
  name : String
  value : IntegerLiteral
  deriving DecidableEq, Repr

structure Enumeration where
  name : Option String
  underlying : Primitive
  items : List EnumItem
  deriving DecidableEq, Repr

/-- An empty name is no name. -/
def Enumeration.declaredName? (enumeration : Enumeration) : Option String :=
  enumeration.name.filter (· ≠ "")

structure Typedef where
  name : String
  underlying : CType
  deriving DecidableEq, Repr

structure Function where
  name : String
  parameters : List Member
  result : CType
  deriving DecidableEq, Repr

structure Macro where
  name : String
  expression : String
  deriving DecidableEq, Repr

structure TranslationUnit where
  fileName : String
  structs : List Struct
  enums : List Enumeration
  typedefs : List Typedef
  functions : List Function
  macros : List Macro
  deriving DecidableEq, Repr

structure Graph where
  units : List TranslationUnit
  deriving DecidableEq, Repr

namespace Graph

def structs (graph : Graph) : List Struct := graph.units.flatMap (·.structs)

def enums (graph : Graph) : List Enumeration := graph.units.flatMap (·.enums)

def typedefs (graph : Graph) : List Typedef := graph.units.flatMap (·.typedefs)

def macros (graph : Graph) : List Macro := graph.units.flatMap (·.macros)

/-- The enumerations without a name; an anonymous reference is a position in this list. -/
def anonymousEnums (graph : Graph) : List Enumeration :=
  graph.enums.filter (·.declaredName?.isNone)

end Graph

end Interop
