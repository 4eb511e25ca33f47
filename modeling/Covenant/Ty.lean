/-!
# Types

A type is a base under some number of array brackets. The base is one of six primitives, a type
variable, or the wildcard: the base inferred for values that say nothing about their type, which
is never written in a signature.
-/

namespace Covenant

/-- The types that are not built from others. -/
inductive Primitive where
  | string
  | number
  | boolean
  | object
  | function
  | symbol
deriving DecidableEq, Repr

namespace Primitive

def name : Primitive → String
  | .string => "string"
  | .number => "number"
  | .boolean => "boolean"
  | .object => "object"
  | .function => "function"
  | .symbol => "symbol"

def all : List Primitive := [.string, .number, .boolean, .object, .function, .symbol]

def ofName? (name : String) : Option Primitive :=
  all.find? fun p => p.name == name

@[simp] theorem ofName?_name (p : Primitive) : ofName? p.name = some p := by
  cases p <;> rfl

end Primitive

/-- What stands inside the brackets of a type. -/
inductive Base where
  | prim (p : Primitive)
  /-- The base of values that say nothing about their type. -/
  | wildcard
  | var (name : String)
deriving DecidableEq, Repr

namespace Base

/-- The base that a name in a signature stands for: every name that is not a primitive's is a
variable. -/
def ofName (name : String) : Base :=
  match Primitive.ofName? name with
  | some p => .prim p
  | none => .var name

def name : Base → String
  | .prim p => p.name
  | .wildcard => "undefined"
  | .var name => name

end Base

/-- A base under `depth` levels of array. -/
structure Ty where
  base : Base
  depth : Nat
deriving DecidableEq, Repr

namespace Ty

/-- A primitive outside any array. -/
def prim (p : Primitive) : Ty := ⟨.prim p, 0⟩

/-- The wildcard under `depth` levels of array. -/
def wildcard (depth : Nat) : Ty := ⟨.wildcard, depth⟩

def arrayOf (t : Ty) : Ty := ⟨t.base, t.depth + 1⟩

def isWildcard (t : Ty) : Bool :=
  match t.base with
  | .wildcard => true
  | _ => false

def isPrimitive (t : Ty) : Bool :=
  match t.base with
  | .prim _ => true
  | _ => false

/-- The name of the variable under the brackets. -/
def var? (t : Ty) : Option String :=
  match t.base with
  | .var name => some name
  | _ => none

/-- The characters of a type: its base between as many brackets as it is deep. -/
def spelling (t : Ty) : List Char :=
  List.replicate t.depth '[' ++ t.base.name.toList ++ List.replicate t.depth ']'

def render (t : Ty) : String := String.ofList t.spelling

/-- A found type fits a type if it is that type, or a wildcard that is no deeper. -/
def Fits (t u : Ty) : Prop := t = u ∨ t.isWildcard = true ∧ t.depth ≤ u.depth

instance (t u : Ty) : Decidable (Fits t u) := inferInstanceAs (Decidable (_ ∨ _))

/-- Two types agree if one of them fits the other. -/
def agrees (t u : Ty) : Bool := decide (t.Fits u) || decide (u.Fits t)

@[simp] theorem fits_refl (t : Ty) : t.Fits t := .inl rfl

theorem agrees_comm (t u : Ty) : t.agrees u = u.agrees t := Bool.or_comm _ _

end Ty

end Covenant
