import Covenant.Value

/-!
# The type of a value

A value outside any array has the primitive type of its kind, and the undefined value the
wildcard. An array is one level deeper than its elements, which have to have one type; an empty
array says nothing about its elements. What becomes of an array with elements of two types is a
matter of the rule in force.
-/

namespace Covenant

/-- What to do with an array of elements of different types. -/
inductive ArrayRule where
  /-- It is an object, whatever is in it. -/
  | collapse
  /-- It has no type. -/
  | reject
deriving DecidableEq, Repr

/-- An array with an element whose type is not that of the elements before it. -/
structure MixedArray where
  index : Nat
  /-- The type of the elements before. -/
  expected : Ty
  /-- The type of the element at the index. -/
  found : Ty
deriving DecidableEq, Repr

def MixedArray.message (e : MixedArray) : String :=
  s!"heterogeneous array: element {e.index} is {e.found.render}, " ++
    s!"earlier elements are {e.expected.render}"

namespace Value

/-- The type of a value that is no array: the primitive of its kind. -/
def scalarTy (v : Value) : Ty :=
  match v.kind? with
  | some p => .prim p
  | none => .wildcard 0

mutual

/-- The type of a value under a rule. -/
def infer (rule : ArrayRule) : Value → Except MixedArray Ty
  | .array [] => .ok (.wildcard 1)
  | .array (v :: vs) => do
    let element ← v.infer rule
    inferRest rule element 1 vs
  | v => .ok v.scalarTy

/-- The type of an array whose elements before `index` have the type `element`, from the elements
from there on. The first element of another type decides. -/
def inferRest (rule : ArrayRule) (element : Ty) (index : Nat) : List Value → Except MixedArray Ty
  | [] => .ok element.arrayOf
  | v :: vs => do
    let found ← v.infer rule
    if found = element then inferRest rule element (index + 1) vs
    else match rule with
      | .collapse => .ok (.prim .object)
      | .reject => .error ⟨index, element, found⟩

end

/-- The type of a value, where an array of mixed elements is an object. -/
def ty (v : Value) : Ty :=
  match v.infer .collapse with
  | .ok t => t
  | .error _ => .prim .object

end Value

end Covenant
