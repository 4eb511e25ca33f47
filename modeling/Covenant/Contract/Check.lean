import Covenant.Class
import Covenant.Contract.Violation
import Covenant.Grouping
import Covenant.Signature.Basic

/-!
# Checking values against types

A list of values conforms to a list of types if the lists are equally long, every value has a
type, primitive types are met, each variable can stand for one type at all of its positions, and
the values of each variable are in its classes. The checks run in this order and the first
violation is reported.

What a variable stands for at a position is found by going down first elements, one for each
bracket around the variable. The value reached there represents the variable. No value is reached
below an empty array or an undefined value; such a position is no constraint on the variable.

## Main definitions

* `Slot`: a position with its type, its value and the type of the value.
* `descend`: going down first elements.
* `check`: the first violation, if there is one.
-/

namespace Covenant

/-! ## Positions -/

/-- A position of the two lists, with the type of its value. -/
structure Slot where
  position : Nat
  expected : Ty
  value : Value
  actual : Ty

/-- The slots from `position` on. A value without a type is a violation. -/
def inferSlots (rule : ArrayRule) (position : Nat) :
    List Ty → List Value → Except Violation (List Slot)
  | expected :: types, value :: values => do
    let actual ← (value.infer rule).mapError (.mixedArray position)
    let slots ← inferSlots rule (position + 1) types values
    return ⟨position, expected, value, actual⟩ :: slots
  | _, _ => .ok []

/-! ## Primitive types -/

/-- The violation at a slot whose type is primitive and is not met. -/
def Slot.typeMismatch? (slot : Slot) : Option Violation :=
  if slot.expected.isPrimitive && !slot.expected.agrees slot.actual then
    some (.typeMismatch slot.position slot.expected slot.actual)
  else none

/-- Every primitive type is met. -/
def checkPrimitives (slots : List Slot) : Except Violation Unit :=
  match slots.findSome? Slot.typeMismatch? with
  | some violation => .error violation
  | none => .ok ()

/-! ## Representatives of variables -/

/-- Where going down first elements ends. -/
inductive Descent where
  /-- At a value, after the given number of levels. -/
  | reached (value : Value)
  /-- Earlier, at an empty array. -/
  | empty
  /-- Earlier, at a value that is no array. -/
  | blocked

/-- Go down first elements. -/
def descend : (depth : Nat) → Value → Descent
  | 0, value => .reached value
  | depth + 1, .array (value :: _) => descend depth value
  | _ + 1, .array [] => .empty
  | _ + 1, _ => .blocked

/-- A value that represents a variable, and the position at which it was found. -/
structure Representative where
  position : Nat
  value : Value

/-- The values that represent each variable, in the order of their positions. -/
abbrev Representatives := Std.TreeMap String (List Representative)

/-- The variable of a slot and the value that represents it there. A value that is not deep enough
for the type is a violation, unless it says nothing about its type. -/
def Slot.represent (slot : Slot) : Except Violation (Option (String × Representative)) :=
  match slot.expected.var? with
  | none => .ok none
  | some var =>
    let tooShallow := Violation.depthMismatch var slot.position slot.expected slot.actual
    if slot.actual.depth < slot.expected.depth && !slot.actual.isWildcard then .error tooShallow
    else match descend slot.expected.depth slot.value with
      | .reached value => .ok (some (var, ⟨slot.position, value⟩))
      | .empty => .ok none
      | .blocked => if slot.actual.isWildcard then .ok none else .error tooShallow

/-- The values that represent each variable. -/
def representatives (slots : List Slot) : Except Violation Representatives := do
  let found ← slots.mapM Slot.represent
  return groupByKey (found.filterMap id)

/-! ## Consistency -/

/-- The first of some typed positions that disagrees with a later one, and the first that it
disagrees with. -/
def firstClash? : List (Nat × Ty) → Option ((Nat × Ty) × (Nat × Ty))
  | [] => none
  | a :: rest =>
    match rest.find? fun b => !a.2.agrees b.2 with
    | some b => some (a, b)
    | none => firstClash? rest

/-- The types of the values of a variable, with their positions. -/
def typesAt (rule : ArrayRule) (values : List Representative) :
    Except Violation (List (Nat × Ty)) :=
  values.mapM fun r => do
    let t ← (r.value.infer rule).mapError (.mixedArray r.position)
    return (r.position, t)

/-- Any two values of a variable have types that agree. -/
def checkVariable (rule : ArrayRule) (var : String) (values : List Representative) :
    Except Violation Unit := do
  let typed ← typesAt rule values
  match firstClash? typed with
  | some (first, second) => .error (.inconsistent var first.2 first.1 second.2 second.1)
  | none => .ok ()

/-- Every variable is consistent. -/
def checkVariables (rule : ArrayRule) (found : Representatives) : Except Violation Unit :=
  found.toList.forM fun (var, values) => checkVariable rule var values

/-! ## Classes -/

/-- All values of a variable are in a class, which has to be registered. -/
def checkClass (registry : Registry) (var : String) (values : List Representative)
    (className : String) :
    Except Violation Unit :=
  match registry.get? className with
  | none => .error (.unknownClass className var)
  | some c =>
    match values.find? fun r => !c.accepts r.value with
    | some r => .error (.unmetConstraint className var r.position)
    | none => .ok ()

/-- All values of every variable are in its classes. A variable without values meets any
constraint. -/
def checkMembership (registry : Registry) (constraints : Constraints) (found : Representatives) :
    Except Violation Unit :=
  constraints.toList.forM fun (var, classes) =>
    match found[var]? with
    | some values => classes.forM (checkClass registry var values)
    | none => .ok ()

/-! ## The whole check -/

/-- Check that a list of values conforms to a list of types. -/
def check (registry : Registry) (constraints : Constraints) (rule : ArrayRule) (types : List Ty)
    (values : List Value) : Except Violation Unit :=
  if types.length ≠ values.length then .error (.arity types.length values.length)
  else do
    let slots ← inferSlots rule 0 types values
    checkPrimitives slots
    let found ← representatives slots
    checkVariables rule found
    checkMembership registry constraints found

end Covenant
