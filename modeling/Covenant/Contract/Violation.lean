import Covenant.Value.Typing

/-!
# Violations

The ways in which values can fail to be what a list of types says. A violation names the position
in the list at which it was found, if there is one.
-/

namespace Covenant

/-- Why a list of values does not conform to a list of types. -/
inductive Violation where
  /-- The lists differ in length. -/
  | arity (expected found : Nat)
  /-- A primitive type is not that of the value. -/
  | typeMismatch (position : Nat) (expected found : Ty)
  /-- A value has fewer array levels than the type of its position. -/
  | depthMismatch (var : String) (position : Nat) (expected found : Ty)
  /-- A variable stands for different types at two positions. -/
  | inconsistent (var : String) (first : Ty) (firstPosition : Nat) (second : Ty)
      (secondPosition : Nat)
  /-- A value of a variable is not in one of its classes. -/
  | unmetConstraint (className var : String) (position : Nat)
  /-- The elements of an array have no common type. -/
  | mixedArray (position : Nat) (array : MixedArray)
  /-- A class of a variable is not registered. -/
  | unknownClass (className var : String)
deriving DecidableEq, Repr

namespace Violation

/-- The position that a violation is about: of two, the second. -/
def position? : Violation → Option Nat
  | .arity .. | .unknownClass .. => none
  | .typeMismatch position _ _ => some position
  | .depthMismatch _ position _ _ => some position
  | .inconsistent _ _ _ _ secondPosition => some secondPosition
  | .unmetConstraint _ _ position => some position
  | .mixedArray position _ => some position

def message : Violation → String
  | .arity expected found =>
    s!"type list doesn't match actual values: bad type count: expected {expected}, got {found}"
  | .typeMismatch position expected found =>
    s!"type list doesn't match actual values: wrong types at position {position}: " ++
      s!"expected {expected.render}, got {found.render}"
  | .depthMismatch _ position expected found =>
    s!"array depth mismatch at position {position}: expected {expected.render}, got {found.render}"
  | .inconsistent var first firstPosition second secondPosition =>
    s!"inconsistent type variable {var}: {first.render} at position {firstPosition}, " ++
      s!"{second.render} at position {secondPosition}"
  | .unmetConstraint className var position =>
    s!"unmet class constraint {className} on type variable {var} at position {position}"
  | .mixedArray position array =>
    s!"heterogeneous array at position {position}: element {array.index} is " ++
      s!"{array.found.render}, earlier elements are {array.expected.render}"
  | .unknownClass className _ => s!"type class is not defined: {className}"

end Violation

end Covenant
