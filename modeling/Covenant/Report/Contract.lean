import Covenant.Contract.Violation
import Covenant.Report.Layout
import Covenant.Signature.Basic

/-!
# Reports of violations

What a report says about a violated contract, and which part of the signature it points at: the
type of the position that the violation is about, the clause of an unknown class, or the whole
signature.
-/

namespace Covenant.Report

/-- How a message names a position: the one after the parameters is that of the result. -/
def positionName (s : Signature) (position : Nat) : String :=
  if position = s.arity then "the return value" else s!"argument {position + 1}"

/-- The part of the signature that a violation is about. -/
def violationSpan (s : Signature) (v : Violation) : Span :=
  let span? := match v with
    | .unknownClass className _ => s.spanOfClass? className
    | v => v.position?.bind s.spanOfType?
  span?.getD ⟨0, Text.bytes s.source.toList⟩

def violationMessage (s : Signature) : Violation → String
  | .arity expected found =>
    s!"I was expecting {expected} value(s) for this signature, but got {found}."
  | .typeMismatch position expected found =>
    s!"The type of {positionName s position} is wrong.\n\n" ++
      s!"The signature expects:  {expected.render}\n" ++
      s!"But the value is:       {found.render}"
  | .depthMismatch var position expected found =>
    s!"I cannot bind `{var}` here: {positionName s position} should be " ++
      s!"{expected.depth} levels of array, but it is `{found.render}`."
  | .inconsistent var first firstPosition second secondPosition =>
    s!"Type variable `{var}` must stand for one type.\n\n" ++
      s!"At {positionName s firstPosition} it is:  {first.render}\n" ++
      s!"At {positionName s secondPosition} it is:  {second.render}"
  | .unmetConstraint className var position =>
    s!"The value bound to `{var}` at {positionName s position} is not an instance of `{className}`."
  | .mixedArray position array =>
    s!"The elements of {positionName s position} do not agree: element {array.index} is " ++
      s!"`{array.found.render}`, earlier ones are `{array.expected.render}`."
  | .unknownClass className _ => s!"I cannot find a type class named `{className}`."

/-- The report of a violation against the signature. -/
def violation? (style : Style) (s : Signature) (v : Violation) : Option String :=
  layout? style (.ofString s.source) (violationSpan s v) "CONTRACT ERROR" (violationMessage s v) ""

end Covenant.Report
