import Covenant.Report.Layout
import Covenant.Signature.Fault

/-!
# Reports of refused signatures

What a report says about each fault of a signature: its kind, a sentence in the first person, and
a hint on how to write it.
-/

namespace Covenant.Report

/-- The kind of a fault, for the header. -/
def faultKind : SignatureFault → String
  | .unknownClass .. => "NAME ERROR"
  | _ => "SIGNATURE ERROR"

def faultMessage : SignatureFault → String
  | .emptyTypeList => "I was expecting a list of types here, but found nothing."
  | .invalidCharacter ch half =>
    "I found the character " ++ Text.quoteChar ch ++ " in the " ++ half.name ++
      ", where it is not allowed."
  | .malformedBrackets => "These brackets do not line up."
  | .malformedArrow => "I was expecting an arrow `->` here."
  | .malformedUnit => "Parentheses are only allowed as `()`."
  | .misplacedUnit => "`()` can only stand for the parameters of a zero-argument function."
  | .unexpectedToken expected found =>
    "I was expecting " ++ expected ++ " but found " ++ found.wording ++ " instead."
  | .tooFewTypes found =>
    s!"I found {found} type(s), but a signature needs at least two separated by `->`."
  | .malformedConstraint clause => "I could not read the class constraint `" ++ clause ++ "`."
  | .unknownClass name _ => "I cannot find a type class named `" ++ name ++ "`."

/-- How to mend the signature, where there is a general answer. -/
def faultHint (style : Style) : SignatureFault → String
  | .emptyTypeList =>
    "\n\nHint: a signature needs at least a parameter and a return type, like `a -> a`, " ++
      "or `() -> t` for no parameters."
  | .malformedBrackets =>
    "\n\nHint: array types wrap a single name, like `[[number]]`; " ++
      "arrows cannot appear inside brackets."
  | .misplacedUnit => "\n\nHint: write `() -> t` for a function that takes no arguments."
  | .malformedConstraint _ =>
    "\n\nHint: each constraint is a class name and a type variable, like `Ord a`."
  | .unknownClass _ names => suggestions style names
  | _ => ""

/-- The report of an error against the text of the signature. -/
def signatureError? (style : Style) (source : String) (e : Refusal) : Option String :=
  layout? style (.ofString source) e.span (faultKind e.item) (faultMessage e.item)
    (faultHint style e.item)

end Covenant.Report
