import Covenant.Token

/-!
# What can be wrong with a signature

A signature is refused for one cause at one place. All causes but one are about its form; the last
is a class that nobody registered.
-/

namespace Covenant

/-- The two halves of a signature, before and after the double arrow. -/
inductive Half where
  | constraints
  | typeList
deriving DecidableEq, Repr

def Half.name : Half → String
  | .constraints => "class constraints"
  | .typeList => "type list"

/-- Why a signature is refused. -/
inductive SignatureFault where
  /-- There is nothing where the type list should be. -/
  | emptyTypeList
  /-- A character that its half may not hold. -/
  | invalidCharacter (ch : Char) (half : Half)
  /-- Brackets that do not surround one name. -/
  | malformedBrackets
  /-- One half of an arrow. -/
  | malformedArrow
  /-- A parenthesis that is not part of the unit. -/
  | malformedUnit
  /-- The unit elsewhere than in place of the parameters. -/
  | misplacedUnit
  /-- A token where something else has to stand. -/
  | unexpectedToken (expected : String) (found : Token)
  /-- No return type. -/
  | tooFewTypes (found : Nat)
  /-- A clause that is not a class and a variable. -/
  | malformedConstraint (clause : String)
  /-- A class that is not registered, and registered names close to it. -/
  | unknownClass (name : String) (suggestions : List String)
deriving DecidableEq, Repr

namespace SignatureFault

/-- The fault of a signature whose type list is not a sequence of tokens. -/
def ofTokenFault : TokenFault → SignatureFault
  | .unexpectedChar ch => .invalidCharacter ch .typeList
  | .malformedArrow => .malformedArrow
  | .malformedUnit => .malformedUnit

/-- Whether the form of the signature is right and a class is missing. -/
def isReference : SignatureFault → Bool
  | .unknownClass .. => true
  | _ => false

def isSyntax (fault : SignatureFault) : Bool := !fault.isReference

def message : SignatureFault → String
  | .emptyTypeList => "malformed signature: empty type list"
  | .invalidCharacter ch half =>
    "malformed signature: invalid character " ++ Text.quoteChar ch ++ " in " ++ half.name
  | .malformedBrackets => "malformed signature: invalid use of brackets in type list"
  | .malformedArrow => "malformed signature: malformed arrow in type list"
  | .malformedUnit => "malformed signature: parentheses must form `()`"
  | .misplacedUnit =>
    "malformed signature: `()` may only stand for the parameters of a zero-argument function"
  | .unexpectedToken expected found =>
    "malformed signature: expected " ++ expected ++ ", found " ++ found.wording
  | .tooFewTypes found =>
    s!"malformed signature: too few types in type list (found {found}, need at least 2)"
  | .malformedConstraint clause =>
    "malformed signature: malformed class constraint `" ++ clause ++ "`"
  | .unknownClass name _ => "type class is not defined: " ++ name

end SignatureFault

/-- A fault with the place it was found at. -/
abbrev Refusal := Located SignatureFault

/-- The refusal of a signature whose type list is not a sequence of tokens. -/
def Refusal.ofTokenError (e : TokenError) : Refusal := ⟨.ofTokenFault e.item, e.span⟩

end Covenant
