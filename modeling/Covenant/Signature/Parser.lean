import Covenant.Signature.Clauses
import Covenant.Signature.TypeList
import Covenant.Token.Lexer

/-!
# Reading a signature

A signature is an optional block of constraints, closed by a double arrow, and a type list. The
type list is screened first, then the constraints are read, and last the types; of several faults
the one found first in this order is reported.
-/

namespace Covenant

/-- The types of a type list that starts at byte `start`. -/
def readTypeText (start : Nat) (text : List Char) : Except Refusal (List (Located Ty)) := do
  let tokens ← (tokenizeFrom start text).mapError Refusal.ofTokenError
  (readTypeList (.ofTokens tokens)).1

namespace Signature

/-- The constraint block of a signature's text, if it has one, then the byte at which the type list
starts, and the type list. -/
def halves (text : List Char) : Option (List Char) × Nat × List Char :=
  match Text.breakOn '=' '>' text with
  | some (block, typeText) => (some block, Text.bytes block + 2, typeText)
  | none => (none, 0, text)

/-- The clauses of a constraint block, which may be missing. -/
def readBlock : Option (List Char) → Except Refusal (List (Located Clause))
  | some text => readConstraints 0 text
  | none => .ok []

/-- The signature that a text spells. Classes are not looked up. -/
def parse (source : String) : Except Refusal Signature := do
  let (block, start, typeText) := halves source.toList
  screenTypeList start typeText
  let clauses ← readBlock block
  let typeList ← readTypeText start typeText
  return ⟨source, clauses, typeList⟩

end Signature

end Covenant
