import Covenant.Signature.Basic
import Covenant.Signature.Screen

/-!
# Reading constraints

A constraint block is a list of clauses with commas between them. A clause is two words: a class
and the variable that it constrains.
-/

namespace Covenant

/-- A clause, starting at byte `start`. Anything but two words is refused at its first to its last
word, or as a whole if it has none. -/
def readClause (start : Nat) (piece : List Char) : Except Refusal (Located Clause) :=
  match Text.words start piece with
  | [className, var] =>
    .ok ⟨⟨String.ofList className.item, String.ofList var.item⟩,
      ⟨className.span.start, var.span.stop⟩⟩
  | words =>
    let span := match words.head?, words.getLast? with
      | some first, some last => ⟨first.span.start, last.span.stop⟩
      | _, _ => ⟨start, start + Text.bytes piece⟩
    .error ⟨.malformedConstraint (String.ofList (Text.trim piece)), span⟩

/-- Clauses with one byte between each and the next, up to the first malformed one. -/
def readClauses (start : Nat) : List (List Char) → Except Refusal (List (Located Clause))
  | [] => .ok []
  | piece :: pieces => do
    let clause ← readClause start piece
    let clauses ← readClauses (start + Text.bytes piece + 1) pieces
    return clause :: clauses

/-- The clauses of a constraint block that starts at byte `start`. -/
def readConstraints (start : Nat) (text : List Char) : Except Refusal (List (Located Clause)) := do
  Half.constraints.screen start text
  readClauses start (text.splitOn ',')

end Covenant
