import Covenant.Source.Span
import Covenant.Text.Blank
import Covenant.Text.Bytes

/-!
# Searching a text

Places found in a text by its characters alone: the first character of a kind, the words between
blanks, and the first occurrence of a two-character mark.
-/

namespace Covenant.Text

/-- The first character satisfying `p` in a text that starts at byte `start`. -/
def find? (p : Char → Bool) (start : Nat) : List Char → Option (Located Char)
  | [] => none
  | c :: cs =>
    let next := start + c.utf8Size
    if p c then some ⟨c, ⟨start, next⟩⟩ else find? p next cs

/-- The words of a text that starts at byte `start`: its longest pieces without blanks. -/
def words (start : Nat) : List Char → List (Located (List Char))
  | [] => []
  | c :: cs =>
    if isBlank c then words (start + c.utf8Size) cs
    else
      let word := c :: cs.takeWhile (!isBlank ·)
      let stop := start + bytes word
      ⟨word, ⟨start, stop⟩⟩ :: words stop (cs.dropWhile (!isBlank ·))
termination_by cs => cs.length
decreasing_by
  · simp
  · exact Nat.lt_succ_of_le (List.dropWhile_sublist _).length_le

/-- The text before and after the first place where `a` is followed by `b`. -/
def breakOn (a b : Char) : List Char → Option (List Char × List Char)
  | [] => none
  | c :: cs =>
    match cs with
    | d :: rest =>
      if c = a ∧ d = b then some ([], rest)
      else (breakOn a b cs).map fun (before, after) => (c :: before, after)
    | [] => none

end Covenant.Text
