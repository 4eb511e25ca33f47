import Covenant.Signature.Fault
import Covenant.Token.Cursor
import Covenant.Ty

/-!
# Reading a type list

A type is a name between equally many opening and closing brackets. A type list is two or more
types with arrows between them, where the unit may stand in place of all parameters. A reader
takes a cursor to its result and the cursor at which it stopped, so that a failed reading still
tells how far it got.
-/

namespace Covenant

/-- A reader leaves a result or a refusal, and the cursor where it stopped. -/
abbrev TokenReader (α : Type) := Cursor → Except Refusal α × Cursor

/-- The refusal that something else than the current token has to stand here. -/
def Cursor.wanted (expected : String) (c : Cursor) : Refusal :=
  ⟨.unexpectedToken expected c.token, c.span⟩

/-- Close the brackets that are still open around a type, the innermost first. -/
def closeBrackets : List Span → Located Ty → TokenReader (Located Ty)
  | [], ty, c => (.ok ty, c)
  | opened :: outer, ty, c =>
    if c.token = .closeBracket then
      closeBrackets outer ⟨ty.item.arrayOf, opened.merge c.span⟩ c.next
    else (.error ⟨.malformedBrackets, opened.merge c.span⟩, c)

/-- One type: opening brackets, a name, and a closing bracket for each. -/
def readType : TokenReader (Located Ty) := fun c =>
  let (opens, c) := c.passOpenBrackets
  match c.token with
  | .ident name => closeBrackets opens ⟨⟨.ofName name, 0⟩, c.span⟩ c.next
  | .unit => (.error ⟨.misplacedUnit, c.span⟩, c)
  | .closeBracket => (.error ⟨.malformedBrackets, c.span⟩, c)
  | _ => (.error (c.wanted "a type"), c)

theorem length_rest_closeBrackets_le (opens : List Span) (ty : Located Ty) (c : Cursor) :
    (closeBrackets opens ty c).2.rest.length ≤ c.rest.length := by
  induction opens generalizing ty c with
  | nil => exact Nat.le_refl _
  | cons opened outer ih =>
    unfold closeBrackets
    split
    · exact Nat.le_trans (ih _ _) c.length_rest_next_le
    · exact Nat.le_refl _

/-- A type that is read has taken a token at least. -/
theorem length_rest_readType_lt {c c' : Cursor} {ty : Located Ty} (h : readType c = (.ok ty, c')) :
    c'.rest.length < c.rest.length := by
  have opening := c.length_rest_passOpenBrackets_le
  unfold readType at h
  split at h
  rename_i opens inner passed
  rw [passed] at opening
  split at h
  · next name named =>
    have reading := Cursor.length_rest_next (c := inner) (by simp [named])
    have closing := length_rest_closeBrackets_le opens ⟨⟨.ofName name, 0⟩, inner.span⟩ inner.next
    rw [h] at closing
    simp only at opening closing
    omega
  all_goals simp at h

/-- Types with arrows between them, up to the end of the text. -/
def readTypes (c : Cursor) : Except Refusal (List (Located Ty)) × Cursor :=
  match h : readType c with
  | (.error e, stopped) => (.error e, stopped)
  | (.ok ty, after) =>
    match after.token with
    | .arrow =>
      have := length_rest_readType_lt h
      have := after.length_rest_next_le
      let (types, stopped) := readTypes after.next
      (types.map (ty :: ·), stopped)
    | .eof => (.ok [ty], after)
    | .openBracket | .closeBracket => (.error ⟨.malformedBrackets, after.span⟩, after)
    | _ => (.error (after.wanted "`->`"), after)
termination_by c.rest.length

/-- A whole type list. The unit stands for no parameters and is not itself a type; without it, one
type alone has no result. -/
def readTypeList : TokenReader (List (Located Ty)) := fun c =>
  if c.token = .unit then
    let c := c.next
    if c.token = .arrow then readTypes c.next
    else (.error ⟨.tooFewTypes 1, c.lastSpan⟩, c)
  else
    match readTypes c with
    | (.ok [ty], c) => (.error ⟨.tooFewTypes 1, ty.span⟩, c)
    | result => result

end Covenant
