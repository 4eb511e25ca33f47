import Covenant.Signature.Fault
import Covenant.Text.Search

/-!
# Screening a signature

The commonest mistakes in a signature show in its characters, before it is read as tokens or
clauses: characters that do not belong there, arrows between brackets, a missing arrow. Screening
refuses them where they stand.
-/

namespace Covenant

/-- The characters that each half of a signature may hold. -/
def Half.allows : Half → Char → Bool
  | .constraints, c => Text.isNameChar c || Text.isBlank c || c == ','
  | .typeList, c => Text.isNameChar c || Text.isBlank c || ['-', '>', '(', ')', '[', ']'].contains c

/-- Refuse the first character that a half, which starts at byte `start`, may not hold. -/
def Half.screen (half : Half) (start : Nat) (text : List Char) : Except Refusal Unit :=
  match Text.find? (!half.allows ·) start text with
  | some foreign => .error ⟨.invalidCharacter foreign.item half, foreign.span⟩
  | none => .ok ()

/-- The first place where a bracket closes before it opens, or an arrow starts between brackets;
`depth` brackets are open at the start of the text. -/
def strayBracket? (depth start : Nat) : List Char → Option Span
  | [] => none
  | c :: cs =>
    let next := start + c.utf8Size
    if c = '[' then strayBracket? (depth + 1) next cs
    else if c = ']' then
      match depth with
      | 0 => some ⟨start, next⟩
      | depth + 1 => strayBracket? depth next cs
    else if c = '-' ∧ depth ≠ 0 then some ⟨start, next⟩
    else strayBracket? depth next cs

/-- The checks on a type list, starting at byte `start`, that look at its characters alone. -/
def screenTypeList (start : Nat) (text : List Char) : Except Refusal Unit :=
  let whole : Span := ⟨start, start + Text.bytes text⟩
  if text.all Text.isBlank then .error ⟨.emptyTypeList, whole⟩
  else do
    Half.typeList.screen start text
    match strayBracket? 0 start text with
    | some span => .error ⟨.malformedBrackets, span⟩
    | none => if (Text.breakOn '-' '>' text).isNone then .error ⟨.tooFewTypes 1, whole⟩ else .ok ()

end Covenant
