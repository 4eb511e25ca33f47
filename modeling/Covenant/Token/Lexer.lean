import Covenant.Token
import Covenant.Text.Blank
import Covenant.Text.Bytes

/-!
# Reading tokens

A text is read as lexemes with blanks between them. A lexeme is the longest piece at the front of
a text that makes one token, or the piece that shows that there is none: names extend as far as
they can, and the two parentheses of the unit may have blanks between them.
-/

namespace Covenant

/-- The piece at the front of a text that makes one token, or shows that no token starts there. -/
structure Lexeme where
  outcome : Except TokenFault Token
  text : List Char
  rest : List Char

namespace Lexeme

/-- The lexeme at the front of the text `c :: cs`, where `c` is no blank. -/
def read (c : Char) (cs : List Char) : Lexeme :=
  if Text.isNameChar c then
    let name := c :: cs.takeWhile Text.isNameChar
    ⟨.ok (.ident (String.ofList name)), name, cs.dropWhile Text.isNameChar⟩
  else match c with
    | '[' => ⟨.ok .openBracket, [c], cs⟩
    | ']' => ⟨.ok .closeBracket, [c], cs⟩
    | '-' =>
      match cs with
      | '>' :: rest => ⟨.ok .arrow, [c, '>'], rest⟩
      | _ => ⟨.error .malformedArrow, [c], cs⟩
    | '>' => ⟨.error .malformedArrow, [c], cs⟩
    | '(' =>
      let blanks := cs.takeWhile Text.isBlank
      match cs.dropWhile Text.isBlank with
      | ')' :: rest => ⟨.ok .unit, c :: (blanks ++ [')']), rest⟩
      | rest => ⟨.error .malformedUnit, c :: blanks, rest⟩
    | ')' => ⟨.error .malformedUnit, [c], cs⟩
    | _ => ⟨.error (.unexpectedChar c), [c], cs⟩

theorem text_append_rest (c : Char) (cs : List Char) :
    (read c cs).text ++ (read c cs).rest = c :: cs := by
  have blanks := List.takeWhile_append_dropWhile (p := Text.isBlank) (l := cs)
  fun_cases read c cs <;> simp_all +zetaDelta

theorem text_ne_nil (c : Char) (cs : List Char) : (read c cs).text ≠ [] := by
  fun_cases read c cs <;> simp +zetaDelta

/-- What follows a lexeme is shorter than the text, so reading ends. -/
theorem length_rest_le (c : Char) (cs : List Char) : (read c cs).rest.length ≤ cs.length := by
  have whole := congrArg List.length (text_append_rest c cs)
  have nonempty := List.length_pos_iff.2 (text_ne_nil c cs)
  simp only [List.length_append, List.length_cons] at whole
  omega

end Lexeme

/-- The tokens of a text that starts at byte `start`, up to the first fault. Blanks between tokens
are skipped, and the end of the text is the last token. -/
def tokenizeFrom (start : Nat) : List Char → Except TokenError (List (Located Token))
  | [] => .ok [⟨.eof, ⟨start, start⟩⟩]
  | c :: cs =>
    if Text.isBlank c then tokenizeFrom (start + c.utf8Size) cs
    else
      let lexeme := Lexeme.read c cs
      let stop := start + Text.bytes lexeme.text
      match lexeme.outcome with
      | .error fault => .error ⟨fault, ⟨start, stop⟩⟩
      | .ok token => do
        let tokens ← tokenizeFrom stop lexeme.rest
        return ⟨token, ⟨start, stop⟩⟩ :: tokens
termination_by cs => cs.length
decreasing_by
  · simp
  · exact Nat.lt_succ_of_le (Lexeme.length_rest_le c cs)

/-- The tokens of a text that starts at byte `start` of a signature. -/
def tokenize (start : Nat) (text : String) : Except TokenError (List (Located Token)) :=
  tokenizeFrom start text.toList

end Covenant
