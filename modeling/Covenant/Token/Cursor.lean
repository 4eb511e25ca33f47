import Covenant.Token

/-!
# A cursor over tokens

Type lists are read through a cursor: a list of tokens with a place in it. The tokens already
passed are kept, because errors point at the last of them. A list without an end token reads as if
one stood there, with the span of its last token.
-/

namespace Covenant

/-- A place in a list of tokens. -/
structure Cursor where
  /-- The tokens before the cursor, the last one first. -/
  passed : List (Located Token)
  /-- The tokens from the cursor on. -/
  rest : List (Located Token)
deriving DecidableEq, Repr

namespace Cursor

def ofTokens (tokens : List (Located Token)) : Cursor := ⟨[], tokens⟩

def token (c : Cursor) : Token :=
  match c.rest with
  | t :: _ => t.item
  | [] => .eof

/-- The span of the token at the cursor; after the last token, the span of that one. -/
def span (c : Cursor) : Span :=
  match c.rest, c.passed with
  | t :: _, _ => t.span
  | [], t :: _ => t.span
  | [], [] => .origin

/-- The span of the token before the cursor; at the start, of the one at the cursor. -/
def lastSpan (c : Cursor) : Span :=
  match c.passed with
  | t :: _ => t.span
  | [] => c.span

def atEnd (c : Cursor) : Bool := c.token = .eof

/-- The cursor after the current token. The end is not passed. -/
def next (c : Cursor) : Cursor :=
  match c.rest with
  | t :: rest => if t.item = .eof then c else ⟨t :: c.passed, rest⟩
  | [] => c

/-- Pass the current token if it is the given one, and tell whether it was. -/
def accept (t : Token) (c : Cursor) : Bool × Cursor :=
  if c.token = t then (true, c.next) else (false, c)

/-- Pass the opening brackets at the cursor, and return their spans, the last one first. -/
def passOpenBrackets (c : Cursor) : List Span × Cursor :=
  let brackets := (c.rest.takeWhile (·.item = .openBracket)).reverse
  (brackets.map (·.span), ⟨brackets ++ c.passed, c.rest.dropWhile (·.item = .openBracket)⟩)

/-- Passing a token that is not the end leaves one token less. -/
theorem length_rest_next {c : Cursor} (h : c.token ≠ .eof) :
    c.next.rest.length + 1 = c.rest.length := by
  unfold token at h
  unfold next
  split at h <;> simp_all

theorem length_rest_next_le (c : Cursor) : c.next.rest.length ≤ c.rest.length := by
  by_cases h : c.token = .eof
  · unfold token at h
    unfold next
    split at h <;> simp_all
  · have := length_rest_next h
    omega

theorem length_rest_passOpenBrackets_le (c : Cursor) :
    c.passOpenBrackets.2.rest.length ≤ c.rest.length :=
  (List.dropWhile_sublist _).length_le

end Cursor

end Covenant
