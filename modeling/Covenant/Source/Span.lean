/-!
# Spans

A span is a byte range of a signature's text. Everything read from a text, and everything found
wrong with it, is kept together with the span it was found at.
-/

namespace Covenant

/-- The bytes from `start` up to, and not including, `stop`. -/
structure Span where
  start : Nat
  stop : Nat
deriving DecidableEq, Repr

namespace Span

def origin : Span := ⟨0, 0⟩

/-- The smallest span that covers two spans and what lies between them. -/
def merge (s t : Span) : Span := ⟨min s.start t.start, max s.stop t.stop⟩

/-- The same bytes in a text that starts `n` bytes further on. -/
def shift (n : Nat) (s : Span) : Span := ⟨n + s.start, n + s.stop⟩

@[simp] theorem shift_zero (s : Span) : s.shift 0 = s := by
  simp [shift]

@[simp] theorem merge_shift (n : Nat) (s t : Span) :
    (s.shift n).merge (t.shift n) = (s.merge t).shift n := by
  simp only [merge, shift, mk.injEq]
  omega

end Span

/-- An item with the place it was found at. -/
structure Located (α : Type) where
  item : α
  span : Span
deriving DecidableEq, Repr

namespace Located

variable {α : Type}

/-- The same item in a text that starts `n` bytes further on. -/
def shift (n : Nat) (x : Located α) : Located α := ⟨x.item, x.span.shift n⟩

@[simp] theorem item_shift (n : Nat) (x : Located α) : (x.shift n).item = x.item := rfl

@[simp] theorem span_shift (n : Nat) (x : Located α) : (x.shift n).span = x.span.shift n := rfl

end Located

end Covenant
