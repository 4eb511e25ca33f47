import Covenant.Proofs.Slices
import Covenant.Proofs.TypeGrammar
import Covenant.Signature.Screen

/-!
# Where tokens stand

The tokens of a text stand at spans that cover their spellings, one after the other, and the end
of the text stands at its end. A cursor over them never passes the end, so there is always a token
at the cursor, and the tokens that it has passed stand before that one. A text that is not a
sequence of tokens is read up to a lexeme that shows why.
-/

namespace Covenant

/-- The characters at the place of a token: a spelling of it, or none at the end of the text. -/
def Token.Fills (t : Token) (piece after : List Char) : Prop :=
  t.Spelled piece ∨ t = .eof ∧ piece = [] ∧ after = []

/-! ## Tokens -/

theorem Renders.covers {start : Nat} {tokens : List (Located Token)} {text : List Char}
    (h : Renders start tokens text) {outside : List Char} (hstart : start = Text.bytes outside)
    {t : Located Token} (ht : t ∈ tokens) :
    ∃ before piece after, t.span.Covers (outside ++ text) before piece after ∧
      t.item.Fills piece after := by
  induction h generalizing outside with
  | @eof start =>
      obtain rfl := List.mem_singleton.1 ht
      exact ⟨outside, [], [], ⟨by simp, hstart, by simp [hstart]⟩, .inr ⟨rfl, rfl, rfl⟩⟩
  | @blank start c text tokens hc _ ih =>
      have hnext : start + c.utf8Size = Text.bytes (outside ++ [c]) := by simp [hstart]
      obtain ⟨before, piece, after, hcovers, hfills⟩ := ih hnext ht
      exact ⟨before, piece, after, by simpa using hcovers, hfills⟩
  | @token start item spelling text tokens hspelled _ _ ih =>
      rcases List.mem_cons.1 ht with rfl | ht
      · exact ⟨outside, spelling, text, ⟨rfl, hstart, by simp [hstart]⟩, .inl hspelled⟩
      · have hnext : start + Text.bytes spelling = Text.bytes (outside ++ spelling) := by
          simp [hstart]
        obtain ⟨before, piece, after, hcovers, hfills⟩ := ih hnext ht
        exact ⟨before, piece, after, by simpa using hcovers, hfills⟩

theorem Renders.start_le {start : Nat} {tokens : List (Located Token)} {text : List Char}
    (h : Renders start tokens text) {t : Located Token} (ht : t ∈ tokens) :
    start ≤ t.span.start := by
  induction h with
  | eof =>
      obtain rfl := List.mem_singleton.1 ht
      exact Nat.le_refl _
  | blank _ _ ih =>
      have := ih ht
      omega
  | token _ _ _ ih =>
      rcases List.mem_cons.1 ht with rfl | ht
      · exact Nat.le_refl _
      · have := ih ht
        omega

theorem Renders.ordered {start : Nat} {tokens : List (Located Token)} {text : List Char}
    (h : Renders start tokens text) : tokens.Pairwise fun t t' => t.span.stop ≤ t'.span.start := by
  induction h with
  | eof => exact List.pairwise_singleton _ _
  | blank _ _ ih => exact ih
  | token _ _ hrest ih => exact List.pairwise_cons.2 ⟨fun t ht => hrest.start_le ht, ih⟩

theorem Renders.start_le_stop {start : Nat} {tokens : List (Located Token)} {text : List Char}
    (h : Renders start tokens text) {t : Located Token} (ht : t ∈ tokens) :
    t.span.start ≤ t.span.stop := by
  induction h with
  | eof =>
      obtain rfl := List.mem_singleton.1 ht
      exact Nat.le_refl _
  | blank _ _ ih => exact ih ht
  | token _ _ _ ih =>
      rcases List.mem_cons.1 ht with rfl | ht
      · exact Nat.le_add_right _ _
      · exact ih ht

/-! ## Cursors -/

/-- The tokens of a cursor stand one after the other, as those of a text do. -/
structure Cursor.InOrder (c : Cursor) : Prop where
  ordered : (c.passed.reverse ++ c.rest).Pairwise fun t t' => t.span.stop ≤ t'.span.start
  start_le_stop : ∀ t ∈ c.passed.reverse ++ c.rest, t.span.start ≤ t.span.stop

namespace Cursor.InOrder

variable {c c' : Cursor}

theorem ofTokens {start : Nat} {tokens all : List (Located Token)} {text : List Char}
    (h : Renders start all text) (hcut : tokens <+: all) : (Cursor.ofTokens tokens).InOrder :=
  ⟨h.ordered.sublist hcut.sublist, fun _ ht => h.start_le_stop (hcut.subset ht)⟩

theorem passes (h : c.InOrder) {run : List (Located Token)}
    (hrun : c.Passes run c') : c'.InOrder := by
  constructor
  · rw [hrun.tokens_eq]
    exact h.ordered
  · rw [hrun.tokens_eq]
    exact h.start_le_stop

/-- From a token that was passed, up to the token at the cursor. -/
theorem merge_span (h : c.InOrder) {t : Located Token} (ht : t ∈ c.passed) (hend : c.token ≠ .eof) :
    t.span.merge c.span = ⟨t.span.start, c.span.stop⟩ := by
  obtain ⟨x, _, hpass⟩ := Cursor.passes_next hend
  have hspan : c.span = x.span := by simp [Cursor.span, hpass.rest]
  have hmem : x ∈ c.rest := by simp [hpass.rest]
  have hordered := (List.pairwise_append.1 h.ordered).2.2 t (List.mem_reverse.2 ht) x hmem
  have hfirst := h.start_le_stop t (List.mem_append_left _ (List.mem_reverse.2 ht))
  have hlast := h.start_le_stop x (List.mem_append_right _ hmem)
  rw [hspan]
  simp only [Span.merge, Span.mk.injEq]
  omega

end Cursor.InOrder

/-- A cursor over the tokens of a text, of which it has not passed the end. The text may stand after
another one. -/
structure Cursor.Over (c : Cursor) (outside text : List Char) : Prop where
  renders : Renders (Text.bytes outside) (c.passed.reverse ++ c.rest) text
  before_end : ∀ t ∈ c.passed, t.item ≠ .eof

namespace Cursor.Over

variable {c c' : Cursor} {outside text : List Char}

theorem ofTokens {tokens : List (Located Token)} (h : Renders (Text.bytes outside) tokens text) :
    (Cursor.ofTokens tokens).Over outside text :=
  ⟨h, by simp [Cursor.ofTokens]⟩

theorem inOrder (h : c.Over outside text) : c.InOrder :=
  ⟨h.renders.ordered, fun _ ht => h.renders.start_le_stop ht⟩

/-- A cursor that passes tokens, but not the end, is still over the text. -/
theorem passes (h : c.Over outside text) {run : List (Located Token)} (hrun : c.Passes run c')
    (hend : ∀ t ∈ run, t.item ≠ .eof) : c'.Over outside text := by
  constructor
  · rw [hrun.tokens_eq]
    exact h.renders
  · exact hrun.before_end h.before_end hend

theorem next (h : c.Over outside text) (hend : c.token ≠ .eof) : c.next.Over outside text := by
  obtain ⟨x, hx, hpass⟩ := Cursor.passes_next hend
  exact h.passes hpass (by simpa [hx] using hend)

theorem exists_cons (h : c.Over outside text) : ∃ x rest, c.rest = x :: rest := by
  cases hrest : c.rest with
  | cons x rest => exact ⟨x, rest, rfl⟩
  | nil =>
      -- otherwise the end would have been passed
      obtain ⟨body, htokens, -⟩ := h.renders.eq_concat
      rw [hrest, List.append_nil] at htokens
      have hmem :
          (⟨.eof, ⟨Text.bytes outside + Text.bytes text, Text.bytes outside + Text.bytes text⟩⟩ :
          Located Token) ∈ c.passed.reverse := by simp [htokens]
      exact absurd rfl (h.before_end _ (List.mem_reverse.1 hmem))

theorem token_span_eq {x : Located Token} {rest : List (Located Token)} (h : c.rest = x :: rest) :
    c.token = x.item ∧ c.span = x.span := by
  simp [Cursor.token, Cursor.span, h]

/-- The token at the cursor stands at the span of the cursor. -/
theorem covers_span (h : c.Over outside text) :
    ∃ before piece after, c.span.Covers (outside ++ text) before piece after ∧
      c.token.Fills piece after := by
  obtain ⟨x, rest, hrest⟩ := h.exists_cons
  obtain ⟨htoken, hspan⟩ := token_span_eq hrest
  rw [htoken, hspan]
  exact h.renders.covers rfl (by simp [hrest])

/-- A token that is not the end is spelled at the cursor. -/
theorem covers_spelled (h : c.Over outside text) (hend : c.token ≠ .eof) :
    ∃ before piece after, c.span.Covers (outside ++ text) before piece after ∧
      c.token.Spelled piece := by
  obtain ⟨before, piece, after, hcovers, hspelled | ⟨heof, -⟩⟩ := h.covers_span
  · exact ⟨before, piece, after, hcovers, hspelled⟩
  · exact absurd heof hend

/-- A token that was passed stands before the token at the cursor. -/
theorem covers_passed (h : c.Over outside text) {t : Located Token} (ht : t ∈ c.passed) :
    (∃ before piece after, t.span.Covers (outside ++ text) before piece after ∧
      t.item.Spelled piece) ∧ t.span.stop ≤ c.span.start := by
  constructor
  · have hmem : t ∈ c.passed.reverse ++ c.rest := by simp [ht]
    obtain ⟨before, piece, after, hcovers, hfills⟩ := h.renders.covers rfl hmem
    rcases hfills with hspelled | ⟨heof, -⟩
    · exact ⟨before, piece, after, hcovers, hspelled⟩
    · exact absurd heof (h.before_end t ht)
  · obtain ⟨x, rest, hrest⟩ := h.exists_cons
    have hordered := (List.pairwise_append.1 h.renders.ordered).2.2
    rw [(token_span_eq hrest).2]
    exact hordered t (List.mem_reverse.2 ht) x (by simp [hrest])

/-- From an opening bracket that was passed, up to the token at the cursor. -/
theorem covers_from_bracket (h : c.Over outside text) {t : Located Token} (ht : t ∈ c.passed)
    (hopen : t.item = .openBracket) :
    ∃ before more after,
      (t.span.merge c.span).Covers (outside ++ text) before ('[' :: more) after := by
  obtain ⟨⟨before, piece, after, hcovers, hspelled⟩, hle⟩ := h.covers_passed ht
  obtain ⟨before', piece', after', hcovers', -⟩ := h.covers_span
  rw [hopen] at hspelled
  cases hspelled
  obtain ⟨between, hmerged⟩ := hcovers.merge hcovers' hle
  exact ⟨before, between ++ piece', after', hmerged⟩

end Cursor.Over

/-- Spans of opening brackets that the cursor has passed. -/
def Cursor.Opened (c : Cursor) (opens : List Span) : Prop :=
  ∀ opened ∈ opens, ∃ t ∈ c.passed, t.item = .openBracket ∧ t.span = opened

theorem Cursor.Opened.next {c : Cursor} {opens : List Span} (h : c.Opened opens) :
    c.next.Opened opens := by
  intro opened hopened
  obtain ⟨t, ht, hitem⟩ := h opened hopened
  refine ⟨t, ?_, hitem⟩
  unfold Cursor.next
  split
  · split
    · exact ht
    · exact List.mem_cons_of_mem _ ht
  · exact ht

theorem Cursor.opened_passOpenBrackets (c : Cursor) :
    c.passOpenBrackets.2.Opened c.passOpenBrackets.1 := by
  intro opened hopened
  obtain ⟨t, ht, rfl⟩ := List.mem_map.1 hopened
  have hopen : t.item = .openBracket := by
    simpa using List.all_eq_true.1 List.all_takeWhile t (List.mem_reverse.1 ht)
  exact ⟨t, List.mem_append_left _ ht, hopen, rfl⟩

theorem Cursor.Over.passOpenBrackets {c : Cursor} {outside text : List Char}
    (h : c.Over outside text) :
    c.passOpenBrackets.2.Over outside text := by
  obtain ⟨run, hrun, hitems⟩ := c.passes_passOpenBrackets
  refine h.passes hrun ?_
  intro t ht
  have hopen := List.eq_of_mem_replicate (hitems ▸ List.mem_map_of_mem ht)
  simp [hopen]

/-! ## Faults -/

/-- The characters at the place of a fault. -/
def TokenFault.Shown : TokenFault → List Char → Prop
  | .unexpectedChar ch, piece => piece = [ch] ∧ Half.typeList.allows ch = false
  | .malformedArrow, piece => piece = ['-'] ∨ piece = ['>']
  | .malformedUnit, piece =>
    piece = [')'] ∨ ∃ blanks, piece = '(' :: blanks ∧ ∀ c ∈ blanks, Text.isBlank c = true

/-- A lexeme that makes no token shows why. -/
theorem Lexeme.shown_of_read {c : Char} {cs : List Char} {fault : TokenFault}
    (hc : Text.isBlank c = false) (h : (read c cs).outcome = .error fault) :
    fault.Shown (read c cs).text := by
  revert h
  fun_cases read c cs with
  | case1 | case2 | case3 | case4 | case7 => rintro ⟨⟩
  | case5 =>
      rintro ⟨⟩
      exact .inl rfl
  | case6 =>
      rintro ⟨⟩
      exact .inr rfl
  | case8 =>
      rintro ⟨⟩
      exact .inr ⟨_, rfl, fun d hd => List.all_eq_true.1 List.all_takeWhile d hd⟩
  | case9 =>
      rintro ⟨⟩
      exact .inl rfl
  | case10 =>
      rintro ⟨⟩
      refine ⟨rfl, ?_⟩
      simp_all [Half.allows]

/-- Reading tokens stops at a lexeme that makes none. -/
theorem exists_lexeme_of_tokenizeFrom {start : Nat} {text : List Char} {e : TokenError}
    (h : tokenizeFrom start text = .error e) :
    ∃ inside c cs, text = inside ++ c :: cs ∧ Text.isBlank c = false ∧
      (Lexeme.read c cs).outcome = .error e.item ∧
      e.span = ⟨start + Text.bytes inside,
        start + Text.bytes inside + Text.bytes (Lexeme.read c cs).text⟩ := by
  induction text using lexing_induction generalizing start with
  | nil =>
      rw [tokenizeFrom_nil] at h
      cases h
  | blank c cs hc ih =>
      rw [tokenizeFrom_blank hc] at h
      obtain ⟨inside, d, ds, rfl, hd, hread, hspan⟩ := ih h
      exact ⟨c :: inside, d, ds, rfl, hd,
        hread, by rw [hspan, Text.bytes_cons, Nat.add_assoc start]⟩
  | fault c cs e hc hread =>
      rw [tokenizeFrom_fault hc hread] at h
      obtain rfl := Except.error.inj h
      exact ⟨[], c, cs, rfl, hc, hread, rfl⟩
  | token c cs t hc hread ih =>
      rw [tokenizeFrom_lexeme hc hread, bind_eq_error_iff] at h
      rcases h with h | ⟨_, _, h⟩
      · obtain ⟨inside, d, ds, hrest, hd, hfault, hspan⟩ := ih h
        refine ⟨(Lexeme.read c cs).text ++ inside, d, ds, ?_, hd, hfault, ?_⟩
        · rw [List.append_assoc, ← hrest, Lexeme.text_append_rest]
        · rw [hspan, Text.bytes_append, Nat.add_assoc start]
      · cases h

end Covenant
