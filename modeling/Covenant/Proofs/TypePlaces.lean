import Covenant.Proofs.Lexing
import Covenant.Proofs.Refusals

/-!
# Where types stand

A type is read from a run of tokens, and its span goes from the first of them to the last: each
pair of brackets stands around what was read before it. A run of tokens stands at a piece of its
text, and the piece alone has the same tokens, because what may follow a token may also be cut
off. So a type can be read again from the characters at its span, and the types of a list stand
one after the other.
-/

namespace Covenant

/-! ## Runs of tokens -/

/-- The first token of a text stands after blanks, and the others in what follows it. -/
theorem Renders.exists_spelling {start : Nat} {t : Located Token} {tokens : List (Located Token)}
    {text : List Char} (h : Renders start (t :: tokens) text) (ht : t.item ≠ .eof) :
    ∃ blanks spelling rest, text = blanks ++ (spelling ++ rest) ∧
      t.span = ⟨start + Text.bytes blanks, start + Text.bytes blanks + Text.bytes spelling⟩ ∧
      (∀ c ∈ blanks, Text.isBlank c = true) ∧ t.item.Spelled spelling ∧ t.item.MayPrecede rest ∧
      Renders (start + Text.bytes blanks + Text.bytes spelling) tokens rest := by
  generalize hall : t :: tokens = all at h
  induction h with
  | eof =>
      cases hall
      exact absurd rfl ht
  | @blank start c _ _ hc _ ih =>
      obtain ⟨blanks, spelling, rest, rfl, hspan, hblanks, hspelled, hend, hrest⟩ := ih hall
      rw [Nat.add_assoc start, ← Text.bytes_cons] at hspan hrest
      exact ⟨c :: blanks, spelling, rest, rfl, hspan, List.forall_mem_cons.2 ⟨hc, hblanks⟩,
        hspelled, hend, hrest⟩
  | token hspelled hend hrest _ =>
      obtain ⟨rfl, rfl⟩ := List.cons.inj hall
      exact ⟨[], _, _, rfl, rfl, by simp, hspelled, hend, hrest⟩

/-- Tokens that come after others stand in what is left of the text. -/
theorem Renders.drop {start : Nat} {passed tokens : List (Located Token)} {text : List Char}
    (h : Renders start (passed ++ tokens) text) (hpassed : ∀ t ∈ passed, t.item ≠ .eof) :
    ∃ inside rest, text = inside ++ rest ∧ Renders (start + Text.bytes inside) tokens rest := by
  induction passed generalizing start text with
  | nil => exact ⟨[], text, rfl, h⟩
  | cons t passed ih =>
      rw [List.forall_mem_cons] at hpassed
      obtain ⟨blanks, spelling, rest, rfl, _, _, _, _, hrest⟩ := Renders.exists_spelling h hpassed.1
      obtain ⟨inside, rest, rfl, htokens⟩ := ih hrest hpassed.2
      refine ⟨blanks ++ (spelling ++ inside), rest, by simp, ?_⟩
      simpa [Nat.add_assoc] using htokens

/-- A run of tokens stands at a piece of the text, and the piece alone has the same tokens. -/
theorem Renders.cut {start : Nat} {run tokens : List (Located Token)} {text : List Char}
    {first last : Located Token} (h : Renders start (run ++ tokens) text)
    (hrun : ∀ t ∈ run, t.item ≠ .eof) (hfirst : run.head? = some first)
    (hlast : run.getLast? = some last) :
    ∃ blanks piece rest, text = blanks ++ (piece ++ rest) ∧ piece ≠ [] ∧
      (∀ c ∈ blanks, Text.isBlank c = true) ∧ first.span.start = start + Text.bytes blanks ∧
      last.span.stop = start + Text.bytes blanks + Text.bytes piece ∧
      Renders (start + Text.bytes blanks) (run ++ [⟨.eof, ⟨last.span.stop, last.span.stop⟩⟩])
        piece := by
  induction run generalizing start text first with
  | nil => simp at hfirst
  | cons t run ih =>
      rw [List.forall_mem_cons] at hrun
      obtain ⟨blanks, spelling, rest, rfl, hspan, hblanks, hspelled, hend, hrest⟩ :=
        Renders.exists_spelling h hrun.1
      obtain ⟨item, span⟩ := t
      obtain rfl : span = _ := hspan
      obtain rfl := Option.some.inj hfirst
      cases run with
      | nil =>
          obtain rfl := Option.some.inj hlast
          refine ⟨blanks, spelling, rest, rfl, hspelled.ne_nil, hblanks, rfl, rfl, ?_⟩
          have hnil : Renders (start + Text.bytes blanks + Text.bytes spelling)
              [⟨.eof, ⟨_, _⟩⟩] [] := .eof
          simpa using Renders.token hspelled hend.of_append hnil
      | cons next run =>
          obtain ⟨between, piece, rest, rfl, _, hbetween, _, hstop, hpiece⟩ :=
            ih hrest hrun.2 rfl hlast
          refine ⟨blanks, spelling ++ (between ++ piece), rest, by simp, by simp [hspelled.ne_nil],
            hblanks, rfl, ?_, ?_⟩
          · rw [hstop, Text.bytes_append, Text.bytes_append]
            omega
          · rw [← List.append_assoc] at hend
            exact .token hspelled hend.of_append (.append_blanks hbetween hpiece)

namespace Cursor

variable {c c' : Cursor} {run : List (Located Token)} {first last : Located Token}

/-- The first token of a run stands at the cursor before it. -/
theorem Passes.span_eq (h : c.Passes run c') (hfirst : run.head? = some first) :
    c.span = first.span := by
  obtain ⟨more, rfl⟩ := List.head?_eq_some_iff.1 hfirst
  simp [Cursor.span, h.rest]

/-- The last token of a run stands right before the cursor after it. -/
theorem Passes.lastSpan_eq (h : c.Passes run c') (hlast : run.getLast? = some last) :
    c'.lastSpan = last.span := by
  obtain ⟨more, rfl⟩ := List.getLast?_eq_some_iff.1 hlast
  simp [Cursor.lastSpan, h.passed]

theorem lastSpan_next (h : c.token ≠ .eof) : c.next.lastSpan = c.span := by
  obtain ⟨x, _, hpass⟩ := passes_next h
  exact (hpass.lastSpan_eq rfl).trans (hpass.span_eq rfl).symm

/-- A run of tokens that a cursor passes, cut out of its text. -/
theorem Over.covers_run {outside text : List Char} (h : c.Over outside text)
    (hrun : c.Passes run c') (hend : ∀ t ∈ run, t.item ≠ .eof) (hfirst : run.head? = some first)
    (hlast : run.getLast? = some last) :
    ∃ before piece after,
      (⟨first.span.start, last.span.stop⟩ : Span).Covers (outside ++ text) before piece after ∧
      piece ≠ [] ∧
      Renders (Text.bytes before) (run ++ [⟨.eof, ⟨last.span.stop, last.span.stop⟩⟩]) piece := by
  have hrenders := h.renders
  rw [hrun.rest] at hrenders
  have hpassed : ∀ t ∈ c.passed.reverse, t.item ≠ .eof :=
    fun t ht => h.before_end t (List.mem_reverse.1 ht)
  obtain ⟨inside, rest, rfl, hrest⟩ := hrenders.drop hpassed
  obtain ⟨blanks, piece, after, rfl, hne, _, hstart, hstop, hpiece⟩ := hrest.cut hend hfirst hlast
  have hbefore : Text.bytes (outside ++ (inside ++ blanks)) =
      Text.bytes outside + Text.bytes inside + Text.bytes blanks := by
    simp [Nat.add_assoc]
  refine ⟨outside ++ (inside ++ blanks), piece, after, ⟨by simp, ?_, ?_⟩, hne, ?_⟩
  · rw [hbefore, hstart]
  · rw [hbefore, hstop]
  · rw [hbefore]
    exact hpiece

end Cursor

/-! ## The span of a type -/

section Spans

variable {c c' : Cursor} {ty ty' : Located Ty}

/-- Brackets are closed from the inside out, so the outermost of them begins the span, and the
last token that is passed ends it. -/
theorem closeBrackets_span {opens : List Span} (horder : c.InOrder) (hopens : c.Opened opens)
    (hstop : ty.span.stop = c.lastSpan.stop) (h : closeBrackets opens ty c = (.ok ty', c')) :
    ty'.span.start = (opens.getLast?.map (·.start)).getD ty.span.start ∧
      ty'.span.stop = c'.lastSpan.stop := by
  induction opens generalizing ty c with
  | nil =>
      obtain ⟨hty, rfl⟩ := Prod.mk.inj h
      obtain rfl := Except.ok.inj hty
      exact ⟨rfl, hstop⟩
  | cons opened outer ih =>
      obtain ⟨⟨t, ht, _, rfl⟩, houter⟩ := List.forall_mem_cons.1 hopens
      rw [closeBrackets] at h
      by_cases hclose : c.token = .closeBracket
      · rw [if_pos hclose] at h
        have hend : c.token ≠ .eof := by simp [hclose]
        obtain ⟨x, _, hpass⟩ := Cursor.passes_next hend
        -- the bracket that is closed stands before the one that closes it
        have hmerged := horder.merge_span ht hend
        obtain ⟨hstart', hstop'⟩ := ih (horder.passes hpass) (Cursor.Opened.next houter)
          (by rw [hmerged, Cursor.lastSpan_next hend]) h
        refine ⟨?_, hstop'⟩
        rw [hstart', hmerged, List.getLast?_cons]
        cases outer.getLast? <;> rfl
      · rw [if_neg hclose] at h
        cases (Prod.mk.inj h).1

/-- The first of the opening brackets at a cursor stands at the cursor. -/
theorem Cursor.getLast?_passOpenBrackets (c : Cursor) :
    (c.passOpenBrackets.1.getLast?.map (·.start)).getD c.passOpenBrackets.2.span.start =
      c.span.start := by
  cases hrest : c.rest with
  | nil => simp [Cursor.passOpenBrackets, Cursor.span, hrest]
  | cons x rest =>
      by_cases hopen : x.item = .openBracket
      · simp [Cursor.passOpenBrackets, Cursor.span, hrest, hopen]
      · simp [Cursor.passOpenBrackets, Cursor.span, hrest, hopen]

/-- A type stands from the cursor before it to the last token that is passed. -/
theorem readType_span (horder : c.InOrder) (h : readType c = (.ok ty, c')) :
    ty.span = ⟨c.span.start, c'.lastSpan.stop⟩ := by
  obtain ⟨opening, hopening, _⟩ := c.passes_passOpenBrackets
  have hinner := horder.passes hopening
  have hopens := c.opened_passOpenBrackets
  have hstart := c.getLast?_passOpenBrackets
  rw [readType] at h
  generalize c.passOpenBrackets = opening at hinner hopens hstart h
  obtain ⟨opens, inner⟩ := opening
  dsimp only at hinner hopens hstart h
  split at h
  · next name hname =>
      have hend : inner.token ≠ .eof := by simp [hname]
      obtain ⟨x, _, hpass⟩ := Cursor.passes_next hend
      obtain ⟨hfirst, hstop⟩ := closeBrackets_span (hinner.passes hpass) hopens.next
        (by rw [Cursor.lastSpan_next hend]) h
      rw [← hstart, ← hfirst, ← hstop]
  all_goals cases (Prod.mk.inj h).1

/-- The run of tokens of a type gives its span. -/
theorem exists_run_of_readType (horder : c.InOrder) (h : readType c = (.ok ty, c')) :
    ∃ run first last, c.Passes run c' ∧ TypeTokens (run.map (·.item)) ty.item ∧
      run.head? = some first ∧
      run.getLast? = some last ∧ ty.span = ⟨first.span.start, last.span.stop⟩ := by
  obtain ⟨run, hrun, htokens⟩ := (readType_eq_ok_iff c c' ty.item).1 ⟨ty.span, h⟩
  have hne : run ≠ [] := fun hnil => htokens.ne_nil (by rw [hnil, List.map_nil])
  have hfirst := List.head?_eq_some_head hne
  have hlast := List.getLast?_eq_some_getLast hne
  refine ⟨run, run.head hne, run.getLast hne, hrun, htokens, hfirst, hlast, ?_⟩
  rw [readType_span horder h, hrun.span_eq hfirst, hrun.lastSpan_eq hlast]

end Spans

/-! ## Reading a type again -/

/-- A piece that starts at byte `start` is read as a type, from its first character to its last. -/
def Ty.ReadFrom (ty : Ty) (start : Nat) (piece : List Char) : Prop :=
  ∃ tokens c, tokenizeFrom start piece = .ok tokens ∧
    readType (.ofTokens tokens) = (.ok ⟨ty, ⟨start, start + Text.bytes piece⟩⟩, c) ∧ c.token = .eof

/-- Items that are moved alike to the same place were at the same place. -/
theorem Located.eq_of_shift_eq {α : Type} {n : Nat} {x y : Located α}
    (h : x.shift n = y.shift n) : x = y := by
  obtain ⟨item, start, stop⟩ := x
  obtain ⟨item', start', stop'⟩ := y
  simp only [Located.shift, Span.shift, Located.mk.injEq, Span.mk.injEq] at h ⊢
  exact ⟨h.1, by omega, by omega⟩

/-- It does not matter where the piece starts. -/
theorem Ty.readFrom_add_iff {ty : Ty} {piece : List Char} (n start : Nat) :
    ty.ReadFrom (n + start) piece ↔ ty.ReadFrom start piece := by
  have hspan : (⟨ty, ⟨n + start, n + start + Text.bytes piece⟩⟩ : Located Ty) =
      Located.shift n ⟨ty, ⟨start, start + Text.bytes piece⟩⟩ := by
    simp [Located.shift, Span.shift, Nat.add_assoc]
  have hreading : ∀ tokens, tokenizeFrom start piece = .ok tokens →
      readType (.ofTokens (tokens.map (Located.shift n))) =
        movedReading n (Located.shift n) (readType (.ofTokens tokens)) := by
    intro tokens htokens
    obtain ⟨body, hbody, _⟩ := (renders_of_tokenizeFrom htokens).eq_concat
    exact readType_shift n (c := .ofTokens tokens) (.inr (by simp [Cursor.ofTokens, hbody]))
  constructor
  · rintro ⟨moved, c, hmoved, hread, hend⟩
    rw [tokenizeFrom_shift] at hmoved
    obtain ⟨tokens, htokens, rfl⟩ := moved_eq_ok_iff.1 hmoved
    rw [hreading tokens htokens, hspan] at hread
    obtain ⟨hty, rfl⟩ := Prod.mk.inj hread
    obtain ⟨found, hfound, heq⟩ := moved_eq_ok_iff.1 hty
    obtain rfl := Located.eq_of_shift_eq heq
    exact ⟨tokens, _, htokens, Prod.ext hfound rfl, by simpa using hend⟩
  · rintro ⟨tokens, c, htokens, hread, hend⟩
    refine ⟨tokens.map (Located.shift n), c.shift n, ?_, ?_, by simpa using hend⟩
    · rw [tokenizeFrom_shift, htokens, moved_ok]
    · rw [hreading tokens htokens, hread, hspan]
      rfl

/-- A type stands at a piece of a text, and the piece alone is read as the type. -/
def Located.ReadableIn (x : Located Ty) (source : List Char) : Prop :=
  ∃ before piece after, x.span.Covers source before piece after ∧ piece ≠ [] ∧
    ∀ start, x.item.ReadFrom start piece

section Places

variable {outside text : List Char} {c c' : Cursor}

theorem readType_readable {ty : Located Ty} (hover : c.Over outside text)
    (h : readType c = (.ok ty, c')) :
    ty.ReadableIn (outside ++ text) := by
  obtain ⟨run, first, last, hrun, htokens, hfirst, hlast, hspan⟩ :=
    exists_run_of_readType hover.inOrder h
  obtain ⟨before, piece, after, hcovers, hne, hrenders⟩ :=
    hover.covers_run hrun htokens.item_ne_eof hfirst hlast
  rw [← hspan] at hcovers
  refine ⟨before, piece, after, hcovers, hne, ?_⟩
  -- the piece has the tokens of the type and no others
  let eof : Located Token := ⟨.eof, ⟨last.span.stop, last.span.stop⟩⟩
  have hagain : (Cursor.ofTokens (run ++ [eof])).Passes run ⟨run.reverse, [eof]⟩ :=
    ⟨rfl, by simp [Cursor.ofTokens]⟩
  obtain ⟨span, hread⟩ := (readType_eq_ok_iff _ _ ty.item).2 ⟨run, hagain, htokens⟩
  have hwhole : span = ⟨Text.bytes before, Text.bytes before + Text.bytes piece⟩ := by
    have hsame := readType_span (.ofTokens hrenders (List.prefix_refl _)) hread
    rw [hagain.span_eq hfirst, hagain.lastSpan_eq hlast, ← hspan] at hsame
    rw [← hcovers.stop_eq, ← hcovers.start_eq]
    exact hsame
  have hfrom : ty.item.ReadFrom (Text.bytes before + 0) piece :=
    ⟨_, _, tokenizeFrom_of_renders hrenders, hwhole ▸ hread, rfl⟩
  intro start
  exact (Ty.readFrom_add_iff start 0).2 ((Ty.readFrom_add_iff _ 0).1 hfrom)

/-- The end of a type stands before whatever is read after an arrow. -/
theorem stop_le_of_readType {ty : Located Ty} (hover : c.Over outside text)
    (h : readType c = (.ok ty, c')) (harrow : c'.token = .arrow) :
    ty.span.stop ≤ c'.next.span.start := by
  obtain ⟨run, _, last, hrun, _, _, hlast, hspan⟩ := exists_run_of_readType hover.inOrder h
  have hend : c'.token ≠ .eof := by simp [harrow]
  obtain ⟨x, _, hpass⟩ := Cursor.passes_next hend
  have hmem : last ∈ c'.next.passed := by
    rw [hpass.passed, hrun.passed]
    simp [List.mem_of_getLast? hlast]
  rw [hspan]
  exact (((hover.after_readType h).next hend).covers_passed hmem).2

/-- Types with arrows between them can be read again at their places, and stand one after the
other. -/
theorem readTypes_places {located : List (Located Ty)} (hover : c.Over outside text)
    (h : readTypes c = (.ok located, c')) :
    (∀ ty ∈ located, ty.ReadableIn (outside ++ text) ∧ c.span.start ≤ ty.span.start) ∧
      located.Pairwise fun x y => x.span.stop ≤ y.span.start := by
  -- the types that follow are read from after the arrow, so the induction is on the list that is
  -- read
  induction located generalizing c with
  | nil => simp
  | cons ty types ih =>
      obtain ⟨first, after, hty, hcase⟩ := (readTypes_step c c' _).1 h
      have hreadable := readType_readable hover hty
      have hspan := readType_span hover.inOrder hty
      rcases hcase with ⟨_, heq, _⟩ | ⟨harrow, rest, hrest, heq⟩
      · cases heq
        simp [hreadable, hspan]
      · cases heq
        have hnext := (hover.after_readType hty).next (by simp [harrow])
        obtain ⟨hplaces, hordered⟩ := ih hnext hrest
        have hle := stop_le_of_readType hover hty harrow
        have hstart : ty.span.start ≤ ty.span.stop := by
          obtain ⟨_, _, _, hcovers, _⟩ := hreadable
          exact hcovers.start_le_stop
        have hfirst : c.span.start = ty.span.start := by rw [hspan]
        refine ⟨List.forall_mem_cons.2 ⟨⟨hreadable, ?_⟩, ?_⟩, List.pairwise_cons.2 ⟨?_, hordered⟩⟩
        · omega
        · intro ty' hty'
          have hlater := (hplaces ty' hty').2
          exact ⟨(hplaces ty' hty').1, by omega⟩
        · intro ty' hty'
          have hlater := (hplaces ty' hty').2
          omega

/-- The types of a type list can be read again at their places, and stand one after the other,
inside the list. -/
theorem readTypeText_places {located : List (Located Ty)}
    (h : readTypeText (Text.bytes outside) text = .ok located) :
    (∀ ty ∈ located, ty.ReadableIn (outside ++ text) ∧ Text.bytes outside ≤ ty.span.start) ∧
      located.Pairwise fun x y => x.span.stop ≤ y.span.start := by
  obtain ⟨tokens, htokens, hread⟩ := bind_eq_ok_iff.1 h
  have hrenders := renders_of_tokenizeFrom (mapError_eq_ok_iff.1 htokens)
  have hover := Cursor.Over.ofTokens hrenders
  -- types are read from the first token, or from the third if the unit stands in front
  have htypes : ∃ c, c.Over outside text ∧ (readTypes c).1 = .ok located := by
    by_cases hunit : (Cursor.ofTokens tokens).token = .unit
    · obtain ⟨harrow, htypes⟩ := (readTypeList_of_unit hunit located).1 hread
      exact ⟨_, (hover.next (by simp [hunit])).next (by simp [harrow]), htypes⟩
    · exact ⟨_, hover, ((readTypeList_of_ne_unit hunit located).1 hread).1⟩
  obtain ⟨c, hc, htypes⟩ := htypes
  obtain ⟨hplaces, hordered⟩ := readTypes_places hc (Prod.ext htypes rfl)
  have hstart : Text.bytes outside ≤ c.span.start := by
    obtain ⟨x, rest, hrest⟩ := hc.exists_cons
    rw [(Cursor.Over.token_span_eq hrest).2]
    exact hc.renders.start_le (by simp [hrest])
  refine ⟨?_, hordered⟩
  intro ty hty
  exact ⟨(hplaces ty hty).1, Nat.le_trans hstart (hplaces ty hty).2⟩

end Places

end Covenant
