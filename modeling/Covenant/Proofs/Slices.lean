import Mathlib.Data.List.Basic
import Covenant.Proofs.Searching

/-!
# Spans and the pieces that they cover

A span of a text is described by three texts: what stands before it, the piece that it covers and
what stands after it. The offsets of such a span fall between characters, so cutting the text
there gives the piece back. The words of a text are found at spans of this kind, and so is a text
without its blank ends.
-/

namespace Covenant

namespace Text

/-- Of two parts at the front of a text, the one with fewer bytes is at the front of the other. -/
theorem exists_append_of_bytes_le {cs ds cs' ds' : List Char} (h : cs ++ ds = cs' ++ ds')
    (hle : bytes cs ≤ bytes cs') : ∃ more, cs' = cs ++ more := by
  rcases List.append_eq_append_iff.1 h with ⟨more, hmore, -⟩ | ⟨more, hmore, -⟩
  · exact ⟨more, hmore⟩
  · cases more with
    | nil => exact ⟨[], by rw [hmore, List.append_nil, List.append_nil]⟩
    | cons c more =>
        have hpos := c.utf8Size_pos
        rw [hmore, bytes_append, bytes_cons] at hle
        omega

/-- Parts at the front of a text with as many bytes are the same, and so is what follows them. -/
theorem append_inj_of_bytes {cs ds cs' ds' : List Char} (h : cs ++ ds = cs' ++ ds')
    (hbytes : bytes cs = bytes cs') :
    cs = cs' ∧ ds = ds' := by
  have hsplit := splitAt?_bytes_append cs ds
  rw [h, hbytes, splitAt?_bytes_append] at hsplit
  exact ⟨(Prod.mk.inj (Option.some.inj hsplit)).1.symm,
    (Prod.mk.inj (Option.some.inj hsplit)).2.symm⟩

end Text

/-! ## Spans -/

/-- A span covers a piece of a text, between what stands before it and after it. -/
structure Span.Covers (span : Span) (text before piece after : List Char) : Prop where
  text_eq : text = before ++ (piece ++ after)
  start_eq : span.start = Text.bytes before
  stop_eq : span.stop = Text.bytes before + Text.bytes piece

namespace Span.Covers

variable {span span' : Span} {text before piece after before' piece' after' : List Char}

theorem start_le_stop (h : span.Covers text before piece after) : span.start ≤ span.stop := by
  rw [h.start_eq, h.stop_eq]
  omega

theorem stop_le_bytes (h : span.Covers text before piece after) : span.stop ≤ Text.bytes text := by
  rw [h.stop_eq, h.text_eq, Text.bytes_append, Text.bytes_append]
  omega

/-- Cutting a text at a span gives the piece that the span covers. -/
theorem slice?_eq_some (h : span.Covers text before piece after) :
    Text.slice? span.start span.stop text = some piece := by
  have hle := h.start_le_stop
  have hsize : span.stop - span.start = Text.bytes piece := by
    rw [h.start_eq, h.stop_eq]
    omega
  rw [Text.slice?, hsize, h.start_eq, h.text_eq, Text.splitAt?_bytes_append]
  rw [h.start_eq] at hle
  simp [hle]

theorem append_right (h : span.Covers text before piece after) (more : List Char) :
    span.Covers (text ++ more) before piece (after ++ more) :=
  ⟨by simp [h.text_eq], h.start_eq, h.stop_eq⟩

/-- The smallest span over two pieces, one after the other, covers both and what lies between
them. -/
theorem merge (h : span.Covers text before piece after)
    (h' : span'.Covers text before' piece' after') (hle : span.stop ≤ span'.start) :
    ∃ between, (span.merge span').Covers text before (piece ++ (between ++ piece')) after' := by
  have htext : before ++ piece ++ after = before' ++ (piece' ++ after') := by
    rw [List.append_assoc, ← h.text_eq, h'.text_eq]
  have hbytes : Text.bytes (before ++ piece) ≤ Text.bytes before' := by
    rw [Text.bytes_append, ← h.stop_eq, ← h'.start_eq]
    exact hle
  obtain ⟨between, hbetween⟩ := Text.exists_append_of_bytes_le htext hbytes
  have hstart := h.start_eq
  have hstop := h.stop_eq
  have hstart' := h'.start_eq
  have hstop' := h'.stop_eq
  simp only [hbetween, Text.bytes_append] at hstart' hstop'
  refine ⟨between, ?_, ?_, ?_⟩
  · rw [h'.text_eq, hbetween]
    simp only [List.append_assoc]
  · simp only [Span.merge]
    omega
  · simp only [Span.merge, Text.bytes_append]
    omega

end Span.Covers

namespace Text

theorem covers_char (outside inside : List Char) (c : Char) (rest : List Char) :
    (⟨bytes outside + bytes inside, bytes outside + bytes inside + c.utf8Size⟩ : Span).Covers
      (outside ++ (inside ++ c :: rest)) (outside ++ inside) [c] rest :=
  ⟨by simp, by simp, by simp⟩

/-- The first character of a kind, with the characters before it, which are of another kind. -/
theorem exists_append_of_find? {p : Char → Bool} {start : Nat} {text : List Char}
    {found : Located Char} (h : find? p start text = some found) :
    ∃ inside rest, text = inside ++ found.item :: rest ∧ (∀ c ∈ inside, p c = false) ∧
      p found.item = true ∧
      found.span = ⟨start + bytes inside, start + bytes inside + found.item.utf8Size⟩ := by
  induction text generalizing start with
  | nil => simp [find?] at h
  | cons c cs ih =>
      rw [find?] at h
      by_cases hc : p c = true
      · rw [if_pos hc] at h
        obtain rfl := Option.some.inj h
        exact ⟨[], cs, rfl, by simp, hc, rfl⟩
      · rw [if_neg hc] at h
        obtain ⟨inside, rest, rfl, hinside, hfound, hspan⟩ := ih h
        refine ⟨c :: inside, rest, rfl, ?_, hfound, ?_⟩
        · exact List.forall_mem_cons.2 ⟨by simpa using hc, hinside⟩
        · rw [hspan, bytes_cons, Nat.add_assoc start]

/-! ## Words -/

theorem covers_of_mem_words {outside text : List Char} {word : Located (List Char)}
    (h : word ∈ words (bytes outside) text) :
    ∃ before after, word.span.Covers (outside ++ text) before word.item after := by
  generalize hwords : words (bytes outside) text = found at h
  induction found generalizing outside text with
  | nil => simp at h
  | cons first more ih =>
      obtain ⟨blanks, rest, rfl, -, -, -, -, hspan, hmore⟩ := exists_append_of_words hwords
      rcases List.mem_cons.1 h with rfl | h
      · exact ⟨outside ++ blanks, rest, by simp, by simp [hspan], by simp [hspan]⟩
      · have hstop : first.span.stop = bytes (outside ++ (blanks ++ first.item)) := by
          simp [hspan, Nat.add_assoc]
        rw [hstop] at hmore
        obtain ⟨before, after, hcovers⟩ := ih hmore h
        refine ⟨before, after, ?_⟩
        simpa only [List.append_assoc] using hcovers

theorem dropEndWhile_append_of_forall {p : Char → Bool} {cs ds : List Char}
    (hds : ∀ c ∈ ds, p c = true) (hcs : ∀ c ∈ cs.getLast?, p c = false) :
    dropEndWhile p (cs ++ ds) = cs := by
  have hhead : ∀ c ∈ cs.reverse.head?, p c = false := by simpa using hcs
  obtain ⟨-, hdrop⟩ := takeWhile_append_of_head (p := p) cs.reverse
    (fun c hc => hds c (List.mem_reverse.1 hc)) hhead
  rw [dropEndWhile, List.reverse_append, hdrop, List.reverse_reverse]

/-- Blanks around a text that neither starts nor ends with one are its blank ends. -/
theorem trim_append {before core after : List Char} (hbefore : ∀ c ∈ before, isBlank c = true)
    (hafter : ∀ c ∈ after, isBlank c = true) (hne : core ≠ [])
    (hhead : ∀ c ∈ core.head?, isBlank c = false)
    (hlast : ∀ c ∈ core.getLast?, isBlank c = false) : trim (before ++ (core ++ after)) = core := by
  have hstart : ∀ c ∈ (core ++ after).head?, isBlank c = false := by
    rw [List.head?_append_of_ne_nil core hne]
    exact hhead
  obtain ⟨-, hdrop⟩ := takeWhile_append_of_head (core ++ after) hbefore hstart
  rw [trim, hdrop, dropEndWhile_append_of_forall hafter hlast]

/-- A text with words starts and ends with blanks, and what lies between them, from the first word
to the last, neither starts nor ends with a blank. -/
theorem exists_core_of_words {start : Nat} {text : List Char} {first last : Located (List Char)}
    {found : List (Located (List Char))} (hwords : words start text = found)
    (hfirst : found.head? = some first) (hlast : found.getLast? = some last) :
    ∃ before core after, text = before ++ (core ++ after) ∧ (∀ c ∈ before, isBlank c = true) ∧
      (∀ c ∈ after, isBlank c = true) ∧ core ≠ [] ∧ (∀ c ∈ core.head?, isBlank c = false) ∧
      (∀ c ∈ core.getLast?, isBlank c = false) ∧ first.span.start = start + bytes before ∧
      last.span.stop = start + bytes before + bytes core := by
  induction found generalizing start text first with
  | nil => simp at hfirst
  | cons word more ih =>
      obtain rfl : word = first := Option.some.inj hfirst
      obtain ⟨blanks, rest, rfl, hblanks, hne, hword, -, hspan, hmore⟩ :=
        exists_append_of_words hwords
      have hhead : ∀ c ∈ word.item.head?, isBlank c = false :=
        fun c hc => hword c (List.mem_of_head? hc)
      cases more with
      | nil =>
          obtain rfl : word = last := Option.some.inj hlast
          refine ⟨blanks, word.item, rest, rfl, hblanks, words_eq_nil_iff.1 hmore, hne,
            hhead, ?_, ?_, ?_⟩
          · exact fun c hc => hword c (List.mem_of_getLast? hc)
          · rw [hspan]
          · rw [hspan]
      | cons next more =>
          obtain ⟨between, core, after, rfl, -, hafter, hcore, -, hend, -, hstop⟩ :=
            ih hmore rfl (by simpa using hlast)
          refine ⟨blanks, word.item ++ (between ++ core), after, by simp, hblanks,
            hafter, by simp [hne], ?_, ?_, by rw [hspan], ?_⟩
          · rw [List.head?_append_of_ne_nil _ hne]
            exact hhead
          · rw [← List.append_assoc, List.getLast?_append_of_ne_nil _ hcore]
            exact hend
          · rw [hstop, hspan]
            simp only [bytes_append]
            omega

/-- From its first to its last word a text is what is left of it without its blank ends, and to
take blank ends away once more changes nothing. -/
theorem covers_trim_of_words {outside text : List Char} {first last : Located (List Char)}
    {found : List (Located (List Char))} (hwords : words (bytes outside) text = found)
    (hfirst : found.head? = some first) (hlast : found.getLast? = some last) :
    (∃ before after, (⟨first.span.start, last.span.stop⟩ : Span).Covers (outside ++ text) before
      (trim text) after) ∧ trim (trim text) = trim text := by
  obtain ⟨before, core, after, rfl, hbefore, hafter, hne, hhead, hend, hstart, hstop⟩ :=
    exists_core_of_words hwords hfirst hlast
  have htrim : trim ([] ++ (core ++ [])) = core := trim_append (by simp) (by simp) hne hhead hend
  rw [List.nil_append, List.append_nil] at htrim
  rw [trim_append hbefore hafter hne hhead hend, htrim]
  exact ⟨⟨outside ++ before, after, by simp, by simp [hstart], by simp [hstop]⟩, rfl⟩

end Text

end Covenant
