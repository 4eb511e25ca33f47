import Covenant.Proofs.Lines

/-!
# Lines and columns, counted in the text

A line map finds the line of an offset by a search among the starts of lines. What it finds is
what one would count: a line is one more than the newlines before the offset, and a column is one
more than the characters after the last of them. The starts are in order, and the line found parts
those at or before the offset from those after it, so that any search among them has the same
result. Reading on moves positions forward. So a position belongs to one offset only.

## Main definitions

* `Text.IsBoundary`: an offset between two characters, or at an end of the text.
* `Position.endOf`: the position at the end of a text, by counting.
* `Position.Precedes`: the order of positions, line by line.

## Main statements

* `LineMap.pairwise_starts`, `LineMap.lt_lineAt_iff`: the starts of lines are in order, and the
  search parts them.
* `LineMap.position?_bytes`, `LineMap.position?_eq_none_iff`: the position of an offset, and when
  there is none.
* `LineMap.locate?_of_covers`: the positions of the two ends of a piece.
* `LineMap.line?_succ_eq_some_iff`: the text of a line.
* `Position.endOf_precedes`: reading on moves positions forward.
* `LineMap.counts_lines_and_columns`: all of this for every text.
-/

namespace Covenant

/-! ## Boundaries -/

/-- An offset falls between two characters of a text, or on one of its ends. -/
def Text.IsBoundary (text : List Char) (offset : Nat) : Prop :=
  ∃ before after, text = before ++ after ∧ Text.bytes before = offset

/-- What can be cut out of a text stands there. -/
theorem Span.exists_covers_of_slice? (span : Span) {text piece : List Char}
    (h : Text.slice? span.start span.stop text = some piece) :
    ∃ before after, span.Covers text before piece after := by
  simp only [Text.slice?, Option.bind_eq_bind, Option.bind_eq_some_iff] at h
  obtain ⟨⟨before, rest⟩, hstart, h⟩ := h
  obtain ⟨rfl, hbefore⟩ := Text.eq_append_of_splitAt? hstart
  split at h
  · obtain ⟨⟨middle, after⟩, hstop, hmiddle⟩ := Option.bind_eq_some_iff.1 h
    obtain rfl : middle = piece := Option.some.inj hmiddle
    obtain ⟨rfl, hbytes⟩ := Text.eq_append_of_splitAt? hstop
    exact ⟨before, after, rfl, hbefore.symm, by omega⟩
  · cases h

theorem Span.Covers.isBoundary_stop {span : Span} {text before piece after : List Char}
    (h : span.Covers text before piece after) : Text.IsBoundary text span.stop := by
  refine ⟨before ++ piece, after, ?_, ?_⟩
  · rw [h.text_eq, List.append_assoc]
  · rw [Text.bytes_append, h.stop_eq]

theorem Span.exists_covers_of_isBoundary {span : Span} {text : List Char}
    (hstart : Text.IsBoundary text span.start) (hstop : Text.IsBoundary text span.stop)
    (hle : span.start ≤ span.stop) :
    ∃ before piece after, span.Covers text before piece after := by
  obtain ⟨before, after, htext, hbefore⟩ := hstart
  obtain ⟨before', after', htext', hbefore'⟩ := hstop
  rw [← hbefore, ← hbefore'] at hle
  obtain ⟨piece, rfl⟩ := Text.exists_append_of_bytes_le (htext.symm.trans htext') hle
  exact ⟨before, piece, after', by rw [htext', List.append_assoc],
    hbefore.symm, by rw [← hbefore', Text.bytes_append]⟩

/-! ## Positions by counting -/

namespace Position

/-- The position at the end of a text: there are as many lines before it as newlines, and as many
columns as characters after the last newline. -/
def endOf (text : List Char) : Position :=
  ⟨1 + text.count '\n', 1 + (text.reverse.takeWhile (· != '\n')).length⟩

/-- A position precedes another one on a later line, or in a later column of the same line. -/
def Precedes (p q : Position) : Prop :=
  p.line < q.line ∨ p.line = q.line ∧ p.column < q.column

theorem Precedes.ne {p q : Position} (h : p.Precedes q) : p ≠ q := by
  rintro rfl
  rcases h with h | ⟨-, h⟩
  · exact Nat.lt_irrefl _ h
  · exact Nat.lt_irrefl _ h

/-- Inside a line, a count back to the last newline does not stop. -/
theorem forall_mem_reverse_ne {text : List Char} (h : '\n' ∉ text) :
    ∀ c ∈ text.reverse, (c != '\n') = true := by
  intro c hc
  rw [bne_iff_ne]
  rintro rfl
  exact h (List.mem_reverse.1 hc)

/-- The columns at the end of a text are those of what stands after its last newline. -/
theorem endOf_append {passed current : List Char} (hpassed : ∀ c ∈ passed.getLast?, c = '\n')
    (hcurrent : '\n' ∉ current) :
    endOf (passed ++ current) = ⟨1 + (passed ++ current).count '\n', 1 + current.length⟩ := by
  have hrest : ∀ c ∈ passed.reverse.head?, (c != '\n') = false := by
    intro c hc
    rw [hpassed c (by simpa using hc)]
    rfl
  have ⟨htake, _⟩ := takeWhile_append_of_head passed.reverse (forall_mem_reverse_ne hcurrent) hrest
  rw [endOf, List.reverse_append, htake, List.length_reverse]

theorem endOf_append_of_not_mem (before : List Char) {more : List Char} (hmore : '\n' ∉ more) :
    endOf (before ++ more) = ⟨(endOf before).line, (endOf before).column + more.length⟩ := by
  have hrun := forall_mem_reverse_ne hmore
  simp only [endOf, List.count_append, List.count_eq_zero_of_not_mem hmore, List.reverse_append,
    List.takeWhile_append_of_pos hrun, List.length_append, List.length_reverse, mk.injEq]
  omega

theorem endOf_precedes (before : List Char) {more : List Char} (hmore : more ≠ []) :
    (endOf before).Precedes (endOf (before ++ more)) := by
  by_cases hnewline : '\n' ∈ more
  · have hcount := List.count_pos_iff.2 hnewline
    refine .inl ?_
    simp only [endOf, List.count_append]
    omega
  · have hlength := List.length_pos_iff.2 hmore
    rw [endOf_append_of_not_mem before hnewline]
    exact .inr ⟨rfl, Nat.lt_add_of_pos_right hlength⟩

end Position

/-! ## Ends of lines -/

/-- What is left of a text without a run of characters at its end. -/
theorem Text.dropEndWhile_eq_iff {p : Char → Bool} {text line : List Char} :
    Text.dropEndWhile p text = line ↔
      ∃ run, text = line ++ run ∧ (∀ c ∈ run, p c = true) ∧ ∀ c ∈ line.getLast?, p c = false := by
  constructor
  · rintro rfl
    refine ⟨(text.reverse.takeWhile p).reverse, ?_, ?_, ?_⟩
    · rw [Text.dropEndWhile, ← List.reverse_append, List.takeWhile_append_dropWhile,
        List.reverse_reverse]
    · intro c hc
      exact List.all_eq_true.1 List.all_takeWhile c (List.mem_reverse.1 hc)
    · intro c hc
      rw [Text.dropEndWhile, List.getLast?_reverse] at hc
      have hhead := List.head?_dropWhile_not p text.reverse
      rw [Option.mem_def.1 hc] at hhead
      simpa using hhead
  · rintro ⟨run, rfl, hrun, hline⟩
    exact Text.dropEndWhile_append_of_forall hrun hline

namespace LineMap

/-! ## The search for a line -/

theorem pairwise_startsAfter (pos : Nat) (text : List Char) :
    (startsAfter pos text).Pairwise (· < ·) := by
  induction text generalizing pos with
  | nil => exact .nil
  | cons c cs ih =>
      rw [startsAfter]
      split
      · exact .cons (fun x hx => lt_of_mem_startsAfter hx) (ih _)
      · exact ih _

theorem pairwise_starts (source : String) : (ofString source).starts.Pairwise (· < ·) :=
  .cons (fun _ hx => lt_of_mem_startsAfter hx) (pairwise_startsAfter 0 source.toList)

theorem length_starts (source : String) :
    (ofString source).starts.length = source.toList.count '\n' + 1 := by
  change (0 :: startsAfter 0 source.toList).length = _
  rw [cons_startsAfter, length_pieceStarts, Text.length_splitOn]

theorem le_lineAt (offset line start : Nat) (later : List Nat) :
    line ≤ (lineAt offset line start later).1 := by
  induction later generalizing line start with
  | nil => exact Nat.le_refl _
  | cons next later ih =>
      rw [lineAt]
      split
      · exact Nat.le_of_succ_le (ih (line + 1) next)
      · exact Nat.le_refl _

/-- The search parts the starts at or before an offset from those after it. -/
theorem lt_lineAt_iff {offset : Nat} {later : List Nat} (hsorted : later.Pairwise (· < ·))
    {i next : Nat} (h : later[i]? = some next) (line start : Nat) :
    line + i < (lineAt offset line start later).1 ↔ next ≤ offset := by
  induction later generalizing i line start with
  | nil => simp at h
  | cons first later ih =>
      have ⟨hfirst, hlater⟩ := List.pairwise_cons.1 hsorted
      rw [lineAt]
      by_cases hle : first ≤ offset
      · rw [if_pos hle]
        cases i with
        | zero =>
            obtain rfl : first = next := Option.some.inj h
            have := le_lineAt offset (line + 1) first later
            omega
        | succ i =>
            have hiff := ih hlater h (line + 1) first
            omega
      · rw [if_neg hle]
        have hle' : first ≤ next := by
          cases i with
          | zero => exact Nat.le_of_eq (Option.some.inj h)
          | succ i => exact Nat.le_of_lt (hfirst next (List.mem_of_getElem? h))
        simp only
        omega

/-! ## Positions of offsets -/

theorem position?_eq_some_iff {m : LineMap} {offset : Nat} {p : Position} :
    m.position? offset = some p ↔
      ∃ before, Text.slice? (lineAt (min offset (Text.bytes m.text)) 1 0 m.laterStarts).2
          (min offset (Text.bytes m.text)) m.text = some before ∧
        p = ⟨(lineAt (min offset (Text.bytes m.text)) 1 0 m.laterStarts).1, before.length + 1⟩ := by
  simp [position?, Option.bind_eq_some_iff, eq_comm (a := p)]

theorem position?_min (m : LineMap) (offset : Nat) :
    m.position? (min offset (Text.bytes m.text)) = m.position? offset := by
  rw [position?, position?, Nat.min_assoc, Nat.min_self]

/-- The line of a position is the last one that starts at or before the offset. -/
theorem lt_line_iff_of_position? {source : String} {offset : Nat} {p : Position}
    (h : (ofString source).position? offset = some p) {i start : Nat}
    (hstart : (ofString source).starts[i]? = some start) :
    i < p.line ↔ start ≤ min offset (Text.bytes source.toList) := by
  obtain ⟨before, -, rfl⟩ := position?_eq_some_iff.1 h
  cases i with
  | zero =>
      obtain rfl : 0 = start := Option.some.inj hstart
      exact iff_of_true (le_lineAt _ 1 0 _) (Nat.zero_le _)
  | succ i =>
      rw [Nat.add_comm]
      exact lt_lineAt_iff (pairwise_startsAfter 0 source.toList) hstart 1 0

/-- The position of a boundary is that at the end of the text before it. -/
theorem position?_bytes {source : String} {before after : List Char}
    (h : source.toList = before ++ after) :
    (ofString source).position? (Text.bytes before) = some (.endOf before) := by
  obtain ⟨passed, current, rfl, hpassed, hcurrent, hposition⟩ := position?_append h
  rw [hposition, Position.endOf_append hpassed hcurrent, Nat.add_comm, Nat.add_comm current.length]

/-- A span that covers a piece starts at the end of the text before the piece, and stops at the
end of the piece. -/
theorem locate?_of_covers {source : String} {span : Span} {before piece after : List Char}
    (h : span.Covers source.toList before piece after) :
    (ofString source).locate? span = some ⟨.endOf before, .endOf (before ++ piece)⟩ := by
  have hfirst := position?_bytes h.text_eq
  have hlast := position?_bytes (h.text_eq.trans (List.append_assoc before piece after).symm)
  rw [← h.start_eq] at hfirst
  rw [Text.bytes_append, ← h.stop_eq] at hlast
  rw [locate?, hfirst, hlast]
  rfl

/-- There is no position inside a character, and one everywhere else. -/
theorem position?_eq_none_iff {source : String} {offset : Nat} :
    (ofString source).position? offset = none ↔
      ¬Text.IsBoundary source.toList (min offset (Text.bytes source.toList)) := by
  constructor
  · rintro hnone ⟨before, after, htext, hbytes⟩
    have hposition := position?_bytes htext
    rw [hbytes] at hposition
    have hmin := position?_min (ofString source) offset
    rw [hnone] at hmin
    exact Option.some_ne_none _ (hposition.symm.trans hmin)
  · intro hinside
    rw [Option.eq_none_iff_forall_ne_some]
    intro p hp
    obtain ⟨before, hslice, -⟩ := position?_eq_some_iff.1 hp
    obtain ⟨passed, after, hcovers⟩ := Span.exists_covers_of_slice? ⟨_, _⟩ hslice
    exact hinside hcovers.isBoundary_stop

/-- Of two boundaries, the earlier one has the earlier position. -/
theorem position?_precedes {source : String} {offset offset' : Nat}
    (h : Text.IsBoundary source.toList offset) (h' : Text.IsBoundary source.toList offset')
    (hlt : offset < offset') :
    ∃ p p', (ofString source).position? offset = some p ∧
      (ofString source).position? offset' = some p' ∧ p.Precedes p' := by
  obtain ⟨before, after, htext, rfl⟩ := h
  obtain ⟨before', after', htext', rfl⟩ := h'
  obtain ⟨more, rfl⟩ := Text.exists_append_of_bytes_le (htext.symm.trans htext') (Nat.le_of_lt hlt)
  have hmore : more ≠ [] := by
    rintro rfl
    simp at hlt
  exact ⟨_, _, position?_bytes htext, position?_bytes htext', Position.endOf_precedes before hmore⟩

theorem position?_ne {source : String} {offset offset' : Nat}
    (h : Text.IsBoundary source.toList offset) (h' : Text.IsBoundary source.toList offset')
    (hlt : offset < offset') :
    (ofString source).position? offset ≠ (ofString source).position? offset' := by
  obtain ⟨p, p', hp, hp', hprecedes⟩ := position?_precedes h h' hlt
  rw [hp, hp']
  exact fun heq => hprecedes.ne (Option.some.inj heq)

/-! ## Texts of lines -/

/-- The text of a line is a piece between newlines up to the carriage returns at its end. -/
theorem line?_succ_eq_some_iff {source : String} {n : Nat} {line : List Char} :
    (ofString source).line? (n + 1) = some line ↔
      ∃ returns, (source.toList.splitOn '\n')[n]? = some (line ++ returns) ∧
        (∀ c ∈ returns, c = '\r') ∧ line.getLast? ≠ some '\r' := by
  have hlast : (∀ c ∈ line.getLast?, (c == '\r') = false) ↔ line.getLast? ≠ some '\r' := by
    cases line.getLast? <;> simp
  simp only [line?_succ, Option.map_eq_some_iff, Text.dropEndWhile_eq_iff, hlast, beq_iff_eq]
  constructor
  · rintro ⟨piece, hpiece, returns, rfl, hreturns, hline⟩
    exact ⟨returns, hpiece, hreturns, hline⟩
  · rintro ⟨returns, hpiece, hreturns, hline⟩
    exact ⟨_, hpiece, returns, rfl, hreturns, hline⟩

theorem exists_lineRange?_iff {source : String} {n : Nat} :
    (∃ range, (ofString source).lineRange? n = some range) ↔
      1 ≤ n ∧ n ≤ 1 + source.toList.count '\n' := by
  cases n with
  | zero => simp [lineRange?]
  | succ n =>
      have hlength := length_starts source
      cases hstart : (ofString source).starts[n]? with
      | none =>
          have hlt := List.getElem?_eq_none_iff.1 hstart
          have hnone : (ofString source).lineRange? (n + 1) = none := by simp [lineRange?, hstart]
          exact iff_of_false (by simp [hnone]) (by omega)
      | some start =>
          obtain ⟨hlt, -⟩ := List.getElem?_eq_some_iff.1 hstart
          refine iff_of_true ?_ (by omega)
          rw [lineRange?, hstart]
          cases (ofString source).starts[n + 1]? with
          | none => exact ⟨_, rfl⟩
          | some next => exact ⟨_, rfl⟩

theorem exists_line?_iff {source : String} {n : Nat} :
    (∃ line, (ofString source).line? n = some line) ↔ 1 ≤ n ∧ n ≤ 1 + source.toList.count '\n' := by
  cases n with
  | zero => simp [line?, lineRange?]
  | succ n =>
      have hlength := Text.length_splitOn '\n' source.toList
      rw [← Option.isSome_iff_exists, line?_succ, Option.isSome_map, isSome_getElem?]
      omega

theorem exists_slice?_of_lineRange? {source : String} {n : Nat} {range : Span}
    (h : (ofString source).lineRange? n = some range) :
    ∃ piece, Text.slice? range.start range.stop source.toList = some piece := by
  obtain ⟨line, hline⟩ := exists_line?_iff.2 (exists_lineRange?_iff.1 ⟨range, h⟩)
  simp only [line?, h, Option.bind_eq_bind, Option.bind_some, Option.bind_eq_some_iff] at hline
  obtain ⟨piece, hpiece, -⟩ := hline
  exact ⟨piece, hpiece⟩

/-- A line map counts. There is a position for every boundary and for no other offset. Its line
counts the newlines before the offset and its column the characters after the last of them, and
the line is also what any search among the starts in order must find. There is one line more than
there are newlines. Each can be cut out of the text, and is a piece between newlines up to the
carriage returns at its end. Later boundaries have later positions, so a position belongs to one
boundary only. -/
theorem counts_lines_and_columns (source : String) :
    (∀ offset, (ofString source).position? offset = none ↔
      ¬Text.IsBoundary source.toList (min offset (Text.bytes source.toList))) ∧
    (∀ offset before after, source.toList = before ++ after →
      Text.bytes before = min offset (Text.bytes source.toList) →
      (ofString source).position? offset = some (.endOf before)) ∧
    (ofString source).starts.Pairwise (· < ·) ∧
    (∀ offset p i start, (ofString source).position? offset = some p →
      (ofString source).starts[i]? = some start →
      (i < p.line ↔ start ≤ min offset (Text.bytes source.toList))) ∧
    (∀ n, (∃ line, (ofString source).line? n = some line) ↔
      1 ≤ n ∧ n ≤ 1 + source.toList.count '\n') ∧
    (∀ n range, (ofString source).lineRange? n = some range →
      ∃ piece, Text.slice? range.start range.stop source.toList = some piece) ∧
    (∀ n line, (ofString source).line? (n + 1) = some line ↔
      ∃ returns, (source.toList.splitOn '\n')[n]? = some (line ++ returns) ∧
        (∀ c ∈ returns, c = '\r') ∧ line.getLast? ≠ some '\r') ∧
    (∀ offset offset', Text.IsBoundary source.toList offset →
      Text.IsBoundary source.toList offset' → offset < offset' →
      ∃ p p', (ofString source).position? offset = some p ∧
        (ofString source).position? offset' = some p' ∧ p.Precedes p') ∧
    ∀ offset offset', Text.IsBoundary source.toList offset → Text.IsBoundary source.toList offset' →
      (ofString source).position? offset = (ofString source).position? offset' →
        offset = offset' := by
  refine ⟨fun _ => position?_eq_none_iff, ?_, pairwise_starts source,
    fun _ _ _ _ h => lt_line_iff_of_position? h, fun _ => exists_line?_iff,
    fun _ _ => exists_slice?_of_lineRange?, fun _ _ => line?_succ_eq_some_iff,
    fun _ _ => position?_precedes, ?_⟩
  · intro offset before after htext hbytes
    rw [← position?_bytes htext, hbytes]
    exact (position?_min (ofString source) offset).symm
  · intro offset offset' h h' heq
    rcases Nat.lt_trichotomy offset offset' with hlt | rfl | hlt
    · exact absurd heq (position?_ne h h' hlt)
    · rfl
    · exact absurd heq.symm (position?_ne h' h hlt)

/-- A text with characters of several bytes, an empty line, carriage returns and a newline at its
end. Its last line is empty, and offsets past the end are on it. -/
theorem counts_lines_and_columns_sample :
    let m := ofString "é\r\n\n𝄞x\r\r\ny\n"
    let text := "é\r\n\n𝄞x\r\r\ny\n".toList
    (m.position? 1 = none ∧ ¬Text.IsBoundary text 1) ∧
    (m.position? 9 = some (.endOf "é\r\n\n𝄞".toList) ∧ Position.endOf "é\r\n\n𝄞".toList = ⟨3, 2⟩) ∧
    (m.position? 99 = some (.endOf text) ∧ Position.endOf text = ⟨5, 1⟩) ∧
    m.starts = [0, 4, 5, 13, 15] ∧
    ((∃ line, m.line? 5 = some line) ∧ ¬∃ line, m.line? 6 = some line) ∧
    m.line? 3 = some "𝄞x".toList ∧
    m.position? 4 ≠ m.position? 9 := by
  intro m text
  obtain ⟨hnone, hposition, -, -, hlines, -, hline, -, hidentify⟩ :=
    counts_lines_and_columns "é\r\n\n𝄞x\r\r\ny\n"
  have hinside : m.position? 1 = none := by decide +kernel
  have h4 : Text.IsBoundary text 4 := ⟨"é\r\n".toList, _, rfl, rfl⟩
  have h9 : Text.IsBoundary text 9 := ⟨"é\r\n\n𝄞".toList, _, rfl, rfl⟩
  refine ⟨⟨hinside, (hnone 1).1 hinside⟩,
    ⟨hposition 9 _ _ rfl (by decide +kernel), by decide +kernel⟩,
    ⟨hposition 99 _ [] (by simp [text]) (by decide +kernel), by decide +kernel⟩, by decide +kernel,
    ⟨(hlines 5).2 (by decide +kernel), fun h6 => absurd ((hlines 6).1 h6) (by decide +kernel)⟩,
    (hline 2 _).2 ⟨"\r\r".toList, by decide +kernel, by simp, by decide +kernel⟩, ?_⟩
  intro heq
  exact absurd (hidentify 4 9 h4 h9 heq) (by decide)

end LineMap

end Covenant
