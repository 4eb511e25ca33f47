import Covenant.Proofs.Coordinates
import Covenant.Report.Layout

/-!
# Snippets and reports

A snippet shows a line of a text, and below it carets under a span of the line. The two lines are
laid out apart from each other: the first is the number of the line, a bar and the text, and the
second counts columns. They belong together all the same. Whatever the number of the line and
wherever the characters of several bytes stand, the characters over the carets are those of the
span. A report has a snippet of what it is about and names its line and column, in every style and
also for a span that goes on over the end of its line.

## Main definitions

* `LineMap.Holds`: a span lies inside the text of the line on which it starts.
* `Report.gutter`, `Report.Shows`: the form of a snippet.
* `Report.rows`, `Report.Underlines`: what a report shows of a text.

## Main statements

* `LineMap.exists_column`: the characters of a line before a position.
* `Report.exists_underlined`: the characters over the carets.
* `Report.snippet_underlines_span`: the carets stand under the span.
* `Report.exists_layout?`: there is a report about every piece of a text, which underlines it.
-/

namespace Covenant

/-! ## Places on a line -/

namespace LineMap

/-- A span ends inside the text of the line on which it starts. Carriage returns at the end of a
line are no part of that text. -/
def Holds (m : LineMap) (span : Span) : Prop :=
  ∃ p range line, m.position? span.start = some p ∧ m.lineRange? p.line = some range ∧
    m.line? p.line = some line ∧ span.stop ≤ range.start + Text.bytes line

/-- A search for a line gives its number and its start. -/
theorem getElem?_lineAt (offset line start : Nat) (later : List Nat) :
    (start :: later)[(lineAt offset line start later).1 - line]? = some
      (lineAt offset line start later).2 := by
  induction later generalizing line start with
  | nil =>
      rw [lineAt, Nat.sub_self]
      rfl
  | cons next later ih =>
      rw [lineAt]
      split
      · have hle := le_lineAt offset (line + 1) next later
        have hsucc : (lineAt offset (line + 1) next later).1 - line =
            (lineAt offset (line + 1) next later).1 - (line + 1) + 1 := by omega
        rw [hsucc, List.getElem?_cons_succ]
        exact ih (line + 1) next
      · rw [Nat.sub_self]
        rfl

/-- The range of a line starts where the line does. -/
theorem getElem?_starts_of_lineRange? {m : LineMap} {n : Nat} {range : Span}
    (h : m.lineRange? n = some range) :
    m.starts[n - 1]? = some range.start := by
  cases n with
  | zero => cases h
  | succ n =>
      obtain ⟨start, hstart, hrange⟩ := Option.bind_eq_some_iff.1 h
      rw [Nat.add_sub_cancel, hstart]
      cases hnext : m.starts[n + 1]? with
      | none =>
          rw [hnext] at hrange
          rw [← Option.some.inj hrange]
      | some next =>
          rw [hnext] at hrange
          rw [← Option.some.inj hrange]

/-- The column of a position counts the characters from the start of its line. -/
theorem exists_column {source : String} {offset : Nat} {p : Position} {range : Span}
    (hp : (ofString source).position? offset = some p)
    (hrange : (ofString source).lineRange? p.line = some range) :
    ∃ before current after, source.toList = before ++ (current ++ after) ∧
      Text.bytes before = range.start ∧
      Text.bytes before + Text.bytes current = min offset (Text.bytes source.toList) ∧
      p.column = current.length + 1 := by
  obtain ⟨current, hslice, rfl⟩ := position?_eq_some_iff.1 hp
  obtain ⟨before, after, hcovers⟩ := Span.exists_covers_of_slice? ⟨_, _⟩ hslice
  have hsearch :=
    getElem?_lineAt (min offset (Text.bytes (ofString source).text)) 1 0
      (ofString source).laterStarts
  have hstart := Option.some.inj (hsearch.symm.trans (getElem?_starts_of_lineRange? hrange))
  refine ⟨before, current, after, hcovers.text_eq, ?_, hcovers.stop_eq.symm, rfl⟩
  rw [← hstart]
  exact hcovers.start_eq.symm

theorem exists_append_of_line? {m : LineMap} {n : Nat} {range : Span} {line : List Char}
    (hrange : m.lineRange? n = some range) (hline : m.line? n = some line) :
    ∃ before after, m.text = before ++ (line ++ after) ∧ Text.bytes before = range.start := by
  simp only [line?, hrange, Option.bind_eq_bind, Option.bind_some, Option.bind_eq_some_iff] at hline
  obtain ⟨piece, hslice, hpiece⟩ := hline
  obtain ⟨returns, rfl, -⟩ := Text.dropEndWhile_eq_iff.1 (Option.some.inj hpiece)
  obtain ⟨before, after, hcovers⟩ := Span.exists_covers_of_slice? range hslice
  exact ⟨before, returns ++ after, by rw [hcovers.text_eq, List.append_assoc],
    hcovers.start_eq.symm⟩

theorem newline_not_mem_of_line? {source : String} {n : Nat} {line : List Char}
    (h : (ofString source).line? n = some line) : '\n' ∉ line := by
  cases n with
  | zero => simp [line?, lineRange?] at h
  | succ n =>
      obtain ⟨returns, hpiece, -⟩ := line?_succ_eq_some_iff.1 h
      intro hmem
      exact (Text.mem_of_mem_splitOn (List.mem_of_getElem? hpiece)
        (List.mem_append_left returns hmem)).2 rfl

/-- On the line of a span that the line holds, the piece that the span covers stands after the
characters before its column. -/
theorem Holds.exists_append {source : String} {span : Span} {before piece after : List Char}
    (hcovers : span.Covers source.toList before piece after) (h : (ofString source).Holds span) :
    ∃ p line current rest, (ofString source).position? span.start = some p ∧
      (ofString source).line? p.line = some line ∧ line = current ++ (piece ++ rest) ∧
      p.column = current.length + 1 := by
  obtain ⟨p, range, line, hp, hrange, hline, hle⟩ := h
  obtain ⟨passed, current, more, htext, hpassed, hcurrent, hcolumn⟩ := exists_column hp hrange
  obtain ⟨passed', more', htext', hpassed'⟩ := exists_append_of_line? hrange hline
  -- what stands before the span is whole lines and the characters before its column
  have hbefore : Text.bytes (passed ++ current) = Text.bytes before := by
    have hstart := hcovers.start_le_stop
    have hstop := hcovers.stop_le_bytes
    rw [Text.bytes_append, ← hcovers.start_eq]
    omega
  have hsplit : (passed ++ current) ++ more = before ++ (piece ++ after) := by
    rw [List.append_assoc, ← htext, hcovers.text_eq]
  obtain ⟨rfl, rfl⟩ := Text.append_inj_of_bytes hsplit hbefore
  -- the text of the line starts where these characters start, and ends after the span
  obtain ⟨-, hrest⟩ :=
    Text.append_inj_of_bytes (htext'.symm.trans htext) (hpassed'.trans hpassed.symm)
  have hshort : Text.bytes (current ++ piece) ≤ Text.bytes line := by
    have hstop := hcovers.stop_eq
    rw [Text.bytes_append] at hstop ⊢
    omega
  obtain ⟨rest, rfl⟩ :=
    Text.exists_append_of_bytes_le ((List.append_assoc _ _ _).trans hrest.symm) hshort
  exact ⟨p, _, current, rest, hp, hline, List.append_assoc _ _ _, hcolumn⟩

end LineMap

/-! ## The two lines -/

namespace Report

/-- What stands before the text of a line. -/
def gutter (line : Nat) : List Char := (toString line).toList ++ [' ', '|', ' ']

/-- A snippet has two lines: the text of the line on which a span starts, after a gutter, and
spaces with carets after them. -/
structure Shows (style : Style) (source : String) (span : Span) (p : Position)
    (line carets : List Char) : Prop where
  position : (LineMap.ofString source).position? span.start = some p
  text : (LineMap.ofString source).line? p.line = some line
  snippet : snippet? style (.ofString source) span =
    some (String.ofList (gutter p.line ++ line ++ '\n' :: carets))
  single : '\n' ∉ gutter p.line ++ line
  carets : ∃ pad count, carets = List.replicate pad ' ' ++ List.replicate count '^'

theorem newline_not_mem_gutter (line : Nat) : '\n' ∉ gutter line := by
  intro hmem
  rcases List.mem_append.1 hmem with hmem | hmem
  · have hdigits : '\n' ∈ Nat.toDigits 10 line := by
      rw [← Nat.toList_repr]
      exact hmem
    exact absurd (Nat.isDigit_of_mem_toDigits (by decide) (by decide) hdigits) (by decide)
  · exact absurd hmem (by decide)

theorem length_gutter (line : Nat) : (gutter line).length = (toString line).length + 3 := by
  rw [gutter, List.length_append, String.length_toList]
  rfl

/-- A text in a colour: between two terminal escapes, or alone if there are no colours. -/
def painted (style : Style) (code : String) (text : List Char) : List Char :=
  if style.color then "\x1b[".toList ++ code.toList ++ 'm' :: text ++ "\x1b[0m".toList else text

theorem painted_of_plain {style : Style} (h : style.color = false) (code : String)
    (text : List Char) : painted style code text = text := by
  rw [painted, h]
  rfl

theorem toList_escape_append (style : Style) (code text : String) :
    (style.escape code ++ text ++ style.reset).toList = painted style code text.toList := by
  by_cases h : style.color <;> simp [painted, Style.reset, Style.escape, h]

/-- The line of a text after its number and a bar. -/
theorem toList_sourceLine (style : Style) (number : Nat) (text : List Char) :
    (sourceLine style number text).toList =
      painted style "36" ((toString number).toList ++ [' ', '|']) ++ ' ' :: text := by
  have hnumber : sourceLine style number text =
      style.escape "36" ++ (toString number ++ " |") ++ style.reset ++
        (" " ++ String.ofList text) := by
    simp [sourceLine, Style.cyan, String.append_assoc]
  rw [hnumber, String.toList_append, toList_escape_append]
  simp

/-- The carets of a region after spaces for the gutter and for the columns before the region. -/
theorem toList_caretLine (style : Style) (region : Region) :
    (caretLine style region).toList =
      List.replicate ((gutter region.first.line).length + region.first.column - 1) ' ' ++
        painted style "31" (List.replicate (caretCount region) '^') := by
  have hcarets : caretLine style region =
      repeated ' ' ((gutter region.first.line).length + region.first.column - 1) ++
        (style.escape "31" ++ repeated '^' (caretCount region) ++ style.reset) := by
    simp only [caretLine, length_gutter, Style.red, String.append_assoc]
  rw [hcarets, String.toList_append, toList_escape_append, repeated, repeated, String.toList_ofList,
    String.toList_ofList]

/-- Under a piece of a line there are as many carets as characters, under an empty piece and under a
piece that goes on over the end of its line there is one. -/
theorem caretCount_endOf (before piece : List Char) :
    caretCount ⟨.endOf before, .endOf (before ++ piece)⟩ =
      if '\n' ∈ piece then 1 else max piece.length 1 := by
  by_cases hnewline : '\n' ∈ piece
  · have hlines : (Position.endOf before).line ≠ (Position.endOf (before ++ piece)).line := by
      have hcount := List.count_pos_iff.2 hnewline
      simp only [Position.endOf, List.count_append]
      omega
    rw [caretCount, if_neg hlines, if_pos hnewline]
  · rw [Position.endOf_append_of_not_mem before hnewline, caretCount, if_pos rfl,
      if_neg hnewline, Nat.add_sub_cancel_left]

/-- Carets stand in the columns after the spaces. -/
theorem idxsOf_caret (pad count start : Nat) :
    (List.replicate pad ' ' ++ List.replicate count '^').idxsOf '^' start =
      List.range' (start + pad) count := by
  induction pad generalizing start with
  | zero =>
      rw [List.replicate_zero, List.nil_append, Nat.add_zero]
      induction count generalizing start with
      | zero => rfl
      | succ count ih =>
          rw [List.replicate_succ, List.idxsOf_cons, if_pos (beq_self_eq_true _), ih,
            List.range'_succ]
  | succ pad ih =>
      rw [List.replicate_succ, List.cons_append, List.idxsOf_cons, if_neg (by decide), ih,
        Nat.add_right_comm, Nat.add_assoc]

/-- The characters in the columns of a piece of a line are those of the piece. -/
theorem map_getElem?_range' (before piece after : List Char) :
    (List.range' before.length piece.length).map ((before ++ (piece ++ after))[·]?) =
      piece.map some := by
  induction piece generalizing before with
  | nil => rfl
  | cons c piece ih =>
      have hrest := ih (before ++ [c])
      rw [List.length_append, List.length_singleton, List.append_assoc,
        List.singleton_append] at hrest
      rw [List.length_cons, List.range'_succ, List.map_cons, List.map_cons, List.cons_append, hrest]
      simp

theorem snippet?_of_locate? (style : Style) {source : String} {span : Span} {region : Region}
    {line : List Char} (hregion : (LineMap.ofString source).locate? span = some region)
    (hline : (LineMap.ofString source).line? region.first.line = some line) :
    snippet? style (.ofString source) span =
      some (sourceLine style region.first.line line ++ "\n" ++ caretLine style region) := by
  simp only [snippet?, hregion, Option.bind_eq_bind, Option.bind_some, hline]
  rfl

/-- A snippet shows the line and the carets under the region. -/
theorem shows_of_locate? {style : Style} (hplain : style.color = false) {source : String}
    {span : Span} {region : Region} {line : List Char}
    (hregion : (LineMap.ofString source).locate? span = some region)
    (hline : (LineMap.ofString source).line? region.first.line = some line) :
    Shows style source span region.first line
      (List.replicate ((gutter region.first.line).length + region.first.column - 1) ' ' ++
        List.replicate (caretCount region) '^') := by
  refine ⟨?_, hline, ?_, ?_, _, _, rfl⟩
  · obtain ⟨first, hfirst, hrest⟩ := Option.bind_eq_some_iff.1 hregion
    obtain ⟨last, -, hboth⟩ := Option.bind_eq_some_iff.1 hrest
    rw [hfirst, ← Option.some.inj hboth]
  · rw [snippet?_of_locate? style hregion hline, Option.some.injEq, ← String.toList_inj,
      String.toList_ofList, String.toList_append, String.toList_append, toList_sourceLine,
      toList_caretLine, painted_of_plain hplain, painted_of_plain hplain]
    simp [gutter]
  · intro hmem
    rcases List.mem_append.1 hmem with hmem | hmem
    · exact newline_not_mem_gutter _ hmem
    · exact LineMap.newline_not_mem_of_line? hline hmem

/-- If a line holds a span, the characters over the carets are those of the piece that the span
covers. -/
theorem exists_underlined {style : Style} (hplain : style.color = false) {source : String}
    {span : Span} {before piece after : List Char}
    (hcovers : span.Covers source.toList before piece after) (hne : piece ≠ [])
    (hholds : (LineMap.ofString source).Holds span) :
    ∃ p line carets, Shows style source span p line carets ∧
      (carets.idxsOf '^').map ((gutter p.line ++ line)[·]?) = piece.map some := by
  obtain ⟨p, line, current, rest, hp, hline, rfl, hcolumn⟩ := hholds.exists_append hcovers
  have hregion := LineMap.locate?_of_covers hcovers
  obtain rfl : Position.endOf before = p := by
    rw [hcovers.start_eq, LineMap.position?_bytes hcovers.text_eq] at hp
    exact Option.some.inj hp
  have hnewline : '\n' ∉ piece := by
    intro hmem
    exact LineMap.newline_not_mem_of_line? hline (by simp [hmem])
  have hlength := List.length_pos_iff.2 hne
  have hcount : caretCount ⟨.endOf before, .endOf (before ++ piece)⟩ = piece.length := by
    rw [caretCount_endOf, if_neg hnewline]
    omega
  have hpad :
      0 + ((gutter (Position.endOf before).line).length + (Position.endOf before).column - 1) =
      (gutter (Position.endOf before).line ++ current).length := by
    rw [List.length_append, hcolumn]
    omega
  refine ⟨_, _, _, shows_of_locate? hplain hregion hline, ?_⟩
  rw [idxsOf_caret, hcount, hpad, ← List.append_assoc]
  exact map_getElem?_range' _ piece rest

/-- At a place between two characters there is one caret, in the column of the place. -/
theorem exists_single_caret {style : Style} (hplain : style.color = false) {source : String}
    {span : Span} {before after : List Char} (hcovers : span.Covers source.toList before [] after) :
    ∃ p line carets, Shows style source span p line carets ∧
      carets.idxsOf '^' = [(gutter p.line).length + (p.column - 1)] := by
  have hregion := LineMap.locate?_of_covers hcovers
  obtain ⟨line, hline⟩ := LineMap.exists_line?_of_count hcovers.text_eq
  rw [Nat.add_comm] at hline
  have hcount : caretCount ⟨.endOf before, .endOf (before ++ [])⟩ = 1 := caretCount_endOf before []
  have hpos : 1 ≤ (Position.endOf before).column := Nat.le_add_right 1 _
  refine ⟨_, line, _, shows_of_locate? hplain hregion hline, ?_⟩
  rw [idxsOf_caret, hcount, Nat.zero_add, Nat.add_sub_assoc hpos]
  rfl

/-- Carets stand under the span. There are two lines, the second of spaces and then carets. If a
line holds the span, the characters over the carets are those of the span, in order. At an empty
span there is one caret, in its column. -/
theorem snippet_underlines_span (style : Style) (hplain : style.color = false) (source : String)
    (span : Span) (hstart : Text.IsBoundary source.toList span.start)
    (hstop : Text.IsBoundary source.toList span.stop) :
    (span.start < span.stop → (LineMap.ofString source).Holds span →
      ∃ p line carets piece, Shows style source span p line carets ∧
        Text.slice? span.start span.stop source.toList = some piece ∧
        (carets.idxsOf '^').map ((gutter p.line ++ line)[·]?) = piece.map some) ∧
    (span.start = span.stop →
      ∃ p line carets, Shows style source span p line carets ∧
        carets.idxsOf '^' = [(gutter p.line).length + (p.column - 1)]) := by
  constructor
  · intro hlt hholds
    obtain ⟨before, piece, after, hcovers⟩ :=
      Span.exists_covers_of_isBoundary hstart hstop (Nat.le_of_lt hlt)
    have hne : piece ≠ [] := by
      intro hnil
      have hbytes := hcovers.stop_eq
      rw [hnil, ← hcovers.start_eq] at hbytes
      exact Nat.ne_of_gt hlt hbytes
    obtain ⟨p, line, carets, hshows, hunderlined⟩ := exists_underlined hplain hcovers hne hholds
    exact ⟨p, line, carets, piece, hshows, hcovers.slice?_eq_some, hunderlined⟩
  · intro heq
    obtain ⟨before, after, htext, hbefore⟩ := hstart
    exact exists_single_caret hplain ⟨htext, hbefore.symm, by rw [← heq, hbefore]; rfl⟩

/-- The tenth line of a text, whose number has two digits. There are characters of several bytes
before and inside the span, and the line ends with a carriage return, after which there is a place
for one caret. -/
theorem snippet_underlines_span_sample :
    let source := "\n\n\n\n\n\n\n\n\né [𝄞é] \r\n"
    let style : Style := ⟨false, none⟩
    snippet? style (.ofString source) ⟨12, 20⟩ = some "10 | é [𝄞é] \n       ^^^^" ∧
      (∃ p line carets, Shows style source ⟨12, 20⟩ p line carets ∧
        (carets.idxsOf '^').map ((gutter p.line ++ line)[·]?) = "[𝄞é]".toList.map some) ∧
      ∃ line carets, Shows style source ⟨22, 22⟩ ⟨10, 9⟩ line carets ∧
        carets.idxsOf '^' = [13] := by
  intro source style
  have h12 : Text.IsBoundary source.toList 12 :=
    ⟨"\n\n\n\n\n\n\n\n\né ".toList, "[𝄞é] \r\n".toList, by decide +kernel, by decide +kernel⟩
  have h20 : Text.IsBoundary source.toList 20 :=
    ⟨"\n\n\n\n\n\n\n\n\né [𝄞é]".toList, " \r\n".toList, by decide +kernel, by decide +kernel⟩
  have h22 : Text.IsBoundary source.toList 22 :=
    ⟨"\n\n\n\n\n\n\n\n\né [𝄞é] \r".toList, "\n".toList, by decide +kernel, by decide +kernel⟩
  have hholds : (LineMap.ofString source).Holds ⟨12, 20⟩ :=
    ⟨⟨10, 3⟩, ⟨9, 22⟩,
      "é [𝄞é] ".toList, by decide +kernel, by decide +kernel, by decide +kernel, by decide +kernel⟩
  have hslice : Text.slice? 12 20 source.toList = some "[𝄞é]".toList := by decide +kernel
  have hposition : (LineMap.ofString source).position? 22 = some ⟨10, 9⟩ := by decide +kernel
  refine ⟨by decide +kernel, ?_, ?_⟩
  · obtain ⟨p, line, carets, piece, hshows, hpiece, hunderlined⟩ :=
      (snippet_underlines_span style rfl source ⟨12, 20⟩ h12 h20).1 (by decide) hholds
    rw [Option.some.inj (hpiece.symm.trans hslice)] at hunderlined
    exact ⟨p, line, carets, hshows, hunderlined⟩
  · obtain ⟨p, line, carets, hshows, hcaret⟩ :=
      (snippet_underlines_span style rfl source ⟨22, 22⟩ h22 h22).2 rfl
    obtain rfl : p = ⟨10, 9⟩ := Option.some.inj (hshows.position.symm.trans hposition)
    exact ⟨line, carets, hshows, hcaret⟩

/-! ## Reports -/

/-- What a report shows of a text, for a piece of it that stands after the characters `current` of
its line. The line and the column of the piece come first, then the line after its number and a
bar. Below the line there are spaces up to the piece and then carets, one for each character, or a
single one if the piece is empty or goes on over the end of the line. -/
def rows (style : Style) (number : Nat) (current piece line : List Char) : List Char :=
  let label := (style.label.getD "<signature>").toList
  let column := (toString (current.length + 1)).toList
  let count := if '\n' ∈ piece then 1 else max piece.length 1
  painted style "1" (label ++ ':' :: (toString number).toList ++ ':' :: column) ++ "\n\n".toList ++
    painted style "36" ((toString number).toList ++ " |".toList) ++ ' ' :: line ++ '\n' ::
    List.replicate (gutter number ++ current).length ' ' ++
    painted style "31" (List.replicate count '^')

/-- A report underlines the piece of a text that a span covers. Lines are what stands between
newlines, without the carriage returns at their ends, and the line of the piece is the one on
which the piece starts. -/
inductive Underlines (style : Style) (source : String) (span : Span) (report : String) : Prop
  | intro {passed current piece after line returns : List Char} {head tail : String}
      (hcovers : span.Covers source.toList (passed ++ current) piece after)
      (hpassed : ∀ c ∈ passed.getLast?, c = '\n') (hcurrent : '\n' ∉ current)
      (hline : (source.toList.splitOn '\n')[passed.count '\n']? = some (line ++ returns))
      (hreturns : ∀ c ∈ returns, c = '\r') (hlast : line.getLast? ≠ some '\r')
      (hreport : report = head ++ "\n\n" ++
        String.ofList (rows style (passed.count '\n' + 1) current piece line) ++ "\n\n" ++ tail)

/-- Characters inside a line add no lines. -/
theorem count_newline_append {passed current : List Char} (hcurrent : '\n' ∉ current) :
    (passed ++ current).count '\n' = passed.count '\n' := by
  rw [List.count_append, List.count_eq_zero_of_not_mem hcurrent, Nat.add_zero]

theorem location?_of_position? (style : Style) {lines : LineMap} {span : Span} {p : Position}
    (h : lines.position? span.start = some p) :
    ∃ location, location? style lines span = some location ∧
      location.toList = painted style "1" ((style.label.getD "<signature>").toList ++
        ':' :: (toString p.line).toList ++ ':' :: (toString p.column).toList) := by
  have hlocation : location? style lines span =
      some (style.escape "1" ++ (style.label.getD "<signature>" ++ ":" ++ p.render) ++
        style.reset) := by
    simp only [location?, h, Style.bold, String.append_assoc]
    rfl
  have hrender : p.render = toString p.line ++ ":" ++ toString p.column := rfl
  refine ⟨_, hlocation, ?_⟩
  rw [toList_escape_append, hrender]
  simp

/-- The position and the snippet of a piece are its rows. -/
theorem exists_rows {source : String} {span : Span} {passed current piece after line : List Char}
    (h : span.Covers source.toList (passed ++ current) piece after)
    (hpassed : ∀ c ∈ passed.getLast?, c = '\n') (hcurrent : '\n' ∉ current)
    (hline : (LineMap.ofString source).line? (passed.count '\n' + 1) = some line) (style : Style) :
    ∃ location snippet, location? style (.ofString source) span = some location ∧
      snippet? style (.ofString source) span = some snippet ∧
      location ++ "\n\n" ++ snippet =
        String.ofList (rows style (passed.count '\n' + 1) current piece line) := by
  have hstart : Position.endOf (passed ++ current) =
      ⟨passed.count '\n' + 1, current.length + 1⟩ := by
    rw [Position.endOf_append hpassed hcurrent, count_newline_append hcurrent, Nat.add_comm,
      Nat.add_comm 1]
  have hposition : (LineMap.ofString source).position? span.start =
      some ⟨passed.count '\n' + 1, current.length + 1⟩ := by
    rw [h.start_eq, ← hstart]
    exact LineMap.position?_bytes h.text_eq
  have hregion := LineMap.locate?_of_covers h
  have hcarets := caretCount_endOf (passed ++ current) piece
  rw [hstart] at hregion hcarets
  -- the last column before the piece is that of the last of the characters `current`
  have hpad : (gutter (passed.count '\n' + 1)).length + (current.length + 1) - 1 =
      (gutter (passed.count '\n' + 1) ++ current).length := by
    rw [List.length_append]
    omega
  obtain ⟨location, hlocation, htext⟩ := location?_of_position? style hposition
  refine ⟨location, _, hlocation, snippet?_of_locate? style hregion hline, ?_⟩
  rw [← String.toList_inj, String.toList_ofList]
  simp only [String.toList_append, htext, toList_sourceLine, toList_caretLine, hcarets, hpad, rows]
  simp

/-- There is a report about every piece of a text, which underlines it. -/
theorem exists_layout? {source : String} {span : Span} {before piece after : List Char}
    (h : span.Covers source.toList before piece after) (style : Style)
    (kind message hint : String) :
    ∃ report, layout? style (.ofString source) span kind message hint = some report ∧
      Underlines style source span report := by
  obtain ⟨passed, current, rfl, hpassed, hcurrent, -⟩ := LineMap.position?_append h.text_eq
  obtain ⟨line, hline⟩ := LineMap.exists_line?_of_count h.text_eq
  rw [count_newline_append hcurrent] at hline
  obtain ⟨returns, hsplit, hreturns, hlast⟩ := LineMap.line?_succ_eq_some_iff.1 hline
  obtain ⟨location, snippet, hlocation, hsnippet, hrows⟩ :=
    exists_rows h hpassed hcurrent hline style
  have hlayout : layout? style (.ofString source) span kind message hint =
      some (header style kind ++ "\n\n" ++ (location ++ "\n\n" ++ snippet) ++ "\n\n" ++
        (message ++ hint ++ "\n")) := by
    simp only [layout?, hlocation, hsnippet, String.append_assoc]
    rfl
  rw [hrows] at hlayout
  exact ⟨_, hlayout, .intro h hpassed hcurrent hsplit hreturns hlast rfl⟩

end Report

end Covenant
