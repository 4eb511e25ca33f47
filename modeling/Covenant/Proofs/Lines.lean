import Covenant.Proofs.Slices
import Covenant.Source.LineMap

/-!
# Lines of a text

A line map keeps offsets only. Its lines are the pieces between the newlines of the text, and an
offset between two characters is on the line that as many newlines precede. So there is a position
for every such offset, and there is a line for every position.
-/

namespace Covenant

theorem Text.length_splitOn (a : Char) (text : List Char) :
    (text.splitOn a).length = text.count a + 1 := by
  induction text with
  | nil => rfl
  | cons c cs ih =>
      rw [List.splitOn_cons_eq_if_modifyHead, List.count_cons]
      by_cases hc : (c == a) = true
      · rw [if_pos hc, if_pos hc, List.length_cons, ih]
      · rw [if_neg hc, if_neg hc, List.length_modifyHead, ih]

namespace LineMap

/-! ## Lines -/

/-- The offsets at which pieces start, with one byte between each and the next. -/
def pieceStarts (pos : Nat) : List (List Char) → List Nat
  | [] => []
  | piece :: pieces => pos :: pieceStarts (pos + Text.bytes piece + 1) pieces

/-- Lines start where the pieces between newlines do. -/
theorem cons_startsAfter (pos : Nat) (text : List Char) :
    pos :: startsAfter pos text = pieceStarts pos (text.splitOn '\n') := by
  induction text generalizing pos with
  | nil => rfl
  | cons c cs ih =>
      rw [List.splitOn_cons_eq_if_modifyHead, startsAfter]
      by_cases hc : c = '\n'
      · have hsize : c.utf8Size = 1 := by
          subst hc
          rfl
        rw [if_pos hc, if_pos (by simpa using hc), pieceStarts, hsize, ih]
        rfl
      · rw [if_neg hc, if_neg (by simpa using hc)]
        obtain ⟨first, more, hsplit⟩ := List.exists_cons_of_ne_nil (List.splitOn_ne_nil '\n' cs)
        have htail := ih (pos + c.utf8Size)
        rw [hsplit, pieceStarts] at htail
        rw [hsplit, List.modifyHead_cons, pieceStarts, (List.cons.inj htail).2, Text.bytes_cons]
        simp only [Nat.add_assoc]

theorem length_pieceStarts (pos : Nat) (pieces : List (List Char)) :
    (pieceStarts pos pieces).length = pieces.length := by
  induction pieces generalizing pos with
  | nil => rfl
  | cons piece pieces ih => rw [pieceStarts, List.length_cons, List.length_cons, ih]

/-- A piece stands at its offset, and the next one, if there is one, after one byte more. -/
theorem exists_pieceStarts {pieces : List (List Char)} {n : Nat} {piece : List Char}
    (h : pieces[n]? = some piece) (pos : Nat) :
    ∃ before after, ['\n'].intercalate pieces = before ++ (piece ++ after) ∧
      (pieceStarts pos pieces)[n]? = some (pos + Text.bytes before) ∧
      ((pieceStarts pos pieces)[n + 1]? = none ∧ after = [] ∨
        (pieceStarts pos pieces)[n + 1]? =
          some (pos + Text.bytes before + Text.bytes piece + 1)) := by
  induction pieces generalizing n pos with
  | nil => simp at h
  | cons first more ih =>
      cases n with
      | zero =>
          obtain rfl : first = piece := by simpa using h
          cases more with
          | nil => exact ⟨[], [], by simp, rfl, .inl ⟨rfl, rfl⟩⟩
          | cons next more =>
              exact ⟨[],
                '\n' :: ['\n'].intercalate (next :: more), by simp [List.intercalate_cons_cons],
                rfl, .inr rfl⟩
      | succ n =>
          cases more with
          | nil => simp at h
          | cons next more =>
              obtain ⟨before, after, htext, hstart, hnext⟩ :=
                ih (by simpa using h) (pos + Text.bytes first + 1)
              have hbytes : pos + Text.bytes (first ++ '\n' :: before) =
                  pos + Text.bytes first + 1 + Text.bytes before := by
                have hsize : '\n'.utf8Size = 1 := rfl
                simp only [Text.bytes_append, Text.bytes_cons, hsize]
                omega
              refine ⟨first ++ '\n' :: before, after, ?_, ?_, ?_⟩
              · rw [List.intercalate_cons_cons, htext]
                simp
              · rw [hbytes]
                exact hstart
              · rw [hbytes]
                exact hnext

/-- The lines of a text are the pieces between its newlines, without carriage returns at their
ends. -/
theorem line?_succ (source : String) (n : Nat) :
    (ofString source).line? (n + 1) =
      (source.toList.splitOn '\n')[n]?.map (Text.dropEndWhile (· == '\r')) := by
  have hstarts : (ofString source).starts = pieceStarts 0 (source.toList.splitOn '\n') :=
    cons_startsAfter 0 source.toList
  cases hpiece : (source.toList.splitOn '\n')[n]? with
  | none =>
      have hnone : (ofString source).starts[n]? = none := by
        rw [hstarts, List.getElem?_eq_none_iff, length_pieceStarts]
        exact List.getElem?_eq_none_iff.1 hpiece
      simp [line?, lineRange?, hnone]
  | some piece =>
      obtain ⟨before, after, htext, hstart, hnext⟩ := exists_pieceStarts hpiece 0
      rw [List.intercalate_splitOn] at htext
      rw [← hstarts, Nat.zero_add] at hstart hnext
      have hrange : (ofString source).lineRange? (n + 1) =
          some ⟨Text.bytes before, Text.bytes before + Text.bytes piece⟩ := by
        rw [lineRange?, hstart]
        rcases hnext with ⟨hnone, rfl⟩ | hsome
        · have hend : Text.bytes (ofString source).text = Text.bytes before + Text.bytes piece := by
            change Text.bytes source.toList = _
            simp [htext]
          simp [hnone, hend]
        · simp [hsome]
      have hcovers : (⟨Text.bytes before, Text.bytes before + Text.bytes piece⟩ : Span).Covers
          (ofString source).text before piece after := ⟨htext, rfl, rfl⟩
      simp [line?, hrange, hcovers.slice?_eq_some]

/-! ## Positions -/

theorem lt_of_mem_startsAfter {pos x : Nat} {text : List Char}
    (h : x ∈ startsAfter pos text) : pos < x := by
  induction text generalizing pos with
  | nil => simp [startsAfter] at h
  | cons c cs ih =>
      have hsize := c.utf8Size_pos
      rw [startsAfter] at h
      split at h
      · rcases List.mem_cons.1 h with rfl | h
        · omega
        · have := ih h
          omega
      · have := ih h
        omega

/-- The search for the line of an offset. It has passed whole lines `passed` and the start
`current` of the line after them, and goes on over `text` up to the offset. -/
theorem lineAt_startsAfter {passed current : List Char} (hpassed : ∀ c ∈ passed.getLast?, c = '\n')
    (hcurrent : '\n' ∉ current) (text after : List Char) (line : Nat) {offset start pos : Nat}
    (hstart : start = Text.bytes passed) (hpos : pos = Text.bytes passed + Text.bytes current)
    (hoffset : offset = pos + Text.bytes text) :
    ∃ passed' current', passed ++ (current ++ text) = passed' ++ current' ∧
      (∀ c ∈ passed'.getLast?, c = '\n') ∧ '\n' ∉ current' ∧
      lineAt offset line start (startsAfter pos (text ++ after)) =
        (line + text.count '\n', Text.bytes passed') := by
  induction text generalizing passed current line start pos with
  | nil =>
      refine ⟨passed, current, by simp, hpassed, hcurrent, ?_⟩
      rw [List.nil_append, hstart]
      cases hlater : startsAfter pos after with
      | nil => rfl
      | cons next later =>
          have hmem : next ∈ startsAfter pos after := by simp [hlater]
          have hlt := lt_of_mem_startsAfter hmem
          rw [Text.bytes_nil] at hoffset
          rw [lineAt, if_neg (by omega)]
          rfl
  | cons c cs ih =>
      rw [Text.bytes_cons] at hoffset
      rw [List.cons_append, startsAfter]
      by_cases hc : c = '\n'
      · -- the line ends here, and the next one has just started
        have hwhole : ∀ d ∈ (passed ++ (current ++ [c])).getLast?, d = '\n' := by simp [hc]
        have hnext : pos + c.utf8Size = Text.bytes (passed ++ (current ++ [c])) := by
          simp only [hpos, Text.bytes_append, Text.bytes_cons, Text.bytes_nil]
          omega
        obtain ⟨passed', current', happend, hpassed', hcurrent', hlineAt⟩ :=
          ih hwhole List.not_mem_nil (line + 1) hnext hnext (by omega)
        refine ⟨passed', current', ?_, hpassed', hcurrent', ?_⟩
        · rw [← happend]
          simp
        · have hcount : (c :: cs).count '\n' = 1 + cs.count '\n' := by simp [hc, Nat.add_comm]
          rw [if_pos hc, lineAt, if_pos (by omega), hlineAt, hcount, Nat.add_assoc]
      · have hgrown : '\n' ∉ current ++ [c] := by simp [hcurrent, Ne.symm hc]
        have hnext : pos + c.utf8Size = Text.bytes passed + Text.bytes (current ++ [c]) := by
          simp only [hpos, Text.bytes_append, Text.bytes_cons, Text.bytes_nil]
          omega
        obtain ⟨passed', current', happend, hpassed', hcurrent', hlineAt⟩ :=
          ih hpassed hgrown line hstart hnext (by omega)
        refine ⟨passed', current', ?_, hpassed', hcurrent', ?_⟩
        · rw [← happend]
          simp
        · rw [if_neg hc, hlineAt, List.count_cons_of_ne hc]

/-- The position of an offset between two characters: the line counts the newlines before it, and
the column the characters after the last of them. -/
theorem position?_append {source : String} {before after : List Char}
    (h : source.toList = before ++ after) :
    ∃ passed current, before = passed ++ current ∧ (∀ c ∈ passed.getLast?, c = '\n') ∧
      '\n' ∉ current ∧ (ofString source).position? (Text.bytes before) =
        some ⟨before.count '\n' + 1, current.length + 1⟩ := by
  have hnothing : ∀ c ∈ ([] : List Char).getLast?, c = '\n' := by simp
  have hempty : '\n' ∉ ([] : List Char) := List.not_mem_nil
  obtain ⟨passed, current, happend, hpassed, hcurrent, hlineAt⟩ :=
    lineAt_startsAfter hnothing hempty before after 1 rfl rfl (Nat.zero_add _).symm
  refine ⟨passed, current, happend, hpassed, hcurrent, ?_⟩
  rw [List.nil_append, List.nil_append] at happend
  have hmin : min (Text.bytes before) (Text.bytes source.toList) = Text.bytes before := by
    rw [h, Text.bytes_append]
    omega
  have hcovers : (⟨Text.bytes passed, Text.bytes before⟩ : Span).Covers source.toList passed current
      after := ⟨by rw [h, happend, List.append_assoc], rfl, by rw [happend, Text.bytes_append]⟩
  rw [← h] at hlineAt
  change lineAt (Text.bytes before) 1 0 (startsAfter 0 source.toList) = _ at hlineAt
  simp only [position?, ofString, hmin, hlineAt, hcovers.slice?_eq_some]
  rw [Nat.add_comm]
  rfl

/-- A position of an offset between two characters is on a line of the text. -/
theorem exists_line?_of_count {source : String} {before after : List Char}
    (h : source.toList = before ++ after) :
    ∃ text, (ofString source).line? (before.count '\n' + 1) = some text := by
  have hlt : before.count '\n' < (source.toList.splitOn '\n').length := by
    rw [Text.length_splitOn, h, List.count_append]
    omega
  exact ⟨_, by rw [line?_succ, List.getElem?_eq_getElem hlt, Option.map_some]⟩

end LineMap

end Covenant
