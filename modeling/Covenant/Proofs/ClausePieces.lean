import Covenant.Proofs.ClauseGrammar
import Covenant.Proofs.Slices

/-!
# Clauses and the pieces that they are read from

A constraint block is cut at its commas, and each piece is read on its own. A piece is a clause if
it has two words, and is refused otherwise. Either way its place is that of the piece without its
blank ends, counted from the start of the block over all pieces before it and their commas. The
first character that a block may not hold is refused before any piece is looked at, and the first
piece that is no clause before all others.
-/

namespace Covenant

/-! ## Words -/

namespace Text

/-- The words of a text, in order: its longest pieces without blanks. -/
inductive HasWords : List Char → List (List Char) → Prop
  | blank {text : List Char} (h : ∀ c ∈ text, isBlank c = true) : HasWords text []
  | word {blanks word rest : List Char} {more : List (List Char)}
      (hblanks : ∀ c ∈ blanks, isBlank c = true)
      (hne : word ≠ []) (hword : ∀ c ∈ word, isBlank c = false)
      (hrest : ∀ c ∈ rest.head?, isBlank c = true)
      (hmore : HasWords rest more) : HasWords (blanks ++ (word ++ rest)) (word :: more)

theorem hasWords_iff {text : List Char} {found : List (List Char)} (start : Nat) :
    HasWords text found ↔ (words start text).map (·.item) = found := by
  constructor
  · intro h
    induction h generalizing start with
    | blank h => rw [words_eq_nil_iff.2 h, List.map_nil]
    | word hblanks hne hword hrest _ ih =>
        rw [words_append_of_blanks hblanks, words_append_of_word hne hword hrest, List.map_cons, ih]
  · intro h
    induction found generalizing start text with
    | nil => exact .blank (words_eq_nil_iff.1 (List.map_eq_nil_iff.1 h))
    | cons word more ih =>
        obtain ⟨first, others, hwords, rfl, hothers⟩ := List.map_eq_cons_iff.1 h
        obtain ⟨blanks, rest, rfl, hblanks, hne, hword, hrest, -, hmore⟩ :=
          exists_append_of_words hwords
        exact .word hblanks hne hword hrest (ih _ (by rw [hmore, hothers]))

/-- The place of a text, which starts at byte `start`, without its blank ends. A blank text keeps
its place. -/
def trimmedSpan (start : Nat) (text : List Char) : Span :=
  if text.all isBlank then ⟨start, start + bytes text⟩
  else ⟨start + bytes (text.takeWhile isBlank),
    start + bytes (text.takeWhile isBlank) + bytes (trim text)⟩

/-- A text without its blank ends stands from its first word to its last. -/
theorem trimmedSpan_eq_of_words {start : Nat} {text : List Char} {first last : Located (List Char)}
    (hfirst : (words start text).head? = some first)
    (hlast : (words start text).getLast? = some last) :
    trimmedSpan start text = ⟨first.span.start, last.span.stop⟩ := by
  obtain ⟨before, core, after, rfl, hbefore, hafter, hne, hhead, hend, hstart, hstop⟩ :=
    exists_core_of_words rfl hfirst hlast
  have hhead' : ∀ c ∈ (core ++ after).head?, isBlank c = false := by
    rw [List.head?_append_of_ne_nil core hne]
    exact hhead
  have hvisible : ¬(before ++ (core ++ after)).all isBlank = true := by
    intro hall
    obtain ⟨c, cs, rfl⟩ := List.exists_cons_of_ne_nil hne
    have hblank := List.all_eq_true.1 hall c (by simp)
    rw [hhead c rfl] at hblank
    cases hblank
  rw [trimmedSpan, if_neg hvisible, (takeWhile_append_of_head _ hbefore hhead').1,
    trim_append hbefore hafter hne hhead hend, hstart, hstop]

/-- A text that is not blank has a first and a last word. -/
theorem exists_ends_of_not_blank {text : List Char} (h : ¬∀ c ∈ text, isBlank c = true)
    (start : Nat) :
    ∃ first last, (words start text).head? = some first ∧
      (words start text).getLast? = some last := by
  have hne : words start text ≠ [] := fun hnil => h (words_eq_nil_iff.1 hnil)
  exact ⟨_, _, List.head?_eq_some_head hne, List.getLast?_eq_some_getLast hne⟩

/-- At the place without blank ends stands the text without blank ends. -/
theorem covers_trimmedSpan {text : List Char} (h : ¬∀ c ∈ text, isBlank c = true)
    (outside more : List Char) :
    ∃ before after, (trimmedSpan (bytes outside) text).Covers (outside ++ (text ++ more)) before
      (trim text) after := by
  obtain ⟨first, last, hfirst, hlast⟩ := exists_ends_of_not_blank h (bytes outside)
  obtain ⟨⟨before, after, hcovers⟩, -⟩ := covers_trim_of_words rfl hfirst hlast
  rw [trimmedSpan_eq_of_words hfirst hlast, ← List.append_assoc]
  exact ⟨before, _, hcovers.append_right more⟩

theorem trimmedSpan_of_blank {text : List Char} (h : ∀ c ∈ text, isBlank c = true) (start : Nat) :
    trimmedSpan start text = ⟨start, start + bytes text⟩ :=
  if_pos (List.all_eq_true.2 h)

/-- The place without blank ends is inside the place of the text. -/
theorem trimmedSpan_inside (start : Nat) (text : List Char) :
    start ≤ (trimmedSpan start text).start ∧
      (trimmedSpan start text).stop ≤ start + bytes text := by
  by_cases hblank : ∀ c ∈ text, isBlank c = true
  · rw [trimmedSpan_of_blank hblank]
    exact ⟨Nat.le_refl _, Nat.le_refl _⟩
  · obtain ⟨first, last, hfirst, hlast⟩ := exists_ends_of_not_blank hblank start
    rw [trimmedSpan_eq_of_words hfirst hlast]
    obtain ⟨before, core, after, rfl, -, -, -, -, -, hstart, hstop⟩ :=
      exists_core_of_words rfl hfirst hlast
    simp only [bytes_append]
    omega

end Text

/-! ## One piece -/

/-- A piece with two words is a clause. -/
def TwoWords (piece : List Char) : Prop :=
  ∃ className var, Text.HasWords piece [className, var]

/-- A clause has the two words of its piece, and its place without blank ends. -/
theorem readClause_of_hasWords {piece className var : List Char}
    (h : Text.HasWords piece [className, var]) (start : Nat) :
    readClause start piece =
      .ok ⟨⟨String.ofList className, String.ofList var⟩, Text.trimmedSpan start piece⟩ := by
  obtain ⟨first, others, hwords, rfl, hothers⟩ :=
    List.map_eq_cons_iff.1 ((Text.hasWords_iff start).1 h)
  obtain ⟨second, others, rfl, rfl, hnone⟩ := List.map_eq_cons_iff.1 hothers
  obtain rfl := List.map_eq_nil_iff.1 hnone
  have hspan : Text.trimmedSpan start piece = ⟨first.span.start, second.span.stop⟩ :=
    Text.trimmedSpan_eq_of_words (by rw [hwords]; rfl) (by rw [hwords]; rfl)
  rw [readClause, hwords, hspan]

/-- A piece that is no clause is refused without its blank ends. -/
theorem readClause_of_not_twoWords {piece : List Char} (h : ¬TwoWords piece) (start : Nat) :
    readClause start piece =
      .error ⟨.malformedConstraint (String.ofList (Text.trim piece)),
        Text.trimmedSpan start piece⟩ := by
  rw [readClause]
  split
  · next first second hwords =>
      exact absurd ⟨first.item, second.item, (Text.hasWords_iff start).2 (by rw [hwords]; rfl)⟩ h
  · by_cases hblank : ∀ c ∈ piece, Text.isBlank c = true
    · rw [Text.words_eq_nil_iff.2 hblank, Text.trimmedSpan_of_blank hblank]
      rfl
    · obtain ⟨first, last, hfirst, hlast⟩ := Text.exists_ends_of_not_blank hblank start
      rw [hfirst, hlast, Text.trimmedSpan_eq_of_words hfirst hlast]

theorem span_of_readClause {start : Nat} {piece : List Char} {x : Located Clause}
    (h : readClause start piece = .ok x) : x.span = Text.trimmedSpan start piece := by
  by_cases htwo : TwoWords piece
  · obtain ⟨className, var, hwords⟩ := htwo
    rw [readClause_of_hasWords hwords] at h
    rw [← Except.ok.inj h]
  · rw [readClause_of_not_twoWords htwo] at h
    cases h

/-! ## Pieces after others -/

/-- The bytes of pieces with a comma after each. -/
def bytesBefore (pieces : List (List Char)) : Nat :=
  Text.bytes (pieces.flatMap (· ++ [',']))

theorem bytesBefore_cons (piece : List Char) (pieces : List (List Char)) :
    bytesBefore (piece :: pieces) = Text.bytes piece + 1 + bytesBefore pieces := by
  rw [bytesBefore, List.flatMap_cons, Text.bytes_append, Text.bytes_append]
  rfl

/-- A piece of a block stands after the pieces before it, each with its comma. -/
theorem exists_append_of_pieces (earlier : List (List Char)) (piece : List Char)
    (later : List (List Char)) :
    ∃ more, [','].intercalate (earlier ++ piece :: later) =
      earlier.flatMap (· ++ [',']) ++ (piece ++ more) := by
  induction earlier with
  | nil =>
      cases later with
      | nil => exact ⟨[], by simp⟩
      | cons next later =>
          exact ⟨[','] ++ [','].intercalate (next :: later), by simp [List.intercalate_cons_cons]⟩
  | cons first earlier ih =>
      obtain ⟨more, hmore⟩ := ih
      refine ⟨more, ?_⟩
      have hne : earlier ++ piece :: later ≠ [] := by simp
      obtain ⟨next, others, hothers⟩ := List.exists_cons_of_ne_nil hne
      rw [List.cons_append, List.flatMap_cons, hothers, List.intercalate_cons_cons,
        ← hothers, hmore]
      simp

/-- Pieces are read from where the pieces before them, and their commas, end. -/
theorem readClauses_append {start : Nat} {earlier : List (List Char)}
    {clauses : List (Located Clause)} (h : readClauses start earlier = .ok clauses)
    (later : List (List Char)) :
    readClauses start (earlier ++ later) =
      (readClauses (start + bytesBefore earlier) later).map (clauses ++ ·) := by
  induction earlier generalizing start clauses with
  | nil =>
      obtain rfl := Except.ok.inj h
      cases hlater : readClauses start later <;> simp [bytesBefore, hlater, Except.map]
  | cons piece earlier ih =>
      obtain ⟨clause, others, hclause, hothers, rfl⟩ := readClauses_cons_eq_ok_iff.1 h
      have hstart : start + bytesBefore (piece :: earlier) =
          start + Text.bytes piece + 1 + bytesBefore earlier := by
        rw [bytesBefore_cons]
        omega
      rw [List.cons_append, readClauses, hclause, ih hothers, hstart]
      cases readClauses (start + Text.bytes piece + 1 + bytesBefore earlier) later <;> rfl

theorem exists_readClauses {pieces : List (List Char)} (h : ∀ piece ∈ pieces, TwoWords piece)
    (start : Nat) :
    ∃ clauses, readClauses start pieces = .ok clauses ∧ clauses.length = pieces.length := by
  induction pieces generalizing start with
  | nil => exact ⟨[], rfl, rfl⟩
  | cons piece pieces ih =>
      rw [List.forall_mem_cons] at h
      obtain ⟨className, var, hwords⟩ := h.1
      obtain ⟨clauses, hclauses, hlength⟩ := ih h.2 (start + Text.bytes piece + 1)
      refine ⟨_,
        readClauses_cons_eq_ok_iff.2 ⟨_, clauses, readClause_of_hasWords hwords start,
          hclauses, rfl⟩, ?_⟩
      rw [List.length_cons, List.length_cons, hlength]

/-- Clauses are in the order of the text, with commas between them. -/
theorem pairwise_of_readClauses {start : Nat} {pieces : List (List Char)}
    {clauses : List (Located Clause)} (h : readClauses start pieces = .ok clauses) :
    (∀ x ∈ clauses, start ≤ x.span.start) ∧
      clauses.Pairwise fun x y => x.span.stop < y.span.start := by
  induction pieces generalizing start clauses with
  | nil =>
      rw [← Except.ok.inj h]
      exact ⟨nofun, .nil⟩
  | cons piece pieces ih =>
      obtain ⟨clause, others, hclause, hothers, rfl⟩ := readClauses_cons_eq_ok_iff.1 h
      obtain ⟨hlater, hordered⟩ := ih hothers
      have hinside := Text.trimmedSpan_inside start piece
      rw [← span_of_readClause hclause] at hinside
      refine ⟨List.forall_mem_cons.2 ⟨hinside.1, ?_⟩, .cons ?_ hordered⟩
      · intro x hx
        have hx := hlater x hx
        omega
      · intro x hx
        have hx := hlater x hx
        omega

/-- The first piece that is no clause is refused. -/
theorem readClauses_of_not_twoWords {earlier : List (List Char)} {piece : List Char}
    (hearlier : ∀ p ∈ earlier, TwoWords p) (hpiece : ¬TwoWords piece) (start : Nat)
    (later : List (List Char)) :
    readClauses start (earlier ++ piece :: later) =
      .error ⟨.malformedConstraint (String.ofList (Text.trim piece)),
        Text.trimmedSpan (start + bytesBefore earlier) piece⟩ := by
  obtain ⟨clauses, hclauses, -⟩ := exists_readClauses hearlier start
  rw [readClauses_append hclauses, readClauses, readClause_of_not_twoWords hpiece]
  rfl

/-- The clause of a piece has as many clauses before it as there are pieces. -/
theorem getElem?_of_readClauses {earlier later : List (List Char)} {piece className var : List Char}
    {start : Nat} {clauses : List (Located Clause)} (hearlier : ∀ p ∈ earlier, TwoWords p)
    (hwords : Text.HasWords piece [className, var])
    (h : readClauses start (earlier ++ piece :: later) = .ok clauses) :
    clauses[earlier.length]? =
      some ⟨⟨String.ofList className, String.ofList var⟩,
        Text.trimmedSpan (start + bytesBefore earlier) piece⟩ := by
  obtain ⟨before, hbefore, hlength⟩ := exists_readClauses hearlier start
  rw [readClauses_append hbefore] at h
  obtain ⟨located, hlocated, rfl⟩ := map_eq_ok_iff.1 h
  obtain ⟨clause, others, hclause, -, rfl⟩ := readClauses_cons_eq_ok_iff.1 hlocated
  rw [readClause_of_hasWords hwords] at hclause
  rw [← hlength, List.getElem?_append_right (Nat.le_refl _), Nat.sub_self, ← Except.ok.inj hclause]
  rfl

/-- A piece of a block stands in the block at its place, without its blank ends, or as a whole if
it is blank. -/
theorem covers_of_splitOn {text : List Char} {earlier later : List (List Char)} {piece : List Char}
    (h : text.splitOn ',' = earlier ++ piece :: later) (outside : List Char) :
    ∃ before after, (Text.trimmedSpan (Text.bytes outside + bytesBefore earlier) piece).Covers
      (outside ++ text) before
      (if piece.all Text.isBlank then piece else Text.trim piece) after := by
  obtain ⟨more, hmore⟩ := exists_append_of_pieces earlier piece later
  have htext : outside ++ text = (outside ++ earlier.flatMap (· ++ [','])) ++ (piece ++ more) := by
    rw [List.append_assoc, ← hmore, ← h, List.intercalate_splitOn]
  rw [htext, bytesBefore, ← Text.bytes_append]
  by_cases hblank : ∀ c ∈ piece, Text.isBlank c = true
  · rw [if_pos (List.all_eq_true.2 hblank), Text.trimmedSpan_of_blank hblank]
    exact ⟨_, more, rfl, rfl, rfl⟩
  · rw [if_neg (fun hall => hblank (List.all_eq_true.1 hall))]
    exact Text.covers_trimmedSpan hblank _ more

/-- The first character that a half may not hold is refused at its place. -/
theorem Half.screen_of_first {half : Half} {before : List Char} {c : Char}
    (hbefore : ∀ d ∈ before, half.allows d = true) (hc : half.allows c = false) (start : Nat)
    (after : List Char) :
    half.screen start (before ++ c :: after) = .error ⟨.invalidCharacter c half,
      ⟨start + Text.bytes before, start + Text.bytes before + c.utf8Size⟩⟩ := by
  have hallowed : ∀ d ∈ before, (!half.allows d) = false := by
    intro d hd
    rw [hbefore d hd]
    rfl
  have hforeign : (!half.allows c) = true := by
    rw [hc]
    rfl
  rw [Half.screen, Text.find?_append_of_first start after hallowed hforeign]

/-! ## Main statement -/

/-- A block keeps its words, their order and their places. The first character that it may not
hold is refused at its place. Without such a character, the first piece between commas that does
not have two words is refused, with the piece as it stands at its place. Else there is one clause
for each piece, in order, with the words of the piece and its place. The place of a piece is that
of the piece without its blank ends, or of all of it if it is blank, wherever the block starts.
The words of a piece can be cut out of it. -/
theorem readConstraints_keeps_pieces (start : Nat) (text : List Char) :
    (∀ before c after, text = before ++ c :: after →
      (∀ d ∈ before, Half.constraints.allows d = true) → Half.constraints.allows c = false →
      readConstraints start text = .error ⟨.invalidCharacter c .constraints,
        ⟨start + Text.bytes before, start + Text.bytes before + c.utf8Size⟩⟩) ∧
    ((∀ c ∈ text, Half.constraints.allows c = true) →
      (∀ earlier piece later, text.splitOn ',' = earlier ++ piece :: later →
        (∀ p ∈ earlier, TwoWords p) → ¬TwoWords piece →
        readConstraints start text = .error ⟨.malformedConstraint (String.ofList (Text.trim piece)),
          Text.trimmedSpan (start + bytesBefore earlier) piece⟩) ∧
      ((∀ p ∈ text.splitOn ',', TwoWords p) →
        ∃ clauses, readConstraints start text = .ok clauses ∧
          clauses.length = (text.splitOn ',').length ∧
          ∀ earlier piece later className var, text.splitOn ',' = earlier ++ piece :: later →
            Text.HasWords piece [className, var] →
            clauses[earlier.length]? = some ⟨⟨String.ofList className, String.ofList var⟩,
              Text.trimmedSpan (start + bytesBefore earlier) piece⟩)) ∧
    (∀ earlier piece later, text.splitOn ',' = earlier ++ piece :: later →
      ∀ outside, Text.bytes outside = start →
      ∃ before after, (Text.trimmedSpan (start + bytesBefore earlier) piece).Covers
        (outside ++ text) before
        (if piece.all Text.isBlank then piece else Text.trim piece) after) ∧
    ∀ piece ∈ text.splitOn ',', ∀ word ∈ Text.words 0 piece,
      Text.slice? word.span.start word.span.stop piece = some word.item := by
  refine ⟨?_, ?_, ?_, ?_⟩
  · intro before c after htext hbefore hc
    rw [readConstraints, htext, Half.screen_of_first hbefore hc]
    rfl
  · intro hallowed
    have hread : readConstraints start text = readClauses start (text.splitOn ',') := by
      rw [readConstraints, Half.screen_eq_ok_iff.2 hallowed]
      rfl
    rw [hread]
    refine ⟨?_, ?_⟩
    · intro earlier piece later hpieces hearlier hpiece
      rw [hpieces]
      exact readClauses_of_not_twoWords hearlier hpiece start later
    · intro hpieces
      obtain ⟨clauses, hclauses, hlength⟩ := exists_readClauses hpieces start
      refine ⟨clauses, hclauses, hlength, ?_⟩
      intro earlier piece later className var hsplit hwords
      rw [hsplit] at hclauses hpieces
      exact getElem?_of_readClauses (fun p hp => hpieces p (List.mem_append_left _ hp)) hwords
        hclauses
  · intro earlier piece later hpieces outside houtside
    rw [← houtside]
    exact covers_of_splitOn hpieces outside
  · intro piece _ word hword
    have hword : word ∈ Text.words (Text.bytes []) piece := hword
    obtain ⟨before, after, hcovers⟩ := Text.covers_of_mem_words hword
    exact hcovers.slice?_eq_some

/-- Blanks of several bytes around and between words, in a block that starts at byte 3: two
clauses, and a third piece with one word. A semicolon after all of this is refused first. -/
theorem readConstraints_keeps_pieces_sample :
    let block := "Num a,\u3000Ord\u3000\u00a0b ".toList
    readConstraints 3 block = .ok [⟨⟨"Num", "a"⟩, ⟨3, 8⟩⟩, ⟨⟨"Ord", "b"⟩, ⟨12, 21⟩⟩] ∧
      readConstraints 3 (block ++ ", Eq".toList) = .error ⟨.malformedConstraint "Eq", ⟨24, 26⟩⟩ ∧
      readConstraints 3 (block ++ ", Eq;".toList) =
        .error ⟨.invalidCharacter ';' .constraints, ⟨26, 27⟩⟩ := by
  intro block
  have hnum : Text.HasWords "Num a".toList ["Num".toList, "a".toList] :=
    (Text.hasWords_iff 0).2 (by decide +kernel)
  have hord : Text.HasWords "\u3000Ord\u3000\u00a0b ".toList ["Ord".toList, "b".toList] :=
    (Text.hasWords_iff 0).2 (by decide +kernel)
  have hclauses : ∀ p ∈ ["Num a".toList, "\u3000Ord\u3000\u00a0b ".toList], TwoWords p := by
    intro p hp
    rcases List.mem_cons.1 hp with rfl | hp
    · exact ⟨_, _, hnum⟩
    · rw [List.mem_singleton.1 hp]
      exact ⟨_, _, hord⟩
  refine ⟨?_, ?_, ?_⟩
  · have hallowed : block.all Half.constraints.allows = true := by decide +kernel
    have hpieces : block.splitOn ',' = ["Num a".toList, "\u3000Ord\u3000\u00a0b ".toList] := by
      decide +kernel
    obtain ⟨clauses, hread, hlength, hentries⟩ :=
      ((readConstraints_keeps_pieces 3 block).2.1 (List.all_eq_true.1 hallowed)).2
        (by rw [hpieces]; exact hclauses)
    rw [hpieces] at hlength
    obtain ⟨first, second, rfl⟩ := List.length_eq_two.1 hlength
    have hfirst := hentries [] _ _ _ _ hpieces hnum
    have hsecond := hentries ["Num a".toList] _ [] _ _ hpieces hord
    rw [hread, Option.some.inj hfirst, Option.some.inj hsecond]
    decide +kernel
  · have hallowed : (block ++ ", Eq".toList).all Half.constraints.allows = true := by decide +kernel
    have hone : ¬TwoWords " Eq".toList := by
      intro htwo
      obtain ⟨className, var, hwords⟩ := htwo
      have hfound : (Text.words 0 " Eq".toList).map (·.item) = ["Eq".toList] := by decide +kernel
      have hlength := congrArg List.length (((Text.hasWords_iff 0).1 hwords).symm.trans hfound)
      cases hlength
    rw [((readConstraints_keeps_pieces 3 (block ++ ", Eq".toList)).2.1
      (List.all_eq_true.1 hallowed)).1
      ["Num a".toList, "\u3000Ord\u3000\u00a0b ".toList] " Eq".toList []
      (by decide +kernel) hclauses hone]
    decide +kernel
  · have hallowed : (block ++ ", Eq".toList).all Half.constraints.allows = true := by decide +kernel
    rw [(readConstraints_keeps_pieces 3 (block ++ ", Eq;".toList)).1 (block ++ ", Eq".toList) ';' []
      (by decide +kernel) (List.all_eq_true.1 hallowed) rfl]
    decide +kernel

end Covenant
