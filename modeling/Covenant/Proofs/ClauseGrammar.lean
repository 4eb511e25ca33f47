import Covenant.Proofs.Outcome
import Covenant.Proofs.Screening
import Covenant.Signature.Clauses

/-!
# The grammar of constraint blocks

A clause is two names with blanks between them, and possibly around them; a constraint block is
one or more clauses with commas between them. The readers accept these texts and nothing else.
They judge a clause by its words alone: that the words are names is left to the screening of the
whole block.
-/

namespace Covenant

/-- A clause is two names, with blanks between them and possibly around them. -/
inductive Clause.Spelled : Clause → List Char → Prop
  | intro {before className between var after : List Char}
      (hbefore : ∀ c ∈ before, Text.isBlank c = true)
      (hclass : Text.IsName className) (hne : between ≠ [])
      (hbetween : ∀ c ∈ between, Text.isBlank c = true)
      (hvar : Text.IsName var) (hafter : ∀ c ∈ after, Text.isBlank c = true) :
      Spelled ⟨String.ofList className, String.ofList var⟩
        (before ++ (className ++ (between ++ (var ++ after))))

/-- One or more clauses with commas between them. -/
inductive ConstraintBlock : List Char → List Clause → Prop
  | last {clause : Clause} {piece : List Char} (h : clause.Spelled piece) :
      ConstraintBlock piece [clause]
  | cons {clause : Clause} {piece rest : List Char} {clauses : List Clause}
      (h : clause.Spelled piece)
      (hrest : ConstraintBlock rest clauses) :
        ConstraintBlock (piece ++ ',' :: rest) (clause :: clauses)

/-! ## One clause -/

theorem isBlank_of_isName {name : List Char} (h : Text.IsName name) :
    ∀ c ∈ name, Text.isBlank c = false :=
  fun c hc => Text.isBlank_eq_false_of_isNameChar (h.2 c hc)

/-- Two names with blanks between them are a clause, which stands from the first to the end of the
second. -/
theorem readClause_names (start : Nat) {before className between var after : List Char}
    (hbefore : ∀ c ∈ before, Text.isBlank c = true) (hclass : Text.IsName className)
    (hne : between ≠ [])
    (hbetween : ∀ c ∈ between, Text.isBlank c = true) (hvar : Text.IsName var)
    (hafter : ∀ c ∈ after, Text.isBlank c = true) :
    readClause start (before ++ (className ++ (between ++ (var ++ after)))) =
      .ok ⟨⟨String.ofList className, String.ofList var⟩,
        ⟨start + Text.bytes before,
          start + Text.bytes before + Text.bytes (className ++ (between ++ var))⟩⟩ := by
  have hhead : ∀ c ∈ (between ++ (var ++ after)).head?, Text.isBlank c = true := by
    intro c hc
    obtain ⟨blank, blanks, rfl⟩ := List.exists_cons_of_ne_nil hne
    cases hc
    exact hbetween _ List.mem_cons_self
  rw [readClause, Text.words_append_of_blanks hbefore,
    Text.words_append_of_word hclass.1 (isBlank_of_isName hclass) hhead,
    Text.words_append_of_blanks hbetween,
    Text.words_append_of_word hvar.1 (isBlank_of_isName hvar) fun c hc =>
      hafter c (List.mem_of_head? hc),
    Text.words_eq_nil_iff.2 hafter]
  simp [Nat.add_assoc]

theorem readClause_of_spelled {clause : Clause} {piece : List Char} (h : clause.Spelled piece)
    (start : Nat) : ∃ span, readClause start piece = .ok ⟨clause, span⟩ := by
  cases h with
  | intro hbefore hclass hne hbetween hvar hafter =>
      exact ⟨_, readClause_names start hbefore hclass hne hbetween hvar hafter⟩

theorem isName_of_word {piece word : List Char} (hne : word ≠ [])
    (hword : ∀ c ∈ word, Text.isBlank c = false)
    (hpiece : ∀ c ∈ piece, Text.isNameChar c = true ∨ Text.isBlank c = true) (hsub : word ⊆ piece) :
    Text.IsName word := by
  refine ⟨hne, ?_⟩
  intro c hc
  rcases hpiece c (hsub hc) with hname | hblank
  · exact hname
  · rw [hword c hc] at hblank
    cases hblank

/-- What is read as a clause has two words, and these are names if no foreign characters are
around. -/
theorem spelled_of_readClause {start : Nat} {piece : List Char} {located : Located Clause}
    (h : readClause start piece = .ok located)
    (hpiece : ∀ c ∈ piece, Text.isNameChar c = true ∨ Text.isBlank c = true) :
    located.item.Spelled piece := by
  rw [readClause] at h
  split at h
  · next first second hwords =>
      cases h
      obtain ⟨before, rest, rfl, hbefore, hclass, hfirst, hhead, -, hmore⟩ :=
        Text.exists_append_of_words hwords
      obtain ⟨between, after, rfl, hbetween, hvar, hsecond, -, -, hnone⟩ :=
        Text.exists_append_of_words hmore
      refine .intro hbefore (isName_of_word hclass hfirst hpiece ?_) ?_ hbetween
        (isName_of_word hvar hsecond hpiece ?_) (Text.words_eq_nil_iff.1 hnone)
      · intro c hc
        simp [hc]
      · -- without blanks between them, the first word would go on with the second
        rintro rfl
        obtain ⟨c, cs, hcs⟩ := List.exists_cons_of_ne_nil hvar
        have hblank := hhead c (by simp [hcs])
        rw [hsecond c (by simp [hcs])] at hblank
        cases hblank
      · intro c hc
        simp [hc]
  · cases h

/-! ## Blocks -/

theorem readClauses_cons_eq_ok_iff {start : Nat} {piece : List Char} {pieces : List (List Char)}
    {located : List (Located Clause)} :
    readClauses start (piece :: pieces) = .ok located ↔
      ∃ clause clauses, readClause start piece = .ok clause ∧
        readClauses (start + Text.bytes piece + 1) pieces = .ok clauses ∧
          located = clause :: clauses := by
  rw [readClauses, bind_eq_ok_iff]
  constructor
  · rintro ⟨clause, hclause, hrest⟩
    obtain ⟨clauses, hclauses, h⟩ := bind_eq_ok_iff.1 hrest
    exact ⟨clause, clauses, hclause, hclauses, (Except.ok.inj h).symm⟩
  · rintro ⟨clause, clauses, hclause, hclauses, rfl⟩
    exact ⟨clause, hclause, bind_eq_ok_iff.2 ⟨clauses, hclauses, rfl⟩⟩

/-- Clauses that are read make a block, with the commas put back. -/
theorem constraintBlock_of_readClauses {pieces : List (List Char)} (hne : pieces ≠ [])
    (hpieces : ∀ piece ∈ pieces, ∀ c ∈ piece, Text.isNameChar c = true ∨ Text.isBlank c = true)
    {start : Nat} {located : List (Located Clause)} (h : readClauses start pieces = .ok located) :
    ConstraintBlock ([','].intercalate pieces) (located.map (·.item)) := by
  induction pieces generalizing start located with
  | nil => contradiction
  | cons piece pieces ih =>
      rw [List.forall_mem_cons] at hpieces
      obtain ⟨clause, clauses, hclause, hclauses, rfl⟩ := readClauses_cons_eq_ok_iff.1 h
      have hspelled := spelled_of_readClause hclause hpieces.1
      cases pieces with
      | nil =>
          cases hclauses
          rw [List.intercalate_singleton]
          exact .last hspelled
      | cons next pieces =>
          rw [List.intercalate_cons_cons, List.append_assoc]
          exact .cons hspelled (ih (by simp) hpieces.2 hclauses)

theorem Clause.Spelled.isNameChar_or_isBlank {clause : Clause} {piece : List Char}
    (h : clause.Spelled piece) : ∀ c ∈ piece, Text.isNameChar c = true ∨ Text.isBlank c = true := by
  intro c hmem
  cases h with
  | intro hbefore hclass _ hbetween hvar hafter =>
      simp only [List.mem_append] at hmem
      rcases hmem with hmem | hmem | hmem | hmem | hmem
      · exact .inr (hbefore c hmem)
      · exact .inl (hclass.2 c hmem)
      · exact .inr (hbetween c hmem)
      · exact .inl (hvar.2 c hmem)
      · exact .inr (hafter c hmem)

theorem Clause.Spelled.comma_not_mem {clause : Clause} {piece : List Char}
    (h : clause.Spelled piece) :
    ',' ∉ piece := by
  intro hmem
  rcases h.isNameChar_or_isBlank ',' hmem with hcomma | hcomma <;> cases hcomma

theorem ConstraintBlock.allows {block : List Char} {clauses : List Clause}
    (h : ConstraintBlock block clauses) : ∀ c ∈ block, Half.constraints.allows c = true := by
  have hpiece : ∀ {clause : Clause} {piece : List Char}, clause.Spelled piece →
      ∀ c ∈ piece, Half.constraints.allows c = true := by
    intro clause piece hspelled c hc
    rcases hspelled.isNameChar_or_isBlank c hc with hc | hc <;> simp [Half.allows, hc]
  induction h with
  | last hclause => exact hpiece hclause
  | cons hclause _ ih =>
      rw [List.forall_mem_append, List.forall_mem_cons]
      exact ⟨hpiece hclause, by decide, ih⟩

theorem readClauses_of_constraintBlock {block : List Char} {clauses : List Clause}
    (h : ConstraintBlock block clauses) (start : Nat) :
    ∃ located, readClauses start (block.splitOn ',') = .ok located ∧
      located.map (·.item) = clauses := by
  induction h generalizing start with
  | @last clause piece hclause =>
      have hsplit : piece.splitOn ',' = [piece] := by
        refine List.splitOn_eq_singleton_of_beq_eq_false ?_
        rintro c hc
        exact beq_false_of_ne fun hcomma => hclause.comma_not_mem (hcomma ▸ hc)
      obtain ⟨span, hread⟩ := readClause_of_spelled hclause start
      refine ⟨[⟨clause, span⟩], ?_, rfl⟩
      rw [hsplit]
      exact readClauses_cons_eq_ok_iff.2 ⟨_, [], hread, rfl, rfl⟩
  | @cons clause piece rest clauses hclause _ ih =>
      obtain ⟨span, hread⟩ := readClause_of_spelled hclause start
      obtain ⟨located, hlocated, hitems⟩ := ih (start + Text.bytes piece + 1)
      refine ⟨⟨clause, span⟩ :: located, ?_, by simp [hitems]⟩
      rw [List.splitOn_append_cons_self_of_not_mem hclause.comma_not_mem]
      exact readClauses_cons_eq_ok_iff.2 ⟨_, located, hread, hlocated, rfl⟩

/-- Between the commas of a block without foreign characters there are names and blanks. -/
theorem isNameChar_or_isBlank_of_allows {text : List Char}
    (h : ∀ c ∈ text, Half.constraints.allows c = true) {piece : List Char}
    (hpiece : piece ∈ text.splitOn ',') :
    ∀ c ∈ piece, Text.isNameChar c = true ∨ Text.isBlank c = true := by
  intro c hc
  have hmem := Text.mem_of_mem_splitOn hpiece hc
  simpa [Half.allows, hmem.2] using h c hmem.1

theorem readConstraints_eq_ok_iff (start : Nat) (text : List Char) (clauses : List Clause) :
    (∃ located, readConstraints start text = .ok located ∧ located.map (·.item) = clauses) ↔
      ConstraintBlock text clauses := by
  constructor
  · rintro ⟨located, h, rfl⟩
    obtain ⟨_, hscreen, hread⟩ := bind_eq_ok_iff.1 h
    have htext : [','].intercalate (text.splitOn ',') = text := List.intercalate_splitOn ','
    rw [← htext]
    refine constraintBlock_of_readClauses (List.splitOn_ne_nil _ _) ?_ hread
    exact fun _ => isNameChar_or_isBlank_of_allows (Half.screen_eq_ok_iff.1 hscreen)
  · intro h
    obtain ⟨located, hread, hitems⟩ := readClauses_of_constraintBlock h start
    have hscreen : Half.constraints.screen start text = .ok () := Half.screen_eq_ok_iff.2 h.allows
    exact ⟨located, bind_eq_ok_iff.2 ⟨(), hscreen, hread⟩, hitems⟩

end Covenant
