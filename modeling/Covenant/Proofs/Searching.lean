import Covenant.Text.Search

/-!
# What a search finds

The searches over a text, described by how the text is put together: where its first mark stands,
and where its words start and end.
-/

namespace Covenant

/-- A run of items of a kind ends where another item follows. -/
theorem takeWhile_append_of_head {α : Type} {p : α → Bool} {run : List α} (rest : List α)
    (hrun : ∀ x ∈ run, p x = true) (hrest : ∀ x ∈ rest.head?, p x = false) :
    (run ++ rest).takeWhile p = run ∧ (run ++ rest).dropWhile p = rest := by
  rw [List.takeWhile_append_of_pos hrun, List.dropWhile_append_of_pos hrun]
  cases rest with
  | nil => simp
  | cons x rest =>
      have hx := hrest x rfl
      simp [hx]

namespace Text

/-- A name: letters and digits, and at least one of them. -/
def IsName (cs : List Char) : Prop := cs ≠ [] ∧ ∀ c ∈ cs, isNameChar c = true

instance (cs : List Char) : Decidable (IsName cs) :=
  decidable_of_iff (cs ≠ [] ∧ cs.all isNameChar = true) (by simp [IsName])

theorem find?_eq_none_iff {p : Char → Bool} {start : Nat} {text : List Char} :
    find? p start text = none ↔ ∀ c ∈ text, p c = false := by
  induction text generalizing start with
  | nil => simp [find?]
  | cons c cs ih =>
      rw [find?, List.forall_mem_cons]
      by_cases hc : p c = true
      · simp [hc]
      · simp [hc, ih]

/-- What is found is the first character that is looked for. -/
theorem find?_append_of_first {p : Char → Bool} {before : List Char} {c : Char} (start : Nat)
    (after : List Char) (hbefore : ∀ d ∈ before, p d = false) (hc : p c = true) :
    find? p start (before ++ c :: after) =
      some ⟨c, ⟨start + bytes before, start + bytes before + c.utf8Size⟩⟩ := by
  induction before generalizing start with
  | nil =>
      rw [List.nil_append, find?, if_pos hc]
      rfl
  | cons d before ih =>
      rw [List.forall_mem_cons] at hbefore
      rw [List.cons_append, find?, if_neg (by simp [hbefore.1]), ih _ hbefore.2, bytes_cons,
        Nat.add_assoc start]

/-! ## Marks -/

theorem pair_infix_cons_iff {a b c : Char} {cs : List Char} :
    [a, b] <:+: c :: cs ↔ (c = a ∧ cs.head? = some b) ∨ [a, b] <:+: cs := by
  rw [List.infix_cons_iff, List.cons_prefix_cons, eq_comm]
  cases cs with
  | nil => simp
  | cons d cs => simp [List.cons_prefix_cons, eq_comm]

theorem breakOn_eq_none_iff {a b : Char} {text : List Char} :
    breakOn a b text = none ↔ ¬ [a, b] <:+: text := by
  induction text with
  | nil => simp [breakOn]
  | cons c cs ih =>
      rw [pair_infix_cons_iff]
      cases cs with
      | nil => simp [breakOn]
      | cons d rest =>
          rw [breakOn]
          by_cases hmark : c = a ∧ d = b
          · simp [hmark]
          · simp only [hmark, if_false, Option.map_eq_none_iff, ih, List.head?_cons,
              Option.some.injEq, false_or]

/-- A text is broken at the first place of the mark. As its two characters differ, the mark does
not overlap with itself. -/
theorem breakOn_eq_some_iff {a b : Char} (hab : a ≠ b) {text before after : List Char} :
    breakOn a b text = some (before, after) ↔
      text = before ++ a :: b :: after ∧ ¬ [a, b] <:+: before := by
  induction text generalizing before with
  | nil => simp [breakOn]
  | cons c cs ih =>
      cases cs with
      | nil =>
          have hlength : [c] ≠ before ++ a :: b :: after := by
            intro h
            have := congrArg List.length h
            simp only [List.length_append, List.length_cons, List.length_nil] at this
            omega
          simp [breakOn, hlength]
      | cons d rest =>
          rw [breakOn]
          by_cases hmark : c = a ∧ d = b
          · obtain ⟨rfl, rfl⟩ := hmark
            simp only [and_self, if_true, Option.some.injEq, Prod.mk.injEq]
            constructor
            · rintro ⟨rfl, rfl⟩
              simp
            · rintro ⟨htext, hfirst⟩
              -- the mark at the front of the text is the first one
              rcases before with _ | ⟨x, _ | ⟨y, before⟩⟩
              · simp_all
              · simp_all
              · simp_all [pair_infix_cons_iff]
          · simp only [hmark, if_false, Option.map_eq_some_iff, Prod.exists, Prod.mk.injEq]
            constructor
            · rintro ⟨before', after', hbreak, rfl, rfl⟩
              obtain ⟨htext, hfirst⟩ := ih.1 hbreak
              refine ⟨by rw [htext, List.cons_append], ?_⟩
              rw [pair_infix_cons_iff]
              rintro (⟨hc, hhead⟩ | hinfix)
              · obtain ⟨more, rfl⟩ := List.head?_eq_some_iff.1 hhead
                exact hmark ⟨hc, (List.cons.inj htext).1⟩
              · exact hfirst hinfix
            · rintro ⟨htext, hfirst⟩
              cases before with
              | nil =>
                  obtain ⟨hc, hrest⟩ := List.cons.inj htext
                  exact absurd ⟨hc, (List.cons.inj hrest).1⟩ hmark
              | cons x before' =>
                  obtain ⟨rfl, hrest⟩ := List.cons.inj htext
                  rw [pair_infix_cons_iff, not_or] at hfirst
                  exact ⟨before', after, ih.2 ⟨hrest, hfirst.2⟩, rfl, rfl⟩

/-! ## Pieces -/

/-- A piece of a text between two separators holds characters of the text, but no separator. -/
theorem mem_of_mem_splitOn {a c : Char} {text piece : List Char} (h : piece ∈ text.splitOn a)
    (hc : c ∈ piece) : c ∈ text ∧ c ≠ a := by
  induction text generalizing piece with
  | nil =>
      rw [List.splitOn_nil, List.mem_singleton] at h
      simp [h] at hc
  | cons x xs ih =>
      rw [List.splitOn_cons_eq_if_modifyHead] at h
      by_cases hx : (x == a) = true
      · rw [if_pos hx] at h
        rcases List.mem_cons.1 h with rfl | h
        · simp at hc
        · have hmem := ih h hc
          exact ⟨List.mem_cons_of_mem x hmem.1, hmem.2⟩
      · rw [if_neg hx] at h
        obtain ⟨first, more, hsplit⟩ := List.exists_cons_of_ne_nil (List.splitOn_ne_nil a xs)
        rw [hsplit] at h ih
        rcases List.mem_cons.1 h with rfl | h
        · rcases List.mem_cons.1 hc with rfl | hc
          · exact ⟨List.mem_cons_self, by simpa using hx⟩
          · have hmem := ih List.mem_cons_self hc
            exact ⟨List.mem_cons_of_mem x hmem.1, hmem.2⟩
        · have hmem := ih (List.mem_cons_of_mem first h) hc
          exact ⟨List.mem_cons_of_mem x hmem.1, hmem.2⟩

/-! ## Words -/

theorem words_nil (start : Nat) : words start [] = [] := by
  rw [words.eq_def]

theorem words_cons_of_blank {start : Nat} {c : Char} {cs : List Char} (h : isBlank c = true) :
    words start (c :: cs) = words (start + c.utf8Size) cs := by
  rw [words.eq_def]
  exact if_pos h

theorem words_cons_of_not_blank {start : Nat} {c : Char} {cs : List Char} (h : isBlank c = false) :
    words start (c :: cs) =
      ⟨c :: cs.takeWhile (!isBlank ·), ⟨start, start + bytes (c :: cs.takeWhile (!isBlank ·))⟩⟩ ::
        words (start + bytes (c :: cs.takeWhile (!isBlank ·))) (cs.dropWhile (!isBlank ·)) := by
  rw [words.eq_def]
  exact if_neg (by simp [h])

theorem words_append_of_blanks {start : Nat} {blanks text : List Char}
    (h : ∀ c ∈ blanks, isBlank c = true) :
    words start (blanks ++ text) = words (start + bytes blanks) text := by
  induction blanks generalizing start with
  | nil => rfl
  | cons c blanks ih =>
      rw [List.forall_mem_cons] at h
      rw [List.cons_append, words_cons_of_blank h.1, ih h.2, bytes_cons, Nat.add_assoc]

theorem words_eq_nil_iff {start : Nat} {text : List Char} :
    words start text = [] ↔ ∀ c ∈ text, isBlank c = true := by
  induction text generalizing start with
  | nil => simp [words_nil]
  | cons c cs ih =>
      cases hc : isBlank c with
      | true => simp [words_cons_of_blank hc, ih, hc]
      | false => simp [words_cons_of_not_blank hc, hc]

/-- Characters up to a blank or the end make a word. -/
theorem words_append_of_word {start : Nat} {word rest : List Char} (hne : word ≠ [])
    (hword : ∀ c ∈ word, isBlank c = false) (hrest : ∀ c ∈ rest.head?, isBlank c = true) :
    words start (word ++ rest) =
      ⟨word, ⟨start, start + bytes word⟩⟩ :: words (start + bytes word) rest := by
  cases word with
  | nil => contradiction
  | cons c cs =>
      rw [List.forall_mem_cons] at hword
      obtain ⟨htake, hdrop⟩ := takeWhile_append_of_head (p := (!isBlank ·)) rest
        (fun d (hd : d ∈ cs) => by simp [hword.2 d hd]) (fun d hd => by simp [hrest d hd])
      rw [List.cons_append, words_cons_of_not_blank hword.1, htake, hdrop]

/-- A text with a first word consists of blanks, that word and what follows it. -/
theorem exists_append_of_words {start : Nat} {text : List Char} {word : Located (List Char)}
    {more : List (Located (List Char))} (h : words start text = word :: more) :
    ∃ blanks rest, text = blanks ++ (word.item ++ rest) ∧ (∀ c ∈ blanks, isBlank c = true) ∧
      word.item ≠ [] ∧ (∀ c ∈ word.item, isBlank c = false) ∧ (∀ c ∈ rest.head?, isBlank c = true) ∧
      word.span = ⟨start + bytes blanks, start + bytes blanks + bytes word.item⟩ ∧
      words word.span.stop rest = more := by
  induction text generalizing start with
  | nil =>
      rw [words_nil] at h
      cases h
  | cons c cs ih =>
      cases hc : isBlank c with
      | true =>
          rw [words_cons_of_blank hc] at h
          obtain ⟨blanks, rest, rfl, hblanks, hne, hword, hrest, hspan, hmore⟩ := ih h
          refine ⟨c :: blanks, rest, rfl, ?_, hne, hword, hrest, ?_, hmore⟩
          · exact List.forall_mem_cons.2 ⟨hc, hblanks⟩
          · rw [hspan, bytes_cons, Nat.add_assoc]
      | false =>
          rw [words_cons_of_not_blank hc] at h
          obtain ⟨rfl, rfl⟩ := List.cons.inj h
          refine ⟨[], cs.dropWhile (!isBlank ·), by simp, by simp, by simp, ?_, ?_, rfl, rfl⟩
          · refine List.forall_mem_cons.2 ⟨hc, ?_⟩
            intro d hd
            simpa using List.all_eq_true.1 List.all_takeWhile d hd
          · intro d hd
            have hstop := List.head?_dropWhile_not (!isBlank ·) cs
            rw [Option.mem_def.1 hd] at hstop
            simpa using hstop

end Text

end Covenant
