import Covenant.Proofs.RoundTrip
import Mathlib.Data.List.Basic

/-!
# Moving a text

A text that stands `n` bytes further on is read as before, with every span `n` bytes further on.
Each pass keeps its own account of offsets, so each has a lemma of its own: it commutes with
moving, for its results and for its refusals alike. Together they say what a constraint block in
front of a type list changes.
-/

namespace Covenant

/-! ## Outcomes -/

section Outcomes

variable {ε α α' β β' : Type}

/-- The outcome of a pass over a text that stands `n` bytes further on: an error is found `n`
bytes further on, and a result is changed as its spans are. -/
def moved (n : Nat) (f : α → β) : Except (Located ε) α → Except (Located ε) β
  | .ok a => .ok (f a)
  | .error e => .error (e.shift n)

@[simp] theorem moved_ok (n : Nat) (f : α → β) (a : α) :
    moved n f (.ok a : Except (Located ε) α) = .ok (f a) := rfl

@[simp] theorem moved_error (n : Nat) (f : α → β) (e : Located ε) :
    moved n f (.error e) = .error (e.shift n) := rfl

/-- If one pass commutes with moving, and the pass after it does on its results, both together
do. -/
theorem moved_bind {n : Nat} {f : α → α'} {h : β → β'} {x : Except (Located ε) α}
    {g : α → Except (Located ε) β} {g' : α' → Except (Located ε) β'}
    (hg : ∀ a, x = .ok a → g' (f a) = moved n h (g a)) :
    moved n f x >>= g' = moved n h (x >>= g) := by
  cases x with
  | error e => rfl
  | ok a => exact hg a rfl

theorem moved_eq_ok_iff {n : Nat} {f : α → β} {x : Except (Located ε) α} {b : β} :
    moved n f x = .ok b ↔ ∃ a, x = .ok a ∧ f a = b := by
  cases x <;> simp

theorem moved_eq_error_iff {n : Nat} {f : α → β} {x : Except (Located ε) α} {e : Located ε} :
    moved n f x = .error e ↔ ∃ e', x = .error e' ∧ e = e'.shift n := by
  cases x <;> simp [eq_comm]

end Outcomes

/-! ## Screening -/

theorem Text.find?_shift (p : Char → Bool) (n start : Nat) (text : List Char) :
    find? p (n + start) text = (find? p start text).map (Located.shift n) := by
  induction text generalizing start with
  | nil => rfl
  | cons c cs ih =>
      rw [find?, find?, Nat.add_assoc, ih]
      by_cases hc : p c = true
      · simp [hc, Located.shift, Span.shift]
      · simp [hc]

theorem Half.screen_shift (half : Half) (n start : Nat) (text : List Char) :
    half.screen (n + start) text = moved n id (half.screen start text) := by
  rw [Half.screen, Half.screen, Text.find?_shift]
  cases Text.find? (!half.allows ·) start text <;> rfl

theorem strayBracket?_shift (depth n start : Nat) (text : List Char) :
    strayBracket? depth (n + start) text = (strayBracket? depth start text).map (Span.shift n) := by
  induction text generalizing depth start with
  | nil => rfl
  | cons c cs ih =>
      rw [strayBracket?.eq_def, strayBracket?.eq_def depth start]
      dsimp only
      rw [Nat.add_assoc]
      split
      · exact ih _ _
      · split
        · cases depth with
          | zero => simp [Span.shift]
          | succ depth => exact ih _ _
        · split
          · simp [Span.shift]
          · exact ih _ _

theorem screenTypeList_shift (n start : Nat) (text : List Char) :
    screenTypeList (n + start) text = moved n id (screenTypeList start text) := by
  have hwhole : (⟨n + start, n + start + Text.bytes text⟩ : Span) =
      Span.shift n ⟨start, start + Text.bytes text⟩ := by
    simp [Span.shift, Nat.add_assoc]
  rw [screenTypeList, screenTypeList, hwhole]
  split
  · rfl
  · rw [Half.screen_shift]
    refine moved_bind ?_
    intro _ _
    rw [strayBracket?_shift]
    cases strayBracket? 0 start text with
    | some span => rfl
    | none =>
        simp only [Option.map_none]
        split <;> rfl

/-! ## Tokens -/

/-- Moving a text moves its tokens, and the fault if it has one, and changes nothing else. -/
theorem tokenizeFrom_shift (n start : Nat) (text : List Char) :
    tokenizeFrom (n + start) text =
      moved n (List.map (Located.shift n)) (tokenizeFrom start text) := by
  induction text using lexing_induction generalizing start with
  | nil =>
      rw [tokenizeFrom_nil, tokenizeFrom_nil]
      rfl
  | blank c cs hc ih =>
      rw [tokenizeFrom_blank hc, tokenizeFrom_blank hc, Nat.add_assoc]
      exact ih _
  | fault c cs e hc hread =>
      rw [tokenizeFrom_fault hc hread, tokenizeFrom_fault hc hread, Nat.add_assoc]
      rfl
  | token c cs t hc hread ih =>
      rw [tokenizeFrom_lexeme hc hread, tokenizeFrom_lexeme hc hread, Nat.add_assoc, ih]
      refine moved_bind ?_
      intro tokens _
      rfl

/-! ## Cursors -/

namespace Cursor

/-- The same place in a text that stands `n` bytes further on. -/
def shift (n : Nat) (c : Cursor) : Cursor :=
  ⟨c.passed.map (Located.shift n), c.rest.map (Located.shift n)⟩

/-- There is a token that spans can be taken from. Over an empty list a cursor stands at the start
of the text, wherever the text stands. -/
def HasTokens (c : Cursor) : Prop := c.passed ≠ [] ∨ c.rest ≠ []

variable {c : Cursor}

@[simp] theorem token_shift (n : Nat) (c : Cursor) : (c.shift n).token = c.token := by
  rcases c with ⟨passed, _ | ⟨t, rest⟩⟩ <;> rfl

@[simp] theorem next_shift (n : Nat) (c : Cursor) : (c.shift n).next = c.next.shift n := by
  rcases c with ⟨passed, _ | ⟨t, rest⟩⟩
  · rfl
  · by_cases ht : t.item = .eof <;> simp [shift, next, ht]

theorem span_shift (h : c.HasTokens) (n : Nat) : (c.shift n).span = c.span.shift n := by
  rcases c with ⟨_ | ⟨s, passed⟩, _ | ⟨t, rest⟩⟩
  · simp [HasTokens] at h
  all_goals rfl

theorem lastSpan_shift (h : c.HasTokens) (n : Nat) : (c.shift n).lastSpan = c.lastSpan.shift n := by
  rcases c with ⟨_ | ⟨s, passed⟩, rest⟩
  · exact span_shift h n
  · rfl

theorem passOpenBrackets_shift (n : Nat) (c : Cursor) :
    (c.shift n).passOpenBrackets =
      (c.passOpenBrackets.1.map (Span.shift n), c.passOpenBrackets.2.shift n) := by
  have htake : (c.rest.map (Located.shift n)).takeWhile (·.item = .openBracket) =
      (c.rest.takeWhile (·.item = .openBracket)).map (Located.shift n) := List.takeWhile_map
  have hdrop : (c.rest.map (Located.shift n)).dropWhile (·.item = .openBracket) =
      (c.rest.dropWhile (·.item = .openBracket)).map (Located.shift n) := List.dropWhile_map
  simp [passOpenBrackets, shift, htake, hdrop]

theorem wanted_shift (h : c.HasTokens) (expected : String) (n : Nat) :
    (c.shift n).wanted expected = (c.wanted expected).shift n := by
  simp [wanted, Located.shift, span_shift h]

theorem HasTokens.passes (h : c.HasTokens) {run : List (Located Token)} {c' : Cursor}
    (hrun : c.Passes run c') :
    c'.HasTokens := by
  cases run with
  | cons t run => exact .inl (by simp [hrun.passed])
  | nil =>
      rw [Passes.unique hrun (.refl c)]
      exact h

theorem HasTokens.next (h : c.HasTokens) : c.next.HasTokens := by
  by_cases hend : c.token = .eof
  · rcases c with ⟨passed, _ | ⟨t, rest⟩⟩
    · exact h
    · have ht : t.item = .eof := hend
      simpa [Cursor.next, ht] using h
  · obtain ⟨t, _, hrun⟩ := passes_next hend
    exact h.passes hrun

theorem HasTokens.passOpenBrackets (h : c.HasTokens) : c.passOpenBrackets.2.HasTokens := by
  obtain ⟨run, hrun, _⟩ := c.passes_passOpenBrackets
  exact h.passes hrun

theorem HasTokens.after_readType (h : c.HasTokens) {ty : Located Ty} {after : Cursor}
    (hty : readType c = (.ok ty, after)) : after.HasTokens := by
  obtain ⟨run, hrun, _⟩ := (readType_eq_ok_iff c after ty.item).1 ⟨ty.span, hty⟩
  exact h.passes hrun

end Cursor

/-! ## Readers -/

/-- What a reader leaves in a text that stands `n` bytes further on. -/
def movedReading {α β : Type} (n : Nat) (f : α → β) (reading : Except Refusal α × Cursor) :
    Except Refusal β × Cursor :=
  (moved n f reading.1, reading.2.shift n)

theorem closeBrackets_shift (n : Nat) (opens : List Span) (ty : Located Ty) {c : Cursor}
    (h : c.HasTokens) :
    closeBrackets (opens.map (Span.shift n)) (ty.shift n) (c.shift n) =
      movedReading n (Located.shift n) (closeBrackets opens ty c) := by
  induction opens generalizing ty c with
  | nil => rfl
  | cons opened outer ih =>
      rw [List.map_cons, closeBrackets, closeBrackets, Cursor.token_shift, Cursor.span_shift h,
        Span.merge_shift]
      split
      · rw [Cursor.next_shift]
        exact ih ⟨ty.item.arrayOf, opened.merge c.span⟩ h.next
      · rfl

theorem readType_shift (n : Nat) {c : Cursor} (h : c.HasTokens) :
    readType (c.shift n) = movedReading n (Located.shift n) (readType c) := by
  have hinner := h.passOpenBrackets
  rw [readType, readType, Cursor.passOpenBrackets_shift]
  generalize c.passOpenBrackets = opening at hinner
  rcases opening with ⟨opens, inner⟩
  dsimp only at hinner ⊢
  rw [Cursor.token_shift, Cursor.span_shift hinner, Cursor.next_shift, Cursor.wanted_shift hinner]
  split
  · next name _ => exact closeBrackets_shift n opens ⟨⟨.ofName name, 0⟩, inner.span⟩ hinner.next
  all_goals rfl

theorem readTypes_eq (c : Cursor) :
    readTypes c =
      match readType c with
      | (.error e, stopped) => (.error e, stopped)
      | (.ok ty, after) =>
        match after.token with
        | .arrow => ((readTypes after.next).1.map (ty :: ·), (readTypes after.next).2)
        | .eof => (.ok [ty], after)
        | .openBracket | .closeBracket => (.error ⟨.malformedBrackets, after.span⟩, after)
        | _ => (.error (after.wanted "`->`"), after) := by
  rw [readTypes]
  split
  · next hread => simp only [hread]
  · next after hread => cases htoken : after.token <;> simp only [hread, htoken]

theorem moved_map_cons (n : Nat) (ty : Located Ty) (x : Except Refusal (List (Located Ty))) :
    (moved n (List.map (Located.shift n)) x).map (ty.shift n :: ·) =
      moved n (List.map (Located.shift n)) (x.map (ty :: ·)) := by
  cases x <;> rfl

theorem readTypes_shift (n : Nat) {c : Cursor} (h : c.HasTokens) :
    readTypes (c.shift n) = movedReading n (List.map (Located.shift n)) (readTypes c) := by
  -- each type takes tokens, so the induction is on how many are left
  induction hlength : c.rest.length using Nat.strongRecOn generalizing c with
  | ind length ih =>
      subst hlength
      rw [readTypes_eq, readTypes_eq c, readType_shift n h]
      cases hread : readType c with
      | mk result after =>
          cases result with
          | error e => rfl
          | ok ty =>
              have hafter := h.after_readType hread
              have hless :=
                Nat.lt_of_le_of_lt after.length_rest_next_le (length_rest_readType_lt hread)
              simp only [movedReading, moved_ok, Cursor.token_shift, Cursor.next_shift,
                Cursor.span_shift hafter, Cursor.wanted_shift hafter,
                  ih _ hless hafter.next rfl, moved_map_cons]
              split <;> rfl

theorem readTypeList_shift (n : Nat) {c : Cursor} (h : c.HasTokens) :
    readTypeList (c.shift n) = movedReading n (List.map (Located.shift n)) (readTypeList c) := by
  rw [readTypeList, readTypeList, Cursor.token_shift]
  split
  · simp only [Cursor.next_shift, Cursor.token_shift, Cursor.lastSpan_shift h.next]
    split
    · exact readTypes_shift n h.next.next
    · rfl
  · rw [readTypes_shift n h]
    rcases readTypes c with ⟨e | types, stopped⟩
    · rfl
    · rcases types with _ | ⟨ty, _ | ⟨ty', types⟩⟩ <;> rfl

theorem readTypeText_shift (n start : Nat) (text : List Char) :
    readTypeText (n + start) text =
      moved n (List.map (Located.shift n)) (readTypeText start text) := by
  rw [readTypeText, readTypeText, tokenizeFrom_shift]
  cases hread : tokenizeFrom start text with
  | error e => rfl
  | ok tokens =>
      obtain ⟨body, htokens, _⟩ := (tokenizeFrom_eq_ok_iff.1 hread).eq_concat
      have hnonempty : (Cursor.ofTokens tokens).HasTokens :=
        .inr (by simp [Cursor.ofTokens, htokens])
      exact congrArg Prod.fst (readTypeList_shift n hnonempty)

/-! ## Signatures -/

namespace Signature

/-- Without equals signs in front of it, a double arrow separates the halves. -/
theorem halves_append_mark {block typeText : List Char} (hmark : ¬ ['=', '>'] <:+: block) :
    halves (block ++ '=' :: '>' :: typeText) = (some block, Text.bytes block + 2, typeText) := by
  rw [halves, (Text.breakOn_eq_some_iff (by decide)).2 ⟨rfl, hmark⟩]

/-- A constraint block in front of a type list puts its clauses beside the types, and the types
behind itself and the double arrow. -/
theorem parse_append_mark {block typeText : String} {clauses : List (Located Clause)}
    (hblock : readConstraints 0 block.toList = .ok clauses)
    (hmark : ¬ ['=', '>'] <:+: typeText.toList) :
    parse (block ++ "=>" ++ typeText) =
      moved (Text.bytes block.toList + 2)
        (fun sig => ⟨block ++ "=>" ++ typeText, clauses,
          sig.typeList.map (Located.shift (Text.bytes block.toList + 2))⟩)
        (parse typeText) := by
  have hallowed := ((readConstraints_eq_ok_iff 0 block.toList _).1 ⟨clauses, hblock, rfl⟩).allows
  have htext : (block ++ "=>" ++ typeText).toList =
      block.toList ++ '=' :: '>' :: typeText.toList := by simp
  have hplain : halves typeText.toList = (none, 0, typeText.toList) := by
    rw [halves, Text.breakOn_eq_none_iff.2 hmark]
  generalize hn : Text.bytes block.toList + 2 = n
  have hscreen := screenTypeList_shift n 0 typeText.toList
  have hread := readTypeText_shift n 0 typeText.toList
  rw [Nat.add_zero] at hscreen hread
  simp only [parse, htext, halves_append_mark (no_mark_of_allows hallowed), hplain, hn, readBlock,
    hblock, hscreen, hread]
  refine moved_bind ?_
  intro _ _
  refine moved_bind ?_
  intro typeList _
  rfl

/-- A constraint block that can be read changes neither whether the type list behind it is read
nor what is read: the types are the same, and their spans, or the span of the same fault, are as
many bytes further on as the block and the double arrow take up. The constraints are the classes
of each variable among the clauses of the block. -/
theorem parse_past_constraints {block typeText : String} {clauses : List (Located Clause)}
    (hblock : readConstraints 0 block.toList = .ok clauses)
    (hmark : ¬ ['=', '>'] <:+: typeText.toList) :
    let source := block ++ "=>" ++ typeText
    let n := Text.bytes block.toList + 2
    ((∃ sig, parse source = .ok sig) ↔ ∃ sig, parse typeText = .ok sig) ∧
      (∀ sig sig', parse typeText = .ok sig → parse source = .ok sig' →
        sig'.types = sig.types ∧
          (∀ i, sig'.spanOfType? i = (sig.spanOfType? i).map (Span.shift n)) ∧
          sig'.clauses = clauses ∧
          ∀ var : String, sig'.constraints[var]? =
            if ∀ clause ∈ clauses, clause.item.var ≠ var then none
            else some ((clauses.filter (·.item.var = var)).map (·.item.className))) ∧
      ∀ e, parse source = .error e ↔ ∃ e', parse typeText = .error e' ∧ e = e'.shift n := by
  intro source n
  have hparse : parse source =
      moved n (fun sig => ⟨source, clauses, sig.typeList.map (Located.shift n)⟩)
      (parse typeText) := parse_append_mark hblock hmark
  refine ⟨?_, ?_, ?_⟩
  · rw [hparse]
    constructor
    · intro ⟨_, hmoved⟩
      obtain ⟨sig, hsig, _⟩ := moved_eq_ok_iff.1 hmoved
      exact ⟨sig, hsig⟩
    · intro ⟨sig, hsig⟩
      exact ⟨_, moved_eq_ok_iff.2 ⟨sig, hsig, rfl⟩⟩
  · intro sig sig' hsig hsig'
    rw [hparse, hsig] at hsig'
    obtain rfl := Except.ok.inj hsig'
    refine ⟨by simp [types, Function.comp_def], fun i => ?_, rfl, fun var => ?_⟩
    · simp [spanOfType?, Function.comp_def]
    · rw [constraints, Constraints.getElem?_ofClauses]
      simp [List.filter_map, Function.comp_def]
  · intro e
    rw [hparse]
    exact moved_eq_error_iff

/-- A block with a wide blank, before a list that is read and before a bracket that is never
closed. -/
theorem parse_past_constraints_sample :
    let block := "Eq\u3000a"
    let clauses : List (Located Clause) := [⟨⟨"Eq", "a"⟩, ⟨0, 6⟩⟩]
    readConstraints 0 block.toList = .ok clauses ∧
      (¬ ['=', '>'] <:+: "[a ]->b".toList ∧
        ∃ sig, parse (block ++ "=>" ++ "[a ]->b") = .ok sig ∧ sig.spanOfType? 0 = some ⟨8, 12⟩ ∧
          sig.constraints["a"]? = some ["Eq"]) ∧
      ¬ ['=', '>'] <:+: "a->[b".toList ∧
        parse (block ++ "=>" ++ "a->[b") = .error ⟨.malformedBrackets, ⟨11, 13⟩⟩ := by
  intro block clauses
  have hblock : readConstraints 0 block.toList = .ok clauses :=
    eq_ok_of_toOption (by decide +kernel)
  have hlist : ¬ ['=', '>'] <:+: "[a ]->b".toList := by decide +kernel
  have hunclosed : ¬ ['=', '>'] <:+: "a->[b".toList := by decide +kernel
  have hparse : parse "[a ]->b" =
      .ok ⟨"[a ]->b", [], [⟨⟨.var "a", 1⟩, ⟨0, 4⟩⟩, ⟨⟨.var "b", 0⟩, ⟨6, 7⟩⟩]⟩ :=
    eq_ok_of_toOption (by decide +kernel)
  have hrefused : parse "a->[b" = .error ⟨.malformedBrackets, ⟨3, 5⟩⟩ := by decide +kernel
  obtain ⟨hiff, hread, _⟩ := parse_past_constraints hblock hlist
  obtain ⟨sig, hsig⟩ := hiff.2 ⟨_, hparse⟩
  obtain ⟨_, hspan, _, hclasses⟩ := hread _ sig hparse hsig
  obtain ⟨_, _, hfault⟩ := parse_past_constraints hblock hunclosed
  refine ⟨hblock, ⟨hlist, sig, hsig, ?_, ?_⟩, hunclosed,
    (hfault _).2 ⟨_, hrefused, by decide +kernel⟩⟩
  · rw [hspan]
    decide +kernel
  · rw [hclasses]
    decide

end Signature

end Covenant
