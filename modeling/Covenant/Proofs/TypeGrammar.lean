import Covenant.Proofs.Rendering
import Covenant.Signature.Parser

/-!
# The grammar of type lists

A type list in tokens: types with arrows between them, where the unit may stand in place of all
parameters. The readers accept these lists and nothing else, and return the types that a list
derives. A reader is described by the run of tokens that it passes, so the description of a list
is put together from those of its types.

## Main definitions

* `Cursor.Passes`: one cursor stands a run of tokens after another.
* `TypeTokens`, `ArrowTypes`, `TypeListTokens`: the tokens of a type, of types that each follow an
  arrow, and of a whole list.

## Main statements

* `readType_eq_ok_iff`, `arrowTypes_of_readTypes`, `readTypes_of_arrowTypes`,
  `readTypeList_eq_ok_iff`: each reader accepts its tokens and returns what they derive.
* `readTypeText_eq_ok_iff`: the texts that are read as a type list.
-/

namespace Covenant

/-! ## Runs of tokens -/

/-- The second cursor is the first one after passing a run of tokens. -/
structure Cursor.Passes (c : Cursor) (run : List (Located Token)) (c' : Cursor) : Prop where
  rest : c.rest = run ++ c'.rest
  passed : c'.passed = run.reverse ++ c.passed

namespace Cursor.Passes

variable {c c₁ c₂ : Cursor} {run run₁ run₂ : List (Located Token)} {x : Located Token}

theorem refl (c : Cursor) : c.Passes [] c := ⟨rfl, rfl⟩

theorem trans (h₁ : c.Passes run₁ c₁) (h₂ : c₁.Passes run₂ c₂) : c.Passes (run₁ ++ run₂) c₂ := by
  constructor
  · rw [h₁.rest, h₂.rest, List.append_assoc]
  · rw [h₂.passed, h₁.passed, List.reverse_append, List.append_assoc]

theorem split (h : c.Passes (run₁ ++ run₂) c₂) : ∃ c₁, c.Passes run₁ c₁ ∧ c₁.Passes run₂ c₂ := by
  refine ⟨⟨run₁.reverse ++ c.passed, run₂ ++ c₂.rest⟩, ⟨?_, rfl⟩, ⟨rfl, ?_⟩⟩
  · rw [h.rest, List.append_assoc]
  · rw [h.passed, List.reverse_append, List.append_assoc]

/-- The cursor stands where it has to stand after the run. -/
theorem unique (h₁ : c.Passes run c₁) (h₂ : c.Passes run c₂) : c₁ = c₂ := by
  have hrest : c₁.rest = c₂.rest := List.append_cancel_left (h₁.rest.symm.trans h₂.rest)
  have hpassed : c₁.passed = c₂.passed := h₁.passed.trans h₂.passed.symm
  cases c₁
  cases c₂
  simp_all

theorem tokens_eq (h : c.Passes run c₁) :
    c₁.passed.reverse ++ c₁.rest = c.passed.reverse ++ c.rest := by
  simp [h.passed, h.rest]

theorem before_end (h : c.Passes run c₁) (hpassed : ∀ t ∈ c.passed, t.item ≠ .eof)
    (hrun : ∀ t ∈ run, t.item ≠ .eof) : ∀ t ∈ c₁.passed, t.item ≠ .eof := by
  intro t ht
  rw [h.passed] at ht
  rcases List.mem_append.1 ht with ht | ht
  · exact hrun t (List.mem_reverse.1 ht)
  · exact hpassed t ht

/-- The first token of the run stands at the cursor. -/
theorem token_eq (h : c.Passes (x :: run) c₁) : c.token = x.item := by
  rw [Cursor.token, h.rest]
  rfl

/-- After its first token the rest of the run is still to be passed. -/
theorem next (h : c.Passes (x :: run) c₁) (hx : x.item ≠ .eof) : c.next.Passes run c₁ := by
  have hrest := h.rest
  rw [List.cons_append] at hrest
  have hnext : c.next = ⟨x :: c.passed, run ++ c₁.rest⟩ := by
    rw [Cursor.next, hrest]
    exact if_neg hx
  rw [hnext]
  exact ⟨rfl, by simpa using h.passed⟩

end Cursor.Passes

theorem Cursor.passes_next {c : Cursor} (h : c.token ≠ .eof) :
    ∃ x, x.item = c.token ∧ c.Passes [x] c.next := by
  rcases hrest : c.rest with _ | ⟨x, rest⟩
  · simp [Cursor.token, hrest] at h
  · have hx : c.token = x.item := by simp [Cursor.token, hrest]
    have hnext : c.next = ⟨x :: c.passed, rest⟩ := by simp [Cursor.next, hrest, ← hx, h]
    exact ⟨x, hx.symm, by simp [hrest, hnext], by simp [hnext]⟩

/-! ## Brackets -/

/-- All opening brackets at the cursor are passed, and no more. -/
theorem Cursor.passes_passOpenBrackets (c : Cursor) :
    ∃ run, c.Passes run c.passOpenBrackets.2 ∧
      run.map (·.item) = List.replicate c.passOpenBrackets.1.length .openBracket := by
  refine ⟨c.rest.takeWhile (·.item = .openBracket), ⟨?_, rfl⟩, ?_⟩
  · exact List.takeWhile_append_dropWhile.symm
  · rw [List.eq_replicate_iff]
    refine ⟨by simp [Cursor.passOpenBrackets], ?_⟩
    intro t ht
    obtain ⟨x, hx, rfl⟩ := List.mem_map.1 ht
    simpa using List.all_eq_true.1 List.all_takeWhile x hx

/-- Opening brackets in front of something else are passed. -/
theorem Cursor.passOpenBrackets_of_passes {c c₁ : Cursor} {run : List (Located Token)}
    (h : c.Passes run c₁) (hrun : ∀ x ∈ run, x.item = .openBracket)
    (hend : c₁.token ≠ .openBracket) :
    ∃ opens, c.passOpenBrackets = (opens, c₁) ∧ opens.length = run.length := by
  have hhead : ∀ x ∈ c₁.rest.head?, decide (x.item = .openBracket) = false := by
    intro x hx
    obtain ⟨rest, hrest⟩ := List.head?_eq_some_iff.1 hx
    simpa [Cursor.token, hrest] using hend
  obtain ⟨htake, hdrop⟩ :=
    takeWhile_append_of_head c₁.rest (fun x hx => decide_eq_true (hrun x hx)) hhead
  refine ⟨run.reverse.map (·.span), ?_, by simp⟩
  rw [Cursor.passOpenBrackets, h.rest, htake, hdrop, ← h.passed]

/-- As many brackets are closed as are open, and each makes the type an array. -/
theorem closeBrackets_eq_ok_iff (opens : List Span) (ty : Located Ty) (c c' : Cursor) (u : Ty) :
    (∃ span, closeBrackets opens ty c = (.ok ⟨u, span⟩, c')) ↔
      ∃ run, c.Passes run c' ∧ run.map (·.item) = List.replicate opens.length .closeBracket ∧
        u = ⟨ty.item.base, ty.item.depth + opens.length⟩ := by
  induction opens generalizing ty c with
  | nil =>
      simp only [closeBrackets, Prod.mk.injEq, Except.ok.injEq]
      constructor
      · rintro ⟨_, rfl, rfl⟩
        exact ⟨[], .refl c, rfl, rfl⟩
      · rintro ⟨run, hrun, hitems, rfl⟩
        obtain rfl : run = [] := by simpa using hitems
        exact ⟨ty.span, rfl, Cursor.Passes.unique (.refl c) hrun⟩
  | cons opened outer ih =>
      rw [closeBrackets]
      by_cases hclose : c.token = .closeBracket
      · rw [if_pos hclose, ih]
        constructor
        · rintro ⟨run, hrun, hitems, hu⟩
          obtain ⟨x, hx, hpass⟩ := Cursor.passes_next (c := c) (by simp [hclose])
          refine ⟨x :: run, hpass.trans hrun, ?_, ?_⟩
          · simp [hx, hclose, hitems, List.replicate_succ]
          · simp only [hu, Ty.arrayOf, List.length_cons, Ty.mk.injEq, true_and]
            omega
        · rintro ⟨run, hrun, hitems, hu⟩
          cases run with
          | nil => simp at hitems
          | cons x run =>
              simp only [List.map_cons, List.length_cons, List.replicate_succ,
                List.cons.injEq] at hitems
              refine ⟨run, hrun.next (by simp [hitems.1]), hitems.2, ?_⟩
              simp only [hu, Ty.arrayOf, List.length_cons, Ty.mk.injEq, true_and]
              omega
      · rw [if_neg hclose]
        constructor
        · rintro ⟨_, h⟩
          cases (Prod.mk.inj h).1
        · rintro ⟨run, hrun, hitems, hu⟩
          cases run with
          | nil => simp at hitems
          | cons x run =>
              simp only [List.map_cons, List.length_cons, List.replicate_succ,
                List.cons.injEq] at hitems
              exact absurd (hrun.token_eq.trans hitems.1) hclose

/-! ## The grammar -/

/-- A type is a name between equally many opening and closing brackets. -/
inductive TypeTokens : List Token → Ty → Prop
  | intro (name : String) (depth : Nat) :
      TypeTokens
        (List.replicate depth .openBracket ++ .ident name :: List.replicate depth .closeBracket)
        ⟨.ofName name, depth⟩

/-- One or more types, each after an arrow. -/
inductive ArrowTypes : List Token → List Ty → Prop
  | last {tokens : List Token} {ty : Ty} (h : TypeTokens tokens ty) :
      ArrowTypes (.arrow :: tokens) [ty]
  | cons {tokens rest : List Token} {ty : Ty} {types : List Ty} (h : TypeTokens tokens ty)
      (hrest : ArrowTypes rest types) : ArrowTypes (.arrow :: (tokens ++ rest)) (ty :: types)

/-- A type list starts with the unit, which is no type of its own, or with a type. -/
inductive TypeListTokens : List Token → List Ty → Prop
  | unit {rest : List Token} {types : List Ty} (hrest : ArrowTypes rest types) :
      TypeListTokens (.unit :: rest) types
  | types {tokens rest : List Token} {ty : Ty} {types : List Ty} (h : TypeTokens tokens ty)
      (hrest : ArrowTypes rest types) : TypeListTokens (tokens ++ rest) (ty :: types)

theorem TypeTokens.ne_nil {tokens : List Token} {ty : Ty}
    (h : TypeTokens tokens ty) : tokens ≠ [] := by
  cases h
  simp

/-- A type is written with names and brackets alone. -/
theorem TypeTokens.eq_of_mem {tokens : List Token} {ty : Ty} (h : TypeTokens tokens ty) {t : Token}
    (ht : t ∈ tokens) : (∃ name, t = .ident name) ∨ t = .openBracket ∨ t = .closeBracket := by
  cases h with
  | intro name depth =>
      rcases List.mem_append.1 ht with ht | ht
      · exact .inr (.inl (List.eq_of_mem_replicate ht))
      · rcases List.mem_cons.1 ht with rfl | ht
        · exact .inl ⟨name, rfl⟩
        · exact .inr (.inr (List.eq_of_mem_replicate ht))

theorem ArrowTypes.eq_cons {tokens : List Token} {types : List Ty} (h : ArrowTypes tokens types) :
    ∃ rest, tokens = .arrow :: rest := by
  cases h with
  | last => exact ⟨_, rfl⟩
  | cons => exact ⟨_, rfl⟩

theorem TypeTokens.eof_not_mem {tokens : List Token} {ty : Ty} (h : TypeTokens tokens ty) :
    .eof ∉ tokens := by
  intro hmem
  simpa using h.eq_of_mem hmem

theorem TypeTokens.item_ne_eof {run : List (Located Token)} {ty : Ty}
    (h : TypeTokens (run.map (·.item)) ty) :
    ∀ t ∈ run, t.item ≠ .eof := by
  intro t ht heof
  exact h.eof_not_mem (heof ▸ List.mem_map_of_mem ht)

theorem ArrowTypes.eof_not_mem {tokens : List Token} {types : List Ty}
    (h : ArrowTypes tokens types) :
    .eof ∉ tokens := by
  induction h with
  | last hty => simp [hty.eof_not_mem]
  | cons hty _ ih => simp [hty.eof_not_mem, ih]

theorem TypeListTokens.eof_not_mem {tokens : List Token} {types : List Ty}
    (h : TypeListTokens tokens types) : .eof ∉ tokens := by
  cases h with
  | unit hrest => simp [hrest.eof_not_mem]
  | types hty hrest => simp [hty.eof_not_mem, hrest.eof_not_mem]

theorem TypeListTokens.types_ne_nil {tokens : List Token} {types : List Ty}
    (h : TypeListTokens tokens types) : types ≠ [] := by
  cases h with
  | unit hrest => cases hrest <;> simp
  | types => simp

/-! ## Readers -/

theorem readType_eq_ok_iff (c c' : Cursor) (ty : Ty) :
    (∃ span, readType c = (.ok ⟨ty, span⟩, c')) ↔
      ∃ run, c.Passes run c' ∧ TypeTokens (run.map (·.item)) ty := by
  constructor
  · rintro ⟨span, h⟩
    obtain ⟨opening, hopening, hopens⟩ := c.passes_passOpenBrackets
    rw [readType] at h
    rcases hpass : c.passOpenBrackets with ⟨opens, inner⟩
    simp only [hpass] at h hopening hopens
    split at h
    · next name hname =>
        obtain ⟨x, hx, hident⟩ := Cursor.passes_next (c := inner) (by simp [hname])
        obtain ⟨closing, hclosing, hcloses, rfl⟩ := (closeBrackets_eq_ok_iff _ _ _ _ _).1 ⟨span, h⟩
        refine ⟨opening ++ ([x] ++ closing), hopening.trans (hident.trans hclosing), ?_⟩
        simp only [List.map_append, hopens, hcloses, List.map_cons, hx, hname,
          List.singleton_append, Nat.zero_add]
        exact .intro name opens.length
    all_goals cases (Prod.mk.inj h).1
  · rintro ⟨run, hrun, htokens⟩
    generalize hitems : run.map (·.item) = items at htokens
    obtain ⟨name, depth⟩ := htokens
    obtain ⟨opening, rest, rfl, hopening, hrest⟩ := List.map_eq_append_iff.1 hitems
    obtain ⟨x, closing, rfl, hx, hclosing⟩ := List.map_eq_cons_iff.1 hrest
    obtain ⟨inner, houter, hinner⟩ := hrun.split
    have hname : inner.token = .ident name := hinner.token_eq.trans hx
    have hlength : opening.length = depth := by simpa using congrArg List.length hopening
    obtain ⟨opens, hopens, hcount⟩ := Cursor.passOpenBrackets_of_passes houter
      (fun y hy => List.eq_of_mem_replicate (hopening ▸ List.mem_map_of_mem hy)) (by simp [hname])
    simp only [readType, hopens, hname]
    rw [closeBrackets_eq_ok_iff]
    refine ⟨closing, hinner.next (by simp [hx]), ?_, ?_⟩
    · rw [hclosing, hcount, hlength]
    · simp [hcount, hlength]

/-- After a type, reading stops at the end and goes on after an arrow. -/
theorem readTypes_step (c c' : Cursor) (located : List (Located Ty)) :
    readTypes c = (.ok located, c') ↔
      ∃ ty after, readType c = (.ok ty, after) ∧
        (after.token = .eof ∧ located = [ty] ∧ c' = after ∨
          after.token = .arrow ∧ ∃ rest, readTypes after.next = (.ok rest, c') ∧
            located = ty :: rest) := by
  constructor
  · intro h
    rw [readTypes] at h
    split at h
    · cases (Prod.mk.inj h).1
    · next ty after hty =>
        refine ⟨ty, after, hty, ?_⟩
        split at h
        · next harrow =>
            obtain ⟨hmap, hstop⟩ := Prod.mk.inj h
            obtain ⟨rest, hrest, hlocated⟩ := map_eq_ok_iff.1 hmap
            exact .inr ⟨harrow, rest, Prod.ext hrest hstop, hlocated.symm⟩
        · next heof =>
            obtain ⟨hok, hstop⟩ := Prod.mk.inj h
            exact .inl ⟨heof, (Except.ok.inj hok).symm, hstop.symm⟩
        all_goals cases (Prod.mk.inj h).1
  · rintro ⟨ty, after, hty, ⟨heof, rfl, rfl⟩ | ⟨harrow, rest, hrest, rfl⟩⟩
    · rw [readTypes]
      split <;> simp_all
    · rw [readTypes]
      split <;> simp_all [Except.map]

/-- What is read as types has an arrow between each and the next, and is read to its end. -/
theorem arrowTypes_of_readTypes {located : List (Located Ty)} {c c' : Cursor}
    (h : readTypes c = (.ok located, c')) :
    c'.token = .eof ∧
      ∃ run, c.Passes run c' ∧ ArrowTypes (.arrow :: run.map (·.item)) (located.map (·.item)) := by
  -- the types that follow are read from after the arrow, so the induction is on the list that is
  -- read
  induction located generalizing c with
  | nil =>
      obtain ⟨_, _, _, ⟨_, hnil, _⟩ | ⟨_, _, _, hnil⟩⟩ :=
        (readTypes_step c c' []).1 h <;> cases hnil
  | cons ty types ih =>
      obtain ⟨first, after, hty, hcase⟩ := (readTypes_step c c' _).1 h
      obtain ⟨run, hrun, htokens⟩ := (readType_eq_ok_iff c after first.item).1 ⟨first.span, hty⟩
      rcases hcase with ⟨heof, heq, rfl⟩ | ⟨harrow, rest, hrest, heq⟩
      · cases heq
        exact ⟨heof, run, hrun, .last htokens⟩
      · cases heq
        obtain ⟨heof, tail, htail, htypes⟩ := ih hrest
        obtain ⟨x, hx, hpass⟩ := Cursor.passes_next (c := after) (by simp [harrow])
        refine ⟨heof, run ++ ([x] ++ tail), hrun.trans (hpass.trans htail), ?_⟩
        simp only [List.map_append, List.map_cons, List.singleton_append, hx, harrow]
        exact .cons htokens htypes

/-- Types with arrows between them are read, up to the end. -/
theorem readTypes_of_arrowTypes {tokens : List Token} {types : List Ty}
    (h : ArrowTypes tokens types) {c c' : Cursor} {run : List (Located Token)}
    (hrun : c.Passes run c') (hend : c'.token = .eof)
    (hitems : tokens = .arrow :: run.map (·.item)) :
    ∃ located, readTypes c = (.ok located, c') ∧ located.map (·.item) = types := by
  induction h generalizing c run with
  | @last tokens ty htokens =>
      obtain rfl := (List.cons.inj hitems).2
      obtain ⟨span, hty⟩ := (readType_eq_ok_iff c c' ty).2 ⟨run, hrun, htokens⟩
      exact ⟨[⟨ty, span⟩], (readTypes_step c c' _).2 ⟨_, c', hty, .inl ⟨hend, rfl, rfl⟩⟩, rfl⟩
  | @cons tokens rest ty types htokens hrest ih =>
      obtain ⟨first, tail, rfl, rfl, htail⟩ :=
        List.map_eq_append_iff.1 (List.cons.inj hitems).2.symm
      obtain ⟨after, hfirst, htailPasses⟩ := hrun.split
      obtain ⟨span, hty⟩ := (readType_eq_ok_iff c after ty).2 ⟨first, hfirst, htokens⟩
      obtain ⟨_, rfl⟩ := hrest.eq_cons
      obtain ⟨x, more, rfl, hx, hmore⟩ := List.map_eq_cons_iff.1 htail
      obtain ⟨located, hread, hlocated⟩ := ih (htailPasses.next (by simp [hx])) (by rw [hmore])
      refine ⟨⟨ty, span⟩ :: located, (readTypes_step c c' _).2 ⟨_, after, hty, .inr ?_⟩, ?_⟩
      · exact ⟨htailPasses.token_eq.trans hx, located, hread, rfl⟩
      · simp [hlocated]

/-- After the unit comes an arrow, and then types as after any other arrow. -/
theorem readTypeList_of_unit {c : Cursor} (h : c.token = .unit) (located : List (Located Ty)) :
    (readTypeList c).1 = .ok located ↔
      c.next.token = .arrow ∧ (readTypes c.next.next).1 = .ok located := by
  rw [readTypeList, if_pos h]
  by_cases harrow : c.next.token = .arrow <;> simp [harrow]

/-- Without the unit, there are two types or more. -/
theorem readTypeList_of_ne_unit {c : Cursor} (h : c.token ≠ .unit) (located : List (Located Ty)) :
    (readTypeList c).1 = .ok located ↔ (readTypes c).1 = .ok located ∧ ∀ ty, located ≠ [ty] := by
  rw [readTypeList, if_neg h]
  rcases hread : readTypes c with ⟨_ | types, stopped⟩
  · simp
  · rcases types with _ | ⟨ty, _ | ⟨_, _⟩⟩ <;> grind

theorem readTypeList_eq_ok_iff (c : Cursor) (types : List Ty) :
    (∃ located, (readTypeList c).1 = .ok located ∧ located.map (·.item) = types) ↔
      ∃ run c', c.Passes run c' ∧ c'.token = .eof ∧ TypeListTokens (run.map (·.item)) types := by
  constructor
  · rintro ⟨located, h, rfl⟩
    by_cases hunit : c.token = .unit
    · obtain ⟨harrow, hread⟩ := (readTypeList_of_unit hunit located).1 h
      obtain ⟨x, hx, hpassUnit⟩ := Cursor.passes_next (c := c) (by simp [hunit])
      obtain ⟨y, hy, hpassArrow⟩ := Cursor.passes_next (c := c.next) (by simp [harrow])
      obtain ⟨heof, run, hrun, htypes⟩ := arrowTypes_of_readTypes (Prod.ext hread rfl)
      refine ⟨[x] ++ ([y] ++ run), _, hpassUnit.trans (hpassArrow.trans hrun), heof, ?_⟩
      simp only [List.map_cons, List.singleton_append, hx, hy, hunit, harrow]
      exact .unit htypes
    · obtain ⟨hread, hlength⟩ := (readTypeList_of_ne_unit hunit located).1 h
      obtain ⟨heof, run, hrun, htypes⟩ := arrowTypes_of_readTypes (Prod.ext hread rfl)
      refine ⟨run, _, hrun, heof, ?_⟩
      generalize hitems : run.map (·.item) = items at htypes
      generalize hall : located.map (·.item) = all at htypes
      cases htypes with
      | last _ =>
          obtain ⟨ty, _, rfl, _, hnil⟩ := List.map_eq_cons_iff.1 hall
          exact absurd (by rw [List.map_eq_nil_iff.1 hnil]) (hlength ty)
      | cons hty hrest => exact .types hty hrest
  · rintro ⟨run, c', hrun, heof, htypes⟩
    generalize hitems : run.map (·.item) = items at htypes
    cases htypes with
    | unit hrest =>
        obtain ⟨x, tail, rfl, hx, htail⟩ := List.map_eq_cons_iff.1 hitems
        obtain ⟨_, rfl⟩ := hrest.eq_cons
        obtain ⟨y, more, rfl, hy, hmore⟩ := List.map_eq_cons_iff.1 htail
        have hafter := hrun.next (by simp [hx])
        obtain ⟨located, hread, hlocated⟩ :=
          readTypes_of_arrowTypes hrest (hafter.next (by simp [hy])) heof (by rw [hmore])
        refine ⟨located, (readTypeList_of_unit (hrun.token_eq.trans hx) located).2 ⟨?_, ?_⟩,
          hlocated⟩
        · exact hafter.token_eq.trans hy
        · rw [hread]
    | @types tokens rest ty types hty hrest =>
        obtain ⟨located, hread, hlocated⟩ :=
          readTypes_of_arrowTypes (.cons hty hrest) hrun heof (by rw [hitems])
        refine ⟨located, (readTypeList_of_ne_unit ?_ located).2 ⟨by rw [hread], ?_⟩, hlocated⟩
        · obtain ⟨first, more, rfl⟩ := List.exists_cons_of_ne_nil hty.ne_nil
          obtain ⟨x, _, rfl, hx, _⟩ := List.map_eq_cons_iff.1 hitems
          rw [hrun.token_eq, hx]
          rintro rfl
          simpa using hty.eq_of_mem List.mem_cons_self
        · rintro x rfl
          have htypes : types = [] := (List.cons.inj hlocated).2.symm
          subst htypes
          cases hrest

/-! ## Texts -/

theorem Spells.eof_not_mem {tokens : List Token} {text : List Char} (h : Spells tokens text) :
    .eof ∉ tokens := by
  induction h with
  | nil => simp
  | blank _ _ ih => exact ih
  | token ht _ _ ih =>
      intro hmem
      rcases List.mem_cons.1 hmem with rfl | hmem
      · cases ht
      · exact ih hmem

/-- A cursor over the tokens of a text can pass all of them up to the end. -/
theorem Cursor.passes_to_eof {tokens : List Token} {located : List (Located Token)}
    (h : located.map (·.item) = tokens ++ [.eof]) :
    ∃ run c', (Cursor.ofTokens located).Passes run c' ∧ c'.token = .eof ∧
      run.map (·.item) = tokens := by
  obtain ⟨run, last, rfl, hrun, hlast⟩ := List.map_eq_append_iff.1 h
  obtain ⟨x, _, rfl, hx, _⟩ := List.map_eq_cons_iff.1 hlast
  exact ⟨run, ⟨run.reverse, _⟩, ⟨rfl, by simp [Cursor.ofTokens]⟩, hx, hrun⟩

/-- A run of tokens up to the end is all of them. -/
theorem Spells.eq_of_passes {tokens : List Token} {text : List Char} (h : Spells tokens text)
    {located : List (Located Token)} (hlocated : located.map (·.item) = tokens ++ [.eof])
    {run : List (Located Token)} {c' : Cursor} (hrun : (Cursor.ofTokens located).Passes run c')
    (hend : c'.token = .eof) (heof : .eof ∉ run.map (·.item)) : run.map (·.item) = tokens := by
  have hsplit : run.map (·.item) ++ c'.rest.map (·.item) = tokens ++ [.eof] := by
    rw [← hlocated, ← List.map_append, ← hrun.rest]
    rfl
  rcases List.append_eq_append_iff.1 hsplit with ⟨more, htokens, hrest⟩ | ⟨more, hitems, hrest⟩
  · cases more with
    | nil => rw [htokens, List.append_nil]
    | cons t more =>
        -- the cursor would stand at the end before the last token
        obtain ⟨x, _, hc', hx, _⟩ := List.map_eq_cons_iff.1 hrest
        have ht : t = .eof := by rw [← hx, ← hend, Cursor.token, hc']
        exact absurd (by simp [htokens, ht]) h.eof_not_mem
  · cases more with
    | nil => rw [hitems, List.append_nil]
    | cons t more =>
        have ht : t = .eof := (List.cons.inj hrest).1.symm
        exact absurd (by simp [hitems, ht]) heof

/-- The texts that are read as a type list are those that spell one. -/
theorem readTypeText_eq_ok_iff (start : Nat) (text : List Char) (types : List Ty) :
    (∃ located, readTypeText start text = .ok located ∧ located.map (·.item) = types) ↔
      ∃ tokens, Spells tokens text ∧ TypeListTokens tokens types := by
  constructor
  · rintro ⟨types, h, rfl⟩
    obtain ⟨located, hlexed, hread⟩ := bind_eq_ok_iff.1 h
    have hrenders := tokenizeFrom_eq_ok_iff.1 (mapError_eq_ok_iff.1 hlexed)
    obtain ⟨tokens, hlocated, hspells⟩ := hrenders.spells
    obtain ⟨run, c', hrun, hend, htypes⟩ := (readTypeList_eq_ok_iff _ _).1 ⟨types, hread, rfl⟩
    have hitems := hspells.eq_of_passes hlocated hrun hend htypes.eof_not_mem
    exact ⟨tokens, hspells, hitems ▸ htypes⟩
  · rintro ⟨tokens, hspells, htypes⟩
    obtain ⟨located, hrenders, hlocated⟩ := hspells.renders start
    obtain ⟨run, c', hrun, hend, rfl⟩ := Cursor.passes_to_eof hlocated
    obtain ⟨types, hread, rfl⟩ := (readTypeList_eq_ok_iff _ _).2 ⟨run, c', hrun, hend, htypes⟩
    have hlexed := tokenizeFrom_eq_ok_iff.2 hrenders
    exact ⟨types, bind_eq_ok_iff.2 ⟨located, mapError_eq_ok_iff.2 hlexed, hread⟩, rfl⟩

end Covenant
