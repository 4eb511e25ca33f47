import Covenant.Proofs.Places
import Covenant.Proofs.Screening

/-!
# Reading a screened text

A text that was let through by its characters can still be no type list, but it fails in fewer
ways. Its tokens have their brackets in order, and this stays true of the tokens still to be read
wherever a type starts: a type closes what it opens, and the arrow after it stands outside all
brackets.
-/

namespace Covenant

/-! ## Tokens of a screened text -/

/-- An allowed character is never refused as a token. -/
theorem not_unexpectedChar_of_allows {start : Nat} {text : List Char} {e : TokenError}
    (hallowed : ∀ c ∈ text, Half.typeList.allows c = true) (h : tokenizeFrom start text = .error e)
    (ch : Char) : e.item ≠ .unexpectedChar ch := by
  intro hitem
  obtain ⟨inside, c, cs, rfl, hc, hread, _⟩ := exists_lexeme_of_tokenizeFrom h
  obtain ⟨hpiece, hforeign⟩ := Lexeme.shown_of_read hc (hitem ▸ hread)
  have hmem : ch ∈ inside ++ c :: cs := by
    rw [← Lexeme.text_append_rest c cs, hpiece]
    simp
  rw [hallowed ch hmem] at hforeign
  cases hforeign

/-- A dash in a text that spells tokens belongs to an arrow. -/
theorem Spells.arrow_mem {tokens : List Token} {text : List Char} (h : Spells tokens text)
    (hdash : '-' ∈ text) : .arrow ∈ tokens := by
  induction h with
  | nil => cases hdash
  | blank hc _ ih =>
      rcases List.mem_cons.1 hdash with rfl | hdash
      · cases hc
      · exact ih hdash
  | token ht _ _ ih =>
      rcases List.mem_append.1 hdash with hdash | hdash
      · cases ht with
        | ident hname => exact absurd rfl (plain_of_isNameChar (hname.2 _ hdash)).2.2
        | arrow => exact List.mem_cons_self
        | @unit blanks hblanks =>
            have hblank : '-' ∈ blanks := by simpa using hdash
            exact absurd rfl (plain_of_isBlank (hblanks _ hblank)).2.2
        | openBracket | closeBracket => simp at hdash
      · exact List.mem_cons_of_mem _ (ih hdash)

/-! ## Places in a type -/

/-- The tokens of a type up to a place in it, where so many of its brackets are open. -/
inductive PartOfType : List Token → Nat → Prop
  | opening (depth : Nat) : PartOfType (List.replicate depth .openBracket) depth
  | closing (name : String) (depth closed : Nat) :
      PartOfType
        (List.replicate (depth + closed) .openBracket ++ .ident name ::
          List.replicate closed .closeBracket)
        depth

/-- Inside a type, its open brackets count. -/
theorem PartOfType.nested_append_iff {tokens : List Token} {depth : Nat}
    (h : PartOfType tokens depth) {rest : List Token} :
    Nested 0 (tokens ++ rest) ↔ Nested depth rest := by
  cases h with
  | opening => rw [nested_replicate_open, Nat.zero_add]
  | closing name depth closed =>
      rw [List.append_assoc, nested_replicate_open, Nat.zero_add, List.cons_append, Nested,
        nested_replicate_close]

/-- Closing brackets stops where a bracket is still open. -/
theorem closeBrackets_eq_error {opens : List Span} {ty : Located Ty} {c stopped : Cursor}
    {e : Refusal} (h : closeBrackets opens ty c = (.error e, stopped)) :
    e.item = .malformedBrackets ∧
      ∃ run depth closed, opens.length = depth + closed ∧ 0 < depth ∧ c.Passes run stopped ∧
        run.map (·.item) = List.replicate closed .closeBracket := by
  induction opens generalizing ty c with
  | nil => cases (Prod.mk.inj h).1
  | cons opened outer ih =>
      rw [closeBrackets] at h
      split at h
      · next hclose =>
          obtain ⟨hitem, run, depth, closed, hlength, hdepth, hrun, hitems⟩ := ih h
          obtain ⟨x, hx, hpass⟩ := Cursor.passes_next (c := c) (by simp [hclose])
          refine ⟨hitem, x :: run, depth, closed + 1, ?_, hdepth, hpass.trans hrun, ?_⟩
          · rw [List.length_cons, hlength, Nat.add_assoc]
          · rw [List.map_cons, hx, hclose, hitems, List.replicate_succ]
      · cases h
        exact ⟨rfl, [], outer.length + 1, 0, rfl, Nat.succ_pos _, .refl _, rfl⟩

theorem Cursor.length_passOpenBrackets_pos {c : Cursor} (h : c.token = .openBracket) :
    0 < c.passOpenBrackets.1.length := by
  rcases hrest : c.rest with _ | ⟨x, rest⟩
  · simp [Cursor.token, hrest] at h
  · have hx : x.item = .openBracket := by simpa [Cursor.token, hrest] using h
    simp [Cursor.passOpenBrackets, hrest, hx]

/-- Reading a type stops at a place in it. If the type starts with a bracket, or if a token was
passed, a bracket is open there. -/
theorem readType_eq_error {c stopped : Cursor} {e : Refusal}
    (h : readType c = (.error e, stopped)) :
    (∀ n, e.item ≠ .tooFewTypes n) ∧
      ∃ run depth, c.Passes run stopped ∧ PartOfType (run.map (·.item)) depth ∧
        (c.token = .openBracket ∨ run ≠ [] → 0 < depth) := by
  obtain ⟨opening, hopening, hopens⟩ := c.passes_passOpenBrackets
  have hpos := c.length_passOpenBrackets_pos
  rw [readType] at h
  rcases hpass : c.passOpenBrackets with ⟨opens, inner⟩
  simp only [hpass] at h hopening hopens hpos
  have hstop : PartOfType (opening.map (·.item)) opens.length := hopens ▸ .opening opens.length
  have hlength : opening.length = opens.length := by simpa using congrArg List.length hopens
  split at h
  · next name hname =>
      obtain ⟨hitem, closing, depth, closed, hlength, hdepth, hclosing, hcloses⟩ :=
        closeBrackets_eq_error h
      obtain ⟨x, hx, hident⟩ := Cursor.passes_next (c := inner) (by simp [hname])
      refine ⟨by simp [hitem], opening ++ ([x] ++ closing), depth, ?_, ?_, fun _ => hdepth⟩
      · exact hopening.trans (hident.trans hclosing)
      · simp only [List.map_append, hopens, hlength, hcloses, List.map_cons, hx, hname,
          List.singleton_append]
        exact .closing name depth closed
  all_goals
    cases h
    refine ⟨by simp [Cursor.wanted], opening, opens.length, hopening, hstop, ?_⟩
    rintro (hopen | hpassed)
    · exact hpos hopen
    · rw [← hlength]
      exact List.length_pos_iff.2 hpassed

/-! ## Places where a type is read -/

/-- The cursors at which a type is read, in a type list that starts at `start`: the first of them,
after the unit and its arrow if there is a unit, and those after the arrow behind a type. -/
inductive ReadsTypeAt (start : Cursor) : Cursor → Prop
  | first (hunit : start.token ≠ .unit) : ReadsTypeAt start start
  | afterUnit (hunit : start.token = .unit) (harrow : start.next.token = .arrow) :
      ReadsTypeAt start start.next.next
  | afterArrow {c after : Cursor} {ty : Located Ty} (h : ReadsTypeAt start c)
      (hty : readType c = (.ok ty, after)) (harrow : after.token = .arrow) :
        ReadsTypeAt start after.next

/-- Reading types fails in one of them, with its refusal, or after one that neither an arrow nor
the end follows. -/
theorem ReadsTypeAt.exists_failing {start c stopped : Cursor} {e : Refusal}
    (h : ReadsTypeAt start c) (hread : readTypes c = (.error e, stopped)) :
    ∃ last, ReadsTypeAt start last ∧
      (readType last = (.error e, stopped) ∨
        (∃ ty, readType last = (.ok ty, stopped)) ∧ stopped.token ≠ .arrow ∧ stopped.token ≠ .eof ∧
          (e = ⟨.malformedBrackets, stopped.span⟩ ∨ e = stopped.wanted "`->`")) := by
  -- each type takes tokens, so the induction is on how many are left
  induction hn : c.rest.length using Nat.strongRecOn generalizing c with
  | ind n ih =>
      subst hn
      rw [readTypes] at hread
      split at hread
      · next hty =>
          cases hread
          exact ⟨c, h, .inl hty⟩
      · next ty after hty =>
          split at hread
          · next harrow =>
              have hlength :=
                Nat.lt_of_le_of_lt after.length_rest_next_le (length_rest_readType_lt hty)
              obtain ⟨hresult, hstopped⟩ := Prod.mk.inj hread
              have hrest : readTypes after.next = (.error e, stopped) :=
                Prod.ext (map_eq_error_iff.1 hresult) hstopped
              exact ih _ hlength (h.afterArrow hty harrow) hrest rfl
          · cases (Prod.mk.inj hread).1
          all_goals
            cases hread
            exact ⟨c, h, .inr ⟨⟨ty, hty⟩, by simp_all⟩⟩

/-- Once a type is to be read, nothing is refused for a missing type. -/
theorem ReadsTypeAt.exists_refused {start c stopped : Cursor} {e : Refusal}
    (h : ReadsTypeAt start c) (hread : readTypes c = (.error e, stopped)) :
    (∀ n, e.item ≠ .tooFewTypes n) ∧
      ∃ last, ReadsTypeAt start last ∧
        (readType last = (.error e, stopped) ∨ ∃ ty, readType last = (.ok ty, stopped)) := by
  obtain ⟨last, hlast, hty | ⟨hty, _, _, rfl | rfl⟩⟩ := h.exists_failing hread
  · exact ⟨(readType_eq_error hty).1, last, hlast, .inl hty⟩
  · exact ⟨nofun, last, hlast, .inr hty⟩
  · exact ⟨nofun, last, hlast, .inr hty⟩

/-- A type list is refused in front of its types, because there is one type alone, or in or after
one of its types. -/
theorem readTypeList_eq_error {start stopped : Cursor} {e : Refusal}
    (h : readTypeList start = (.error e, stopped)) :
    (start.token = .unit ∧ start.next.token ≠ .arrow ∧ e.item = .tooFewTypes 1) ∨
      (∃ ty, readTypes start = (.ok [ty], stopped)) ∨
        (∀ n, e.item ≠ .tooFewTypes n) ∧
          ∃ c, ReadsTypeAt start c ∧
            (readType c = (.error e, stopped) ∨ ∃ ty, readType c = (.ok ty, stopped)) := by
  rw [readTypeList] at h
  by_cases hunit : start.token = .unit
  · rw [if_pos hunit] at h
    by_cases harrow : start.next.token = .arrow
    · simp only [harrow, if_true] at h
      exact .inr (.inr ((ReadsTypeAt.afterUnit hunit harrow).exists_refused h))
    · simp only [harrow, if_false] at h
      cases h
      exact .inl ⟨hunit, harrow, rfl⟩
  · rw [if_neg hunit] at h
    split at h
    · next ty _ hread =>
        cases h
        exact .inr (.inl ⟨ty, hread⟩)
    · exact .inr (.inr ((ReadsTypeAt.first hunit).exists_refused h))

/-- A list whose tokens have an arrow is not one type alone. -/
theorem Spells.readTypes_ne_singleton {tokens : List Token} {text : List Char}
    (h : Spells tokens text) (harrow : .arrow ∈ tokens) {located : List (Located Token)}
    (hlocated : located.map (·.item) = tokens ++ [.eof]) (ty : Located Ty) (stopped : Cursor) :
    readTypes (.ofTokens located) ≠ (.ok [ty], stopped) := by
  intro hread
  obtain ⟨hend, run, hrun, htypes⟩ := arrowTypes_of_readTypes hread
  have htype : TypeTokens (run.map (·.item)) ty.item := by
    generalize run.map (·.item) = items at htypes
    cases htypes with
    | last htype => exact htype
    | cons _ hrest => cases hrest
  have hall := h.eq_of_passes hlocated hrun hend htype.eof_not_mem
  have hmem : .arrow ∈ run.map (·.item) := hall ▸ harrow
  simpa using htype.eq_of_mem hmem

/-! ## Brackets in front of a cursor -/

theorem nested_concat_eof {depth : Nat} {tokens : List Token} (h : Nested depth tokens) :
    Nested depth (tokens ++ [.eof]) := by
  fun_induction Nested depth tokens with
  | case5 depth tokens ih =>
      rw [List.cons_append, Nested]
      exact ⟨h.1, ih h.2⟩
  | _ => simp_all [Nested]

theorem Cursor.items_eq_cons {c : Cursor} (h : c.token ≠ .eof) :
    c.rest.map (·.item) = c.token :: c.next.rest.map (·.item) := by
  obtain ⟨x, hx, hpass⟩ := Cursor.passes_next h
  rw [hpass.rest, List.map_append, List.map_singleton, hx, List.singleton_append]

/-- The unit, and an arrow outside all brackets, leave the brackets as they are. -/
theorem nested_next {c : Cursor} {depth : Nat} (htoken : c.token = .unit ∨ c.token = .arrow)
    (h : Nested depth (c.rest.map (·.item))) : Nested depth (c.next.rest.map (·.item)) := by
  rcases htoken with hunit | harrow
  · rwa [Cursor.items_eq_cons (by simp [hunit]), hunit, Nested] at h
  · rw [Cursor.items_eq_cons (by simp [harrow]), harrow, Nested] at h
    exact h.2

theorem nested_of_readType {c after : Cursor} {ty : Located Ty} (hty : readType c = (.ok ty, after))
    {depth : Nat} (h : Nested depth (c.rest.map (·.item))) :
    Nested depth (after.rest.map (·.item)) := by
  obtain ⟨run, hrun, htokens⟩ := (readType_eq_ok_iff c after ty.item).1 ⟨ty.span, hty⟩
  rwa [hrun.rest, List.map_append, htokens.nested_append_iff] at h

/-- Where a type is read, all brackets in front of it have been closed. -/
theorem ReadsTypeAt.nested {start c : Cursor} (h : ReadsTypeAt start c)
    (hstart : Nested 0 (start.rest.map (·.item))) : Nested 0 (c.rest.map (·.item)) := by
  induction h with
  | first => exact hstart
  | afterUnit hunit harrow => exact nested_next (.inr harrow) (nested_next (.inl hunit) hstart)
  | afterArrow _ hty harrow ih => exact nested_next (.inr harrow) (nested_of_readType hty ih)

/-- Where all brackets are closed, no closing bracket stands. -/
theorem not_closeBracket_of_nested {c : Cursor} (h : Nested 0 (c.rest.map (·.item))) :
    c.token ≠ .closeBracket := by
  intro htoken
  rwa [Cursor.items_eq_cons (by simp [htoken]), htoken, Nested] at h

theorem not_arrow_of_nested {c : Cursor} {depth : Nat} (hdepth : 0 < depth)
    (h : Nested depth (c.rest.map (·.item))) : c.token ≠ .arrow := by
  intro htoken
  rw [Cursor.items_eq_cons (by simp [htoken]), htoken, Nested] at h
  exact Nat.ne_of_gt hdepth h.1

/-- Reading a type in brackets does not stop at an arrow. -/
theorem readType_not_arrow {c stopped : Cursor} {e : Refusal} (hopen : c.token = .openBracket)
    (h : readType c = (.error e, stopped)) (hnested : Nested 0 (c.rest.map (·.item))) :
    stopped.token ≠ .arrow := by
  obtain ⟨_, run, depth, hrun, hpart, hpos⟩ := readType_eq_error h
  rw [hrun.rest, List.map_append, hpart.nested_append_iff] at hnested
  exact not_arrow_of_nested (hpos (.inl hopen)) hnested

/-- Screening and reading agree. What is read as a type list is let through. What is let through
has no character that starts no token, and as tokens it is refused either because no arrow follows
the unit, or in or right after a type; where a type is read, no closing bracket follows it, and no
arrow stands between its brackets. -/
theorem screening_agrees_with_reading (start : Nat) (text : List Char) :
    (∀ tokens types, tokenizeFrom start text = .ok tokens →
      (readTypeList (.ofTokens tokens)).1 = .ok types → screenTypeList start text = .ok ()) ∧
    (screenTypeList start text = .ok () →
      (∀ e ch, tokenizeFrom start text = .error e → e.item ≠ .unexpectedChar ch) ∧
      ∀ tokens, tokenizeFrom start text = .ok tokens →
        let first := Cursor.ofTokens tokens
        (∀ e stopped, readTypeList first = (.error e, stopped) →
          first.token = .unit ∧ first.next.token ≠ .arrow ∧ e.item = .tooFewTypes 1 ∨
          (∀ n, e.item ≠ .tooFewTypes n) ∧
            ∃ c, ReadsTypeAt first c ∧
              (readType c = (.error e, stopped) ∨ ∃ ty, readType c = (.ok ty, stopped))) ∧
        ∀ c, ReadsTypeAt first c →
          (∀ ty after, readType c = (.ok ty, after) → after.token ≠ .closeBracket) ∧
          (∀ e stopped, c.token = .openBracket → readType c = (.error e, stopped) →
            stopped.token ≠ .arrow)) := by
  constructor
  · intro tokens types hlexed hread
    have htext : readTypeText start text = .ok types :=
      bind_eq_ok_iff.2 ⟨tokens, mapError_eq_ok_iff.2 hlexed, hread⟩
    obtain ⟨items, hspells, hlist⟩ := (readTypeText_eq_ok_iff start text _).1 ⟨types, htext, rfl⟩
    exact hspells.screenTypeList_eq_ok hlist start
  · intro hscreen
    obtain ⟨_, hallowed, hbrackets, hoccurs⟩ := screenTypeList_eq_ok_iff.1 hscreen
    refine ⟨fun e ch hfails => not_unexpectedChar_of_allows hallowed hfails ch, ?_⟩
    intro tokens hlexed first
    obtain ⟨items, hitems, hspells⟩ := (tokenizeFrom_eq_ok_iff.1 hlexed).spells
    have harrow := hspells.arrow_mem (hoccurs.subset List.mem_cons_self)
    have hnested : Nested 0 (first.rest.map (·.item)) := by
      change Nested 0 (tokens.map (·.item))
      rw [hitems]
      exact nested_concat_eof ((hspells.strayBracket?_eq_none_iff 0 start).1 hbrackets)
    refine ⟨?_, ?_⟩
    · intro e stopped hfails
      rcases readTypeList_eq_error hfails with hunit | ⟨ty, hread⟩ | hplace
      · exact .inl hunit
      · exact absurd hread (hspells.readTypes_ne_singleton harrow hitems ty stopped)
      · exact .inr hplace
    · intro c hc
      exact ⟨fun ty after hty =>
        not_closeBracket_of_nested (nested_of_readType hty (hc.nested hnested)),
        fun e stopped hopen hfails => readType_not_arrow hopen hfails (hc.nested hnested)⟩

/-- A list with the unit is read, and so let through; an arrow cut short and a bracket that is
never closed are let through, and refused as tokens and as types. -/
theorem screening_agrees_with_reading_sample :
    let list := [⟨.unit, ⟨3, 6⟩⟩, ⟨.arrow, ⟨6, 8⟩⟩, ⟨.openBracket, ⟨8, 9⟩⟩, ⟨.ident "a", ⟨9, 10⟩⟩,
      ⟨.closeBracket, ⟨10, 11⟩⟩, ⟨.eof, ⟨11, 11⟩⟩]
    let unclosed :=
      [⟨.openBracket, ⟨0, 1⟩⟩, ⟨.ident "a", ⟨1, 2⟩⟩, ⟨.closeBracket, ⟨2, 3⟩⟩, ⟨.arrow, ⟨3, 5⟩⟩,
      ⟨.openBracket, ⟨5, 6⟩⟩, ⟨.ident "b", ⟨6, 7⟩⟩, ⟨.eof, ⟨7, 7⟩⟩]
    (tokenizeFrom 2 " ( )->[a]".toList = .ok list ∧
      (readTypeList (.ofTokens list)).1 = .ok [⟨⟨.var "a", 1⟩, ⟨8, 11⟩⟩] ∧
        screenTypeList 2 " ( )->[a]".toList = .ok ()) ∧
    (screenTypeList 0 "a->-b".toList = .ok () ∧
      ∃ e, tokenizeFrom 0 "a->-b".toList = .error e ∧ ∀ ch, e.item ≠ .unexpectedChar ch) ∧
    (screenTypeList 0 "[a]->[b".toList = .ok () ∧ tokenizeFrom 0 "[a]->[b".toList = .ok unclosed ∧
      ∃ c e stopped, ReadsTypeAt (.ofTokens unclosed) c ∧ c.token = .openBracket ∧
        readType c = (.error e, stopped) ∧ stopped.token ≠ .arrow) := by
  intro list unclosed
  refine ⟨?_, ?_, ?_⟩
  · have hlexed : tokenizeFrom 2 " ( )->[a]".toList = .ok list :=
      eq_ok_of_toOption (by decide +kernel)
    have hread : (readTypeList (.ofTokens list)).1 = .ok [⟨⟨.var "a", 1⟩, ⟨8, 11⟩⟩] :=
      eq_ok_of_toOption (by decide +kernel)
    exact ⟨hlexed, hread, (screening_agrees_with_reading 2 _).1 _ _ hlexed hread⟩
  · have hscreen : screenTypeList 0 "a->-b".toList = .ok () := eq_ok_of_toOption (by decide +kernel)
    have hlexed : tokenizeFrom 0 "a->-b".toList = .error ⟨.malformedArrow, ⟨3, 4⟩⟩ := by
      decide +kernel
    exact ⟨hscreen, _, hlexed,
      fun ch => ((screening_agrees_with_reading 0 _).2 hscreen).1 _ ch hlexed⟩
  · have hscreen : screenTypeList 0 "[a]->[b".toList = .ok () :=
      eq_ok_of_toOption (by decide +kernel)
    have hlexed : tokenizeFrom 0 "[a]->[b".toList = .ok unclosed :=
      eq_ok_of_toOption (by decide +kernel)
    have hfirst : ReadsTypeAt (.ofTokens unclosed) (.ofTokens unclosed) := .first (by decide)
    have hsecond := hfirst.afterArrow rfl rfl
    obtain ⟨_, hplaces⟩ := ((screening_agrees_with_reading 0 _).2 hscreen).2 unclosed hlexed
    exact ⟨hscreen, hlexed, _, _, _, hsecond, rfl, rfl, (hplaces _ hsecond).2 _ _ rfl rfl⟩

end Covenant
