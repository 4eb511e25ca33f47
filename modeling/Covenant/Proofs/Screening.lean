import Covenant.Proofs.TypeGrammar

/-!
# Screening lets type lists pass

Screening looks at characters and the readers look at tokens, so the two have to agree: a text
that spells a type list is never refused by its characters. Each check on the characters of a text
is turned into one on the tokens that it spells, and the tokens of a type list pass it.
-/

namespace Covenant

/-- A half passes if each of its characters is allowed there. -/
theorem Half.screen_eq_ok_iff {half : Half} {start : Nat} {text : List Char} :
    half.screen start text = .ok () ↔ ∀ c ∈ text, half.allows c = true := by
  rw [Half.screen]
  cases hfound : Text.find? (!half.allows ·) start text with
  | none => simpa using Text.find?_eq_none_iff.1 hfound
  | some foreign =>
      simp only [reduceCtorEq, false_iff]
      intro hall
      rw [Text.find?_eq_none_iff.2 (by simpa using hall)] at hfound
      cases hfound

/-! ## Characters of tokens -/

/-- A token is spelled with characters that a type list may hold. -/
theorem Token.Spelled.allows {t : Token} {spelling : List Char} (h : t.Spelled spelling) :
    ∀ c ∈ spelling, Half.typeList.allows c = true := by
  intro c hc
  cases h with
  | ident hname => simp [Half.allows, hname.2 c hc]
  | openBracket => simp_all [Half.allows]
  | closeBracket => simp_all [Half.allows]
  | arrow => rcases List.mem_cons.1 hc with rfl | hc <;> simp_all [Half.allows]
  | unit hblanks =>
      rcases List.mem_cons.1 hc with rfl | hc
      · simp [Half.allows]
      · rcases List.mem_append.1 hc with hc | hc
        · simp [Half.allows, hblanks c hc]
        · simp_all [Half.allows]

theorem Spells.allows {tokens : List Token} {text : List Char} (h : Spells tokens text) :
    ∀ c ∈ text, Half.typeList.allows c = true := by
  induction h with
  | nil => simp
  | blank hc _ ih => exact List.forall_mem_cons.2 ⟨by simp [Half.allows, hc], ih⟩
  | token ht _ _ ih => exact List.forall_mem_append.2 ⟨ht.allows, ih⟩

theorem Spells.all_isBlank {tokens : List Token} {text : List Char} (h : Spells tokens text)
    (hne : tokens ≠ []) : text.all Text.isBlank = false := by
  induction h with
  | nil => contradiction
  | blank _ _ ih => simp [ih hne]
  | @token t tokens spelling text ht _ _ ih =>
      obtain ⟨c, cs, rfl⟩ := List.exists_cons_of_ne_nil ht.ne_nil
      simp [ht.head_not_blank]

theorem Spells.arrow_occurs {tokens : List Token} {text : List Char} (h : Spells tokens text)
    (harrow : .arrow ∈ tokens) : ['-', '>'] <:+: text := by
  induction h with
  | nil => simp at harrow
  | blank _ _ ih => exact List.infix_cons (ih harrow)
  | token ht _ _ ih =>
      rcases List.mem_cons.1 harrow with rfl | harrow
      · cases ht
        exact List.infix_append [] _ _
      · exact (ih harrow).trans (List.suffix_append _ _).isInfix

/-! ## Brackets -/

/-- Each closing bracket closes one that is open, and arrows stand outside all brackets; `depth`
brackets are open before the first token. -/
def Nested : Nat → List Token → Prop
  | _, [] => True
  | depth, .openBracket :: tokens => Nested (depth + 1) tokens
  | 0, .closeBracket :: _ => False
  | depth + 1, .closeBracket :: tokens => Nested depth tokens
  | depth, .arrow :: tokens => depth = 0 ∧ Nested depth tokens
  | depth, .ident _ :: tokens | depth, .unit :: tokens | depth, .eof :: tokens =>
    Nested depth tokens

/-- Characters that neither open nor close brackets nor start an arrow do not count. -/
theorem strayBracket?_append_of_plain {depth start : Nat} {cs rest : List Char}
    (h : ∀ c ∈ cs, c ≠ '[' ∧ c ≠ ']' ∧ c ≠ '-') :
    strayBracket? depth start (cs ++ rest) = strayBracket? depth (start + Text.bytes cs) rest := by
  induction cs generalizing start with
  | nil => rfl
  | cons c cs ih =>
      rw [List.forall_mem_cons] at h
      simp [strayBracket?, h.1, ih h.2, Nat.add_assoc]

theorem plain_of_isBlank {c : Char} (h : Text.isBlank c = true) : c ≠ '[' ∧ c ≠ ']' ∧ c ≠ '-' := by
  refine ⟨?_, ?_, ?_⟩ <;> rintro rfl <;> cases h

theorem plain_of_isNameChar {c : Char} (h : Text.isNameChar c = true) :
    c ≠ '[' ∧ c ≠ ']' ∧ c ≠ '-' := by
  refine ⟨?_, ?_, ?_⟩ <;> rintro rfl <;> cases h

/-- The brackets of a text are in order if those of its tokens are. -/
theorem Spells.strayBracket?_eq_none_iff {tokens : List Token} {text : List Char}
    (h : Spells tokens text) (depth start : Nat) :
    strayBracket? depth start text = none ↔ Nested depth tokens := by
  induction h generalizing depth start with
  | nil => simp [strayBracket?, Nested]
  | @blank c _ _ hc _ ih =>
      rw [← List.singleton_append,
        strayBracket?_append_of_plain (by simpa using plain_of_isBlank hc), ih]
  | @token t _ spelling text ht _ _ ih =>
      cases ht with
      | ident hname =>
          rw [strayBracket?_append_of_plain fun c hc => plain_of_isNameChar (hname.2 c hc), ih,
            Nested]
      | openBracket => simp [strayBracket?, Nested, ih]
      | closeBracket =>
          cases depth with
          | zero => simp [strayBracket?, Nested]
          | succ depth => simp [strayBracket?, Nested, ih]
      | arrow =>
          by_cases hdepth : depth = 0
          · simp [strayBracket?, Nested, hdepth, ih]
          · simp [strayBracket?, Nested, hdepth]
      | unit hblanks =>
          rw [strayBracket?_append_of_plain, ih, Nested]
          intro c hc
          rcases List.mem_cons.1 hc with rfl | hc
          · decide
          · rcases List.mem_append.1 hc with hc | hc
            · exact plain_of_isBlank (hblanks c hc)
            · simp_all

/-! ## Type lists -/

theorem nested_replicate_open {depth n : Nat} {rest : List Token} :
    Nested depth (List.replicate n .openBracket ++ rest) ↔ Nested (depth + n) rest := by
  induction n generalizing depth with
  | zero => rfl
  | succ n ih =>
      rw [List.replicate_succ, List.cons_append, Nested, ih]
      rw [Nat.add_right_comm, Nat.add_assoc]

theorem nested_replicate_close {depth n : Nat} {rest : List Token} :
    Nested (depth + n) (List.replicate n .closeBracket ++ rest) ↔ Nested depth rest := by
  induction n with
  | zero => rfl
  | succ n ih => rw [List.replicate_succ, List.cons_append, ← Nat.add_assoc, Nested, ih]

theorem TypeTokens.nested_append_iff {tokens : List Token} {ty : Ty} (h : TypeTokens tokens ty)
    {depth : Nat} {rest : List Token} : Nested depth (tokens ++ rest) ↔ Nested depth rest := by
  cases h with
  | intro name n =>
      rw [List.append_assoc, nested_replicate_open, List.cons_append, Nested,
        nested_replicate_close]

theorem ArrowTypes.nested {tokens : List Token} {types : List Ty} (h : ArrowTypes tokens types) :
    Nested 0 tokens := by
  induction h with
  | @last tokens ty hty =>
      refine ⟨rfl, ?_⟩
      rw [← List.append_nil tokens, hty.nested_append_iff]
      trivial
  | cons hty _ ih => exact ⟨rfl, hty.nested_append_iff.2 ih⟩

theorem TypeListTokens.nested {tokens : List Token} {types : List Ty}
    (h : TypeListTokens tokens types) :
    Nested 0 tokens := by
  cases h with
  | unit hrest => exact hrest.nested
  | types hty hrest => exact hty.nested_append_iff.2 hrest.nested

theorem TypeListTokens.arrow_mem {tokens : List Token} {types : List Ty}
    (h : TypeListTokens tokens types) :
    .arrow ∈ tokens := by
  cases h with
  | unit hrest =>
      obtain ⟨_, rfl⟩ := hrest.eq_cons
      simp
  | types _ hrest =>
      obtain ⟨_, rfl⟩ := hrest.eq_cons
      simp

/-- What is let through: a text that is not blank, has characters of a type list and an arrow, and
has its brackets in order. -/
theorem screenTypeList_eq_ok_iff {start : Nat} {text : List Char} :
    screenTypeList start text = .ok () ↔
      text.all Text.isBlank = false ∧ (∀ c ∈ text, Half.typeList.allows c = true) ∧
        strayBracket? 0 start text = none ∧ ['-', '>'] <:+: text := by
  have harrow : (Text.breakOn '-' '>' text).isNone = false ↔ ['-', '>'] <:+: text := by
    rw [← Decidable.not_iff_not, ← Text.breakOn_eq_none_iff]
    simp
  rw [screenTypeList, ← harrow]
  cases text.all Text.isBlank with
  | true => simp
  | false =>
      simp only [Bool.false_eq_true, if_false, true_and, bind_unit_eq_ok_iff, Half.screen_eq_ok_iff]
      refine and_congr_right fun _ => ?_
      cases strayBracket? 0 start text with
      | some span => simp
      | none => cases (Text.breakOn '-' '>' text).isNone <;> simp

/-- A text that spells a type list is let through. -/
theorem Spells.screenTypeList_eq_ok {tokens : List Token} {text : List Char} {types : List Ty}
    (h : Spells tokens text) (htypes : TypeListTokens tokens types) (start : Nat) :
    screenTypeList start text = .ok () := by
  have hblank := h.all_isBlank (List.ne_nil_of_mem htypes.arrow_mem)
  have hbrackets := (h.strayBracket?_eq_none_iff 0 start).2 htypes.nested
  exact screenTypeList_eq_ok_iff.2 ⟨hblank, h.allows, hbrackets, h.arrow_occurs htypes.arrow_mem⟩

end Covenant
