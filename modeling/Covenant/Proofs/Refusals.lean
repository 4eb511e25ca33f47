import Covenant.Proofs.ClauseGrammar
import Covenant.Proofs.Places

/-!
# Where refusals point

A refused text is refused at a piece of it, and the piece shows what is wrong: the foreign
character itself, the clause, the half of an arrow, the token that should not be there. Each pass
over a half of a signature is described by the text before that half, so its refusals point into
the whole text. A pass either refuses in this way or leaves a result that the next pass can rely
on, and so do passes one after the other.

## Main definitions

* `Half.Occupies`: where a half of a signature stands in its text.
* `SignatureFault.Shown`: the characters at the place of a fault.
* `Refusal.PointsInto`: a refusal covers a piece of a text that shows its fault.
* `Truthful`: the outcome of a pass is a result with a property, or points at what is wrong.

## Main statements

* `screenTypeList_truthful`, `readConstraints_truthful`, `readTypeText_truthful`: the passes over
  the halves.
-/

namespace Covenant

/-- A half of a signature's text, with what stands before it. The first double arrow separates the
halves; without one there is a type list alone. -/
inductive Half.Occupies (source : List Char) : Half → List Char → List Char → Prop
  | whole (hmark : ¬ ['=', '>'] <:+: source) : Occupies source .typeList [] source
  | block {block rest : List Char} (hsource : source = block ++ '=' :: '>' :: rest)
      (hmark : ¬ ['=', '>'] <:+: block) : Occupies source .constraints [] block
  | typeList {block rest : List Char} (hsource : source = block ++ '=' :: '>' :: rest)
      (hmark : ¬ ['=', '>'] <:+: block) : Occupies source .typeList (block ++ ['=', '>']) rest

/-- The characters at the place of a fault, between what stands before them and after them. -/
def SignatureFault.Shown (source before piece after : List Char) : SignatureFault → Prop
  | .emptyTypeList => (∀ c ∈ piece, Text.isBlank c = true) ∧ after = []
  | .invalidCharacter ch half =>
    piece = [ch] ∧ half.allows ch = false ∧
      ∃ outside inside rest, half.Occupies source outside (inside ++ ch :: rest) ∧
        before = outside ++ inside ∧ ∀ c ∈ inside, half.allows c = true
  | .malformedBrackets => ∃ c more, piece = c :: more ∧ (c = '[' ∨ c = ']' ∨ c = '-')
  | .malformedArrow => TokenFault.malformedArrow.Shown piece
  | .malformedUnit => TokenFault.malformedUnit.Shown piece
  | .misplacedUnit => Token.unit.Spelled piece
  | .unexpectedToken _ found => found.Fills piece after
  | .tooFewTypes _ => ∃ c ∈ piece, Text.isBlank c = false
  | .malformedConstraint clause => String.ofList (Text.trim piece) = clause
  | .unknownClass name _ => ∃ var, Clause.Spelled ⟨name, var⟩ piece

/-- A refusal points at a piece of a text that shows what is wrong. -/
def Refusal.PointsInto (e : Refusal) (source : List Char) : Prop :=
  ∃ before piece after, e.span.Covers source before piece after ∧
    e.item.Shown source before piece after

/-! ## Outcomes -/

/-- The outcome of a pass over a text: a result with a property, or a refusal that points at what is
wrong. -/
inductive Truthful {α : Type} (source : List Char) (P : α → Prop) : Except Refusal α → Prop
  | ok {a : α} (h : P a) : Truthful source P (.ok a)
  | error {e : Refusal} (h : e.PointsInto source) : Truthful source P (.error e)

namespace Truthful

variable {α β : Type} {source : List Char} {P : α → Prop} {Q : β → Prop} {x : Except Refusal α}

/-- One pass after another. -/
theorem bind (h : Truthful source P x) {f : α → Except Refusal β}
    (hf : ∀ a, P a → Truthful source Q (f a)) :
    Truthful source Q (x >>= f) := by
  cases h with
  | ok ha => exact hf _ ha
  | error he => exact .error he

theorem map (h : Truthful source P x) {f : α → β} (hf : ∀ a, P a → Q (f a)) :
    Truthful source Q (x.map f) := by
  cases h with
  | ok ha => exact .ok (hf _ ha)
  | error he => exact .error he

theorem pointsInto {e : Refusal} (h : Truthful source P (.error e)) : e.PointsInto source := by
  cases h with
  | error he => exact he

end Truthful

/-! ## Halves -/

theorem Half.Occupies.exists_append {half : Half} {source outside text : List Char}
    (h : half.Occupies source outside text) : ∃ more, source = outside ++ (text ++ more) := by
  cases h with
  | whole => exact ⟨[], by simp⟩
  | @block _ rest hsource => exact ⟨'=' :: '>' :: rest, hsource⟩
  | typeList hsource => exact ⟨[], by simp [hsource]⟩

/-- What stands in a half stands in the whole text. -/
theorem Half.Occupies.covers {half : Half} {source outside text : List Char}
    (h : half.Occupies source outside text) {span : Span} {before piece after : List Char}
    (hcovers : span.Covers (outside ++ text) before piece after) :
    ∃ after', span.Covers source before piece after' := by
  obtain ⟨more, rfl⟩ := h.exists_append
  rw [← List.append_assoc]
  exact ⟨after ++ more, hcovers.append_right more⟩

theorem Half.Occupies.eq_append {source outside text : List Char}
    (h : Half.typeList.Occupies source outside text) : source = outside ++ text := by
  cases h with
  | whole => rfl
  | typeList hsource => simp [hsource]

namespace Signature

/-- The halves into which a text is cut are where they should be. -/
theorem occupies_of_halves (source : List Char) :
    (∃ outside, (halves source).2.1 = Text.bytes outside ∧
      Half.typeList.Occupies source outside (halves source).2.2) ∧
      ∀ block ∈ (halves source).1, Half.constraints.Occupies source [] block := by
  cases hbreak : Text.breakOn '=' '>' source with
  | none =>
      have hhalves : halves source = (none, 0, source) := by rw [halves, hbreak]
      rw [hhalves]
      exact ⟨⟨[], rfl, .whole (Text.breakOn_eq_none_iff.1 hbreak)⟩, by simp⟩
  | some parts =>
      have hhalves : halves source = (some parts.1, Text.bytes parts.1 + 2, parts.2) := by
        rw [halves, hbreak]
      obtain ⟨hsource, hmark⟩ := (Text.breakOn_eq_some_iff (by decide)).1 hbreak
      have hbytes : Text.bytes parts.1 + 2 = Text.bytes (parts.1 ++ ['=', '>']) := by
        rw [Text.bytes_append]
        rfl
      rw [hhalves]
      refine ⟨⟨parts.1 ++ ['=', '>'], hbytes, .typeList hsource hmark⟩, ?_⟩
      rintro block ⟨⟩
      exact .block hsource hmark

end Signature

/-! ## Screening -/

/-- Screening a half points at its first foreign character. -/
theorem Half.screen_truthful {half : Half} {source outside text : List Char}
    (hhalf : half.Occupies source outside text) :
    Truthful source (fun _ => ∀ c ∈ text, half.allows c = true)
      (half.screen (Text.bytes outside) text) := by
  rw [Half.screen]
  split
  · next foreign hfound =>
      obtain ⟨inside, rest, rfl, hinside, hforeign, hspan⟩ := Text.exists_append_of_find? hfound
      have hcovers := Text.covers_char outside inside foreign.item rest
      rw [← hspan] at hcovers
      obtain ⟨after, hcovers⟩ := hhalf.covers hcovers
      refine .error ⟨_, _, _, hcovers, rfl, by simpa using hforeign, outside, inside,
        rest, hhalf, rfl, ?_⟩
      intro c hc
      simpa using hinside c hc
  · next hnone => exact .ok (by simpa using Text.find?_eq_none_iff.1 hnone)

/-- A bracket or an arrow that is out of place. -/
theorem exists_append_of_strayBracket? {depth start : Nat} {text : List Char} {span : Span}
    (h : strayBracket? depth start text = some span) :
    ∃ inside c rest, text = inside ++ c :: rest ∧ (c = ']' ∨ c = '-') ∧
      span = ⟨start + Text.bytes inside, start + Text.bytes inside + c.utf8Size⟩ := by
  induction text generalizing depth start with
  | nil => cases h
  | cons c cs ih =>
      -- either the search stops at this character, or it goes on at some depth
      have hstep : ((c = ']' ∨ c = '-') ∧ span = ⟨start, start + c.utf8Size⟩) ∨
          ∃ depth', strayBracket? depth' (start + c.utf8Size) cs = some span := by
        rw [strayBracket?.eq_def] at h
        dsimp only at h
        split at h
        · exact .inr ⟨_, h⟩
        · split at h
          · next hclose =>
              split at h
              · exact .inl ⟨.inl hclose, (Option.some.inj h).symm⟩
              · exact .inr ⟨_, h⟩
          · split at h
            · next harrow => exact .inl ⟨.inr harrow.1, (Option.some.inj h).symm⟩
            · exact .inr ⟨_, h⟩
      rcases hstep with ⟨hc, hspan⟩ | ⟨depth', hrest⟩
      · exact ⟨[], c, cs, rfl, hc, hspan⟩
      · obtain ⟨inside, d, rest, rfl, hd, hspan⟩ := ih hrest
        exact ⟨c :: inside, d, rest, rfl, hd, by rw [hspan, Text.bytes_cons, Nat.add_assoc start]⟩

/-- Screening a type list points at what it refuses. -/
theorem screenTypeList_truthful {source outside text : List Char}
    (hhalf : Half.typeList.Occupies source outside text) :
    Truthful source (fun _ => ∀ c ∈ text, Half.typeList.allows c = true)
      (screenTypeList (Text.bytes outside) text) := by
  have hsource := hhalf.eq_append
  have hwhole : (⟨Text.bytes outside, Text.bytes outside + Text.bytes text⟩ : Span).Covers source
      outside text [] := ⟨by simpa using hsource, rfl, rfl⟩
  rw [screenTypeList]
  by_cases hblank : text.all Text.isBlank = true
  · rw [if_pos hblank]
    exact .error ⟨_, _, _, hwhole, List.all_eq_true.1 hblank, rfl⟩
  · rw [if_neg hblank]
    refine (Half.screen_truthful hhalf).bind ?_
    intro _ hallowed
    split
    · next span hstray =>
        obtain ⟨inside, c, rest, rfl, hc, rfl⟩ := exists_append_of_strayBracket? hstray
        have hcovers := Text.covers_char outside inside c rest
        rw [← hsource] at hcovers
        exact .error ⟨_, _, _, hcovers, c, [], rfl, .inr hc⟩
    · split
      · have hvisible : ∃ c ∈ text, Text.isBlank c = false := by simpa using hblank
        exact .error ⟨_, _, _, hwhole, hvisible⟩
      · exact .ok hallowed

/-! ## Constraints -/

/-- A clause stands at a piece of a text that spells it. -/
def Located.SpelledIn (x : Located Clause) (source : List Char) : Prop :=
  ∃ before piece after, x.span.Covers source before piece after ∧ x.item.Spelled piece

theorem Clause.Spelled.trim {clause : Clause} {piece : List Char} (h : clause.Spelled piece) :
    clause.Spelled (Text.trim piece) := by
  cases h with
  | @intro before className between var after hbefore hclass hne hbetween hvar hafter =>
      have hhead : ∀ c ∈ (className ++ (between ++ var)).head?, Text.isBlank c = false := by
        rw [List.head?_append_of_ne_nil _ hclass.1]
        exact fun c hc => isBlank_of_isName hclass c (List.mem_of_head? hc)
      have hlast : ∀ c ∈ (className ++ (between ++ var)).getLast?, Text.isBlank c = false := by
        rw [← List.append_assoc, List.getLast?_append_of_ne_nil _ hvar.1]
        exact fun c hc => isBlank_of_isName hvar c (List.mem_of_getLast? hc)
      have htrim := Text.trim_append hbefore hafter (by simp [hclass.1]) hhead hlast
      have hspelled : Clause.Spelled ⟨String.ofList className, String.ofList var⟩
          ([] ++ (className ++ (between ++ (var ++ [])))) :=
        .intro (by simp) hclass hne hbetween hvar (by simp)
      simp only [List.append_assoc, List.nil_append, List.append_nil] at htrim hspelled
      rw [htrim]
      exact hspelled

/-- Reading a clause leaves it at its place, or points at it if it is malformed. -/
theorem readClause_truthful {source outside piece more : List Char}
    (hsource : source = outside ++ (piece ++ more))
    (hpiece : ∀ c ∈ piece, Text.isNameChar c = true ∨ Text.isBlank c = true) :
    Truthful source (·.SpelledIn source) (readClause (Text.bytes outside) piece) := by
  rw [← List.append_assoc] at hsource
  cases hread : readClause (Text.bytes outside) piece with
  | ok located =>
      have hspelled := (spelled_of_readClause hread hpiece).trim
      rw [readClause] at hread
      split at hread
      · next className var hwords =>
          obtain rfl := Except.ok.inj hread
          obtain ⟨⟨before, after, hcovers⟩, -⟩ := Text.covers_trim_of_words hwords rfl rfl
          rw [hsource]
          exact .ok ⟨before, _, _, hcovers.append_right more, hspelled⟩
      · cases hread
  | error e =>
      rw [readClause] at hread
      split at hread
      · cases hread
      · obtain rfl := Except.error.inj hread
        rw [hsource]
        refine .error ?_
        dsimp only [Refusal.PointsInto]
        split
        · next first last hfirst hlast =>
            obtain ⟨⟨before, after, hcovers⟩, htrim⟩ := Text.covers_trim_of_words rfl hfirst hlast
            exact ⟨before, _, _, hcovers.append_right more, congrArg String.ofList htrim⟩
        · exact ⟨outside, piece, more, ⟨by simp, rfl, rfl⟩, rfl⟩

theorem bytes_append_comma (outside piece : List Char) :
    Text.bytes outside + Text.bytes piece + 1 = Text.bytes (outside ++ (piece ++ [','])) := by
  rw [Text.bytes_append, Text.bytes_append, Nat.add_assoc]
  rfl

/-- Reading clauses leaves them at their places, or points at the first that is malformed. -/
theorem readClauses_truthful {source outside more : List Char} {pieces : List (List Char)}
    (hsource : source = outside ++ ([','].intercalate pieces ++ more))
    (hpieces : ∀ piece ∈ pieces, ∀ c ∈ piece, Text.isNameChar c = true ∨ Text.isBlank c = true) :
    Truthful source (∀ x ∈ ·, x.SpelledIn source) (readClauses (Text.bytes outside) pieces) := by
  induction pieces generalizing outside with
  | nil => exact .ok (by simp)
  | cons piece pieces ih =>
      rw [List.forall_mem_cons] at hpieces
      rw [readClauses, bytes_append_comma]
      cases pieces with
      | nil =>
          rw [List.intercalate_singleton] at hsource
          refine (readClause_truthful hsource hpieces.1).bind ?_
          intro clause hclause
          exact .ok (by simpa using hclause)
      | cons next pieces =>
          have hpiece : source =
              outside ++ (piece ++ (',' :: ([','].intercalate (next :: pieces) ++ more))) := by
            simp [hsource, List.intercalate_cons_cons]
          have hnext : source =
              outside ++ (piece ++ [',']) ++ ([','].intercalate (next :: pieces) ++ more) := by
            simp [hpiece]
          refine (readClause_truthful hpiece hpieces.1).bind ?_
          intro clause hclause
          refine (ih hnext hpieces.2).bind ?_
          intro clauses hclauses
          exact .ok (List.forall_mem_cons.2 ⟨hclause, hclauses⟩)

/-- Reading constraints leaves the clauses at their places, or points at what it refuses. -/
theorem readConstraints_truthful {source outside text : List Char}
    (hhalf : Half.constraints.Occupies source outside text) :
    Truthful source (∀ x ∈ ·, x.SpelledIn source) (readConstraints (Text.bytes outside) text) := by
  obtain ⟨more, hsource⟩ := hhalf.exists_append
  have htext : [','].intercalate (text.splitOn ',') = text := List.intercalate_splitOn ','
  refine (Half.screen_truthful hhalf).bind ?_
  intro _ hallowed
  refine readClauses_truthful (by rw [htext]; exact hsource) ?_
  exact fun _ => isNameChar_or_isBlank_of_allows hallowed

/-! ## Types -/

/-- A type stands at a piece of a text that is not blank. -/
def Located.Visible (x : Located Ty) (text : List Char) : Prop :=
  ∃ before piece after, x.span.Covers text before piece after ∧ ∃ c ∈ piece, Text.isBlank c = false

theorem Token.Spelled.exists_not_blank {t : Token} {spelling : List Char} (h : t.Spelled spelling) :
    ∃ c ∈ spelling, Text.isBlank c = false := by
  obtain ⟨c, cs, rfl⟩ := List.exists_cons_of_ne_nil h.ne_nil
  exact ⟨c, List.mem_cons_self, h.head_not_blank⟩

namespace Cursor.Over

variable {c : Cursor} {outside text : List Char}

/-- Something else than the current token was wanted. -/
theorem wanted_pointsInto (h : c.Over outside text) (expected : String) :
    (c.wanted expected).PointsInto (outside ++ text) :=
  h.covers_span

/-- A bracket at the cursor is out of place. -/
theorem malformedBrackets_pointsInto (h : c.Over outside text)
    (hbracket : c.token = .openBracket ∨ c.token = .closeBracket) :
    Refusal.PointsInto ⟨.malformedBrackets, c.span⟩ (outside ++ text) := by
  have hend : c.token ≠ .eof := by rcases hbracket with h | h <;> simp [h]
  obtain ⟨before, piece, after, hcovers, hspelled⟩ := h.covers_spelled hend
  refine ⟨before, piece, after, hcovers, ?_⟩
  rcases hbracket with hbracket | hbracket
  · rw [hbracket] at hspelled
    cases hspelled
    exact ⟨'[', [], rfl, .inl rfl⟩
  · rw [hbracket] at hspelled
    cases hspelled
    exact ⟨']', [], rfl, .inr (.inl rfl)⟩

end Cursor.Over

section Readers

variable {outside text : List Char}

/-- Closing brackets around a type leaves the type at its place, or points from a bracket that is
still open. -/
theorem closeBrackets_truthful {opens : List Span} {ty : Located Ty} {c : Cursor}
    (hover : c.Over outside text) (hopens : c.Opened opens) (hty : ty.Visible (outside ++ text)) :
    Truthful (outside ++ text) (·.Visible (outside ++ text)) (closeBrackets opens ty c).1 := by
  induction opens generalizing ty c with
  | nil => exact .ok hty
  | cons opened outer ih =>
      obtain ⟨⟨t, ht, hopen, rfl⟩, houter⟩ := List.forall_mem_cons.1 hopens
      obtain ⟨before, more, after, hcovers⟩ := hover.covers_from_bracket ht hopen
      rw [closeBrackets]
      by_cases hclose : c.token = .closeBracket
      · rw [if_pos hclose]
        have hvisible : ∃ c ∈ '[' :: more, Text.isBlank c = false := ⟨'[', by simp, rfl⟩
        exact ih (hover.next (by simp [hclose])) (Cursor.Opened.next houter)
          ⟨_, _, _, hcovers, hvisible⟩
      · rw [if_neg hclose]
        exact .error ⟨before, _, after, hcovers, '[', more, rfl, .inl rfl⟩

/-- Reading a type leaves it at its place, or points at what is refused. -/
theorem readType_truthful {c : Cursor} (hover : c.Over outside text) :
    Truthful (outside ++ text) (·.Visible (outside ++ text)) (readType c).1 := by
  have hinner := hover.passOpenBrackets
  have hopens := c.opened_passOpenBrackets
  rw [readType]
  generalize c.passOpenBrackets = opening at hinner hopens
  obtain ⟨opens, inner⟩ := opening
  dsimp only at hinner hopens ⊢
  split
  · next name hname =>
      have hend : inner.token ≠ .eof := by simp [hname]
      obtain ⟨before, piece, after, hcovers, hspelled⟩ := hinner.covers_spelled hend
      exact closeBrackets_truthful (hinner.next hend) hopens.next
        ⟨before, piece, after, hcovers, hspelled.exists_not_blank⟩
  · next hunit =>
      obtain ⟨before, piece, after, hcovers, hspelled⟩ := hinner.covers_spelled (by simp [hunit])
      rw [hunit] at hspelled
      exact .error ⟨before, piece, after, hcovers, hspelled⟩
  · next hclose => exact .error (hinner.malformedBrackets_pointsInto (.inr hclose))
  · exact .error (hinner.wanted_pointsInto "a type")

theorem Cursor.Over.after_readType {c c' : Cursor} (hover : c.Over outside text) {ty : Located Ty}
    (h : readType c = (.ok ty, c')) : c'.Over outside text := by
  obtain ⟨run, hrun, htokens⟩ := (readType_eq_ok_iff c c' ty.item).1 ⟨ty.span, h⟩
  exact hover.passes hrun htokens.item_ne_eof

/-- Reading types leaves them at their places, or points at what is refused. -/
theorem readTypes_truthful {c : Cursor} (hover : c.Over outside text) :
    Truthful (outside ++ text) (∀ ty ∈ ·, ty.Visible (outside ++ text)) (readTypes c).1 := by
  induction hn : c.rest.length using Nat.strongRecOn generalizing c with
  | ind n ih =>
      subst hn
      have hfirst := readType_truthful hover
      rw [readTypes]
      split
      · next e stopped hread =>
          rw [hread] at hfirst
          exact .error hfirst.pointsInto
      · next ty after hread =>
          have hafter := hover.after_readType hread
          rw [hread] at hfirst
          cases hfirst with
          | ok hty =>
              split
              · next harrow =>
                  have hlt := length_rest_readType_lt hread
                  have hle := after.length_rest_next_le
                  refine (ih _ (by omega) (hafter.next (by simp [harrow])) rfl).map ?_
                  intro types htypes
                  exact List.forall_mem_cons.2 ⟨hty, htypes⟩
              · exact .ok (by simpa using hty)
              · next hopen => exact .error (hafter.malformedBrackets_pointsInto (.inl hopen))
              · next hclose => exact .error (hafter.malformedBrackets_pointsInto (.inr hclose))
              · exact .error (hafter.wanted_pointsInto "`->`")

/-- Reading a type list leaves its types at their places, or points at what is refused. -/
theorem readTypeList_truthful {c : Cursor} (hover : c.Over outside text) :
    Truthful (outside ++ text) (∀ ty ∈ ·, ty.Visible (outside ++ text)) (readTypeList c).1 := by
  rw [readTypeList]
  by_cases hunit : c.token = .unit
  · have hend : c.token ≠ .eof := by simp [hunit]
    have hnext := hover.next hend
    rw [if_pos hunit]
    dsimp only
    by_cases harrow : c.next.token = .arrow
    · rw [if_pos harrow]
      exact readTypes_truthful (hnext.next (by simp [harrow]))
    · rw [if_neg harrow]
      -- the last token that was passed is the unit
      obtain ⟨x, -, hpass⟩ := Cursor.passes_next hend
      have hx : x ∈ c.next.passed := by simp [hpass.passed]
      have hlast : c.next.lastSpan = x.span := by simp [Cursor.lastSpan, hpass.passed]
      obtain ⟨⟨before, piece, after, hcovers, hspelled⟩, -⟩ := hnext.covers_passed hx
      rw [← hlast] at hcovers
      exact .error ⟨before, piece, after, hcovers, hspelled.exists_not_blank⟩
  · have htypes := readTypes_truthful hover
    rw [if_neg hunit]
    split
    · next ty stopped hread =>
        rw [hread] at htypes
        cases htypes with
        | ok hvisible => exact .error (hvisible ty (by simp))
    · exact htypes

/-- Reading the tokens of a screened type list points at half an arrow or half a unit. -/
theorem tokenizeFrom_truthful (hallowed : ∀ c ∈ text, Half.typeList.allows c = true) :
    Truthful (outside ++ text) (Renders (Text.bytes outside) · text)
      ((tokenizeFrom (Text.bytes outside) text).mapError Refusal.ofTokenError) := by
  cases hread : tokenizeFrom (Text.bytes outside) text with
  | ok tokens => exact .ok (tokenizeFrom_eq_ok_iff.1 hread)
  | error fault =>
      obtain ⟨inside, c, cs, rfl, hc, houtcome, hspan⟩ := exists_lexeme_of_tokenizeFrom hread
      have hshown := Lexeme.shown_of_read hc houtcome
      have hcovers : fault.span.Covers (outside ++ (inside ++ c :: cs)) (outside ++ inside)
          (Lexeme.read c cs).text (Lexeme.read c cs).rest := by
        refine ⟨?_, ?_, ?_⟩
        · rw [Lexeme.text_append_rest, List.append_assoc]
        · rw [hspan, Text.bytes_append]
        · rw [hspan, Text.bytes_append]
      refine .error ⟨_, _, _, hcovers, ?_⟩
      change (SignatureFault.ofTokenFault fault.item).Shown _ _ _ _
      cases hitem : fault.item with
      | unexpectedChar ch =>
          -- screening would have refused it
          rw [hitem] at hshown
          obtain ⟨htext, hforeign⟩ := hshown
          have hmem : ch ∈ inside ++ c :: cs := by
            rw [← Lexeme.text_append_rest c cs, htext]
            simp
          rw [hallowed ch hmem] at hforeign
          cases hforeign
      | malformedArrow =>
          rw [hitem] at hshown
          exact hshown
      | malformedUnit =>
          rw [hitem] at hshown
          exact hshown

/-- Reading a screened type list leaves its types at their places, or points at what is refused. -/
theorem readTypeText_truthful (hallowed : ∀ c ∈ text, Half.typeList.allows c = true) :
    Truthful (outside ++ text) (∀ ty ∈ ·, ty.Visible (outside ++ text))
      (readTypeText (Text.bytes outside) text) := by
  refine (tokenizeFrom_truthful hallowed).bind ?_
  intro tokens hrenders
  exact readTypeList_truthful (.ofTokens hrenders)

end Readers

end Covenant
