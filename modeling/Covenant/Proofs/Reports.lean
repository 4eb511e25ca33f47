import Covenant.Class.Stock
import Covenant.Contract.Basic
import Covenant.Proofs.Refusals
import Covenant.Proofs.Snippets
import Covenant.Report.Signature

/-!
# Refused texts and their reports

A text is cut at offsets between its characters only, so reading it always comes to an end with a
signature or a refusal. A refusal points at what is wrong, also if the form is right and a class
is missing, and a refusal that points into a text can be reported against it in every style.
-/

namespace Covenant

/-! ## Signatures -/

/-- Reading a signature leaves its clauses at their places, or points at what is wrong. -/
theorem Signature.parse_truthful (source : String) :
    Truthful source.toList (∀ x ∈ ·.clauses, x.SpelledIn source.toList) (parse source) := by
  obtain ⟨⟨outside, hstart, htypes⟩, hblock⟩ := occupies_of_halves source.toList
  rw [parse]
  generalize halves source.toList = parts at *
  obtain ⟨block, start, typeText⟩ := parts
  dsimp only at hstart htypes hblock ⊢
  subst hstart
  refine (screenTypeList_truthful htypes).bind ?_
  intro _ hallowed
  have hclauses : Truthful source.toList (∀ x ∈ ·, x.SpelledIn source.toList)
      (readBlock block) := by
    cases block with
    | none => exact .ok (by simp)
    | some text => exact readConstraints_truthful (hblock text rfl)
  refine hclauses.bind ?_
  intro clauses hspelled
  have htypeText : Truthful (outside ++ typeText) (∀ ty ∈ ·, ty.Visible (outside ++ typeText))
      (readTypeText (Text.bytes outside) typeText) := readTypeText_truthful hallowed
  rw [← htypes.eq_append] at htypeText
  exact htypeText.bind fun _ _ => .ok hspelled

namespace Contract

/-- A class that is missing is refused at the first clause that names it. -/
theorem resolve_truthful {source : List Char} {sig : Signature}
    (h : ∀ x ∈ sig.clauses, x.SpelledIn source) (registry : Registry) :
    Truthful source (fun _ => True) (resolve registry sig) := by
  rw [resolve]
  split
  · next name hfound =>
      obtain ⟨x, hx, hname⟩ := List.mem_map.1 (List.mem_of_find?_eq_some hfound)
      cases hclause : sig.clauses.find? fun clause => clause.item.className == name with
      | none => simpa [hname] using List.find?_eq_none.1 hclause x hx
      | some clause =>
          have hspan : (sig.spanOfClass? name).getD .origin = clause.span := by
            simp [Signature.spanOfClass?, hclause]
          have hclassName : clause.item.className = name := by simpa using List.find?_some hclause
          obtain ⟨before, piece, after, hcovers, hspelled⟩ :=
            h clause (List.mem_of_find?_eq_some hclause)
          rw [← hspan] at hcovers
          rw [← hclassName] at hcovers ⊢
          exact .error ⟨before, piece, after, hcovers, clause.item.var, hspelled⟩
  · exact .ok trivial

/-- A text that no contract is drafted from is refused at what is wrong. -/
theorem draft_truthful (registry : Registry) (rule : ArrayRule) (source : String) :
    Truthful source.toList (fun _ => True) (draft registry rule source) := by
  refine (Signature.parse_truthful source).bind ?_
  intro sig hclauses
  exact (resolve_truthful hclauses registry).bind fun _ _ => .ok trivial

end Contract

/-! ## Reports -/

/-- A span that covers a piece of a text starts on a line of it. -/
theorem LineMap.exists_locate?_of_covers {source : String} {span : Span}
    {before piece after : List Char} (h : span.Covers source.toList before piece after) :
    ∃ region line, (ofString source).locate? span = some region ∧
      (ofString source).line? region.first.line = some line := by
  obtain ⟨line, hline⟩ := exists_line?_of_count h.text_eq
  rw [Nat.add_comm] at hline
  exact ⟨_, line, locate?_of_covers h, hline⟩

namespace Report

theorem exists_signatureError? {source : String} {e : Refusal} {before piece after : List Char}
    (h : e.span.Covers source.toList before piece after) (style : Style) :
    ∃ report, signatureError? style source e = some report := by
  obtain ⟨report, hreport, _⟩ := exists_layout? h style _ _ _
  exact ⟨report, hreport⟩

end Report

/-! ## Cuts -/

namespace Signature

/-- The offsets at which a text is cut into halves, and its clauses into words, lie between
characters: cutting there gives the parts. -/
structure CutsCleanly (source : List Char) : Prop where
  typeList : Text.slice? (halves source).2.1 (Text.bytes source) source = some (halves source).2.2
  block : ∀ block ∈ (halves source).1, Text.slice? 0 (Text.bytes block) source = some block
  words : ∀ block ∈ (halves source).1, ∀ piece ∈ block.splitOn ',', ∀ word ∈ Text.words 0 piece,
    Text.slice? word.span.start word.span.stop piece = some word.item

theorem cutsCleanly (source : List Char) : CutsCleanly source := by
  obtain ⟨⟨outside, hstart, htypes⟩, hblock⟩ := occupies_of_halves source
  refine ⟨?_, ?_, ?_⟩
  · have hsource := htypes.eq_append
    have hcovers : (⟨(halves source).2.1, Text.bytes source⟩ : Span).Covers source outside
        (halves source).2.2 [] := by
      refine ⟨by simpa using hsource, hstart, ?_⟩
      rw [← Text.bytes_append, ← hsource]
    exact hcovers.slice?_eq_some
  · intro block hmem
    obtain ⟨more, hsource⟩ := (hblock block hmem).exists_append
    have hcovers : (⟨0, Text.bytes block⟩ : Span).Covers source [] block more :=
      ⟨hsource, rfl, (Nat.zero_add _).symm⟩
    exact hcovers.slice?_eq_some
  · intro block _ piece _ word hword
    have hword : word ∈ Text.words (Text.bytes []) piece := hword
    obtain ⟨before, after, hcovers⟩ := Text.covers_of_mem_words hword
    exact hcovers.slice?_eq_some

end Signature

/-! ## Main statement -/

namespace Contract

/-- Refusals are true of the text that is refused. Reading cuts it between characters only. A
refusal, of its form or of a class that is missing, points at a piece of it, the piece shows the
fault, and there is a report in every style, with the line on which the piece starts. -/
theorem refusals_point_into_source (source : String) :
    Signature.CutsCleanly source.toList ∧
      ∀ (registry : Registry) (rule : ArrayRule) (e : Refusal),
        Signature.parse source = .error e ∨ draft registry rule source = .error e →
          e.span.start ≤ e.span.stop ∧ e.span.stop ≤ Text.bytes source.toList ∧
            (∃ before piece after, e.span.Covers source.toList before piece after ∧
              Text.slice? e.span.start e.span.stop source.toList = some piece ∧
              e.item.Shown source.toList before piece after) ∧
            (∃ region line, (LineMap.ofString source).locate? e.span = some region ∧
              (LineMap.ofString source).line? region.first.line = some line) ∧
            ∀ style, ∃ report, Report.signatureError? style source e = some report := by
  refine ⟨Signature.cutsCleanly source.toList, ?_⟩
  intro registry rule e h
  have hpoints : e.PointsInto source.toList := by
    rcases h with h | h
    · exact (h ▸ Signature.parse_truthful source).pointsInto
    · exact (h ▸ draft_truthful registry rule source).pointsInto
  obtain ⟨before, piece, after, hcovers, hshown⟩ := hpoints
  refine ⟨hcovers.start_le_stop, hcovers.stop_le_bytes, ?_, ?_, ?_⟩
  · exact ⟨before, piece, after, hcovers, hcovers.slice?_eq_some, hshown⟩
  · exact LineMap.exists_locate?_of_covers hcovers
  · exact Report.exists_signatureError? hcovers

/-- A class that is not registered, named on the second line of a text, after a wide blank. -/
theorem refusals_point_into_source_sample :
    let source := "Eq a,\n\u3000Ord  b=>a->b"
    let registry : Registry := ⟨.insert ∅ "Eq" .any⟩
    let e : Refusal := ⟨.unknownClass "Ord" [], ⟨9, 15⟩⟩
    draft registry .collapse source = .error e ∧
      (∃ var before after, Clause.Spelled ⟨"Ord", var⟩ "Ord  b".toList ∧
        e.span.Covers source.toList before "Ord  b".toList after) ∧
      ∀ style, ∃ report, Report.signatureError? style source e = some report := by
  intro source registry e
  let signature : Signature := ⟨source, [⟨⟨"Eq", "a"⟩, ⟨0, 4⟩⟩, ⟨⟨"Ord", "b"⟩, ⟨9, 15⟩⟩],
    [⟨⟨.var "a", 0⟩, ⟨17, 18⟩⟩, ⟨⟨.var "b", 0⟩, ⟨20, 21⟩⟩]⟩
  have hparse : Signature.parse source = .ok signature := eq_ok_of_toOption (by decide +kernel)
  have hnames : similarNames "Ord" registry.names 2 = [] := by decide +kernel
  have hresolve : resolve registry signature = .error e := by
    have hmissing : signature.namedClasses.find? (fun name => !registry.contains name) =
        some "Ord" := rfl
    rw [resolve, hmissing]
    simp only [hnames]
    rfl
  have hdraft : draft registry .collapse source = .error e := by
    rw [draft, hparse]
    exact bind_eq_error_iff.2 (.inr ⟨signature, rfl, bind_eq_error_iff.2 (.inl hresolve)⟩)
  obtain ⟨-, -, ⟨before, piece, after, hcovers, hslice, var, hspelled⟩, -, hreport⟩ :=
    (refusals_point_into_source source).2 registry .collapse e (.inr hdraft)
  have hpiece : Text.slice? 9 15 source.toList = some "Ord  b".toList := by decide +kernel
  obtain rfl : piece = "Ord  b".toList := Option.some.inj (hslice.symm.trans hpiece)
  exact ⟨hdraft, ⟨var, before, after, hspelled, hcovers⟩, hreport⟩

end Contract

end Covenant
