import Covenant.Proofs.Blame
import Covenant.Proofs.ClausePieces
import Covenant.Proofs.Reports
import Covenant.Proofs.TypePlaces
import Covenant.Report.Contract

/-!
# Labels of a signature

A signature keeps the place of each of its types and clauses, and violations are reported against
these places. The label of a type is the text of that type, wherever brackets and blanks are
spread, and the label of a class is the first clause that names it. A violation of a signature has
a label of its own, unless the values are wrong in number, so its report underlines what it is
about.

## Main definitions

* `Signature.FirstNaming`: the first clause of a text that names a class.
* `Report.Labels`: what a violation of a signature is about.

## Main statements

* `Signature.typeList_places`: the labels of types.
* `Signature.exists_firstNaming`: the labels of classes.
* `Report.labels_of_check`: the labels of violations.
* `Signature.labels_spell_source`: labels show what they stand for, and reports underline them.
-/

namespace Covenant

/-! ## Clauses and the pieces that they are read from -/

/-- A clause among those of a block is read from its piece, after the pieces of the clauses before
it. -/
theorem exists_piece_of_readClauses {start : Nat} {pieces : List (List Char)}
    {earlier later : List (Located Clause)} {x : Located Clause}
    (h : readClauses start pieces = .ok (earlier ++ x :: later)) :
    ∃ before piece after, pieces = before ++ piece :: after ∧
      readClauses start before = .ok earlier ∧
      readClause (start + bytesBefore before) piece = .ok x := by
  induction earlier generalizing start pieces with
  | nil =>
      cases pieces with
      | nil => cases h
      | cons piece pieces =>
          obtain ⟨clause, clauses, hclause, _, heq⟩ := readClauses_cons_eq_ok_iff.1 h
          obtain ⟨rfl, rfl⟩ := List.cons.inj heq
          exact ⟨[], piece, pieces, rfl, rfl, hclause⟩
  | cons y earlier ih =>
      cases pieces with
      | nil => cases h
      | cons first pieces =>
          obtain ⟨clause, clauses, hclause, hclauses, heq⟩ := readClauses_cons_eq_ok_iff.1 h
          obtain ⟨rfl, rfl⟩ := List.cons.inj heq
          obtain ⟨before, piece, after, rfl, hbefore, hpiece⟩ := ih hclauses
          refine ⟨first :: before, piece, after, rfl, ?_, ?_⟩
          · exact readClauses_cons_eq_ok_iff.2 ⟨_, _, hclause, hbefore, rfl⟩
          · rw [bytesBefore_cons, ← Nat.add_assoc, ← Nat.add_assoc]
            exact hpiece

theorem exists_clause_of_readClauses {start : Nat} {pieces : List (List Char)}
    {clauses : List (Located Clause)} (h : readClauses start pieces = .ok clauses)
    {piece : List Char} (hpiece : piece ∈ pieces) :
    ∃ clause ∈ clauses, ∃ start', readClause start' piece = .ok clause := by
  induction pieces generalizing start clauses with
  | nil => simp at hpiece
  | cons first pieces ih =>
      obtain ⟨clause, others, hclause, hothers, rfl⟩ := readClauses_cons_eq_ok_iff.1 h
      rcases List.mem_cons.1 hpiece with rfl | hpiece
      · exact ⟨clause, List.mem_cons_self, start, hclause⟩
      · obtain ⟨other, hmem, hother⟩ := ih hothers hpiece
        exact ⟨other, List.mem_cons_of_mem clause hmem, hother⟩

theorem Clause.Spelled.eq_of_readClause {clause : Clause} {piece : List Char}
    (h : clause.Spelled piece) {start : Nat} {x : Located Clause}
    (hx : readClause start piece = .ok x) : x.item = clause := by
  obtain ⟨span, hread⟩ := readClause_of_spelled h start
  rw [hread] at hx
  rw [← Except.ok.inj hx]

/-- A clause stands in a piece: blanks around it, and blanks between its class and its variable. -/
structure Clause.StandsIn (clause : Clause) (piece lead between trail : List Char) : Prop where
  piece_eq : piece = lead ++ (clause.className.toList ++ (between ++ (clause.var.toList ++ trail)))
  className : Text.IsName clause.className.toList
  var : Text.IsName clause.var.toList
  lead : ∀ c ∈ lead, Text.isBlank c = true
  ne_nil : between ≠ []
  between : ∀ c ∈ between, Text.isBlank c = true
  trail : ∀ c ∈ trail, Text.isBlank c = true

/-- A clause that is read has the span from its class to its variable. -/
theorem exists_standsIn_of_readClause {start : Nat} {piece : List Char} {x : Located Clause}
    (h : readClause start piece = .ok x)
    (hpiece : ∀ c ∈ piece, Text.isNameChar c = true ∨ Text.isBlank c = true) :
    ∃ lead between trail, x.item.StandsIn piece lead between trail ∧
      x.span = ⟨start + Text.bytes lead,
        start + Text.bytes lead +
          Text.bytes (x.item.className.toList ++ (between ++ x.item.var.toList))⟩ := by
  have hspelled := spelled_of_readClause h hpiece
  obtain ⟨clause, span⟩ := x
  cases hspelled with
  | @intro lead className between var trail hlead hclass hne hbetween hvar htrail =>
      rw [readClause_names start hlead hclass hne hbetween hvar htrail] at h
      obtain rfl := (Located.mk.inj (Except.ok.inj h)).2
      refine ⟨lead, between, trail, ⟨by simp, ?_, ?_, hlead, hne, hbetween, htrail⟩, by simp⟩
      · rw [String.toList_ofList]
        exact hclass
      · rw [String.toList_ofList]
        exact hvar

namespace Signature

/-- The first clause of a text that names a class: none of the clauses before it in the constraint
block names the class, and the span covers it from the class to the variable, without the blanks
around it. -/
inductive FirstNaming (source : List Char) (clause : Clause) (span : Span) : Prop
  | intro {block rest piece lead between trail after : List Char} {earlier later : List (List Char)}
      (hsource : source = block ++ '=' :: '>' :: rest) (hmark : ¬ ['=', '>'] <:+: block)
      (hpieces : block.splitOn ',' = earlier ++ piece :: later)
      (hearlier : ∀ p ∈ earlier, ∀ other : Clause, other.Spelled p →
        other.className ≠ clause.className)
      (hclause : clause.StandsIn piece lead between trail)
      (hcovers : span.Covers source (earlier.flatMap (· ++ [',']) ++ lead)
        (clause.className.toList ++ (between ++ clause.var.toList)) after)

/-- A clause that names a class before all others in its block is the first in the text. -/
theorem firstNaming_of_readConstraints {source block rest : List Char}
    (hsource : source = block ++ '=' :: '>' :: rest) (hmark : ¬ ['=', '>'] <:+: block)
    {earlier later : List (Located Clause)} {x : Located Clause}
    (h : readConstraints 0 block = .ok (earlier ++ x :: later))
    (hearlier : ∀ y ∈ earlier, y.item.className ≠ x.item.className) :
    FirstNaming source x.item x.span := by
  obtain ⟨hscreen, hread⟩ := bind_unit_eq_ok_iff.1 h
  obtain ⟨before, piece, after, hpieces, hbefore, hpiece⟩ := exists_piece_of_readClauses hread
  have hmem : piece ∈ block.splitOn ',' := by simp [hpieces]
  have hallowed := isNameChar_or_isBlank_of_allows (Half.screen_eq_ok_iff.1 hscreen) hmem
  obtain ⟨lead, between, trail, hclause, hspan⟩ := exists_standsIn_of_readClause hpiece hallowed
  obtain ⟨more, hmore⟩ := exists_append_of_pieces before piece after
  have hblock : block = before.flatMap (· ++ [',']) ++ (piece ++ more) := by
    rw [← hmore, ← hpieces]
    exact (List.intercalate_splitOn ',').symm
  have hcovers : x.span.Covers source (before.flatMap (· ++ [',']) ++ lead)
      (x.item.className.toList ++ (between ++ x.item.var.toList))
      (trail ++ (more ++ '=' :: '>' :: rest)) := by
    refine ⟨?_, ?_, ?_⟩
    · rw [hsource, hblock, hclause.piece_eq]
      simp
    · rw [hspan, Text.bytes_append (before.flatMap _), Nat.zero_add]
      rfl
    · rw [hspan, Text.bytes_append (before.flatMap _), Nat.zero_add]
      rfl
  refine .intro hsource hmark hpieces ?_ hclause hcovers
  -- each piece before it is read as one of the clauses before it
  intro p hp other hother
  obtain ⟨y, hy, _, hread⟩ := exists_clause_of_readClauses hbefore hp
  rw [← hother.eq_of_readClause hread]
  exact hearlier y hy

theorem readings_of_parse {source : String} {sig : Signature} (h : parse source = .ok sig) :
    sig.source = source ∧ readBlock (halves source.toList).1 = .ok sig.clauses ∧
      readTypeText (halves source.toList).2.1 (halves source.toList).2.2 = .ok sig.typeList := by
  obtain ⟨_, _, h⟩ := bind_eq_ok_iff.1 h
  obtain ⟨clauses, hclauses, h⟩ := bind_eq_ok_iff.1 h
  obtain ⟨typeList, htypeList, h⟩ := bind_eq_ok_iff.1 h
  obtain rfl := Except.ok.inj h
  exact ⟨rfl, hclauses, htypeList⟩

theorem exists_find?_of_mem {sig : Signature} {className : String}
    (h : className ∈ sig.namedClasses) :
    ∃ x, sig.clauses.find? (fun clause => clause.item.className == className) = some x := by
  obtain ⟨y, hy, hname⟩ := List.mem_map.1 h
  rw [← Option.isSome_iff_exists, List.find?_isSome]
  exact ⟨y, hy, by simp [hname]⟩

/-- A clause that names a class before all others of a signature is the first in its text. -/
theorem firstNaming_of_parse {source : String} {sig : Signature} (h : parse source = .ok sig)
    {earlier later : List (Located Clause)} {x : Located Clause}
    (hsplit : sig.clauses = earlier ++ x :: later)
    (hearlier : ∀ y ∈ earlier, y.item.className ≠ x.item.className) :
    FirstNaming source.toList x.item x.span := by
  obtain ⟨_, hclauses, _⟩ := readings_of_parse h
  obtain ⟨_, hblock⟩ := occupies_of_halves source.toList
  cases hhalf : (halves source.toList).1 with
  | none =>
      rw [hhalf, hsplit] at hclauses
      simp [readBlock] at hclauses
  | some block =>
      rw [hhalf, hsplit] at hclauses
      cases hblock block hhalf with
      | block hsource hmark => exact firstNaming_of_readConstraints hsource hmark hclauses hearlier

/-- The place of a class is that of the first clause that names it. -/
theorem exists_firstNaming {source : String} {sig : Signature} (h : parse source = .ok sig)
    {className : String} (hclass : className ∈ sig.namedClasses) :
    ∃ span var, sig.spanOfClass? className = some span ∧
      FirstNaming source.toList ⟨className, var⟩ span ∧
      ⟨className, var⟩ ∈ sig.clauses.map (·.item) := by
  obtain ⟨x, hx⟩ := exists_find?_of_mem hclass
  obtain ⟨hxname, earlier, later, hsplit, hearlier⟩ := List.find?_eq_some_iff_append.1 hx
  obtain rfl : x.item.className = className := by simpa using hxname
  refine ⟨x.span, x.item.var, by simp [spanOfClass?, hx], firstNaming_of_parse h hsplit ?_, ?_⟩
  · intro z hz
    simpa using hearlier z hz
  · exact List.mem_map.2 ⟨x, by simp [hsplit], rfl⟩

/-- The class of a clause is a class of its variable. -/
theorem exists_classes_of_mem {sig : Signature} {className var : String}
    (h : ⟨className, var⟩ ∈ sig.clauses.map (·.item)) :
    ∃ classes, sig.constraints[var]? = some classes ∧ className ∈ classes := by
  have hentry : ¬ ∀ clause ∈ sig.clauses.map (·.item), clause.var ≠ var :=
    fun hnone => hnone _ h rfl
  refine ⟨_, by rw [constraints, Constraints.getElem?_ofClauses, if_neg hentry], ?_⟩
  exact List.mem_map.2 ⟨_, List.mem_filter.2 ⟨h, by simp⟩, rfl⟩

/-! ## Types -/

/-- The types of a signature can be read again at their places, which stand one after the other in
its type list. -/
theorem typeList_places {source : String} {sig : Signature} (h : parse source = .ok sig) :
    (∀ x ∈ sig.typeList, x.ReadableIn source.toList ∧ (halves source.toList).2.1 ≤ x.span.start) ∧
      sig.typeList.Pairwise fun x y => x.span.stop ≤ y.span.start := by
  obtain ⟨_, _, htypes⟩ := readings_of_parse h
  obtain ⟨⟨outside, hstart, hhalf⟩, _⟩ := occupies_of_halves source.toList
  rw [hstart] at htypes ⊢
  rw [hhalf.eq_append]
  exact readTypeText_places htypes

theorem spanOfType?_eq_some_iff {sig : Signature} {i : Nat} {span : Span} :
    sig.spanOfType? i = some span ↔ ∃ ty, sig.typeList[i]? = some ⟨ty, span⟩ := by
  rw [spanOfType?, Option.map_eq_some_iff]
  constructor
  · rintro ⟨x, hx, rfl⟩
    exact ⟨x.item, hx⟩
  · rintro ⟨ty, hty⟩
    exact ⟨_, hty, rfl⟩

end Signature

/-! ## Violations -/

/-- What a violation of a signature is about: the type at its position, the first clause that
names the unknown class, or the whole signature if the values are wrong in number. -/
inductive Report.Labels (sig : Signature) : Violation → Span → Prop
  | position {v : Violation} {p : Nat} {span : Span} (hp : v.position? = some p)
      (hspan : sig.spanOfType? p = some span) : Labels sig v span
  | unknownClass {className var : String} {span : Span}
      (hspan : sig.spanOfClass? className = some span) :
      Labels sig (.unknownClass className var) span
  | arity {expected found : Nat} :
      Labels sig (.arity expected found) ⟨0, Text.bytes sig.source.toList⟩

namespace Report

theorem Labels.covers {source : String} {sig : Signature} (h : Signature.parse source = .ok sig)
    {v : Violation} {span : Span} (hlabel : Labels sig v span) :
    ∃ before piece after, span.Covers source.toList before piece after := by
  cases hlabel with
  | position _ hspan =>
      obtain ⟨ty, hty⟩ := Signature.spanOfType?_eq_some_iff.1 hspan
      have hplace := (Signature.typeList_places h).1 _ (List.mem_of_getElem? hty)
      obtain ⟨before, piece, after, hcovers, _⟩ := hplace.1
      exact ⟨before, piece, after, hcovers⟩
  | unknownClass hspan =>
      obtain ⟨x, hx, rfl⟩ := Option.map_eq_some_iff.1 hspan
      have hclauses := Signature.parse_truthful source
      rw [h] at hclauses
      cases hclauses with
      | ok hspelled =>
          obtain ⟨before, piece, after, hcovers, _⟩ := hspelled x (List.mem_of_find?_eq_some hx)
          exact ⟨before, piece, after, hcovers⟩
  | arity =>
      exact ⟨[], source.toList, [], by simp, rfl, by simp [(Signature.readings_of_parse h).1]⟩

/-- A violation of some types of a signature is reported against what it is about. -/
theorem labels_of_check {sig : Signature} {registry : Registry} {rule : ArrayRule} {types : List Ty}
    {values : List Value} {v : Violation} (hle : types.length ≤ sig.types.length)
    (h : check registry sig.constraints rule types values = .error v) :
    Labels sig v (violationSpan sig v) := by
  rcases position?_of_check h with rfl | ⟨p, hp, hposition⟩ |
    ⟨var, classes, hclasses, className, hclass, _, rfl⟩
  · exact .arity
  · have hlt : p < sig.typeList.length := by
      rw [Signature.types, List.length_map] at hle
      omega
    have hspan : sig.spanOfType? p = some sig.typeList[p].span := by
      simp [Signature.spanOfType?, hlt]
    have hlabel : violationSpan sig v = sig.typeList[p].span := by
      cases v <;> simp_all [violationSpan, Violation.position?]
    exact .position hposition (by rw [hspan, hlabel])
  · obtain ⟨x, hx⟩ :=
      Signature.exists_find?_of_mem (Signature.mem_namedClasses_of_constraints hclasses hclass)
    exact .unknownClass (by simp [violationSpan, Signature.spanOfClass?, hx])

end Report

/-! ## Main statement -/

namespace Signature

/-- The labels of a signature show what they stand for. There is one for each type: a piece of the
text, after the first double arrow and after the labels before it, and the piece alone is read as
the type. The label of a class is the first clause that names it. So a violation of the types, or
of the parameters, can be reported in every style, and the report underlines the label that the
violation is about. -/
theorem labels_spell_source {source : String} {sig : Signature} (h : parse source = .ok sig) :
    ((∀ i, (sig.spanOfType? i).isSome = true ↔ i < sig.types.length) ∧
      (∀ i ty span, sig.types[i]? = some ty → sig.spanOfType? i = some span →
        Located.ReadableIn ⟨ty, span⟩ source.toList) ∧
      (∀ i j span span', i < j → sig.spanOfType? i = some span → sig.spanOfType? j = some span' →
        span.stop ≤ span'.start) ∧
      ∀ block rest, source.toList = block ++ '=' :: '>' :: rest → ¬ ['=', '>'] <:+: block →
        ∀ i span, sig.spanOfType? i = some span → Text.bytes block + 2 ≤ span.start) ∧
      (∀ className ∈ sig.namedClasses, ∃ span var classes, sig.spanOfClass? className = some span ∧
        FirstNaming source.toList ⟨className, var⟩ span ∧ sig.constraints[var]? = some classes ∧
        className ∈ classes) ∧
      ∀ registry rule values v, check registry sig.constraints rule sig.types values = .error v ∨
          check registry sig.constraints rule sig.params values = .error v →
        Report.Labels sig v (Report.violationSpan sig v) ∧
          ∀ style, ∃ report, Report.violation? style sig v = some report ∧
            Report.Underlines style source (Report.violationSpan sig v) report := by
  obtain ⟨hplaces, hordered⟩ := typeList_places h
  refine ⟨⟨?_, ?_, ?_, ?_⟩, ?_, ?_⟩
  · intro i
    simp [spanOfType?, types]
  · intro i ty span hty hspan
    obtain ⟨ty', hlocated⟩ := spanOfType?_eq_some_iff.1 hspan
    obtain rfl : ty' = ty := by simpa [types, hlocated] using hty
    exact (hplaces _ (List.mem_of_getElem? hlocated)).1
  · intro i j span span' hlt hspan hspan'
    obtain ⟨_, hfirst⟩ := spanOfType?_eq_some_iff.1 hspan
    obtain ⟨_, hsecond⟩ := spanOfType?_eq_some_iff.1 hspan'
    obtain ⟨hi, hfirst⟩ := List.getElem?_eq_some_iff.1 hfirst
    obtain ⟨hj, hsecond⟩ := List.getElem?_eq_some_iff.1 hsecond
    have hle := List.pairwise_iff_getElem.1 hordered i j hi hj hlt
    rwa [hfirst, hsecond] at hle
  · intro block rest hsource hmark i span hspan
    obtain ⟨_, hlocated⟩ := spanOfType?_eq_some_iff.1 hspan
    have hstart := (hplaces _ (List.mem_of_getElem? hlocated)).2
    have hbreak : Text.breakOn '=' '>' source.toList = some (block, rest) :=
      (Text.breakOn_eq_some_iff (by decide)).2 ⟨hsource, hmark⟩
    rwa [halves, hbreak] at hstart
  · intro className hclass
    obtain ⟨span, var, hspan, hnaming, hmem⟩ := exists_firstNaming h hclass
    obtain ⟨classes, hclasses, hclass⟩ := exists_classes_of_mem hmem
    exact ⟨span, var, classes, hspan, hnaming, hclasses, hclass⟩
  · intro registry rule values v hcheck
    have hlabel : Report.Labels sig v (Report.violationSpan sig v) := by
      rcases hcheck with hcheck | hcheck
      · exact Report.labels_of_check (Nat.le_refl _) hcheck
      · exact Report.labels_of_check (List.length_take_le' _ _) hcheck
    refine ⟨hlabel, fun style => ?_⟩
    obtain ⟨before, piece, after, hcovers⟩ := hlabel.covers h
    have hsource := (readings_of_parse h).1
    rw [Report.violation?, hsource]
    exact Report.exists_layout? hcovers style _ _ _

/-- Brackets on two lines behind a wide blank. A result that is no number is underlined on the
second line, whatever the style. An argument that is no array is marked with one caret, where the
brackets open on the first line. -/
theorem labels_spell_source_sample :
    let source := "Eq\u3000a=> [ a\n] -> number"
    let sig : Signature := ⟨source, [⟨⟨"Eq", "a"⟩, ⟨0, 6⟩⟩],
      [⟨⟨.var "a", 1⟩, ⟨9, 14⟩⟩, ⟨⟨.prim .number, 0⟩, ⟨18, 24⟩⟩]⟩
    let v : Violation := .typeMismatch 1 ⟨.prim .number, 0⟩ ⟨.prim .string, 0⟩
    let v' : Violation := .depthMismatch "a" 0 ⟨.var "a", 1⟩ ⟨.prim .object, 0⟩
    parse source = .ok sig ∧ Located.ReadableIn ⟨⟨.var "a", 1⟩, ⟨9, 14⟩⟩ source.toList ∧
      (∃ var, FirstNaming source.toList ⟨"Eq", var⟩ ⟨0, 6⟩) ∧
      check .empty sig.constraints .collapse sig.types [.array [.null], .string "x"] = .error v ∧
      check .empty sig.constraints .collapse sig.params [.null] = .error v' ∧
      (∀ style, ∃ report, Report.violation? style sig v = some report ∧
        Report.Underlines style source ⟨18, 24⟩ report) ∧
      (∀ style, ∃ report, Report.violation? style sig v' = some report ∧
        Report.Underlines style source ⟨9, 14⟩ report) ∧
      Report.violation? ⟨true, some "f"⟩ sig v' = some
        ("\x1b[36m-- CONTRACT ERROR ------------------------------------------\x1b[0m\n\n" ++
          "\x1b[1mf:1:8\x1b[0m\n\n" ++
          "\x1b[36m1 |\x1b[0m Eq\u3000a=> [ a\n" ++ "           \x1b[31m^\x1b[0m\n\n" ++
          "I cannot bind `a` here: argument 1 should be 1 levels of array, " ++
          "but it is `object`.\n") := by
  intro source sig v v'
  have hparse : parse source = .ok sig := eq_ok_of_toOption (by decide +kernel)
  have hcheck : check .empty sig.constraints .collapse sig.types
      [.array [.null], .string "x"] = .error v := rfl
  have hcheck' : check .empty sig.constraints .collapse sig.params [.null] = .error v' := rfl
  obtain ⟨⟨_, hreadable, _⟩, hclasses, hviolations⟩ := labels_spell_source hparse
  obtain ⟨span, var, _, hspan, hnaming, _⟩ := hclasses "Eq" (by decide)
  obtain rfl : span = ⟨0, 6⟩ := (Option.some.inj hspan).symm
  exact ⟨hparse, hreadable 0 _ _ rfl rfl, ⟨var, hnaming⟩, hcheck, hcheck',
    (hviolations _ _ _ v (.inl hcheck)).2, (hviolations _ _ _ v' (.inr hcheck')).2,
    by decide +kernel⟩

end Signature

end Covenant
