import Covenant.Proofs.Grammar

/-!
# Writing and reading signatures

The canonical text of a signature is read back as a signature of the same meaning. Writing puts
the clauses in the order of their variables, so the signature that is read back may have them in
another order; the classes of each variable keep theirs. Only a signature with names that can be
written has a text that can be read, and every signature that was read is such a one.
-/

namespace Covenant

/-! ## Regrouping -/

section Regrouping

variable {α : Type}

/-- The keyed items of some groups, one group after the other. -/
def ungroup (groups : List (String × List α)) : List (String × α) :=
  groups.flatMap fun group => group.2.map fun item => (group.1, item)

theorem itemsOf_map_pair (key k : String) (items : List α) :
    itemsOf key (items.map fun item => (k, item)) = if k = key then items else [] := by
  by_cases h : k = key
  · simp [itemsOf, h, List.filter_map, Function.comp_def]
  · simp [itemsOf, h, List.filter_map, Function.comp_def]

theorem itemsOf_ungroup_of_forall_ne {key : String} {groups : List (String × List α)}
    (h : ∀ group ∈ groups, group.1 ≠ key) : itemsOf key (ungroup groups) = [] := by
  induction groups with
  | nil => rfl
  | cons group groups ih =>
      rw [List.forall_mem_cons] at h
      rw [ungroup, List.flatMap_cons, itemsOf_append, itemsOf_map_pair, if_neg h.1, List.nil_append]
      exact ih h.2

theorem itemsOf_ungroup_of_mem {key : String} {items : List α} {groups : List (String × List α)}
    (hdistinct : groups.Pairwise fun g h => g.1 ≠ h.1) (hmem : (key, items) ∈ groups) :
    itemsOf key (ungroup groups) = items := by
  induction groups with
  | nil => simp at hmem
  | cons group groups ih =>
      rw [List.pairwise_cons] at hdistinct
      rw [ungroup, List.flatMap_cons, itemsOf_append, itemsOf_map_pair]
      rcases List.mem_cons.1 hmem with rfl | hmem
      · have hrest : itemsOf key (ungroup groups) = [] := by
          apply itemsOf_ungroup_of_forall_ne
          intro other hother
          exact (hdistinct.1 other hother).symm
        rw [if_pos rfl]
        exact (congrArg (items ++ ·) hrest).trans (List.append_nil items)
      · rw [if_neg (hdistinct.1 _ hmem), List.nil_append]
        exact ih hdistinct.2 hmem

theorem itemsOf_ungroup_groupByKey (key : String) (entries : List (String × α)) :
    itemsOf key (ungroup (groupByKey entries).toList) = itemsOf key entries := by
  by_cases h : itemsOf key entries = []
  · rw [h]
    apply itemsOf_ungroup_of_forall_ne
    rintro ⟨k, items⟩ hmem rfl
    obtain ⟨rfl, hne⟩ := mem_toList_groupByKey.1 hmem
    exact hne h
  · apply itemsOf_ungroup_of_mem
    · exact Std.TreeMap.distinct_keys_toList.imp fun hne heq => hne (by simp [heq])
    · exact mem_toList_groupByKey.2 ⟨rfl, h⟩

theorem toList_groupByKey_ungroup (entries : List (String × α)) :
    (groupByKey (ungroup (groupByKey entries).toList)).toList = (groupByKey entries).toList := by
  apply Std.TreeMap.Equiv.toList_eq
  apply Std.TreeMap.Equiv.of_forall_constGet?_eq
  intro key
  rw [getElem?_groupByKey, getElem?_groupByKey, itemsOf_ungroup_groupByKey]

end Regrouping

/-! ## Types -/

/-- A base that can be written: a primitive, or a variable with a name of its own. -/
def Base.Writable : Base → Prop
  | .prim _ => True
  | .wildcard => False
  | .var name => Text.IsName name.toList ∧ ∀ p : Primitive, p.name ≠ name

theorem Base.Writable.isName_name {b : Base} (h : b.Writable) : Text.IsName b.name.toList := by
  cases b with
  | prim p => cases p <;> decide
  | wildcard => cases h
  | var name => exact h.1

theorem Primitive.ofName?_eq_none_iff {name : String} :
    Primitive.ofName? name = none ↔ ∀ p : Primitive, p.name ≠ name := by
  rw [Primitive.ofName?, List.find?_eq_none]
  constructor
  · intro h p
    simpa using h p (by cases p <;> decide)
  · intro h p _
    simpa using h p

/-- The name of a base that can be written is read as that base. -/
theorem Base.Writable.ofName_name {b : Base} (h : b.Writable) : Base.ofName b.name = b := by
  cases b with
  | prim p => simp [Base.name, Base.ofName]
  | wildcard => cases h
  | var name => rw [Base.name, Base.ofName, Primitive.ofName?_eq_none_iff.2 h.2]

theorem Base.writable_ofName {name : String} (h : Text.IsName name.toList) :
    (Base.ofName name).Writable := by
  rw [Base.ofName]
  cases hprim : Primitive.ofName? name with
  | some p => trivial
  | none => exact ⟨h, Primitive.ofName?_eq_none_iff.1 hprim⟩

/-- A symbol of one character can be spelled any number of times. -/
theorem Spells.replicate {t : Token} {c : Char} (ht : t.Spelled [c])
    (hend : ∀ text, t.MayPrecede text) {tokens : List Token} {text : List Char}
    (h : Spells tokens text) (n : Nat) :
    Spells (List.replicate n t ++ tokens) (List.replicate n c ++ text) := by
  induction n with
  | zero => exact h
  | succ n ih =>
      have hstep := Spells.token ht (hend _) ih
      simpa [List.replicate_succ] using hstep

/-- A type is spelled in front of what does not go on with its name. -/
theorem Spells.type {tokens : List Token} {text : List Char} (h : Spells tokens text)
    (hend : ∀ c ∈ text.head?, Text.isNameChar c = false) {ty : Ty} (hty : ty.base.Writable) :
    ∃ written, TypeTokens written ty ∧ Spells (written ++ tokens) (ty.spelling ++ text) := by
  have hname : Token.Spelled (.ident ty.base.name) ty.base.name.toList := by
    have hspelled := Token.Spelled.ident hty.isName_name
    rwa [String.ofList_toList] at hspelled
  have hclose : Token.MayPrecede (.ident ty.base.name) (List.replicate ty.depth ']' ++ text) := by
    cases ty.depth with
    | zero => exact hend
    | succ n =>
        rintro c ⟨⟩
        rfl
  have htokens := TypeTokens.intro ty.base.name ty.depth
  rw [hty.ofName_name] at htokens
  refine ⟨_, htokens, ?_⟩
  have hinner := Spells.token hname hclose (h.replicate .closeBracket (fun _ => trivial) ty.depth)
  have hspells := hinner.replicate .openBracket (fun _ => trivial) ty.depth
  simpa [Ty.spelling] using hspells

/-- Types with arrows between them are spelled so. -/
theorem exists_spells_types {types : List Ty} (hne : types ≠ [])
    (htypes : ∀ ty ∈ types, ty.base.Writable) :
    ∃ tokens, Spells tokens ([' ', '-', '>', ' '].intercalate (types.map Ty.spelling)) ∧
      ArrowTypes (.arrow :: tokens) types := by
  induction types with
  | nil => contradiction
  | cons ty types ih =>
      rw [List.forall_mem_cons] at htypes
      cases types with
      | nil =>
          obtain ⟨written, htokens, hspells⟩ := Spells.nil.type (by simp) htypes.1
          rw [List.append_nil, List.append_nil] at hspells
          refine ⟨written, ?_, .last htokens⟩
          simpa using hspells
      | cons next types =>
          obtain ⟨tokens, hrest, harrows⟩ := ih (by simp) htypes.2
          have harrow := Spells.token .arrow trivial (.blank (c := ' ') rfl hrest)
          have hblank := Spells.blank (c := ' ') rfl harrow
          obtain ⟨written, htokens, hspells⟩ := hblank.type (by rintro c ⟨⟩; rfl) htypes.1
          refine ⟨written ++ .arrow :: tokens, ?_, .cons htokens harrows⟩
          simpa [List.intercalate_cons_cons] using hspells

/-! ## Clauses -/

/-- The clauses of some constraints, in the order in which they are written. -/
def Constraints.toClauses (constraints : Constraints) : List Clause :=
  (ungroup constraints.toList).map fun entry => ⟨entry.2, entry.1⟩

/-- Clauses in the order in which they are written make the same constraints. -/
theorem Constraints.toList_ofClauses_toClauses (clauses : List Clause) :
    (ofClauses (ofClauses clauses).toClauses).toList = (ofClauses clauses).toList := by
  have hregroup :=
    toList_groupByKey_ungroup (clauses.map fun clause => (clause.var, clause.className))
  simpa [ofClauses, toClauses, Function.comp_def] using hregroup

theorem Constraints.renderClauses_eq (constraints : Constraints) :
    constraints.renderClauses =
      constraints.toClauses.map fun clause => clause.className ++ " " ++ clause.var := by
  simp [renderClauses, toClauses, ungroup, List.map_flatMap, Function.comp_def]

/-- The names of a clause can be written. -/
def Clause.Writable (clause : Clause) : Prop :=
  Text.IsName clause.className.toList ∧ Text.IsName clause.var.toList

instance (clause : Clause) : Decidable clause.Writable := inferInstanceAs (Decidable (_ ∧ _))

/-- The clauses that are written are those that were given. -/
theorem Constraints.mem_toClauses_ofClauses {clauses : List Clause} {clause : Clause} :
    clause ∈ (ofClauses clauses).toClauses ↔ clause ∈ clauses := by
  have hentries : (clause.var, clause.className) ∈ ungroup (ofClauses clauses).toList ↔
      (clause.var, clause.className) ∈ clauses.map fun c => (c.var, c.className) := by
    rw [← mem_itemsOf, ofClauses, itemsOf_ungroup_groupByKey, mem_itemsOf]
  have hgiven : (clause.var, clause.className) ∈ clauses.map (fun c => (c.var, c.className)) ↔
      clause ∈ clauses := by
    rw [List.mem_map]
    constructor
    · rintro ⟨⟨className, var⟩, hmem, heq⟩
      cases heq
      exact hmem
    · intro hmem
      exact ⟨clause, hmem, rfl⟩
  rw [← hgiven, ← hentries, toClauses, List.mem_map]
  constructor
  · rintro ⟨entry, hmem, rfl⟩
    exact hmem
  · intro hmem
    exact ⟨_, hmem, rfl⟩

/-- A clause is spelled by its two names with a blank between them. -/
theorem Clause.Writable.spelled {clause : Clause} (h : clause.Writable) (before after : List Char)
    (hbefore : ∀ c ∈ before, Text.isBlank c = true) (hafter : ∀ c ∈ after, Text.isBlank c = true) :
    clause.Spelled
      (before ++ (clause.className.toList ++ ([' '] ++ (clause.var.toList ++ after)))) := by
  have hspelled : Clause.Spelled
      ⟨String.ofList clause.className.toList, String.ofList clause.var.toList⟩ _ :=
    .intro hbefore h.1 (List.cons_ne_nil ' ' []) (List.forall_mem_singleton.2 rfl) h.2 hafter
  rwa [String.ofList_toList, String.ofList_toList] at hspelled

/-- Clauses with commas between them, and blanks in front and after them, make a block. -/
theorem constraintBlock_intercalate {clauses : List Clause} (hne : clauses ≠ [])
    (hclauses : ∀ clause ∈ clauses, clause.Writable) (before : List Char)
    (hbefore : ∀ c ∈ before, Text.isBlank c = true) :
    ConstraintBlock
      (before ++ ([',', ' '].intercalate
        (clauses.map fun clause => clause.className.toList ++ ' ' :: clause.var.toList) ++ [' ']))
      clauses := by
  induction clauses generalizing before with
  | nil => contradiction
  | cons clause clauses ih =>
      rw [List.forall_mem_cons] at hclauses
      cases clauses with
      | nil =>
          have hlast := hclauses.1.spelled before [' '] hbefore (List.forall_mem_singleton.2 rfl)
          have hblock := ConstraintBlock.last hlast
          simpa using hblock
      | cons next clauses =>
          have hfirst := hclauses.1.spelled before [] hbefore (by simp)
          have hrest := ih (by simp) hclauses.2 [' '] (List.forall_mem_singleton.2 rfl)
          have hblock := ConstraintBlock.cons hfirst hrest
          simpa [List.intercalate_cons_cons] using hblock

/-! ## Names that were read -/

theorem Spells.isName_of_mem {tokens : List Token} {text : List Char} (h : Spells tokens text)
    {name : String} (hmem : .ident name ∈ tokens) : Text.IsName name.toList := by
  induction h with
  | nil => simp at hmem
  | blank _ _ ih => exact ih hmem
  | token ht _ _ ih =>
      rcases List.mem_cons.1 hmem with rfl | hmem
      · cases ht with
        | ident hname => rwa [String.toList_ofList]
      · exact ih hmem

theorem ArrowTypes.exists_name {tokens : List Token} {types : List Ty}
    (h : ArrowTypes tokens types) :
    ∀ ty ∈ types, ∃ name, .ident name ∈ tokens ∧ ty.base = .ofName name := by
  induction h with
  | last hty =>
      cases hty with
      | intro name depth =>
          rw [List.forall_mem_singleton]
          exact ⟨name, by simp, rfl⟩
  | cons hty _ ih =>
      cases hty with
      | intro name depth =>
          rw [List.forall_mem_cons]
          refine ⟨⟨name, by simp, rfl⟩, ?_⟩
          intro ty hmem
          obtain ⟨other, hother, hbase⟩ := ih ty hmem
          exact ⟨other, by simp [hother], hbase⟩

/-- Each type of a list has a base that is named in the list. -/
theorem TypeListTokens.exists_name {tokens : List Token} {types : List Ty}
    (h : TypeListTokens tokens types) :
    ∀ ty ∈ types, ∃ name, .ident name ∈ tokens ∧ ty.base = .ofName name := by
  intro ty hmem
  cases h with
  | unit hrest =>
      obtain ⟨name, hname, hbase⟩ := hrest.exists_name ty hmem
      exact ⟨name, List.mem_cons_of_mem _ hname, hbase⟩
  | types hty hrest =>
      obtain ⟨name, hname, hbase⟩ := (ArrowTypes.cons hty hrest).exists_name ty hmem
      exact ⟨name, List.mem_of_ne_of_mem (by simp) hname, hbase⟩

theorem ConstraintBlock.writable {block : List Char} {clauses : List Clause}
    (h : ConstraintBlock block clauses) : ∀ clause ∈ clauses, clause.Writable := by
  have hspelled : ∀ {clause : Clause} {piece : List Char}, clause.Spelled piece →
      clause.Writable := by
    rintro clause piece ⟨_, hclass, _, _, hvar, _⟩
    simpa [Clause.Writable] using ⟨hclass, hvar⟩
  induction h with
  | last hclause => exact List.forall_mem_singleton.2 (hspelled hclause)
  | cons hclause _ ih => exact List.forall_mem_cons.2 ⟨hspelled hclause, ih⟩

/-! ## Signatures -/

/-- No double arrow stands where no equals sign may. -/
theorem no_mark_of_allows {half : Half} {text : List Char} (h : ∀ c ∈ text, half.allows c = true) :
    ¬ ['=', '>'] <:+: text := by
  intro hmark
  have hequals := h '=' (hmark.subset List.mem_cons_self)
  cases half <;> cases hequals

namespace Signature

/-- A signature with at least one type, all of whose names can be written. -/
structure WellFormed (s : Signature) : Prop where
  types_ne_nil : s.types ≠ []
  types_writable : ∀ ty ∈ s.types, ty.base.Writable
  clauses_writable : ∀ clause ∈ s.clauses.map (·.item), clause.Writable

/-- The type list of the canonical text: the unit stands in for missing parameters. -/
def typeText (types : List Ty) : List Char :=
  (if types.length - 1 = 0 then ['(', ')', ' ', '-', '>', ' '] else []) ++
    [' ', '-', '>', ' '].intercalate (types.map Ty.spelling)

/-- The type list of the canonical text spells the types. -/
theorem exists_spells_typeText {types : List Ty} (hne : types ≠ [])
    (htypes : ∀ ty ∈ types, ty.base.Writable) :
    ∃ tokens, Spells tokens (typeText types) ∧ TypeListTokens tokens types := by
  obtain ⟨tokens, hspells, harrows⟩ := exists_spells_types hne htypes
  by_cases hlength : types.length - 1 = 0
  · refine ⟨.unit :: .arrow :: tokens, ?_, .unit harrows⟩
    have hunit : Token.Spelled .unit ['(', ')'] := @Token.Spelled.unit [] (by simp)
    have harrow := Spells.token .arrow trivial (.blank (c := ' ') rfl hspells)
    have htext := Spells.token hunit trivial (.blank (c := ' ') rfl harrow)
    rw [typeText, if_pos hlength]
    exact htext
  · rw [typeText, if_neg hlength, List.nil_append]
    refine ⟨tokens, hspells, ?_⟩
    cases harrows with
    | last _ => simp at hlength
    | cons hty hrest => exact .types hty hrest

theorem toList_render (s : Signature) :
    s.render.toList =
      (if s.constraints.toClauses = [] then [] else
        [',', ' '].intercalate (s.constraints.toClauses.map fun clause =>
          clause.className.toList ++ ' ' :: clause.var.toList) ++ [' ', '=', '>', ' ']) ++
      typeText s.types := by
  have htypes : (s.types.map Ty.render).map String.toList = s.types.map Ty.spelling := by
    simp [Ty.render, Function.comp_def]
  by_cases hclauses : s.constraints.toClauses = [] <;> by_cases hlength : s.types.length - 1 = 0 <;>
    simp [render, Constraints.renderClauses_eq, hclauses, arity_eq, typeText, hlength,
      String.toList_intercalate, htypes, Function.comp_def]

/-- The canonical text derives the types, and the clauses in the order in which they are written. -/
theorem derives_render {s : Signature} (h : s.WellFormed) :
    Derives s.render.toList s.constraints.toClauses s.types := by
  obtain ⟨tokens, hspells, htypes⟩ := exists_spells_typeText h.types_ne_nil h.types_writable
  rw [toList_render]
  by_cases hclauses : s.constraints.toClauses = []
  · rw [if_pos hclauses, hclauses, List.nil_append]
    exact .plain (no_mark_of_allows hspells.allows) hspells htypes
  · have hwritable : ∀ clause ∈ s.constraints.toClauses, clause.Writable := by
      intro clause hmem
      exact h.clauses_writable clause (Constraints.mem_toClauses_ofClauses.1 hmem)
    have hblock := constraintBlock_intercalate hclauses hwritable [] (by simp)
    have hderives := Derives.constrained (no_mark_of_allows hblock.allows) hblock
      (.blank (c := ' ') rfl hspells) htypes
    rw [if_neg hclauses]
    simpa using hderives

/-- The canonical text depends on the types and the constraints alone. -/
theorem render_congr {s t : Signature} (htypes : s.types = t.types)
    (hconstraints : s.constraints.toList = t.constraints.toList) : s.render = t.render := by
  have hclauses : s.constraints.renderClauses = t.constraints.renderClauses := by
    rw [Constraints.renderClauses, Constraints.renderClauses, hconstraints]
  simp only [render, arity_eq, htypes, hclauses]

theorem Derives.writable {text : List Char} {clauses : List Clause} {types : List Ty}
    (h : Derives text clauses types) :
    (∀ ty ∈ types, ty.base.Writable) ∧ ∀ clause ∈ clauses, clause.Writable := by
  have hwritable : ∀ {tokens : List Token} {text : List Char}, Spells tokens text →
      TypeListTokens tokens types → ∀ ty ∈ types, ty.base.Writable := by
    intro tokens text htext htypes ty hmem
    obtain ⟨name, hname, hbase⟩ := htypes.exists_name ty hmem
    rw [hbase]
    exact Base.writable_ofName (htext.isName_of_mem hname)
  cases h with
  | plain _ htext htypes => exact ⟨hwritable htext htypes, by simp⟩
  | constrained _ hblock htext htypes => exact ⟨hwritable htext htypes, hblock.writable⟩

theorem wellFormed_of_parse {source : String} {s : Signature} (h : parse source = .ok s) :
    s.WellFormed := by
  have hderives := derives_of_parse h
  exact ⟨hderives.types_ne_nil, hderives.writable.1, hderives.writable.2⟩

/-- Two signatures mean the same: they have the same types, constraints and canonical text. -/
structure SameMeaning (s t : Signature) : Prop where
  types : s.types = t.types
  constraints : s.constraints.toList = t.constraints.toList
  render : s.render = t.render

/-- Writing a signature and reading the text keeps its meaning. This holds for every signature
that can be written, and so for every signature that was read. -/
theorem parse_render_sameMeaning :
    (∀ s : Signature, s.WellFormed → ∃ t, parse s.render = .ok t ∧ t.SameMeaning s) ∧
      ∀ (source : String) (s : Signature), parse source = .ok s →
        ∃ t, parse s.render = .ok t ∧ t.SameMeaning s := by
  have hwritten : ∀ s : Signature, s.WellFormed → ∃ t, parse s.render = .ok t ∧
      t.SameMeaning s := by
    intro s hs
    obtain ⟨t, hparse, hclauses, htypes⟩ := (exists_parse_eq_ok_iff _ _ _).2 (derives_render hs)
    have hconstraints : t.constraints.toList = s.constraints.toList := by
      rw [constraints, hclauses]
      exact Constraints.toList_ofClauses_toClauses _
    exact ⟨t, hparse, htypes, hconstraints, render_congr htypes hconstraints⟩
  refine ⟨hwritten, ?_⟩
  intro source s hparse
  exact hwritten s (wellFormed_of_parse hparse)

/-- Clauses out of order and the unit: neither signature is written as it was given. -/
theorem parse_render_sameMeaning_sample :
    let s : Signature :=
      ⟨"", [⟨⟨"Ord", "b"⟩, .origin⟩, ⟨⟨"Eq", "a"⟩, .origin⟩, ⟨⟨"Eq", "b"⟩, .origin⟩],
        [⟨⟨.var "b", 2⟩, .origin⟩]⟩
    let unitFirst : Signature :=
      ⟨"()->a->b", [], [⟨⟨.var "a", 0⟩, ⟨4, 5⟩⟩, ⟨⟨.var "b", 0⟩, ⟨7, 8⟩⟩]⟩
    (s.WellFormed ∧ s.render = "Eq a, Ord b, Eq b => () -> [[b]]" ∧
        ∃ t, parse s.render = .ok t ∧ t.SameMeaning s) ∧
      parse "()->a->b" = .ok unitFirst ∧ ∃ t, parse unitFirst.render = .ok t ∧
        t.SameMeaning unitFirst := by
  intro s unitFirst
  have hs : s.WellFormed := by
    refine ⟨by decide, ?_, by decide⟩
    exact List.forall_mem_singleton.2 ⟨by decide, by rintro ⟨⟩ <;> decide⟩
  have hparse : parse "()->a->b" = .ok unitFirst := eq_ok_of_toOption (by decide +kernel)
  exact ⟨⟨hs, by decide +kernel, parse_render_sameMeaning.1 s hs⟩,
    hparse, parse_render_sameMeaning.2 _ unitFirst hparse⟩

end Signature

end Covenant
