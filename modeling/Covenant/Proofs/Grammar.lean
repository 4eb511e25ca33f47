import Covenant.Proofs.ClauseGrammar
import Covenant.Proofs.Screening

/-!
# The grammar of signatures

A signature is a type list, with a constraint block and a double arrow in front of it if it has
constraints. The first double arrow of a text is the one that counts. Reading accepts exactly the
texts that the grammar derives, and what it returns is what they derive, so no text has two
meanings.
-/

namespace Covenant

/-- The classes of a variable are those of its clauses, in the order of the text and with repeats.
A variable without clauses has no entry. -/
theorem Constraints.getElem?_ofClauses (clauses : List Clause) (var : String) :
    (Constraints.ofClauses clauses)[var]? =
      if ∀ clause ∈ clauses, clause.var ≠ var then none
      else some ((clauses.filter (·.var = var)).map (·.className)) := by
  have hitems : itemsOf var (clauses.map fun clause => (clause.var, clause.className)) =
      (clauses.filter (·.var = var)).map (·.className) := by
    rw [itemsOf, List.filter_map, List.map_map]
    rfl
  rw [Constraints.ofClauses, getElem?_groupByKey, hitems]
  simp only [List.map_eq_nil_iff, List.filter_eq_nil_iff, decide_eq_true_eq, Ne]

namespace Signature

/-- The clauses and types that the text of a signature derives. The constraint block is what
stands before the first double arrow; a text without double arrow is a type list. -/
inductive Derives : List Char → List Clause → List Ty → Prop
  | plain {text : List Char} {tokens : List Token} {types : List Ty}
      (hmark : ¬ ['=', '>'] <:+: text)
      (htext : Spells tokens text) (htypes : TypeListTokens tokens types) : Derives text [] types
  | constrained {block text : List Char} {clauses : List Clause} {tokens : List Token}
      {types : List Ty} (hmark : ¬ ['=', '>'] <:+: block) (hblock : ConstraintBlock block clauses)
      (htext : Spells tokens text) (htypes : TypeListTokens tokens types) :
      Derives (block ++ '=' :: '>' :: text) clauses types

/-- A signature is read if both of its halves are: the screening of the type list refuses nothing
more. -/
theorem exists_parse_iff_of_halves {source : String} {block : Option (List Char)} {start : Nat}
    {typeText : List Char} (hhalves : halves source.toList = (block, start, typeText))
    {clauses : List Clause} {types : List Ty} :
    (∃ sig, parse source = .ok sig ∧ sig.clauses.map (·.item) = clauses ∧ sig.types = types) ↔
      (∃ located, readBlock block = .ok located ∧ located.map (·.item) = clauses) ∧
        ∃ tokens, Spells tokens typeText ∧ TypeListTokens tokens types := by
  rw [← readTypeText_eq_ok_iff start]
  simp only [parse, hhalves]
  constructor
  · rintro ⟨sig, h, rfl, rfl⟩
    obtain ⟨_, _, h⟩ := bind_eq_ok_iff.1 h
    obtain ⟨located, hclauses, h⟩ := bind_eq_ok_iff.1 h
    obtain ⟨typeList, htypes, h⟩ := bind_eq_ok_iff.1 h
    obtain rfl := Except.ok.inj h
    exact ⟨⟨located, hclauses, rfl⟩, typeList, htypes, rfl⟩
  · rintro ⟨⟨located, hclauses, rfl⟩, typeList, htypes, rfl⟩
    obtain ⟨tokens, htext, hlist⟩ := (readTypeText_eq_ok_iff start _ _).1 ⟨typeList, htypes, rfl⟩
    have hscreen := htext.screenTypeList_eq_ok hlist start
    refine ⟨⟨source, located, typeList⟩, ?_, rfl, rfl⟩
    refine bind_eq_ok_iff.2 ⟨(), hscreen, ?_⟩
    refine bind_eq_ok_iff.2 ⟨located, hclauses, ?_⟩
    exact bind_eq_ok_iff.2 ⟨typeList, htypes, rfl⟩

/-- A text without double arrow derives what it derives as a type list. -/
theorem derives_iff_of_breakOn_eq_none {text : List Char}
    (hbreak : Text.breakOn '=' '>' text = none) {clauses : List Clause} {types : List Ty} :
    Derives text clauses types ↔
      clauses = [] ∧ ∃ tokens, Spells tokens text ∧ TypeListTokens tokens types := by
  have hmark := Text.breakOn_eq_none_iff.1 hbreak
  constructor
  · intro h
    cases h with
    | plain _ htext htypes => exact ⟨rfl, _, htext, htypes⟩
    | @constrained block rest _ _ _ hfirst =>
        rw [(Text.breakOn_eq_some_iff (by decide)).2 ⟨rfl, hfirst⟩] at hbreak
        cases hbreak
  · rintro ⟨rfl, tokens, htext, htypes⟩
    exact .plain hmark htext htypes

/-- With a double arrow, the first one separates the halves. -/
theorem derives_iff_of_breakOn_eq_some {text block rest : List Char}
    (hbreak : Text.breakOn '=' '>' text = some (block, rest)) {clauses : List Clause}
    {types : List Ty} :
    Derives text clauses types ↔
      ConstraintBlock block clauses ∧ ∃ tokens, Spells tokens rest ∧
        TypeListTokens tokens types := by
  constructor
  · intro h
    cases h with
    | plain hmark =>
        rw [Text.breakOn_eq_none_iff.2 hmark] at hbreak
        cases hbreak
    | constrained hfirst hblock htext htypes =>
        rw [(Text.breakOn_eq_some_iff (by decide)).2 ⟨rfl, hfirst⟩] at hbreak
        cases hbreak
        exact ⟨hblock, _, htext, htypes⟩
  · rintro ⟨hblock, tokens, htext, htypes⟩
    obtain ⟨rfl, hfirst⟩ := (Text.breakOn_eq_some_iff (by decide)).1 hbreak
    exact .constrained hfirst hblock htext htypes

/-- Reading a text returns the clauses and types that it derives. -/
theorem exists_parse_eq_ok_iff (source : String) (clauses : List Clause) (types : List Ty) :
    (∃ sig, parse source = .ok sig ∧ sig.clauses.map (·.item) = clauses ∧ sig.types = types) ↔
      Derives source.toList clauses types := by
  cases hbreak : Text.breakOn '=' '>' source.toList with
  | none =>
      have hhalves : halves source.toList = (none, 0, source.toList) := by rw [halves, hbreak]
      rw [exists_parse_iff_of_halves hhalves, derives_iff_of_breakOn_eq_none hbreak]
      simp [readBlock, eq_comm]
  | some parts =>
      have hhalves : halves source.toList = (some parts.1, Text.bytes parts.1 + 2, parts.2) := by
        rw [halves, hbreak]
      rw [exists_parse_iff_of_halves hhalves, derives_iff_of_breakOn_eq_some hbreak, readBlock,
        readConstraints_eq_ok_iff]

theorem derives_of_parse {source : String} {sig : Signature} (h : parse source = .ok sig) :
    Derives source.toList (sig.clauses.map (·.item)) sig.types :=
  (exists_parse_eq_ok_iff source _ _).1 ⟨sig, h, rfl, rfl⟩

theorem Derives.types_ne_nil {text : List Char} {clauses : List Clause} {types : List Ty}
    (h : Derives text clauses types) : types ≠ [] := by
  cases h with
  | plain _ _ htypes => exact htypes.types_ne_nil
  | constrained _ _ _ htypes => exact htypes.types_ne_nil

/-- Reading accepts exactly the texts that the grammar derives, and returns what they derive. -/
theorem parse_accepts_grammar (source : String) :
    ((∃ sig, parse source = .ok sig) ↔ ∃ clauses types, Derives source.toList clauses types) ∧
      ∀ sig clauses types, parse source = .ok sig → Derives source.toList clauses types →
        sig.types = types ∧
          ∀ var, sig.constraints[var]? =
            if ∀ clause ∈ clauses, clause.var ≠ var then none
            else some ((clauses.filter (·.var = var)).map (·.className)) := by
  constructor
  · constructor
    · rintro ⟨sig, hparse⟩
      exact ⟨_, _, derives_of_parse hparse⟩
    · rintro ⟨clauses, types, hderives⟩
      obtain ⟨sig, hparse, _⟩ := (exists_parse_eq_ok_iff source clauses types).2 hderives
      exact ⟨sig, hparse⟩
  · intro sig clauses types hparse hderives
    obtain ⟨sig', hparse', rfl, rfl⟩ := (exists_parse_eq_ok_iff source clauses types).2 hderives
    obtain rfl : sig = sig' := Except.ok.inj (hparse.symm.trans hparse')
    exact ⟨rfl, Constraints.getElem?_ofClauses _⟩

/-- Clauses of two variables, blanks of several kinds, and the unit in place of parameters. -/
theorem parse_accepts_grammar_sample :
    let source := " Ord b,Eq\ta ,Ord a,Eq a=>( )->[[a]] ->b"
    let clauses : List Clause := [⟨"Ord", "b"⟩, ⟨"Eq", "a"⟩, ⟨"Ord", "a"⟩, ⟨"Eq", "a"⟩]
    let types : List Ty := [⟨.var "a", 2⟩, ⟨.var "b", 0⟩]
    Derives source.toList clauses types ∧
      ∃ sig, parse source = .ok sig ∧ sig.types = types ∧
        sig.constraints["a"]? = some ["Eq", "Ord", "Eq"] ∧ sig.constraints["c"]? = none := by
  intro source clauses types
  have hparse : parse source = .ok
      ⟨source,
        [⟨⟨"Ord", "b"⟩, ⟨1, 6⟩⟩, ⟨⟨"Eq", "a"⟩, ⟨7, 11⟩⟩, ⟨⟨"Ord", "a"⟩, ⟨13, 18⟩⟩,
          ⟨⟨"Eq", "a"⟩, ⟨19, 23⟩⟩],
        [⟨⟨.var "a", 2⟩, ⟨30, 35⟩⟩, ⟨⟨.var "b", 0⟩, ⟨38, 39⟩⟩]⟩ :=
    eq_ok_of_toOption (by decide +kernel)
  have hderives : Derives source.toList clauses types := derives_of_parse hparse
  obtain ⟨htypes, hclasses⟩ := (parse_accepts_grammar source).2 _ clauses types hparse hderives
  refine ⟨hderives, _, hparse, htypes, ?_, ?_⟩
  · rw [hclasses]
    decide
  · rw [hclasses]
    decide

end Signature

end Covenant
