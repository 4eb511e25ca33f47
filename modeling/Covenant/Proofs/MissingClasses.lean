import Covenant.Proofs.Labels
import Covenant.Proofs.RegistryRuns

/-!
# Missing classes

A text is drafted into a contract if all of its classes are registered. If not, the first clause
whose class is missing is refused, with the registered names closest to it. What is suggested
depends on the names only: it does not matter in which order they are looked through, and names at
the same distance are put in their own order.
-/

namespace Covenant

/-! ## Suggestions -/

/-- The order of suggestions: the closer name first, and the order of code points at equal
distance. -/
def SuggestedBefore (name a b : String) : Prop :=
  editDistance name a < editDistance name b ∨ editDistance name a = editDistance name b ∧ a ≤ b

instance (name a b : String) : Decidable (SuggestedBefore name a b) :=
  inferInstanceAs (Decidable (_ ∨ _))

theorem SuggestedBefore.antisymm {name a b : String} (hab : SuggestedBefore name a b)
    (hba : SuggestedBefore name b a) : a = b := by
  rcases hab with hab | ⟨hab, hle⟩
  · rcases hba with hba | ⟨hba, -⟩ <;> omega
  · rcases hba with hba | ⟨-, hge⟩
    · omega
    · exact String.le_antisymm hle hge

/-- The candidates at a distance from one to `max`, with their repeats. -/
def nearby (name : String) (candidates : List String) (max : Nat) : List String :=
  candidates.filter fun candidate => 0 < editDistance name candidate ∧
    editDistance name candidate ≤ max

/-- The first three of the candidates at a distance from one to `max`, or all if there are fewer. -/
def Suggests (name : String) (candidates : List String) (max : Nat) (found : List String) : Prop :=
  ∃ ordered : List String, ordered.Perm (nearby name candidates max) ∧
    ordered.Pairwise (SuggestedBefore name) ∧ found = ordered.take 3

theorem Suggests.unique {name : String} {candidates found found' : List String} {max : Nat}
    (h : Suggests name candidates max found)
    (h' : Suggests name candidates max found') : found = found' := by
  obtain ⟨ordered, hperm, hsorted, rfl⟩ := h
  obtain ⟨ordered', hperm', hsorted', rfl⟩ := h'
  have heq : ordered = ordered' :=
    List.Perm.eq_of_pairwise (fun _ _ _ _ => SuggestedBefore.antisymm) hsorted hsorted'
      (hperm.trans hperm'.symm)
  rw [heq]

/-- The order in which candidates are given does not matter. -/
theorem Suggests.of_perm {name : String} {candidates candidates' found : List String} {max : Nat}
    (h : Suggests name candidates max found) (hperm : candidates.Perm candidates') :
    Suggests name candidates' max found := by
  obtain ⟨ordered, hordered, hsorted, hfound⟩ := h
  exact ⟨ordered, hordered.trans (hperm.filter _), hsorted, hfound⟩

/-- The candidates at a distance from one to `max`, each with its distance. -/
def ranked (name : String) (candidates : List String) (max : Nat) : List (Nat × String) :=
  candidates.filterMap fun candidate =>
    if 0 < editDistance name candidate ∧ editDistance name candidate ≤ max then
      some (editDistance name candidate, candidate)
    else none

/-- How candidates with their distances are compared. -/
def rankedBefore (a b : Nat × String) : Bool :=
  a.1 < b.1 || (a.1 == b.1 && a.2 ≤ b.2)

theorem similarNames_eq (name : String) (candidates : List String) (max : Nat) :
    similarNames name candidates max =
      (((ranked name candidates max).mergeSort rankedBefore).map (·.2)).take 3 := rfl

theorem map_ranked (name : String) (candidates : List String) (max : Nat) :
    (ranked name candidates max).map (·.2) = nearby name candidates max := by
  induction candidates with
  | nil => rfl
  | cons candidate candidates ih =>
      rw [ranked, nearby] at ih ⊢
      by_cases hnear : 0 < editDistance name candidate ∧ editDistance name candidate ≤ max
      · rw [List.filterMap_cons, if_pos hnear, List.map_cons, ih, List.filter_cons,
          if_pos (decide_eq_true hnear)]
      · rw [List.filterMap_cons, if_neg hnear, ih, List.filter_cons,
          if_neg (by rw [decide_eq_true_iff]; exact hnear)]

theorem fst_of_mem_ranked {name : String} {candidates : List String} {max : Nat} {x : Nat × String}
    (h : x ∈ ranked name candidates max) : x.1 = editDistance name x.2 := by
  obtain ⟨candidate, -, hx⟩ := List.mem_filterMap.1 h
  split at hx
  · rw [← Option.some.inj hx]
  · cases hx

theorem rankedBefore_iff {a b : Nat × String} :
    rankedBefore a b = true ↔ a.1 < b.1 ∨ a.1 = b.1 ∧ a.2 ≤ b.2 := by
  simp [rankedBefore]

/-- The comparison puts all candidates in order. -/
theorem pairwise_ranked (xs : List (Nat × String)) :
    (xs.mergeSort rankedBefore).Pairwise fun a b => rankedBefore a b = true := by
  refine List.pairwise_mergeSort ?_ ?_ xs
  · intro a b c hab hbc
    rw [rankedBefore_iff] at hab hbc ⊢
    rcases hab with hab | ⟨hab, hle⟩
    · refine .inl ?_
      rcases hbc with hbc | ⟨hbc, -⟩ <;> omega
    · rcases hbc with hbc | ⟨hbc, hle'⟩
      · exact .inl (by omega)
      · exact .inr ⟨hab.trans hbc, String.le_trans hle hle'⟩
  · intro a b
    rw [Bool.or_eq_true, rankedBefore_iff, rankedBefore_iff]
    rcases Nat.lt_trichotomy a.1 b.1 with hlt | heq | hlt
    · exact .inl (.inl hlt)
    · rcases String.le_total a.2 b.2 with hle | hle
      · exact .inl (.inr ⟨heq, hle⟩)
      · exact .inr (.inr ⟨heq.symm, hle⟩)
    · exact .inr (.inl hlt)

theorem suggests_similarNames (name : String) (candidates : List String) (max : Nat) :
    Suggests name candidates max (similarNames name candidates max) := by
  have hperm := List.mergeSort_perm (ranked name candidates max) rankedBefore
  refine ⟨_, ?_, ?_, similarNames_eq name candidates max⟩
  · rw [← map_ranked]
    exact hperm.map _
  · rw [List.pairwise_map]
    refine (pairwise_ranked _).imp_of_mem ?_
    intro a b ha hb hab
    have hdistance := fst_of_mem_ranked (hperm.mem_iff.1 ha)
    have hdistance' := fst_of_mem_ranked (hperm.mem_iff.1 hb)
    rw [rankedBefore_iff, hdistance, hdistance'] at hab
    exact hab

theorem similarNames_eq_iff {name : String} {candidates found : List String} {max : Nat} :
    similarNames name candidates max = found ↔ Suggests name candidates max found := by
  constructor
  · intro h
    rw [← h]
    exact suggests_similarNames name candidates max
  · exact (suggests_similarNames name candidates max).unique

/-! ## Clauses -/

/-- The groups of a signature name the classes that its clauses name. -/
theorem Contract.registered_iff {registry : Registry} {sig : Signature} :
    Registered registry sig.constraints ↔
      ∀ x ∈ sig.clauses, registry.contains x.item.className = true := by
  simp only [Registered, Registry.contains_eq_isSome_get?, Option.isSome_iff_ne_none]
  constructor
  · intro h x hx
    have hclause : ⟨x.item.className, x.item.var⟩ ∈ sig.clauses.map (·.item) :=
      List.mem_map.2 ⟨x, hx, rfl⟩
    obtain ⟨classes, hclasses, hclass⟩ := Signature.exists_classes_of_mem hclause
    exact h x.item.var classes hclasses x.item.className hclass
  · intro h var classes hclasses className hclass
    obtain ⟨x, hx, rfl⟩ :=
      List.mem_map.1 (Signature.mem_namedClasses_of_constraints hclasses hclass)
    exact h x hx

/-- The clauses of a signature are in the order of its text. -/
theorem Signature.pairwise_clauses {source : String} {sig : Signature}
    (h : parse source = .ok sig) :
    sig.clauses.Pairwise fun x y => x.span.stop < y.span.start := by
  obtain ⟨-, hblock, -⟩ := readings_of_parse h
  cases hhalf : (halves source.toList).1 with
  | none =>
      rw [hhalf] at hblock
      rw [← Except.ok.inj hblock]
      exact .nil
  | some block =>
      rw [hhalf] at hblock
      obtain ⟨-, hread⟩ := bind_unit_eq_ok_iff.1 hblock
      exact (pairwise_of_readClauses hread).2

/-! ## The first missing class -/

namespace Contract

/-- The first clause of a signature whose class is not registered. -/
def FirstMissing (registry : Registry) (sig : Signature) (x : Located Clause) : Prop :=
  ∃ earlier later, sig.clauses = earlier ++ x :: later ∧
    (∀ y ∈ earlier, registry.contains y.item.className = true) ∧
      registry.contains x.item.className = false

theorem exists_firstMissing {registry : Registry} {sig : Signature}
    (h : ¬ Registered registry sig.constraints) :
    ∃ x, FirstMissing registry sig x := by
  rw [registered_iff] at h
  cases hfind : sig.clauses.find? fun x => !registry.contains x.item.className with
  | none =>
      refine absurd ?_ h
      simpa using hfind
  | some x =>
      obtain ⟨hx, earlier, later, hsplit, hearlier⟩ := List.find?_eq_some_iff_append.1 hfind
      exact ⟨x, earlier, later, hsplit, by simpa using hearlier, by simpa using hx⟩

/-- No clause before the first missing one names its class. -/
theorem FirstMissing.exists_split {registry : Registry} {sig : Signature} {x : Located Clause}
    (h : FirstMissing registry sig x) :
    ∃ earlier later, sig.clauses = earlier ++ x :: later ∧
      ∀ y ∈ earlier, y.item.className ≠ x.item.className := by
  obtain ⟨earlier, later, hsplit, hearlier, hx⟩ := h
  refine ⟨earlier, later, hsplit, ?_⟩
  intro y hy heq
  rw [← heq, hearlier y hy] at hx
  cases hx

theorem FirstMissing.spanOfClass? {registry : Registry} {sig : Signature} {x : Located Clause}
    (h : FirstMissing registry sig x) : sig.spanOfClass? x.item.className = some x.span := by
  obtain ⟨earlier, later, hsplit, hearlier⟩ := h.exists_split
  have hfind : sig.clauses.find? (fun clause => clause.item.className == x.item.className) =
      some x := by
    rw [List.find?_eq_some_iff_append]
    exact ⟨by simp, earlier, later, hsplit, by simpa using hearlier⟩
  rw [Signature.spanOfClass?, hfind, Option.map_some]

theorem FirstMissing.find?_namedClasses {registry : Registry} {sig : Signature} {x : Located Clause}
    (h : FirstMissing registry sig x) :
    sig.namedClasses.find? (fun name => !registry.contains name) = some x.item.className := by
  obtain ⟨earlier, later, hsplit, hearlier, hx⟩ := h
  rw [List.find?_eq_some_iff_append]
  refine ⟨by simp [hx], earlier.map (·.item.className), later.map (·.item.className), ?_, ?_⟩
  · rw [Signature.namedClasses, hsplit, List.map_append, List.map_cons]
  · simpa using hearlier

theorem FirstMissing.resolve_eq {registry : Registry} {sig : Signature} {x : Located Clause}
    (h : FirstMissing registry sig x) :
    resolve registry sig =
      .error ⟨.unknownClass x.item.className (similarNames x.item.className registry.names 2),
        x.span⟩ := by
  rw [resolve, h.find?_namedClasses]
  simp only [h.spanOfClass?, Option.getD_some]

/-- A signature is resolved if its groups name registered classes only. -/
theorem resolve_eq_ok_iff_registered {registry : Registry} {sig : Signature} :
    resolve registry sig = .ok () ↔ Registered registry sig.constraints := by
  rw [resolve_eq_ok_iff, registered_iff, Signature.namedClasses, List.forall_mem_map]

/-- After its text is read, a contract is drafted from a signature that is resolved. -/
theorem draft_of_parse {registry : Registry} {source : String} {sig : Signature}
    (h : Signature.parse source = .ok sig) (rule : ArrayRule) :
    draft registry rule source = (resolve registry sig).map fun () => ⟨sig, registry, rule⟩ := by
  rw [draft, h]
  cases hresolve : resolve registry sig with
  | error e => exact bind_eq_error_iff.2 (.inr ⟨sig, rfl, bind_eq_error_iff.2 (.inl hresolve)⟩)
  | ok _ => exact bind_eq_ok_iff.2 ⟨sig, rfl, bind_eq_ok_iff.2 ⟨(), hresolve, rfl⟩⟩

/-! ## Main statement -/

/-- What a draft makes of a text: a refusal of the text is handed on, and if the text is read, a
contract is drafted exactly if all of the classes in its groups are registered. Otherwise the
first clause with a missing class is refused: it is the first clause of the text that names this
class, and the clauses are kept in the order of the text. The suggestions are the registered names
at distance one or two, at most three of them, closer names first, and it does not matter how the
registered names are listed. Functions are put under contract in the same way. -/
theorem draft_refuses_first_missing (registry : Registry) (rule : ArrayRule) (source : String) :
    (∀ e, Signature.parse source = .error e → draft registry rule source = .error e) ∧
      (∀ sig, Signature.parse source = .ok sig →
        sig.clauses.Pairwise (fun x y => x.span.stop < y.span.start) ∧
        ((∃ c, draft registry rule source = .ok c) ↔ Registered registry sig.constraints) ∧
        (∀ c, draft registry rule source = .ok c → c = ⟨sig, registry, rule⟩) ∧
        (¬ Registered registry sig.constraints → ∃ x found, FirstMissing registry sig x ∧
          Signature.FirstNaming source.toList x.item x.span ∧
          draft registry rule source = .error ⟨.unknownClass x.item.className found, x.span⟩ ∧
          ∀ names : List String, names.Nodup →
            (∀ name, name ∈ names ↔ registry.contains name = true) →
            Suggests x.item.className names 2 found)) ∧
      (∀ (s : Session) (name : String) (function : Nat),
        (s.guard rule name source function).map (fun r => (r.1.contract, r.1.function)) =
          (draft s.registry rule source).map fun c => (c, function)) ∧
      (∀ name candidates max found,
        similarNames name candidates max = found ↔ Suggests name candidates max found) ∧
      ∀ name candidates candidates' max, candidates.Perm candidates' →
        similarNames name candidates max = similarNames name candidates' max := by
  refine ⟨?_, ?_, ?_, fun _ _ _ _ => similarNames_eq_iff, ?_⟩
  · intro e h
    exact bind_eq_error_iff.2 (.inl h)
  · intro sig h
    rw [draft_of_parse h]
    refine ⟨Signature.pairwise_clauses h, ?_, ?_, ?_⟩
    · rw [← resolve_eq_ok_iff_registered]
      simp only [map_eq_ok_iff]
      constructor
      · intro hok
        obtain ⟨-, _, hresolve, -⟩ := hok
        exact hresolve
      · intro hresolve
        exact ⟨_, (), hresolve, rfl⟩
    · intro c hc
      obtain ⟨-, -, rfl⟩ := map_eq_ok_iff.1 hc
      rfl
    · intro hmissing
      obtain ⟨x, hx⟩ := exists_firstMissing hmissing
      obtain ⟨earlier, later, hsplit, hearlier⟩ := hx.exists_split
      refine ⟨x, _, hx, Signature.firstNaming_of_parse h hsplit hearlier,
        map_eq_error_iff.2 hx.resolve_eq, ?_⟩
      intro names hnodup hnames
      exact (suggests_similarNames _ _ _).of_perm (Registry.perm_names hnodup hnames)
  · intro s name function
    rw [Session.guard]
    cases draft s.registry rule source <;> rfl
  · intro name candidates candidates' max hperm
    exact similarNames_eq_iff.2 ((suggests_similarNames _ _ _).of_perm hperm.symm)

/-- Two classes are missing, and four registered names are close to the first of them. -/
theorem draft_refuses_first_missing_sample :
    let source := "Eq a,\n\u3000Shw b, Nope a, Shw c => a -> b -> c"
    let registry : Registry := ⟨.ofList (["Zhow", "Show", "Eq", "Shew", "Aw"].map (·, Class.any))⟩
    let names := ["Show", "Aw", "Eq", "Zhow", "Shew"]
    let suggestions := ["Shew", "Show", "Aw"]
    draft registry .collapse source = .error ⟨.unknownClass "Shw" suggestions, ⟨9, 14⟩⟩ ∧
      (∃ var, Signature.FirstNaming source.toList ⟨"Shw", var⟩ ⟨9, 14⟩) ∧
      (∀ name, name ∈ names ↔ registry.contains name = true) ∧
      Suggests "Shw" names 2 suggestions := by
  intro source registry names suggestions
  let sig : Signature := ⟨source,
    [⟨⟨"Eq", "a"⟩, ⟨0, 4⟩⟩, ⟨⟨"Shw", "b"⟩, ⟨9, 14⟩⟩, ⟨⟨"Nope", "a"⟩, ⟨16, 22⟩⟩,
      ⟨⟨"Shw", "c"⟩, ⟨24, 29⟩⟩],
    [⟨⟨.var "a", 0⟩, ⟨33, 34⟩⟩, ⟨⟨.var "b", 0⟩, ⟨38, 39⟩⟩, ⟨⟨.var "c", 0⟩, ⟨43, 44⟩⟩]⟩
  have hparse : Signature.parse source = .ok sig := eq_ok_of_toOption (by decide +kernel)
  have hfirst : FirstMissing registry sig ⟨⟨"Shw", "b"⟩, ⟨9, 14⟩⟩ :=
    ⟨sig.clauses.take 1, sig.clauses.drop 2, rfl, by decide +kernel, by decide +kernel⟩
  have hmissing : ¬ Registered registry sig.constraints := by
    rw [registered_iff]
    decide +kernel
  have hsuggestions : similarNames "Shw" registry.names 2 = suggestions :=
    similarNames_eq_iff.2 ⟨suggestions ++ ["Zhow"], by decide +kernel, by decide +kernel, rfl⟩
  have hdraft : draft registry .collapse source =
      .error ⟨.unknownClass "Shw" suggestions, ⟨9, 14⟩⟩ := by
    rw [draft_of_parse hparse, hfirst.resolve_eq, hsuggestions]
    rfl
  have hnames : ∀ name, name ∈ names ↔ registry.contains name = true := by
    intro name
    have hperm : names.Perm ["Zhow", "Show", "Eq", "Shew", "Aw"] := by decide
    rw [hperm.mem_iff, Registry.contains, Std.TreeMap.contains_ofList, List.contains_iff_mem]
    rfl
  obtain ⟨-, hread, -⟩ := draft_refuses_first_missing registry .collapse source
  obtain ⟨x, found, -, hnaming, hrefused, hfound⟩ := (hread sig hparse).2.2.2 hmissing
  obtain ⟨hitem, hspan⟩ := Located.mk.inj (Except.error.inj (hrefused.symm.trans hdraft))
  obtain ⟨hclass, rfl⟩ := SignatureFault.unknownClass.inj hitem
  refine ⟨hdraft, ⟨x.item.var, ?_⟩, hnames, ?_⟩
  · rw [← hclass, ← hspan]
    exact hnaming
  · rw [← hclass]
    exact hfound names (by decide) hnames

end Contract

end Covenant
