import Covenant.Proofs.ArrayRules
import Covenant.Proofs.Blame
import Covenant.Proofs.Conformance

/-!
# Functions that return an argument

A check that succeeds goes on to succeed on any choice of the positions checked, in any order and
with repeats: nothing is asked of two positions that is not asked of all. A function that returns
one of its arguments, where the types of the two are the same, adds one position that was there
before. So it is never to blame.
-/

namespace Covenant

variable {rule : ArrayRule} {registry : Registry} {constraints : Constraints}

/-! ## Choices of positions -/

/-- A slot has the type and the value of another slot, maybe at another position. -/
structure Slot.Repeats (slot' slot : Slot) : Prop where
  expected_eq : slot'.expected = slot.expected
  value_eq : slot'.value = slot.value
  actual_eq : slot'.actual = slot.actual

namespace Slot.Repeats

variable {slot slot' : Slot}

theorem typeMismatch?_eq_none (h : slot'.Repeats slot) (hslot : slot.typeMismatch? = none) :
    slot'.typeMismatch? = none := by
  rw [Slot.typeMismatch?, ite_eq_right_iff] at hslot ⊢
  rw [h.expected_eq, h.actual_eq]
  intro hmismatch
  have := hslot hmismatch
  contradiction

theorem depthMismatch?_eq_none (h : slot'.Repeats slot) (hslot : slot.depthMismatch? = none) :
    slot'.depthMismatch? = none := by
  rw [depthMismatch?_eq_none_iff] at hslot ⊢
  rw [h.expected_eq, h.actual_eq]
  exact hslot

/-- A representative that is found at a slot is found at every slot that it repeats. -/
theorem binding?_eq_some (h : slot'.Repeats slot) {var : String} {r : Representative}
    (hr : slot'.binding? = some (var, r)) :
    slot.binding? = some (var, ⟨slot.position, r.value⟩) := by
  rw [binding?_eq_some_iff] at hr ⊢
  rw [h.expected_eq, h.value_eq] at hr
  exact ⟨hr.1, hr.2.1, rfl⟩

theorem typedBinding?_eq_some (h : slot'.Repeats slot) {var : String} {position : Nat} {t : Ty}
    (ht : slot'.typedBinding? = some (var, position, t)) :
    slot.typedBinding? = some (var, slot.position, t) := by
  obtain ⟨⟨var', r⟩, hr, heq⟩ := Option.map_eq_some_iff.1 ht
  simp only [Prod.mk.injEq] at heq
  rw [typedBinding?_of_binding? (h.binding?_eq_some hr), ← heq.1, ← heq.2.2,
    h.expected_eq, h.actual_eq]

end Slot.Repeats

theorem Acceptable.of_repeats {slots slots' : List Slot}
    (hslots : Acceptable registry constraints slots)
    (h : ∀ slot' ∈ slots', ∃ slot ∈ slots, slot'.Repeats slot) :
    Acceptable registry constraints slots' := by
  have hitems : ∀ var, ∀ r' ∈ itemsOf var (slots'.filterMap Slot.binding?),
      ∃ r ∈ itemsOf var (slots.filterMap Slot.binding?), r.value = r'.value := by
    intro var r' hr'
    rw [mem_itemsOf, List.mem_filterMap] at hr'
    obtain ⟨slot', hslot', hbinding⟩ := hr'
    obtain ⟨slot, hslot, hrepeats⟩ := h slot' hslot'
    refine ⟨⟨slot.position, r'.value⟩, ?_, rfl⟩
    rw [mem_itemsOf, List.mem_filterMap]
    exact ⟨slot, hslot, hrepeats.binding?_eq_some hbinding⟩
  refine ⟨?_, ?_, ?_, ?_⟩
  · intro slot' hslot'
    obtain ⟨slot, hslot, hrepeats⟩ := h slot' hslot'
    exact hrepeats.typeMismatch?_eq_none (hslots.primitive slot hslot)
  · intro slot' hslot'
    obtain ⟨slot, hslot, hrepeats⟩ := h slot' hslot'
    exact hrepeats.depthMismatch?_eq_none (hslots.deep slot hslot)
  · -- two by two would need a symmetric argument, one type for all does not
    intro var
    rw [consistent_iff_exists_fits]
    obtain ⟨u, hu⟩ := consistent_iff_exists_fits.1 (hslots.consistent var)
    refine ⟨u, ?_⟩
    intro slot' hslot' position t ht
    obtain ⟨slot, hslot, hrepeats⟩ := h slot' hslot'
    exact hu slot hslot slot.position t (hrepeats.typedBinding?_eq_some ht)
  · intro var classes hclasses hbound className hclass
    obtain ⟨r', hr'⟩ := List.exists_mem_of_ne_nil _ hbound
    obtain ⟨r, hr, -⟩ := hitems var r' hr'
    have hmember := hslots.member var classes hclasses (List.ne_nil_of_mem hr) className hclass
    rw [checkClass_eq_ok_iff] at hmember ⊢
    obtain ⟨c, hc, haccepts⟩ := hmember
    refine ⟨c, hc, ?_⟩
    intro s' hs'
    obtain ⟨s, hs, hvalue⟩ := hitems var s' hs'
    rw [← hvalue]
    exact haccepts s hs

/-- A check that succeeds goes on to succeed on any choice of its positions. -/
theorem check_of_positions {types types' : List Ty} {values values' : List Value}
    (hcheck : check registry constraints rule types values = .ok ())
    (hlength' : types'.length = values'.length)
    (h : ∀ (j : Nat) (t : Ty) (v : Value), types'[j]? = some t → values'[j]? = some v →
      ∃ i : Nat, types[i]? = some t ∧ values[i]? = some v) :
    check registry constraints rule types' values' = .ok () := by
  obtain ⟨hlength, slots, hslots, haccept⟩ := check_eq_ok_iff_acceptable.1 hcheck
  have hinfer := (exists_inferSlots_iff 0 hlength).1 ⟨slots, hslots⟩
  have hinfer' : ∀ v ∈ values', ∃ u, v.infer rule = .ok u := by
    intro v hv
    obtain ⟨j, hj⟩ := List.mem_iff_getElem?.1 hv
    have hjlt : j < types'.length := by
      have := (List.getElem?_eq_some_iff.1 hj).1
      omega
    obtain ⟨i, -, hi⟩ := h j _ v (List.getElem?_eq_getElem hjlt) hj
    exact hinfer v (List.mem_of_getElem? hi)
  obtain ⟨slots', hslots'⟩ := (exists_inferSlots_iff 0 hlength').2 hinfer'
  refine check_eq_ok_iff_acceptable.2 ⟨hlength', slots', hslots', haccept.of_repeats ?_⟩
  intro slot' hslot'
  obtain ⟨j, t, v, u, ht, hv, hu, rfl⟩ := (mem_inferSlots_iff hslots' slot').1 hslot'
  obtain ⟨i, hti, hvi⟩ := h j t v ht hv
  exact ⟨⟨0 + i, t, v, u⟩, (mem_inferSlots_iff hslots _).2 ⟨i, t, v, u, hti, hvi, hu, rfl⟩, rfl,
    rfl, rfl⟩

/-! ## Different variables -/

/-- Variables that each stand at one position only take any values, where mixed arrays are objects
and no classes are asked for. -/
theorem check_eq_ok_of_distinct_variables {types : List Ty} {values : List Value}
    (hlength : types.length = values.length) (hfree : constraints.isEmpty = true)
    (hnodup : types.Nodup)
    (hvars : ∀ t ∈ types, ∃ name, t = ⟨.var name, 0⟩) :
    check registry constraints .collapse types values = .ok () := by
  have htyped : ∀ v ∈ values, ∃ u, v.infer .collapse = .ok u := fun v _ => v.exists_infer_collapse
  obtain ⟨slots, hslots⟩ := (exists_inferSlots_iff 0 hlength).2 htyped
  have hwritten : ∀ t ∈ types, t.isWildcard = false := by
    intro t ht
    obtain ⟨name, rfl⟩ := hvars t ht
    rfl
  -- a variable stands for the type of the value at its only position
  have hassignment : ∀ name, ∃ u, ∀ (i : Nat) (v : Value), types[i]? = some ⟨.var name, 0⟩ →
      values[i]? = some v → v.infer .collapse = .ok u := by
    intro name
    by_cases hbound : ∃ (i : Nat) (v : Value), types[i]? = some ⟨.var name, 0⟩ ∧ values[i]? = some v
    · obtain ⟨i, v, ht, hv⟩ := hbound
      obtain ⟨u, hu⟩ := v.exists_infer_collapse
      refine ⟨u, ?_⟩
      intro j w ht' hw
      have hi := (List.getElem?_eq_some_iff.1 ht).1
      obtain rfl : i = j := (List.getElem?_inj hi hnodup).1 (ht.trans ht'.symm)
      obtain rfl : v = w := Option.some.inj (hv.symm.trans hw)
      exact hu
    · refine ⟨.wildcard 0, ?_⟩
      intro i v ht hv
      exact absurd ⟨i, v, ht, hv⟩ hbound
  obtain ⟨s, hs⟩ := Classical.axiomOfChoice hassignment
  refine check_eq_ok_iff_acceptable.2 ⟨hlength, slots, hslots, ?_⟩
  rw [acceptable_iff_conforms hslots hlength hwritten]
  refine ⟨hlength, htyped, ⟨s, ?_⟩, ?_⟩
  · intro i t v u ht hv hu
    obtain ⟨name, rfl⟩ := hvars t (List.mem_of_getElem? ht)
    have hsame : u = s name := Except.ok.inj (hu.symm.trans (hs name i v ht hv))
    rw [hsame]
    exact Ty.fits_refl _
  · intro var classes hclasses
    simp [Std.TreeMap.getElem?_of_isEmpty hfree] at hclasses

/-! ## Guarded projections -/

namespace Contract

variable {c : Contract}

/-- A result that is one of the arguments, of the same type, is as good as the arguments are. -/
theorem Issued.checkResult_of_projection (hc : c.Issued) {i : Nat}
    (hresult : c.signature.result? = c.signature.params[i]?) {args : List Value}
    (hargs : c.checkArguments args = .ok ()) {v : Value} (hv : args[i]? = some v) :
    c.checkResult args v = .ok () := by
  obtain ⟨t, htypes, -⟩ := hc.types_eq_params_concat
  have hlength := (check_eq_ok_iff_acceptable.1 hargs).1
  have ht : c.signature.params[i]? = some t := by
    rw [← hresult, Signature.result?, htypes, List.getLast?_concat]
  rw [checkResult, htypes]
  refine check_of_positions hargs (by simp [hlength]) ?_
  intro j t' v' ht' hv'
  by_cases hj : j < c.signature.params.length
  · rw [List.getElem?_append_left hj] at ht'
    rw [List.getElem?_append_left (by omega)] at hv'
    exact ⟨j, ht', hv'⟩
  · -- the position of the result repeats that of the argument
    have hlast : j = c.signature.params.length := by
      have := (List.getElem?_eq_some_iff.1 ht').1
      simp only [List.length_append, List.length_singleton] at this
      omega
    rw [hlast, List.getElem?_concat_length] at ht'
    rw [hlast, hlength, List.getElem?_concat_length] at hv'
    exact ⟨i, ht.trans ht', hv.trans hv'⟩

/-- A function that returns an argument, where the types of the two are the same, is never to
blame: calls return that argument exactly if the arguments are good. If moreover mixed arrays are
objects, no classes are asked for and the parameters are different variables, all arguments are
good. -/
theorem projection_is_never_blamed (hc : c.Issued) {i : Nat} (hi : i < c.arity)
    (hresult : c.signature.result? = c.signature.params[i]?) {σ : Type}
    (function : List Value → StateM σ Value)
    (hfunction : ∀ args v s, args[i]? = some v → (function args s).1 = v) (args : List Value)
    (s : σ) :
    ((∃ v, args[i]? = some v ∧ (c.call function args s).1 = .ok v) ↔
      c.checkArguments args = .ok ()) ∧
      (c.checkArguments args = .ok () → c.checkResult args (function args s).1 = .ok ()) ∧
      (c.rule = .collapse → c.signature.constraints.isEmpty = true → c.signature.params.Nodup →
        (∀ t ∈ c.signature.params, ∃ name, t = ⟨.var name, 0⟩) → args.length = c.arity →
        ∃ v, args[i]? = some v ∧ (c.call function args s).1 = .ok v) := by
  obtain ⟨-, -, harity⟩ := hc.types_eq_params_concat
  have hpost : c.checkArguments args = .ok () → ∃ v, args[i]? = some v ∧ (function args s).1 = v ∧
      c.checkResult args v = .ok () := by
    intro hargs
    have hlength := (check_eq_ok_iff_acceptable.1 hargs).1
    have hv : args[i]? = some args[i] := List.getElem?_eq_getElem (by omega)
    exact ⟨args[i], hv, hfunction args _ s hv, hc.checkResult_of_projection hresult hargs hv⟩
  have hreturns : c.checkArguments args = .ok () →
      ∃ v, args[i]? = some v ∧ (c.call function args s).1 = .ok v := by
    intro hargs
    obtain ⟨v, hv, hfunction, hcheck⟩ := hpost hargs
    refine ⟨v, hv, ?_⟩
    rw [call_run_of_ok hargs, hfunction, hcheck]
    rfl
  refine ⟨⟨?_, hreturns⟩, ?_, ?_⟩
  · intro h
    obtain ⟨v, -, hcall⟩ := h
    cases hargs : c.checkArguments args with
    | ok => rfl
    | error e =>
        rw [call_run_of_error hargs] at hcall
        cases hcall
  · intro hargs
    obtain ⟨v, -, hfunction, hcheck⟩ := hpost hargs
    rw [hfunction, hcheck]
  · intro hrule hfree hnodup hvars hlength
    refine hreturns ?_
    rw [checkArguments, hrule]
    exact check_eq_ok_of_distinct_variables (by omega) hfree hnodup hvars

/-- The second of two arguments is returned by a function that counts its runs: under two
variables it may be anything, and under a class and the strict rule the empty array will do. -/
theorem projection_is_never_blamed_sample :
    let free : Signature := ⟨"a->b->b", [],
      [⟨⟨.var "a", 0⟩, ⟨0, 1⟩⟩, ⟨⟨.var "b", 0⟩, ⟨3, 4⟩⟩, ⟨⟨.var "b", 0⟩, ⟨6, 7⟩⟩]⟩
    let named : Signature := ⟨"Named a=>a->[a]->[a]", [⟨⟨"Named", "a"⟩, ⟨0, 7⟩⟩],
      [⟨⟨.var "a", 0⟩, ⟨9, 10⟩⟩, ⟨⟨.var "a", 1⟩, ⟨12, 15⟩⟩, ⟨⟨.var "a", 1⟩, ⟨17, 20⟩⟩]⟩
    let registry : Registry := ⟨.insert ∅ "Named" (.shape ["name"])⟩
    let second : List Value → StateM Nat Value :=
      fun args runs => (args[1]?.getD .undefined, runs + 1)
    let mixed : List Value := [.null, .array [.null, .string "x"]]
    let person : List Value := [.object [("name", .string "x")], .array []]
    (draft .empty .collapse "a->b->b" = .ok ⟨free, .empty, .collapse⟩ ∧
      ∃ v, mixed[1]? = some v ∧ (call ⟨free, .empty, .collapse⟩ second mixed 0).1 = .ok v) ∧
    draft registry .reject "Named a=>a->[a]->[a]" = .ok ⟨named, registry, .reject⟩ ∧
      checkArguments ⟨named, registry, .reject⟩ person = .ok () ∧
      ∃ v, person[1]? = some v ∧ (call ⟨named, registry, .reject⟩ second person 0).1 = .ok v := by
  intro free named registry second mixed person
  have hsecond : ∀ args v runs, args[1]? = some v → (second args runs).1 = v := by
    intro args v runs hv
    simp [second, hv]
  have hfree : draft .empty .collapse "a->b->b" = .ok ⟨free, .empty, .collapse⟩ := by
    have hparse : Signature.parse "a->b->b" = .ok free := eq_ok_of_toOption (by decide +kernel)
    rw [draft, hparse]
    rfl
  have hnamed : draft registry .reject "Named a=>a->[a]->[a]" = .ok ⟨named, registry, .reject⟩ := by
    have hparse : Signature.parse "Named a=>a->[a]->[a]" = .ok named :=
      eq_ok_of_toOption (by decide +kernel)
    rw [draft, hparse]
    rfl
  have hvars : ∀ t ∈ free.params, ∃ name, t = ⟨.var name, 0⟩ :=
    List.forall_mem_cons.2 ⟨⟨"a", rfl⟩, List.forall_mem_singleton.2 ⟨"b", rfl⟩⟩
  have hgood : checkArguments ⟨named, registry, .reject⟩ person = .ok () := rfl
  have ⟨_, _, hany⟩ :=
    projection_is_never_blamed (.drafted hfree) (by decide) rfl second hsecond mixed 0
  have ⟨hiff, _⟩ :=
    projection_is_never_blamed (.drafted hnamed) (by decide) rfl second hsecond person 0
  exact ⟨⟨hfree, hany rfl rfl (by decide) hvars rfl⟩, hnamed, hgood, hiff.2 hgood⟩

end Contract

end Covenant
