import Mathlib.Data.List.Forall2
import Covenant.Proofs.Conformance

/-!
# Values that say less

Types of values are ordered by how much they say: a wildcard says less than every type that is at
least as deep. Being an instance of a type is kept when less is said, because the order is
transitive. So where no classes are asked for, a check that succeeds goes on to succeed if values
are replaced by values that say less: no pass can object to a wildcard that did not object to what
stood in its place.
-/

namespace Covenant

variable {rule : ArrayRule} {registry : Registry} {constraints : Constraints} {types : List Ty}
  {values values' : List Value}

/-! ## The order of types -/

namespace Ty.Fits

variable {t u v : Ty}

theorem depth_le (h : t.Fits u) : t.depth ≤ u.depth := by
  rcases h with rfl | ⟨-, hdepth⟩
  · exact Nat.le_refl _
  · exact hdepth

theorem trans (h : t.Fits u) (h' : u.Fits v) : t.Fits v := by
  rcases h with rfl | ⟨hwild, hdepth⟩
  · exact h'
  · exact .inr ⟨hwild, Nat.le_trans hdepth h'.depth_le⟩

end Ty.Fits

/-! ## Replacements -/

/-- The second value may stand in place of the first and says no more about its type. Nothing need
be replaced, the undefined value may replace any value, and the empty array any value that has a
level. In general, a value whose type is a wildcard may replace every value that is at least as
deep. -/
inductive Value.Blurs (rule : ArrayRule) : Value → Value → Prop where
  | keep (v : Value) : Blurs rule v v
  | undefined (v : Value) : Blurs rule v .undefined
  | emptyArray {v : Value} {t : Ty} (hv : v.infer rule = .ok t) (hdepth : 1 ≤ t.depth) :
      Blurs rule v (.array [])
  | wildcard {v w : Value} {t : Ty} {depth : Nat} (hv : v.infer rule = .ok t)
      (hw : w.infer rule = .ok (.wildcard depth)) (hdepth : depth ≤ t.depth) : Blurs rule v w

/-- The type of a replacement fits the type of the value before. -/
theorem Value.Blurs.exists_fits {v w : Value} {t : Ty} (h : v.Blurs rule w)
    (hv : v.infer rule = .ok t) :
    ∃ u, w.infer rule = .ok u ∧ u.Fits t := by
  cases h with
  | keep => exact ⟨t, hv, Ty.fits_refl t⟩
  | undefined => exact ⟨.wildcard 0, infer_of_items?_eq_none rfl, .inr ⟨rfl, Nat.zero_le _⟩⟩
  | emptyArray hv' hdepth =>
      obtain rfl := Except.ok.inj (hv.symm.trans hv')
      exact ⟨.wildcard 1, infer_array_nil, .inr ⟨rfl, hdepth⟩⟩
  | wildcard hv' hw hdepth =>
      obtain rfl := Except.ok.inj (hv.symm.trans hv')
      exact ⟨_, hw, .inr ⟨rfl, hdepth⟩⟩

/-! ## Checks on values that say less -/

/-- Where no classes are asked for, a check that succeeds goes on to succeed on values whose types
fit those of the values before. -/
theorem check_of_fits (hfree : constraints.isEmpty = true)
    (hlength : values.length = values'.length)
    (hfits : ∀ (i : Nat) (v w : Value) (t : Ty), values[i]? = some v → values'[i]? = some w →
      v.infer rule = .ok t → ∃ u, w.infer rule = .ok u ∧ u.Fits t)
    (hcheck : check registry constraints rule types values = .ok ()) :
    check registry constraints rule types values' = .ok () := by
  obtain ⟨hcount, slots, hslots, haccept⟩ := check_eq_ok_iff_acceptable.1 hcheck
  -- what stood at the position of a value, with its type, which the type of the value fits
  have hbefore : ∀ (i : Nat) (w : Value), values'[i]? = some w →
      ∃ v t u, values[i]? = some v ∧ v.infer rule = .ok t ∧ w.infer rule = .ok u ∧ u.Fits t := by
    intro i w hw
    have hi : i < values.length := hlength ▸ (List.getElem?_eq_some_iff.1 hw).1
    have hv : values[i]? = some values[i] := List.getElem?_eq_getElem hi
    obtain ⟨t, ht⟩ := (exists_inferSlots_iff 0 hcount).1 ⟨slots, hslots⟩ _ (List.mem_of_getElem? hv)
    obtain ⟨u, hu, hut⟩ := hfits i _ w t hv hw ht
    exact ⟨_, t, u, hv, ht, hu, hut⟩
  have hinfer : ∀ w ∈ values', ∃ u, w.infer rule = .ok u := by
    intro w hmem
    obtain ⟨i, hw⟩ := List.mem_iff_getElem?.1 hmem
    obtain ⟨_, _, u, _, _, hu, _⟩ := hbefore i w hw
    exact ⟨u, hu⟩
  have hcount' : types.length = values'.length := hcount.trans hlength
  obtain ⟨slots', hslots'⟩ := (exists_inferSlots_iff 0 hcount').2 hinfer
  obtain ⟨s, hs⟩ := (exists_assignment_iff fun slot => typed_of_mem_inferSlots hslots).2
    ⟨haccept.primitive, haccept.deep, haccept.consistent⟩
  -- the assignment that was good for the values before is good for these
  have hinstance : ∀ slot ∈ slots', slot.expected.isWildcard = false →
      slot.actual.Fits (slot.expected.instantiate s) := by
    intro slot hslot hwritten
    obtain ⟨i, e, w, u, he, hw, hu, rfl⟩ := (mem_inferSlots_iff hslots' slot).1 hslot
    obtain ⟨v, t, u', hv, ht, hu', hut⟩ := hbefore i w hw
    obtain rfl := Except.ok.inj (hu.symm.trans hu')
    exact hut.trans
      (hs ⟨0 + i, e, v, t⟩ ((mem_inferSlots_iff hslots _).2 ⟨i, e, v, t, he, hv, ht, rfl⟩) hwritten)
  obtain ⟨hprimitive, hdeep, hconsistent⟩ :=
    (exists_assignment_iff fun slot => typed_of_mem_inferSlots hslots').1 ⟨s, hinstance⟩
  refine check_eq_ok_iff_acceptable.2 ⟨hcount', slots', hslots', hprimitive, hdeep, hconsistent, ?_⟩
  intro var classes hclasses
  simp [Std.TreeMap.getElem?_of_isEmpty hfree] at hclasses

/-- Where no classes are asked for, a check that succeeds goes on to succeed when any of the
values are replaced, each by the undefined value, by the empty array if it has a level, or by any
value that is a wildcard and no deeper. -/
theorem check_of_blurs (registry : Registry) {constraints : Constraints}
    (hfree : constraints.isEmpty = true) (rule : ArrayRule) {types : List Ty}
    {values values' : List Value}
    (hvalues : List.Forall₂ (Value.Blurs rule) values values')
    (hcheck : check registry constraints rule types values = .ok ()) :
    check registry constraints rule types values' = .ok () := by
  refine check_of_fits hfree hvalues.length_eq ?_ hcheck
  intro i v w t hv hw ht
  obtain ⟨hi, rfl⟩ := List.getElem?_eq_some_iff.1 hv
  obtain ⟨hi', rfl⟩ := List.getElem?_eq_some_iff.1 hw
  exact (hvalues.get hi hi').exists_fits ht

/-- Of three positions of one variable, two are replaced, by the empty array and by an array of an
undefined value, while the string at the third one stays. A primitive type is met by the undefined
value, and an array of two empty arrays is as deep as the brackets around the other variable. -/
theorem check_of_blurs_sample :
    let types : List Ty :=
      [⟨.var "a", 1⟩, ⟨.var "a", 1⟩, ⟨.var "a", 0⟩, ⟨.prim .string, 1⟩, ⟨.var "b", 2⟩]
    let strings : Value := .array [.string "x", .string "y"]
    let values : List Value := [strings, strings, .string "z", strings, .array [.array [.null]]]
    let values' : List Value :=
      [.array [], .array [.undefined], .string "z", .undefined, .array [.array [], .array []]]
    (∅ : Constraints).isEmpty = true ∧ List.Forall₂ (Value.Blurs .reject) values values' ∧
      check .empty ∅ .reject types values = .ok () ∧
        check .empty ∅ .reject types values' = .ok () := by
  intro types strings values values'
  have hstrings : strings.infer .reject = .ok ⟨.prim .string, 1⟩ := rfl
  have hnested : (Value.array [.array [.null]]).infer .reject = .ok ⟨.prim .object, 2⟩ := rfl
  have hvalues : List.Forall₂ (Value.Blurs .reject) values values' :=
    .cons (.emptyArray hstrings (by decide)) <| .cons (.wildcard hstrings rfl (by decide)) <|
      .cons (.keep _) <| .cons (.undefined _) <| .cons (.wildcard hnested rfl (by decide)) .nil
  have hcheck : check .empty ∅ .reject types values = .ok () :=
    eq_ok_of_toOption (by decide +kernel)
  exact ⟨rfl, hvalues, hcheck, check_of_blurs .empty rfl .reject hvalues hcheck⟩

end Covenant
