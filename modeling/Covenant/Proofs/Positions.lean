import Covenant.Proofs.Checking

/-!
# The position of a violation

A violation is found at a position that was checked, unless the number of values is wrong or a
class is missing. Where values have passed a check, one more value is the only one that can fail
the next: the second check begins anew, but whatever it finds wrong among the first positions the
first check would have found.
-/

namespace Covenant

variable {rule : ArrayRule} {registry : Registry} {constraints : Constraints}

/-! ## Violations and the positions checked -/

/-- A violation with a position is neither about the number of arguments nor about a missing
class. -/
theorem ne_arity_of_position? {e : Violation} {p : Nat} (h : e.position? = some p) (m n : Nat) :
    e ≠ .arity m n := by
  rintro rfl
  simp [Violation.position?] at h

theorem ne_unknownClass_of_position? {e : Violation} {p : Nat} (h : e.position? = some p)
    (className var : String) : e ≠ .unknownClass className var := by
  rintro rfl
  simp [Violation.position?] at h

theorem position_of_mem_typedBinding {slots : List Slot} {var : String} {b : Nat × Ty}
    (h : b ∈ itemsOf var (slots.filterMap Slot.typedBinding?)) :
    ∃ slot ∈ slots, b.1 = slot.position := by
  rw [mem_itemsOf, List.mem_filterMap] at h
  obtain ⟨slot, hslot, hb⟩ := h
  obtain ⟨⟨var', r⟩, hr, heq⟩ := Option.map_eq_some_iff.1 hb
  obtain ⟨rfl, rfl⟩ := Prod.mk.inj heq
  exact ⟨slot, hslot, (binding?_eq_some_iff.1 hr).2.2⟩

theorem position_of_mem_binding {slots : List Slot} {var : String} {r : Representative}
    (h : r ∈ itemsOf var (slots.filterMap Slot.binding?)) :
    ∃ slot ∈ slots, r.position = slot.position := by
  rw [mem_itemsOf, List.mem_filterMap] at h
  obtain ⟨slot, hslot, hr⟩ := h
  exact ⟨slot, hslot, (binding?_eq_some_iff.1 hr).2.2⟩

theorem mem_of_firstClash? {xs : List (Nat × Ty)} {a b : Nat × Ty}
    (h : firstClash? xs = some (a, b)) : b ∈ xs := by
  induction xs with
  | nil => simp [firstClash?] at h
  | cons x xs ih =>
      rw [firstClash?] at h
      cases hfound : xs.find? fun b => !x.2.agrees b.2 with
      | some c =>
          simp only [hfound, Option.some.injEq, Prod.mk.injEq] at h
          exact List.mem_cons_of_mem x (h.2 ▸ List.mem_of_find?_eq_some hfound)
      | none =>
          simp only [hfound] at h
          exact List.mem_cons_of_mem x (ih h)

/-- The later one of two clashing positions is not among positions without a clash. -/
theorem mem_of_firstClash?_append {xs ys : List (Nat × Ty)} (hxs : firstClash? xs = none)
    {a b : Nat × Ty} (h : firstClash? (xs ++ ys) = some (a, b)) : b ∈ ys := by
  induction xs with
  | nil => exact mem_of_firstClash? h
  | cons x xs ih =>
      rw [firstClash?_eq_none_iff, List.pairwise_cons] at hxs
      have hx : xs.find? (fun b => !x.2.agrees b.2) = none := by simpa using hxs.1
      rw [List.cons_append, firstClash?, List.find?_append, hx, Option.none_or] at h
      cases hfound : ys.find? fun b => !x.2.agrees b.2 with
      | some c =>
          simp only [hfound, Option.some.injEq, Prod.mk.injEq] at h
          exact h.2 ▸ List.mem_of_find?_eq_some hfound
      | none =>
          simp only [hfound] at h
          exact ih (firstClash?_eq_none_iff.2 hxs.2) h

/-- A violation counts the arguments, or is found at a position that was checked, or names a class
that nobody registered. -/
theorem position?_of_check {types : List Ty} {values : List Value} {e : Violation}
    (h : check registry constraints rule types values = .error e) :
    e = .arity types.length values.length ∨ (∃ p < types.length, e.position? = some p) ∨
      ∃ (var : String) (classes : List String), constraints[var]? = some classes ∧
        ∃ className ∈ classes, registry.get? className = none ∧
          e = .unknownClass className var := by
  by_cases hlength : types.length = values.length
  · right
    rw [check_eq_inferSlots_bind hlength, bind_eq_error_iff] at h
    rcases h with h | ⟨slots, hslots, h⟩
    · obtain ⟨i, v, array, hi, -, -, rfl⟩ := inferSlots_eq_error h
      exact .inl ⟨i, hi, by simp [Violation.position?]⟩
    have hlt : ∀ slot ∈ slots, slot.position < types.length :=
      fun slot => position_lt_of_mem_inferSlots hslots
    rcases checkSlots_eq_error (fun slot => typed_of_mem_inferSlots hslots) h with
      ⟨slot, hslot, he⟩ | ⟨slot, hslot, he⟩ | ⟨var, a, b, hclash, rfl⟩ |
        ⟨var, classes, className, hclasses, hclass, -, he⟩
    · exact .inl ⟨slot.position, hlt slot hslot, position?_of_typeMismatch? he⟩
    · exact .inl ⟨slot.position, hlt slot hslot, position?_of_depthMismatch? he⟩
    · obtain ⟨slot, hslot, hposition⟩ := position_of_mem_typedBinding (mem_of_firstClash? hclash)
      exact .inl ⟨b.1, hposition ▸ hlt slot hslot, rfl⟩
    · rcases checkClass_eq_error he with ⟨hunknown, he⟩ | ⟨c, r, -, hr, -, rfl⟩
      · exact .inr ⟨var, classes, hclasses, className, hclass, hunknown, he⟩
      · obtain ⟨slot, hslot, hposition⟩ := position_of_mem_binding hr
        exact .inl ⟨r.position, hposition ▸ hlt slot hslot, rfl⟩
  · left
    simpa [check, hlength] using h.symm

/-! ## One more position -/

/-- Every class that a variable has to be in is registered. -/
def Registered (registry : Registry) (constraints : Constraints) : Prop :=
  ∀ (var : String) (classes : List String), constraints[var]? = some classes →
    ∀ className ∈ classes, registry.get? className ≠ none

/-- Slots that pass go on to pass: of one more slot, only that slot can be at fault. -/
theorem position?_of_checkSlots_concat {slots : List Slot} {last : Slot}
    (htyped : ∀ slot ∈ slots ++ [last], slot.Typed rule)
    (hregistered : Registered registry constraints)
    (hslots : Acceptable registry constraints slots) {e : Violation}
    (h : checkSlots registry constraints rule (slots ++ [last]) = .error e) :
    e.position? = some last.position := by
  rcases checkSlots_eq_error htyped h with ⟨slot, hslot, he⟩ | ⟨slot, hslot, he⟩ |
    ⟨var, a, b, hclash, rfl⟩ | ⟨var, classes, className, hclasses, hclass, -, he⟩
  · rcases List.mem_append.1 hslot with hslot | hslot
    · simp [hslots.primitive slot hslot] at he
    · rw [← List.mem_singleton.1 hslot]
      exact position?_of_typeMismatch? he
  · rcases List.mem_append.1 hslot with hslot | hslot
    · simp [hslots.deep slot hslot] at he
    · rw [← List.mem_singleton.1 hslot]
      exact position?_of_depthMismatch? he
  · rw [List.filterMap_append, itemsOf_append] at hclash
    have hb := mem_of_firstClash?_append (firstClash?_eq_none_iff.2 (hslots.consistent var)) hclash
    obtain ⟨slot, hslot, hposition⟩ := position_of_mem_typedBinding hb
    rw [← List.mem_singleton.1 hslot, ← hposition]
    rfl
  · rcases checkClass_eq_error he with ⟨hunknown, -⟩ | ⟨c, r, hc, hr, hrefused, rfl⟩
    · exact absurd hunknown (hregistered var classes hclasses className hclass)
    rw [List.filterMap_append, itemsOf_append] at hr
    rcases List.mem_append.1 hr with hr | hr
    · -- the class has accepted the representatives that were there before
      have hold := hslots.member var classes hclasses (List.ne_nil_of_mem hr) className hclass
      obtain ⟨c', hc', haccepts⟩ := checkClass_eq_ok_iff.1 hold
      obtain rfl : c = c' := Option.some.inj (hc.symm.trans hc')
      simp [haccepts r hr] at hrefused
    · obtain ⟨slot, hslot, hposition⟩ := position_of_mem_binding hr
      rw [← List.mem_singleton.1 hslot, ← hposition]
      rfl

/-- After a successful check, one more position is the only one that can fail. -/
theorem position?_of_check_concat {types : List Ty} {t : Ty} {values : List Value} {v : Value}
    (hregistered : Registered registry constraints)
    (hcheck : check registry constraints rule types values = .ok ()) {e : Violation}
    (h : check registry constraints rule (types ++ [t]) (values ++ [v]) = .error e) :
    e.position? = some types.length := by
  obtain ⟨hlength, slots, hslots, haccept⟩ := check_eq_ok_iff_acceptable.1 hcheck
  have hlength' : (types ++ [t]).length = (values ++ [v]).length := by simp [hlength]
  rw [check_eq_inferSlots_bind hlength', bind_eq_error_iff] at h
  have happend : inferSlots rule 0 (types ++ [t]) (values ++ [v]) = do
      let last ← inferSlots rule types.length [t] [v]
      return slots ++ last := by
    rw [inferSlots_append 0 hlength, hslots, Nat.zero_add]
    rfl
  rcases h with h | ⟨slots', hslots', h⟩
  · rw [happend, bind_eq_error_iff] at h
    rcases h with h | ⟨last, -, h⟩
    · obtain ⟨i, w, array, hi, -, -, rfl⟩ := inferSlots_eq_error h
      obtain rfl : i = 0 := by simpa using hi
      rfl
    · contradiction
  · have htyped : ∀ slot ∈ slots', slot.Typed rule := fun slot => typed_of_mem_inferSlots hslots'
    rw [happend, bind_eq_ok_iff] at hslots'
    obtain ⟨last, hlast, hslots'⟩ := hslots'
    obtain rfl := Except.ok.inj hslots'
    rw [inferSlots, bind_eq_ok_iff] at hlast
    obtain ⟨u, -, hlast⟩ := hlast
    obtain rfl := Except.ok.inj hlast
    exact position?_of_checkSlots_concat htyped hregistered haccept h

end Covenant
