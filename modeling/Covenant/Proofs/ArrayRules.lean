import Covenant.Proofs.Checking

/-!
# The two rules for mixed arrays

A mixed array is an object under one rule and has no type under the other. The strict rule only
ever adds refusals: a value that has a type under it has the same type under the other, and so
have all values inside it. Hence the passes after inference cannot tell the rules apart, and a
mixed array is reported for a whole value or not at all.
-/

namespace Covenant

variable {rule : ArrayRule}

/-! ## Types under both rules -/

namespace Value

/-- Where mixed arrays are objects, the elements after the first make a type, whatever they are. -/
theorem exists_inferRest_collapse {vs : List Value} (hvs : ∀ v ∈ vs, ∃ t, v.infer .collapse = .ok t)
    (element : Ty) (index : Nat) : ∃ t, inferRest .collapse element index vs = .ok t := by
  induction vs generalizing index with
  | nil => exact ⟨element.arrayOf, by rw [inferRest]⟩
  | cons v vs ih =>
      rw [List.forall_mem_cons] at hvs
      obtain ⟨found, hfound⟩ := hvs.1
      rw [inferRest, hfound]
      by_cases hsame : found = element
      · obtain ⟨t, ht⟩ := ih hvs.2 (index + 1)
        exact ⟨t, by simpa [bind, Except.bind, hsame] using ht⟩
      · exact ⟨.prim .object, by simp [bind, Except.bind, hsame]⟩

/-- Where mixed arrays are objects, every value has a type. -/
theorem exists_infer_collapse (v : Value) : ∃ t, v.infer .collapse = .ok t := by
  induction v using Value.induction_on_arrays with
  | scalar v hv => exact ⟨v.scalarTy, infer_of_items?_eq_none hv⟩
  | array vs ih =>
      cases vs with
      | nil => exact ⟨.wildcard 1, infer_array_nil⟩
      | cons v vs =>
          rw [List.forall_mem_cons] at ih
          have ⟨element, helement⟩ := ih.1
          rw [infer_array_cons, helement]
          exact exists_inferRest_collapse ih.2 element 1

/-- Elements that are not mixed make the same type under both rules. -/
theorem inferRest_collapse_of_reject {vs : List Value}
    (hvs : ∀ v ∈ vs, ∀ t, v.infer .reject = .ok t → v.infer .collapse = .ok t) {element : Ty}
    {index : Nat} {t : Ty} (h : inferRest .reject element index vs = .ok t) :
    inferRest .collapse element index vs = .ok t := by
  induction vs generalizing index with
  | nil => simpa [inferRest] using h
  | cons v vs ih =>
      rw [List.forall_mem_cons] at hvs
      rw [inferRest, bind_eq_ok_iff] at h
      obtain ⟨found, hfound, h⟩ := h
      by_cases hsame : found = element
      · rw [if_pos hsame] at h
        rw [inferRest, hvs.1 found hfound]
        simpa [bind, Except.bind, hsame] using ih hvs.2 h
      · rw [if_neg hsame] at h
        cases h

/-- A value that has a type where mixed arrays have none has the same type where they are
objects. -/
theorem infer_collapse_of_reject {v : Value} {t : Ty} (h : v.infer .reject = .ok t) :
    v.infer .collapse = .ok t := by
  induction v using Value.induction_on_arrays generalizing t with
  | scalar v hv =>
      rw [infer_of_items?_eq_none hv] at h ⊢
      exact h
  | array vs ih =>
      cases vs with
      | nil => simpa using h
      | cons v vs =>
          rw [List.forall_mem_cons] at ih
          rw [infer_array_cons] at h ⊢
          obtain ⟨element, helement, hrest⟩ := bind_eq_ok_iff.1 h
          rw [ih.1 helement]
          exact inferRest_collapse_of_reject (fun v hv t => ih.2 v hv) hrest

end Value

/-! ## Slots -/

theorem Slot.Typed.collapse {slot : Slot} (h : slot.Typed .reject) : slot.Typed .collapse :=
  Value.infer_collapse_of_reject h

/-- Values that have types under the strict rule fill the same slots under the other. -/
theorem inferSlots_collapse_of_reject {position : Nat} {types : List Ty} {values : List Value}
    {slots : List Slot} (h : inferSlots .reject position types values = .ok slots) :
    inferSlots .collapse position types values = .ok slots := by
  induction types generalizing position values slots with
  | nil => simpa [inferSlots] using h
  | cons t types ih =>
      cases values with
      | nil => simpa [inferSlots] using h
      | cons v values =>
          simp only [inferSlots, bind_eq_ok_iff, mapError_eq_ok_iff] at h ⊢
          obtain ⟨u, hu, rest, hrest, heq⟩ := h
          exact ⟨u, Value.infer_collapse_of_reject hu, rest, ih hrest, heq⟩

/-- Representatives of values with types have types, so that looking at them again cannot fail. -/
theorem exists_typesAt_of_representatives {slots : List Slot}
    (htyped : ∀ slot ∈ slots, slot.Typed rule) {found : Representatives}
    (h : representatives slots = .ok found) {var : String}
    {values : List Representative} (hvalues : (var, values) ∈ found.toList) :
    ∃ typed, typesAt rule values = .ok typed := by
  rw [representatives_eq htyped] at h
  cases hshallow : slots.findSome? Slot.depthMismatch? with
  | some e => simp [hshallow] at h
  | none =>
      rw [hshallow] at h
      obtain rfl := Except.ok.inj h
      rw [(mem_toList_groupByKey.1 hvalues).1]
      exact ⟨_, typesAt_eq htyped (List.findSome?_eq_none_iff.1 hshallow) var⟩

/-- The passes after inference do not depend on the rule. -/
theorem checkSlots_reject_eq_collapse (registry : Registry) (constraints : Constraints)
    {slots : List Slot} (htyped : ∀ slot ∈ slots, slot.Typed .reject) :
    checkSlots registry constraints .reject slots =
      checkSlots registry constraints .collapse slots := by
  have hcollapse : ∀ slot ∈ slots, slot.Typed .collapse :=
    fun slot hslot => (htyped slot hslot).collapse
  rw [checkSlots, checkSlots, representatives_eq htyped]
  cases hshallow : slots.findSome? Slot.depthMismatch? with
  | some e => rfl
  | none =>
      have hdeep := List.findSome?_eq_none_iff.1 hshallow
      -- the types of the representatives are read off the slots, which are the same
      have hvariables : checkVariables .reject (groupByKey (slots.filterMap Slot.binding?)) =
          checkVariables .collapse (groupByKey (slots.filterMap Slot.binding?)) := by
        refine forM_congr ?_
        intro entry hentry
        obtain ⟨var, values⟩ := entry
        obtain ⟨rfl, -⟩ := mem_toList_groupByKey.1 hentry
        exact (checkVariable_eq htyped hdeep var).trans (checkVariable_eq hcollapse hdeep var).symm
      simp only [Option.elim_none, bind, Except.bind, hvariables]

/-- Once the values have types, no mixed array is reported. -/
theorem checkSlots_ne_mixedArray {registry : Registry} {constraints : Constraints}
    {slots : List Slot} (htyped : ∀ slot ∈ slots, slot.Typed rule) (position : Nat)
    (array : MixedArray) :
    checkSlots registry constraints rule slots ≠ .error (.mixedArray position array) := by
  intro h
  rcases checkSlots_eq_error htyped h with ⟨slot, -, he⟩ | ⟨slot, -, he⟩ | ⟨var, a, b, -, he⟩ |
    ⟨var, classes, className, -, -, -, he⟩
  · simp [Slot.typeMismatch?] at he
  · rw [Slot.depthMismatch?] at he
    split at he
    · simp at he
    · cases he
  · cases he
  · rcases checkClass_eq_error he with ⟨-, he⟩ | ⟨c, r, -, -, -, he⟩ <;> cases he

/-! ## Checks under both rules -/

variable {registry : Registry} {constraints : Constraints} {types : List Ty} {values : List Value}

/-- A mixed array is reported for a whole value, which has no type. -/
theorem exists_infer_of_check_eq_mixedArray {position : Nat} {array : MixedArray}
    (h : check registry constraints rule types values = .error (.mixedArray position array)) :
    ∃ v, values[position]? = some v ∧ v.infer rule = .error array := by
  by_cases hlength : types.length = values.length
  · rw [check_eq_inferSlots_bind hlength, bind_eq_error_iff] at h
    rcases h with h | ⟨slots, hslots, h⟩
    · obtain ⟨i, v, array', -, hv, harray, heq⟩ := inferSlots_eq_error h
      obtain ⟨rfl, rfl⟩ := Violation.mixedArray.inj heq
      exact ⟨v, by rwa [Nat.zero_add], harray⟩
    · exact absurd h (checkSlots_ne_mixedArray (fun slot => typed_of_mem_inferSlots hslots) _ _)
  · simp [check, hlength] at h

/-- Values that all have types under the strict rule are judged alike under both. -/
theorem check_reject_eq_collapse {slots : List Slot}
    (h : inferSlots .reject 0 types values = .ok slots) :
    check registry constraints .reject types values =
      check registry constraints .collapse types values := by
  by_cases hlength : types.length = values.length
  · rw [check_eq_inferSlots_bind hlength, check_eq_inferSlots_bind hlength, h,
      inferSlots_collapse_of_reject h]
    exact checkSlots_reject_eq_collapse registry constraints fun slot => typed_of_mem_inferSlots h
  · simp [check, hlength]

/-- Checking where mixed arrays have no type differs from checking where they are objects in one
way only: it may report a mixed array, which the latter never does. A mixed array that is reported
is a whole value without a type. If all values have types, then so have the representatives of the
variables. -/
theorem check_reject_differs_by_mixedArray (registry : Registry) (constraints : Constraints)
    (types : List Ty) (values : List Value) :
    (∀ position array,
      check registry constraints .collapse types values ≠ .error (.mixedArray position array)) ∧
      ((∃ position array,
          check registry constraints .reject types values = .error (.mixedArray position array)) ∨
        check registry constraints .reject types values =
          check registry constraints .collapse types values) ∧
      (∀ position array,
        check registry constraints .reject types values = .error (.mixedArray position array) →
          ∃ v, values[position]? = some v ∧ v.infer .reject = .error array) ∧
      ((∀ v ∈ values, ∃ t, v.infer .reject = .ok t) → types.length = values.length →
        ∃ slots, inferSlots .reject 0 types values = .ok slots ∧
          ∀ found, representatives slots = .ok found → ∀ var reps, (var, reps) ∈ found.toList →
            ∃ typed, typesAt .reject reps = .ok typed) := by
  refine ⟨?_, ?_, ?_, ?_⟩
  · intro position array h
    obtain ⟨v, -, hv⟩ := exists_infer_of_check_eq_mixedArray h
    obtain ⟨t, ht⟩ := v.exists_infer_collapse
    simp [ht] at hv
  · cases hslots : inferSlots .reject 0 types values with
    | ok slots => exact .inr (check_reject_eq_collapse hslots)
    | error e =>
        obtain ⟨i, v, array, -, -, -, rfl⟩ := inferSlots_eq_error hslots
        by_cases hlength : types.length = values.length
        · refine .inl ⟨0 + i, array, ?_⟩
          rw [check_eq_inferSlots_bind hlength, hslots]
          rfl
        · exact .inr (by simp [check, hlength])
  · intro position array h
    exact exists_infer_of_check_eq_mixedArray h
  · intro hvalues hlength
    obtain ⟨slots, hslots⟩ := (exists_inferSlots_iff 0 hlength).2 hvalues
    refine ⟨slots, hslots, ?_⟩
    intro found hfound var reps hreps
    exact exists_typesAt_of_representatives (fun slot => typed_of_mem_inferSlots hslots) hfound
      hreps

/-- An array of a string array and null is too shallow for `[a]` as an object, and has no type
under the strict rule. Two arrays that clash are found to have types once more, and then to
clash. -/
theorem check_reject_differs_by_mixedArray_sample :
    let types : List Ty := [⟨.var "a", 1⟩, ⟨.var "a", 0⟩]
    let mixed : List Value := [.array [.array [.string "x"], .null], .undefined]
    let clashing : List Value :=
      [.array [.array [.string "x"], .array [.string "y"]], .array [.null]]
    let array : MixedArray := ⟨1, ⟨.prim .string, 1⟩, .prim .object⟩
    (check .empty ∅ .collapse types mixed =
        .error (.depthMismatch "a" 0 ⟨.var "a", 1⟩ (.prim .object)) ∧
      check .empty ∅ .reject types mixed = .error (.mixedArray 0 array) ∧
      ∃ v, mixed[0]? = some v ∧ v.infer .reject = .error array) ∧
    (∀ v ∈ clashing, ∃ t, v.infer .reject = .ok t) ∧ types.length = clashing.length ∧
      ∃ slots, inferSlots .reject 0 types clashing = .ok slots ∧
        ∀ found, representatives slots = .ok found → ∀ var reps, (var, reps) ∈ found.toList →
          ∃ typed, typesAt .reject reps = .ok typed := by
  intro types mixed clashing array
  have hmixed : check .empty ∅ .reject types mixed = .error (.mixedArray 0 array) := rfl
  have hclashing : ∀ v ∈ clashing, ∃ t, v.infer .reject = .ok t :=
    List.forall_mem_cons.2 ⟨⟨_, rfl⟩, List.forall_mem_singleton.2 ⟨_, rfl⟩⟩
  have ⟨_, _, hreported, _⟩ := check_reject_differs_by_mixedArray .empty ∅ types mixed
  have ⟨_, _, _, htyped⟩ := check_reject_differs_by_mixedArray .empty ∅ types clashing
  exact ⟨⟨rfl, hmixed, hreported 0 array hmixed⟩, hclashing, rfl, htyped hclashing rfl⟩

end Covenant
