import Covenant.Proofs.Inference

/-!
# What the passes of a check decide

Each pass of a check is described by the slots alone, without the order in which the pass meets
them. The slots that matter carry the type of their value, which is all that the first pass
produces. On such slots going down to a representative fails in one way only, and the type of a
representative is known without looking at it again.

## Main definitions

* `Slot.Typed`: the type of a slot is that of its value.
* `Slot.depthMismatch?`, `Slot.binding?`: the two things that `Slot.represent` can yield.
* `Slot.typedBinding?`: the type of the representative in place of the representative.
* `Acceptable`: what the passes ask of slots.

## Main statements

* `mem_inferSlots_iff`: the slots are the positions of the two lists.
* `representatives_eq`: either some slot is too shallow, or all representatives are found.
* `checkVariables_eq_ok_iff`, `checkMembership_eq_ok_iff`: the passes over variables and over
  classes.
* `check_eq_ok_iff_acceptable`: a check succeeds if no pass objects.
* `checkSlots_eq_error`: what the passes report.
-/

namespace Covenant

variable {rule : ArrayRule}

theorem Ty.isWildcard_iff {t : Ty} : t.isWildcard = true ↔ t.base = .wildcard := by
  obtain ⟨base, depth⟩ := t
  cases base <;> simp [Ty.isWildcard]

theorem Ty.var?_eq_some_iff {t : Ty} {var : String} : t.var? = some var ↔ t.base = .var var := by
  obtain ⟨base, depth⟩ := t
  cases base <;> simp [Ty.var?]

/-! ## Slots -/

/-- The type of a slot is that of its value. -/
def Slot.Typed (rule : ArrayRule) (slot : Slot) : Prop := slot.value.infer rule = .ok slot.actual

/-- The slots are the positions of the two lists. -/
theorem mem_inferSlots_iff {position : Nat} {types : List Ty} {values : List Value}
    {slots : List Slot} (h : inferSlots rule position types values = .ok slots) (slot : Slot) :
    slot ∈ slots ↔ ∃ (i : Nat) (t : Ty) (v : Value) (u : Ty), types[i]? = some t ∧
      values[i]? = some v ∧ v.infer rule = .ok u ∧ slot = ⟨position + i, t, v, u⟩ := by
  induction types generalizing position values slots with
  | nil =>
      rw [inferSlots] at h
      · obtain rfl := Except.ok.inj h
        simp
      · simp
  | cons t types ih =>
      cases values with
      | nil =>
          rw [inferSlots] at h
          · obtain rfl := Except.ok.inj h
            simp
          · simp
      | cons v values =>
          rw [inferSlots, bind_eq_ok_iff] at h
          obtain ⟨u, hu, h⟩ := h
          rw [mapError_eq_ok_iff] at hu
          obtain ⟨rest, hrest, h⟩ := bind_eq_ok_iff.1 h
          obtain rfl := Except.ok.inj h
          rw [List.mem_cons, ih hrest]
          constructor
          · rintro (rfl | ⟨i, t', v', u', ht, hv, hu', rfl⟩)
            · exact ⟨0, t, v, u, rfl, rfl, hu, rfl⟩
            · exact ⟨i + 1, t', v', u', ht, hv, hu', by rw [Nat.add_right_comm, Nat.add_assoc]⟩
          · rintro ⟨i, t', v', u', ht, hv, hu', rfl⟩
            cases i with
            | zero =>
                obtain rfl := Option.some.inj ht
                obtain rfl := Option.some.inj hv
                rw [hu] at hu'
                obtain rfl := Except.ok.inj hu'
                exact .inl rfl
            | succ i =>
                exact .inr ⟨i, t', v', u', ht, hv, hu', by rw [Nat.add_right_comm, Nat.add_assoc]⟩

theorem typed_of_mem_inferSlots {position : Nat} {types : List Ty} {values : List Value}
    {slots : List Slot} (h : inferSlots rule position types values = .ok slots) {slot : Slot}
    (hslot : slot ∈ slots) :
    slot.Typed rule := by
  obtain ⟨i, t, v, u, -, -, hu, rfl⟩ := (mem_inferSlots_iff h slot).1 hslot
  exact hu

theorem position_lt_of_mem_inferSlots {types : List Ty} {values : List Value} {slots : List Slot}
    (h : inferSlots rule 0 types values = .ok slots) {slot : Slot} (hslot : slot ∈ slots) :
    slot.position < types.length := by
  obtain ⟨i, t, v, u, ht, -, -, rfl⟩ := (mem_inferSlots_iff h slot).1 hslot
  obtain ⟨hi, -⟩ := List.getElem?_eq_some_iff.1 ht
  simpa using hi

theorem exists_inferSlots_iff (position : Nat) {types : List Ty} {values : List Value}
    (hlength : types.length = values.length) :
    (∃ slots, inferSlots rule position types values = .ok slots) ↔
      ∀ v ∈ values, ∃ u, v.infer rule = .ok u := by
  induction types generalizing position values with
  | nil =>
      obtain rfl := List.length_eq_zero_iff.1 hlength.symm
      simp [inferSlots]
  | cons t types ih =>
      cases values with
      | nil => simp at hlength
      | cons v values =>
          have htail : types.length = values.length := by simpa using hlength
          rw [List.forall_mem_cons, ← ih (position + 1) htail]
          simp only [inferSlots, bind_eq_ok_iff, mapError_eq_ok_iff]
          constructor
          · rintro ⟨slots, u, hu, rest, hrest, -⟩
            exact ⟨⟨u, hu⟩, rest, hrest⟩
          · rintro ⟨⟨u, hu⟩, rest, hrest⟩
            exact ⟨_, u, hu, rest, hrest, rfl⟩

/-- A value without a type is reported at its position, with the reason why it has none. -/
theorem inferSlots_eq_error {position : Nat} {types : List Ty} {values : List Value} {e : Violation}
    (h : inferSlots rule position types values = .error e) :
    ∃ i v array, i < types.length ∧ values[i]? = some v ∧ v.infer rule = .error array ∧
      e = .mixedArray (position + i) array := by
  induction types generalizing position values with
  | nil =>
      rw [inferSlots] at h
      · contradiction
      · simp
  | cons t types ih =>
      cases values with
      | nil =>
          rw [inferSlots] at h
          · contradiction
          · simp
      | cons v values =>
          rw [inferSlots, bind_eq_error_iff] at h
          rcases h with h | ⟨u, -, h⟩
          · obtain ⟨array, harray, rfl⟩ := mapError_eq_error_iff.1 h
            exact ⟨0, v, array, by simp, rfl, harray, rfl⟩
          · rcases bind_eq_error_iff.1 h with h | ⟨slots, -, h⟩
            · obtain ⟨i, w, array, hi, hw, harray, rfl⟩ := ih h
              exact ⟨i + 1, w, array, by simpa using hi, hw,
                harray, by rw [Nat.add_right_comm, Nat.add_assoc]⟩
            · contradiction

/-- More positions make more slots, and the slots of the positions before stay the same. -/
theorem inferSlots_append (position : Nat) {types types' : List Ty} {values values' : List Value}
    (hlength : types.length = values.length) :
    inferSlots rule position (types ++ types') (values ++ values') = do
      let slots ← inferSlots rule position types values
      let slots' ← inferSlots rule (position + types.length) types' values'
      return slots ++ slots' := by
  induction types generalizing position values with
  | nil =>
      obtain rfl := List.length_eq_zero_iff.1 hlength.symm
      simp [inferSlots, bind, Except.bind]
      cases inferSlots rule position types' values' <;> rfl
  | cons t types ih =>
      cases values with
      | nil => simp at hlength
      | cons v values =>
          have htail : types.length = values.length := by simpa using hlength
          have hposition : position + (t :: types).length = position + 1 + types.length := by
            simp only [List.length_cons]
            omega
          simp only [List.cons_append, inferSlots, ih (position + 1) htail, hposition,
            bind_assoc, pure_bind]

/-! ## Primitive types -/

theorem checkPrimitives_eq_ok_iff {slots : List Slot} :
    checkPrimitives slots = .ok () ↔ ∀ slot ∈ slots, slot.typeMismatch? = none := by
  rw [checkPrimitives, ← List.findSome?_eq_none_iff]
  cases slots.findSome? Slot.typeMismatch? <;> simp

theorem checkPrimitives_eq_error {slots : List Slot} {e : Violation}
    (h : checkPrimitives slots = .error e) :
    ∃ slot ∈ slots, slot.typeMismatch? = some e := by
  apply List.exists_of_findSome?_eq_some
  rw [checkPrimitives] at h
  cases hfound : slots.findSome? Slot.typeMismatch? with
  | none => simp [hfound] at h
  | some violation => simpa [hfound] using h

theorem position?_of_typeMismatch? {slot : Slot} {e : Violation} (h : slot.typeMismatch? = some e) :
    e.position? = some slot.position := by
  rw [Slot.typeMismatch?] at h
  split at h
  · obtain rfl := Option.some.inj h
    rfl
  · contradiction

/-! ## Representatives -/

/-- The violation at a slot whose value has fewer levels than the brackets around its variable,
although it says something about its type. -/
def Slot.depthMismatch? (slot : Slot) : Option Violation :=
  match slot.expected.var? with
  | some var =>
    if slot.actual.depth < slot.expected.depth ∧ slot.actual.isWildcard = false then
      some (.depthMismatch var slot.position slot.expected slot.actual)
    else none
  | none => none

/-- The variable of a slot and the value reached for it. -/
def Slot.binding? (slot : Slot) : Option (String × Representative) :=
  match slot.expected.var?, descend slot.expected.depth slot.value with
  | some var, .reached value => some (var, ⟨slot.position, value⟩)
  | _, _ => none

/-- The variable of a slot and the type that is left after its brackets are taken away, if a value
is reached for it. -/
def Slot.typedBinding? (slot : Slot) : Option (String × Nat × Ty) :=
  slot.binding?.map fun (var, r) =>
    (var, r.position, ⟨slot.actual.base, slot.actual.depth - slot.expected.depth⟩)

/-- A descent that is blocked below a value with a type ends below a wildcard, so that the value
is not refused for it. -/
theorem isWildcard_of_blocked {slot : Slot} (htyped : slot.Typed rule)
    (hdeep : ¬(slot.actual.depth < slot.expected.depth ∧ slot.actual.isWildcard = false))
    (hblocked : descend slot.expected.depth slot.value = .blocked) :
    slot.actual.isWildcard = true := by
  by_cases hdepth : slot.actual.depth < slot.expected.depth
  · simpa [hdepth] using hdeep
  · -- deep enough, so the descent is not blocked
    obtain ⟨depth, hdepth⟩ : ∃ depth, slot.actual.depth = depth + slot.expected.depth :=
      ⟨slot.actual.depth - slot.expected.depth, by omega⟩
    have hty : slot.value.infer rule = .ok ⟨slot.actual.base, depth + slot.expected.depth⟩ := by
      rw [← hdepth]
      exact htyped
    rcases descend_of_infer hty with ⟨w, hreached, -⟩ | ⟨hempty, -⟩
    · simp [hreached] at hblocked
    · simp [hempty] at hblocked

/-- At a slot with a type, a value is too shallow or its representative is taken if there is one. -/
theorem represent_of_typed {slot : Slot} (htyped : slot.Typed rule) :
    slot.represent = slot.depthMismatch?.elim (.ok slot.binding?) .error := by
  unfold Slot.represent Slot.depthMismatch? Slot.binding?
  cases slot.expected.var? with
  | none => rfl
  | some var =>
      by_cases hdeep : slot.actual.depth < slot.expected.depth ∧ slot.actual.isWildcard = false
      · simp [hdeep]
      · cases hdescend : descend slot.expected.depth slot.value with
        | reached value => simp [hdeep]
        | empty => simp [hdeep]
        | blocked => simp [isWildcard_of_blocked htyped hdeep hdescend]

/-- Either some slot is too shallow, or all representatives are found. -/
theorem representatives_eq {slots : List Slot} (htyped : ∀ slot ∈ slots, slot.Typed rule) :
    representatives slots = (slots.findSome? Slot.depthMismatch?).elim
      (.ok (groupByKey (slots.filterMap Slot.binding?))) .error := by
  have hmapM := mapM_eq_findSome? fun slot hslot => represent_of_typed (htyped slot hslot)
  rw [representatives, hmapM]
  cases slots.findSome? Slot.depthMismatch? with
  | some e => rfl
  | none => simp [bind, Except.bind, pure, Except.pure, List.filterMap_map]

theorem position?_of_depthMismatch? {slot : Slot} {e : Violation}
    (h : slot.depthMismatch? = some e) :
    e.position? = some slot.position := by
  rw [Slot.depthMismatch?] at h
  split at h
  · split at h
    · obtain rfl := Option.some.inj h
      rfl
    · contradiction
  · contradiction

theorem depthMismatch?_eq_none_iff {slot : Slot} :
    slot.depthMismatch? = none ↔ slot.expected.var?.isSome = true →
      slot.actual.depth < slot.expected.depth → slot.actual.isWildcard = true := by
  rw [Slot.depthMismatch?]
  cases slot.expected.var? <;> simp

theorem binding?_eq_some_iff {slot : Slot} {var : String} {r : Representative} :
    slot.binding? = some (var, r) ↔ slot.expected.var? = some var ∧
      descend slot.expected.depth slot.value = .reached r.value ∧ r.position = slot.position := by
  obtain ⟨position, value⟩ := r
  rw [Slot.binding?]
  cases slot.expected.var? with
  | none => simp
  | some var' =>
      cases descend slot.expected.depth slot.value with
      | reached value' =>
          simp only [Option.some.injEq, Prod.mk.injEq, Representative.mk.injEq,
            Descent.reached.injEq]
          exact and_congr_right fun _ => and_comm.trans (and_congr_right fun _ => eq_comm)
      | empty => simp
      | blocked => simp

theorem typedBinding?_of_binding? {slot : Slot} {var : String} {r : Representative}
    (h : slot.binding? = some (var, r)) : slot.typedBinding? =
      some (var, r.position, ⟨slot.actual.base, slot.actual.depth - slot.expected.depth⟩) := by
  rw [Slot.typedBinding?, h, Option.map_some]

/-- The value reached for a variable has the type that is left after the brackets are taken away. -/
theorem infer_of_binding? {slot : Slot} (htyped : slot.Typed rule)
    (hdeep : slot.depthMismatch? = none) {var : String} {r : Representative}
    (h : slot.binding? = some (var, r)) :
    slot.expected.depth ≤ slot.actual.depth ∧
      r.value.infer rule = .ok ⟨slot.actual.base, slot.actual.depth - slot.expected.depth⟩ := by
  obtain ⟨hvar, hreached, -⟩ := binding?_eq_some_iff.1 h
  have hle : slot.expected.depth ≤ slot.actual.depth := by
    rcases Nat.lt_or_ge slot.actual.depth slot.expected.depth with hlt | hle
    · have hwild := depthMismatch?_eq_none_iff.1 hdeep (by simp [hvar]) hlt
      rw [Ty.isWildcard_iff] at hwild
      have hty : slot.value.infer rule = .ok (.wildcard slot.actual.depth) := by
        rw [Ty.wildcard, ← hwild]
        exact htyped
      exact absurd hreached (descend_ne_reached_of_wildcard hty hlt r.value)
    · exact hle
  refine ⟨hle, ?_⟩
  have hty : slot.value.infer rule =
      .ok ⟨slot.actual.base, slot.actual.depth - slot.expected.depth + slot.expected.depth⟩ := by
    rw [Nat.sub_add_cancel hle]
    exact htyped
  rcases descend_of_infer hty with ⟨w, hw, hinfer⟩ | ⟨hempty, -⟩
  · rw [hreached] at hw
    obtain rfl := Descent.reached.inj hw
    exact hinfer
  · simp [hreached] at hempty

/-- A value that is deep enough for a variable and has no representative is a wildcard of just
that depth. -/
theorem eq_wildcard_of_binding?_eq_none {slot : Slot} (htyped : slot.Typed rule) {var : String}
    (hvar : slot.expected.var? = some var) (hdeep : slot.expected.depth ≤ slot.actual.depth)
    (h : slot.binding? = none) : slot.actual = .wildcard slot.expected.depth := by
  obtain ⟨depth, hdepth⟩ : ∃ depth, slot.actual.depth = depth + slot.expected.depth :=
    ⟨slot.actual.depth - slot.expected.depth, by omega⟩
  have hty : slot.value.infer rule = .ok ⟨slot.actual.base, depth + slot.expected.depth⟩ := by
    rw [← hdepth]
    exact htyped
  rcases descend_of_infer hty with ⟨w, hreached, -⟩ | ⟨-, hbase, rfl⟩
  · simp [Slot.binding?, hvar, hreached] at h
  · rw [Nat.zero_add] at hdepth
    rw [Ty.wildcard, ← hbase, ← hdepth]

/-! ## Consistency -/

theorem firstClash?_eq_none_iff {typed : List (Nat × Ty)} :
    firstClash? typed = none ↔ typed.Pairwise fun a b => a.2.agrees b.2 = true := by
  induction typed with
  | nil => simp [firstClash?]
  | cons a rest ih =>
      rw [firstClash?, List.pairwise_cons, ← ih]
      cases hfound : rest.find? fun b => !a.2.agrees b.2 with
      | some b =>
          have hclash := List.find?_some hfound
          have hmem := List.mem_of_find?_eq_some hfound
          simp only [reduceCtorEq, false_iff, not_and]
          intro hagrees
          simp [hagrees b hmem] at hclash
      | none =>
          simp only [List.find?_eq_none, Bool.not_eq_true, Bool.not_eq_false'] at hfound
          exact ⟨fun hrest => ⟨hfound, hrest⟩, fun h => h.2⟩

theorem typesAt_cons (r : Representative) (rs : List Representative) :
    typesAt rule (r :: rs) = do
      let t ← (r.value.infer rule).mapError (.mixedArray r.position)
      let typed ← typesAt rule rs
      return (r.position, t) :: typed := by
  simp [typesAt]

/-- The types of the representatives of a variable need no second inference. -/
theorem typesAt_eq {slots : List Slot} (htyped : ∀ slot ∈ slots, slot.Typed rule)
    (hdeep : ∀ slot ∈ slots, slot.depthMismatch? = none) (var : String) :
    typesAt rule (itemsOf var (slots.filterMap Slot.binding?)) =
      .ok (itemsOf var (slots.filterMap Slot.typedBinding?)) := by
  induction slots with
  | nil => rfl
  | cons slot slots ih =>
      have ih := ih (fun slot hslot => htyped slot (List.mem_cons_of_mem _ hslot))
        (fun slot hslot => hdeep slot (List.mem_cons_of_mem _ hslot))
      cases hbinding : slot.binding? with
      | none => simpa [Slot.typedBinding?, hbinding] using ih
      | some binding =>
          obtain ⟨var', r⟩ := binding
          have hinfer := (infer_of_binding? (htyped slot List.mem_cons_self)
            (hdeep slot List.mem_cons_self) hbinding).2
          rw [List.filterMap_cons_some hbinding,
            List.filterMap_cons_some (typedBinding?_of_binding? hbinding),
            itemsOf_cons, itemsOf_cons]
          by_cases hvar : var' = var
          · rw [if_pos hvar, if_pos hvar, typesAt_cons, hinfer, ih]
            rfl
          · rw [if_neg hvar, if_neg hvar, ih]

/-- A variable is consistent if the types of its representatives agree, two by two. -/
theorem checkVariable_eq {slots : List Slot} (htyped : ∀ slot ∈ slots, slot.Typed rule)
    (hdeep : ∀ slot ∈ slots, slot.depthMismatch? = none) (var : String) :
    checkVariable rule var (itemsOf var (slots.filterMap Slot.binding?)) =
      (firstClash? (itemsOf var (slots.filterMap Slot.typedBinding?))).elim (.ok ()) fun (a, b) =>
        .error (.inconsistent var a.2 a.1 b.2 b.1) := by
  rw [checkVariable, typesAt_eq htyped hdeep]
  dsimp only [bind, Except.bind]
  cases firstClash? (itemsOf var (slots.filterMap Slot.typedBinding?)) <;> rfl

/-- All variables are consistent if, for each, the types of its representatives agree. -/
theorem checkVariables_eq_ok_iff {slots : List Slot} (htyped : ∀ slot ∈ slots, slot.Typed rule)
    (hdeep : ∀ slot ∈ slots, slot.depthMismatch? = none) :
    checkVariables rule (groupByKey (slots.filterMap Slot.binding?)) = .ok () ↔
      ∀ var, (itemsOf var (slots.filterMap Slot.typedBinding?)).Pairwise
        fun a b => a.2.agrees b.2 = true := by
  simp only [checkVariables, forM_eq_ok_iff, ← firstClash?_eq_none_iff, Prod.forall,
    mem_toList_groupByKey]
  constructor
  · intro h var
    by_cases hnone : itemsOf var (slots.filterMap Slot.binding?) = []
    · have htypes := typesAt_eq htyped hdeep var
      rw [hnone] at htypes
      rw [← Except.ok.inj htypes]
      rfl
    · have hvar := h var _ ⟨rfl, hnone⟩
      rw [checkVariable_eq htyped hdeep] at hvar
      cases hclash : firstClash? (itemsOf var (slots.filterMap Slot.typedBinding?)) with
      | none => rfl
      | some clash => simp [hclash] at hvar
  · rintro h var _ ⟨rfl, -⟩
    rw [checkVariable_eq htyped hdeep, h var]
    rfl

/-- An inconsistent variable is reported with the first two of its positions that clash. -/
theorem checkVariables_eq_error {slots : List Slot} (htyped : ∀ slot ∈ slots, slot.Typed rule)
    (hdeep : ∀ slot ∈ slots, slot.depthMismatch? = none) {e : Violation}
    (h : checkVariables rule (groupByKey (slots.filterMap Slot.binding?)) = .error e) :
    ∃ var a b, firstClash? (itemsOf var (slots.filterMap Slot.typedBinding?)) = some (a, b) ∧
      e = .inconsistent var a.2 a.1 b.2 b.1 := by
  obtain ⟨before, ⟨var, values⟩, after, hlist, -, hvar⟩ := forM_eq_error_iff.1 h
  have hmem : (var, values) ∈ (groupByKey (slots.filterMap Slot.binding?)).toList := by simp [hlist]
  obtain ⟨rfl, -⟩ := mem_toList_groupByKey.1 hmem
  simp only [checkVariable_eq htyped hdeep] at hvar
  cases hclash : firstClash? (itemsOf var (slots.filterMap Slot.typedBinding?)) with
  | none => simp [hclash] at hvar
  | some clash =>
      refine ⟨var, clash.1, clash.2, hclash, ?_⟩
      rw [hclash] at hvar
      exact (Except.error.inj hvar).symm

/-! ## Classes -/

theorem checkClass_eq_ok_iff {registry : Registry} {var className : String}
    {values : List Representative} :
    checkClass registry var values className = .ok () ↔
      ∃ c, registry.get? className = some c ∧ ∀ r ∈ values, c.accepts r.value = true := by
  rw [checkClass]
  cases registry.get? className with
  | none => simp
  | some c =>
      simp only [Option.some.injEq, exists_eq_left']
      cases hfound : values.find? fun r => !c.accepts r.value with
      | none => simpa using hfound
      | some r =>
          have hrefused := List.find?_some hfound
          have hmem := List.mem_of_find?_eq_some hfound
          simp only [reduceCtorEq, false_iff]
          intro haccepts
          simp [haccepts r hmem] at hrefused

theorem checkClass_eq_error {registry : Registry} {var className : String}
    {values : List Representative} {e : Violation}
    (h : checkClass registry var values className = .error e) :
    registry.get? className = none ∧ e = .unknownClass className var ∨
      ∃ c r, registry.get? className = some c ∧ r ∈ values ∧ c.accepts r.value = false ∧
        e = .unmetConstraint className var r.position := by
  rw [checkClass] at h
  cases hget : registry.get? className with
  | none =>
      simp only [hget, Except.error.injEq] at h
      exact .inl ⟨rfl, h.symm⟩
  | some c =>
      cases hfound : values.find? fun r => !c.accepts r.value with
      | none => simp [hget, hfound] at h
      | some r =>
          simp only [hget, hfound, Except.error.injEq] at h
          refine .inr ⟨c, r, rfl, List.mem_of_find?_eq_some hfound, ?_, h.symm⟩
          simpa using List.find?_some hfound

/-- The classes of a variable are checked only if it has representatives. -/
theorem checkMembership_eq_ok_iff {registry : Registry} {constraints : Constraints}
    {entries : List (String × Representative)} :
    checkMembership registry constraints (groupByKey entries) = .ok () ↔
      ∀ (var : String) (classes : List String), constraints[var]? = some classes →
        itemsOf var entries ≠ [] →
        ∀ className ∈ classes, checkClass registry var (itemsOf var entries) className =
          .ok () := by
  simp only [checkMembership, forM_eq_ok_iff, Prod.forall,
    Std.TreeMap.mem_toList_iff_getElem?_eq_some, getElem?_groupByKey]
  refine forall_congr' fun var => forall_congr' fun classes => forall_congr' fun _ => ?_
  by_cases h : itemsOf var entries = []
  · simp [h]
  · rw [if_neg h]
    exact forM_eq_ok_iff.trans ⟨fun hall _ => hall, fun hall => hall h⟩

theorem checkMembership_eq_error {registry : Registry} {constraints : Constraints}
    {entries : List (String × Representative)} {e : Violation}
    (h : checkMembership registry constraints (groupByKey entries) = .error e) :
    ∃ (var : String) (classes : List String) (className : String),
      constraints[var]? = some classes ∧ className ∈ classes ∧ itemsOf var entries ≠ [] ∧
      checkClass registry var (itemsOf var entries) className = .error e := by
  obtain ⟨before, ⟨var, classes⟩, after, hlist, -, hvar⟩ := forM_eq_error_iff.1 h
  have hmem : (var, classes) ∈ constraints.toList := by simp [hlist]
  rw [Std.TreeMap.mem_toList_iff_getElem?_eq_some] at hmem
  by_cases hnone : itemsOf var entries = []
  · simp [getElem?_groupByKey, hnone] at hvar
  · simp only [getElem?_groupByKey, if_neg hnone] at hvar
    obtain ⟨before, className, after, rfl, -, hclass⟩ := forM_eq_error_iff.1 hvar
    exact ⟨var, _, className, hmem, by simp, hnone, hclass⟩

/-! ## The whole check -/

/-- The passes after the types of the values are known. -/
def checkSlots (registry : Registry) (constraints : Constraints) (rule : ArrayRule)
    (slots : List Slot) :
    Except Violation Unit := do
  checkPrimitives slots
  let found ← representatives slots
  checkVariables rule found
  checkMembership registry constraints found

theorem check_eq_inferSlots_bind {registry : Registry} {constraints : Constraints} {types : List Ty}
    {values : List Value} (hlength : types.length = values.length) :
    check registry constraints rule types values =
      inferSlots rule 0 types values >>= checkSlots registry constraints rule := by
  rw [check, if_neg (by simpa using hlength)]
  rfl

/-- What the passes ask of slots, each pass on its own. -/
structure Acceptable (registry : Registry) (constraints : Constraints)
    (slots : List Slot) : Prop where
  primitive : ∀ slot ∈ slots, slot.typeMismatch? = none
  deep : ∀ slot ∈ slots, slot.depthMismatch? = none
  consistent : ∀ var, (itemsOf var (slots.filterMap Slot.typedBinding?)).Pairwise
    fun a b => a.2.agrees b.2 = true
  member : ∀ (var : String) (classes : List String), constraints[var]? = some classes →
    itemsOf var (slots.filterMap Slot.binding?) ≠ [] → ∀ className ∈ classes,
      checkClass registry var (itemsOf var (slots.filterMap Slot.binding?)) className = .ok ()

theorem checkSlots_eq_ok_iff {registry : Registry} {constraints : Constraints} {slots : List Slot}
    (htyped : ∀ slot ∈ slots, slot.Typed rule) :
    checkSlots registry constraints rule slots = .ok () ↔
      Acceptable registry constraints slots := by
  simp only [checkSlots, bind_eq_ok_iff, representatives_eq htyped]
  constructor
  · rintro ⟨⟨⟩, hprimitive, found, hfound, ⟨⟩, hvariables, hmembership⟩
    cases hshallow : slots.findSome? Slot.depthMismatch? with
    | some e => simp [hshallow] at hfound
    | none =>
        rw [hshallow] at hfound
        obtain rfl := Except.ok.inj hfound
        have hdeep := List.findSome?_eq_none_iff.1 hshallow
        exact ⟨checkPrimitives_eq_ok_iff.1 hprimitive, hdeep,
          (checkVariables_eq_ok_iff htyped hdeep).1 hvariables,
          checkMembership_eq_ok_iff.1 hmembership⟩
  · intro h
    refine ⟨(), checkPrimitives_eq_ok_iff.2 h.primitive, groupByKey (slots.filterMap Slot.binding?),
      ?_, (), ?_, ?_⟩
    · rw [List.findSome?_eq_none_iff.2 h.deep]
      rfl
    · exact (checkVariables_eq_ok_iff htyped h.deep).2 h.consistent
    · exact checkMembership_eq_ok_iff.2 h.member

/-- A check succeeds if the lists are equally long, every value has a type, and no pass objects. -/
theorem check_eq_ok_iff_acceptable {registry : Registry} {constraints : Constraints}
    {types : List Ty} {values : List Value} :
    check registry constraints rule types values = .ok () ↔ types.length = values.length ∧
      ∃ slots, inferSlots rule 0 types values = .ok slots ∧
        Acceptable registry constraints slots := by
  by_cases hlength : types.length = values.length
  · rw [check_eq_inferSlots_bind hlength, bind_eq_ok_iff]
    simp only [hlength, true_and]
    refine exists_congr fun slots => and_congr_right fun hslots => ?_
    exact checkSlots_eq_ok_iff fun slot hslot => typed_of_mem_inferSlots hslots hslot
  · simp [check, hlength]

/-- What can be reported once the types of the values are known. -/
theorem checkSlots_eq_error {registry : Registry} {constraints : Constraints} {slots : List Slot}
    (htyped : ∀ slot ∈ slots, slot.Typed rule) {e : Violation}
    (h : checkSlots registry constraints rule slots = .error e) :
    (∃ slot ∈ slots, slot.typeMismatch? = some e) ∨ (∃ slot ∈ slots, slot.depthMismatch? = some e) ∨
      (∃ var a b, firstClash? (itemsOf var (slots.filterMap Slot.typedBinding?)) = some (a, b) ∧
        e = .inconsistent var a.2 a.1 b.2 b.1) ∨
      ∃ (var : String) (classes : List String) (className : String),
        constraints[var]? = some classes ∧
        className ∈ classes ∧ itemsOf var (slots.filterMap Slot.binding?) ≠ [] ∧
        checkClass registry var (itemsOf var (slots.filterMap Slot.binding?)) className =
          .error e := by
  simp only [checkSlots, bind_eq_error_iff, representatives_eq htyped] at h
  rcases h with h | ⟨-, -, h⟩
  · exact .inl (checkPrimitives_eq_error h)
  cases hshallow : slots.findSome? Slot.depthMismatch? with
  | some e' =>
      simp only [hshallow, Option.elim_some, Except.error.injEq, reduceCtorEq,
        false_and, exists_false, or_false] at h
      exact .inr (.inl (List.exists_of_findSome?_eq_some (h ▸ hshallow)))
  | none =>
      simp only [hshallow, Option.elim_none, reduceCtorEq, Except.ok.injEq,
        exists_eq_left', false_or] at h
      rcases h with h | ⟨-, -, h⟩
      · exact .inr
          (.inr (.inl (checkVariables_eq_error htyped (List.findSome?_eq_none_iff.1 hshallow) h)))
      · exact .inr (.inr (.inr (checkMembership_eq_error h)))

end Covenant
