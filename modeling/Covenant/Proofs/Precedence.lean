import Covenant.Proofs.FirstFaults

/-!
# The violation that is reported

Values can violate a contract in several ways at once, and one violation is reported. Here it is
said which one: what can be wrong is described over the two lists alone, without passes and
without the maps that passes work on, and of all that is wrong the first in a fixed order is
reported, with its true positions and types. The kinds of violation come one after another; among
those of one kind the least position counts, and for variables first the least name.

## Main definitions

* `Slot.StandsIn`: a slot is a position of the two lists.
* `Slot.Mismatched`, `Slot.TooShallow`, `Clash`, `InClass`: what can be wrong at positions and
  with variables.
* `FirstUntyped`, `FirstMismatched`, `FirstTooShallow`, `FirstClash`, `FirstUnmet`: the first
  violation of each kind.

## Main statements

* `mem_inferSlots_iff_standsIn`, `mem_bindings_iff`, `mem_typedBindings_iff`: what the passes work
  on.
* `check_reports_first_violation`: what a check reports.
-/

namespace Covenant

variable {rule : ArrayRule} {registry : Registry} {constraints : Constraints} {types : List Ty}
  {values : List Value} {slots : List Slot}

/-! ## What can be wrong -/

/-- A slot holds what stands at its position. -/
structure Slot.StandsIn (rule : ArrayRule) (types : List Ty) (values : List Value)
    (slot : Slot) : Prop where
  expected : types[slot.position]? = some slot.expected
  value : values[slot.position]? = some slot.value
  typed : slot.Typed rule

/-- The type of a slot is primitive, and the type of the value does not agree with it. -/
def Slot.Mismatched (slot : Slot) : Prop :=
  slot.expected.isPrimitive = true ∧ slot.expected.agrees slot.actual = false

/-- The type of a slot is a variable under more brackets than its value has levels, and the value
says something about its type. -/
def Slot.TooShallow (slot : Slot) (var : String) : Prop :=
  slot.expected.base = .var var ∧ slot.actual.isWildcard = false ∧
    slot.actual.depth < slot.expected.depth

/-- A value represents a variable at a position: it is reached there through as many first
elements as there are brackets around the variable. -/
def RepresentsAt (types : List Ty) (values : List Value) (var : String) (position : Nat)
    (w : Value) : Prop :=
  ∃ t v, types[position]? = some t ∧ values[position]? = some v ∧ t.base = .var var ∧
    descend t.depth v = .reached w

/-- A variable stands for a type at a position: this is the type of its representative there. -/
def StandsFor (rule : ArrayRule) (types : List Ty) (values : List Value) (var : String)
    (position : Nat) (t : Ty) : Prop :=
  ∃ w, RepresentsAt types values var position w ∧ w.infer rule = .ok t

/-- A variable stands for types that do not agree, at two positions. -/
structure Clash (rule : ArrayRule) (types : List Ty) (values : List Value) (var : String)
    (first second : Nat) (t u : Ty) : Prop where
  lt : first < second
  first_type : StandsFor rule types values var first t
  second_type : StandsFor rule types values var second u
  disagree : t.agrees u = false

/-- A class is registered and accepts all representatives of a variable. -/
def InClass (registry : Registry) (types : List Ty) (values : List Value)
    (var className : String) : Prop :=
  ∃ c, registry.get? className = some c ∧ ∀ i w, RepresentsAt types values var i w →
    c.accepts w = true

/-! ## The first of each kind -/

/-- The first value without a type. -/
def FirstUntyped (rule : ArrayRule) (values : List Value) (e : Violation) : Prop :=
  ∃ i v array, values[i]? = some v ∧ v.infer rule = .error array ∧
    (∀ j < i, ∀ w, values[j]? = some w → ∃ u, w.infer rule = .ok u) ∧ e = .mixedArray i array

/-- The first position with a primitive type that is not met. -/
def FirstMismatched (rule : ArrayRule) (types : List Ty) (values : List Value)
    (e : Violation) : Prop :=
  ∃ slot : Slot, slot.StandsIn rule types values ∧ slot.Mismatched ∧
    (∀ other : Slot, other.StandsIn rule types values → other.position < slot.position →
      ¬other.Mismatched) ∧
    e = .typeMismatch slot.position slot.expected slot.actual

/-- The first position of a variable with a value that has too few levels. -/
def FirstTooShallow (rule : ArrayRule) (types : List Ty) (values : List Value)
    (e : Violation) : Prop :=
  ∃ (slot : Slot) (var : String), slot.StandsIn rule types values ∧ slot.TooShallow var ∧
    (∀ other : Slot, other.StandsIn rule types values → other.position < slot.position →
      ∀ var', ¬other.TooShallow var') ∧
    e = .depthMismatch var slot.position slot.expected slot.actual

/-- The first two positions, in the order of pairs, at which the least variable with a clash has
one. -/
def FirstClash (rule : ArrayRule) (types : List Ty) (values : List Value) (e : Violation) : Prop :=
  ∃ var i j t u, Clash rule types values var i j t u ∧
    (∀ i' j' t' u', Clash rule types values var i' j' t' u' → i < i' ∨ i = i' ∧ j ≤ j') ∧
    (∀ var' < var, ∀ i' j' t' u', ¬Clash rule types values var' i' j' t' u') ∧
    e = .inconsistent var t i u j

/-- The first class, in the order of declaration, that the least variable which has
representatives and is not in all its classes is not in: it is not registered, or the first
representative that it does not accept is named. -/
def FirstUnmet (registry : Registry) (constraints : Constraints) (types : List Ty)
    (values : List Value) (e : Violation) : Prop :=
  ∃ var before className after, constraints[var]? = some (before ++ className :: after) ∧
    (∃ i w, RepresentsAt types values var i w) ∧
    (∀ var' < var, ∀ classes, constraints[var']? = some classes →
      (∃ i w, RepresentsAt types values var' i w) →
      ∀ other ∈ classes, InClass registry types values var' other) ∧
    (∀ other ∈ before, InClass registry types values var other) ∧
    (registry.get? className = none ∧ e = .unknownClass className var ∨
      ∃ c i w, registry.get? className = some c ∧ RepresentsAt types values var i w ∧
        c.accepts w = false ∧
        (∀ j < i, ∀ w', RepresentsAt types values var j w' → c.accepts w' = true) ∧
        e = .unmetConstraint className var i)

/-! ## What the passes work on -/

theorem mem_inferSlots_iff_standsIn (h : inferSlots rule 0 types values = .ok slots) (slot : Slot) :
    slot ∈ slots ↔ slot.StandsIn rule types values := by
  rw [mem_inferSlots_iff h]
  constructor
  · rintro ⟨i, t, v, u, ht, hv, hu, rfl⟩
    rw [Nat.zero_add]
    exact ⟨ht, hv, hu⟩
  · rintro ⟨hexpected, hvalue, htyped⟩
    exact ⟨slot.position, slot.expected, slot.value, slot.actual, hexpected, hvalue,
      htyped, by simp⟩

/-- A slot yields a representative if there is one at its position. -/
theorem mem_bindings_iff (h : inferSlots rule 0 types values = .ok slots)
    (hlength : types.length = values.length) (var : String) (r : Representative) :
    r ∈ itemsOf var (slots.filterMap Slot.binding?) ↔
      RepresentsAt types values var r.position r.value := by
  simp only [mem_itemsOf, List.mem_filterMap, binding?_eq_some_iff, mem_inferSlots_iff_standsIn h,
    Ty.var?_eq_some_iff]
  constructor
  · rintro ⟨slot, hslot, hvar, hreached, hposition⟩
    rw [hposition]
    exact ⟨slot.expected, slot.value, hslot.expected, hslot.value, hvar, hreached⟩
  · rintro ⟨t, v, ht, hv, hvar, hreached⟩
    obtain ⟨u, hu⟩ := (exists_inferSlots_iff 0 hlength).1 ⟨slots, h⟩ v (List.mem_of_getElem? hv)
    exact ⟨⟨r.position, t, v, u⟩, ⟨ht, hv, hu⟩, hvar, hreached, rfl⟩

/-- Where no value is too shallow, the types that the passes compare are those of the
representatives. -/
theorem mem_typedBindings_iff (h : inferSlots rule 0 types values = .ok slots)
    (hlength : types.length = values.length) (hdeep : ∀ slot ∈ slots, slot.depthMismatch? = none)
    (var : String)
    (b : Nat × Ty) :
    b ∈ itemsOf var (slots.filterMap Slot.typedBinding?) ↔
      StandsFor rule types values var b.1 b.2 := by
  have htyped : ∀ slot ∈ slots, slot.Typed rule := fun slot => typed_of_mem_inferSlots h
  rw [mem_itemsOf, List.mem_filterMap]
  constructor
  · rintro ⟨slot, hslot, hb⟩
    obtain ⟨⟨var', r⟩, hr, heq⟩ := Option.map_eq_some_iff.1 hb
    cases heq
    refine ⟨r.value, ?_, (infer_of_binding? (htyped slot hslot) (hdeep slot hslot) hr).2⟩
    exact (mem_bindings_iff h hlength var r).1
      (mem_itemsOf.2 (List.mem_filterMap.2 ⟨slot, hslot, hr⟩))
  · rintro ⟨w, hw, hty⟩
    have hr := (mem_bindings_iff h hlength var ⟨b.1, w⟩).2 hw
    obtain ⟨slot, hslot, hr⟩ := List.mem_filterMap.1 (mem_itemsOf.1 hr)
    have hinfer := (infer_of_binding? (htyped slot hslot) (hdeep slot hslot) hr).2
    rw [hty] at hinfer
    refine ⟨slot, hslot, ?_⟩
    rw [typedBinding?_of_binding? hr, ← Except.ok.inj hinfer]

/-- A variable has representatives for the passes if it has some at a position. -/
theorem bindings_ne_nil_iff (h : inferSlots rule 0 types values = .ok slots)
    (hlength : types.length = values.length) (var : String) :
    itemsOf var (slots.filterMap Slot.binding?) ≠ [] ↔
      ∃ i w, RepresentsAt types values var i w := by
  constructor
  · intro hne
    obtain ⟨r, hr⟩ := List.exists_mem_of_ne_nil _ hne
    exact ⟨r.position, r.value, (mem_bindings_iff h hlength var r).1 hr⟩
  · rintro ⟨i, w, hw⟩
    exact List.ne_nil_of_mem ((mem_bindings_iff h hlength var ⟨i, w⟩).2 hw)

/-! ## The first of each kind, as the passes find it -/

theorem typeMismatch?_eq_some_iff {slot : Slot} {e : Violation} :
    slot.typeMismatch? = some e ↔
      slot.Mismatched ∧ e = .typeMismatch slot.position slot.expected slot.actual := by
  simp only [Slot.typeMismatch?, Slot.Mismatched, Bool.and_eq_true, Bool.not_eq_true',
    Option.ite_none_right_eq_some, Option.some.injEq, eq_comm (a := e)]

theorem typeMismatch?_eq_none_iff {slot : Slot} : slot.typeMismatch? = none ↔ ¬slot.Mismatched := by
  simp [Option.eq_none_iff_forall_ne_some, typeMismatch?_eq_some_iff]

theorem depthMismatch?_eq_some_iff {slot : Slot} {e : Violation} :
    slot.depthMismatch? = some e ↔
      ∃ var, slot.TooShallow var ∧
        e = .depthMismatch var slot.position slot.expected slot.actual := by
  rw [Slot.depthMismatch?]
  simp only [Slot.TooShallow, ← Ty.var?_eq_some_iff]
  cases slot.expected.var? with
  | none => simp
  | some var =>
      simp only [Option.ite_none_right_eq_some, Option.some.injEq, and_assoc, exists_eq_left',
        eq_comm (a := e)]
      exact and_left_comm

theorem depthMismatch?_eq_none_iff_not {slot : Slot} :
    slot.depthMismatch? = none ↔ ∀ var, ¬slot.TooShallow var := by
  constructor
  · intro h var hshallow
    have := depthMismatch?_eq_some_iff.2 ⟨var, hshallow, rfl⟩
    simp [h] at this
  · intro h
    rw [Option.eq_none_iff_forall_ne_some]
    intro e he
    obtain ⟨var, hshallow, -⟩ := depthMismatch?_eq_some_iff.1 he
    exact h var hshallow

theorem findSome?_typeMismatch?_iff (h : inferSlots rule 0 types values = .ok slots)
    {e : Violation} :
    slots.findSome? Slot.typeMismatch? = some e ↔ FirstMismatched rule types values e := by
  simp only [findSome?_eq_some_iff_least (pairwise_position_inferSlots h),
    mem_inferSlots_iff_standsIn h, typeMismatch?_eq_some_iff, typeMismatch?_eq_none_iff]
  constructor
  · rintro ⟨slot, hslot, ⟨hwrong, he⟩, hleast⟩
    exact ⟨slot, hslot, hwrong, hleast, he⟩
  · rintro ⟨slot, hslot, hwrong, hleast, he⟩
    exact ⟨slot, hslot, ⟨hwrong, he⟩, hleast⟩

theorem findSome?_depthMismatch?_iff (h : inferSlots rule 0 types values = .ok slots)
    {e : Violation} :
    slots.findSome? Slot.depthMismatch? = some e ↔ FirstTooShallow rule types values e := by
  simp only [findSome?_eq_some_iff_least (pairwise_position_inferSlots h),
    mem_inferSlots_iff_standsIn h, depthMismatch?_eq_some_iff, depthMismatch?_eq_none_iff_not]
  constructor
  · rintro ⟨slot, hslot, ⟨var, hwrong, he⟩, hleast⟩
    exact ⟨slot, var, hslot, hwrong, hleast, he⟩
  · rintro ⟨slot, var, hslot, hwrong, hleast, he⟩
    exact ⟨slot, hslot, ⟨var, hwrong, he⟩, hleast⟩

theorem firstClash?_eq_none_iff_not_clash (h : inferSlots rule 0 types values = .ok slots)
    (hlength : types.length = values.length) (hdeep : ∀ slot ∈ slots, slot.depthMismatch? = none)
    (var : String) :
    firstClash? (itemsOf var (slots.filterMap Slot.typedBinding?)) = none ↔
      ∀ i j t u, ¬Clash rule types values var i j t u := by
  have hsorted := pairwise_position_typedBindings (pairwise_position_inferSlots h) var
  rw [firstClash?_eq_none_iff_of_sorted hsorted]
  simp only [mem_typedBindings_iff h hlength hdeep, Prod.forall]
  constructor
  · intro hagrees i j t u hclash
    have := hagrees i t hclash.first_type j u hclash.second_type hclash.lt
    simp [hclash.disagree] at this
  · intro hnone i t ht j u hu hlt
    cases hagrees : t.agrees u with
    | true => rfl
    | false => exact absurd ⟨hlt, ht, hu, hagrees⟩ (hnone i j t u)

theorem firstClash?_eq_some_iff_clash (h : inferSlots rule 0 types values = .ok slots)
    (hlength : types.length = values.length) (hdeep : ∀ slot ∈ slots, slot.depthMismatch? = none)
    (var : String) (i j : Nat) (t u : Ty) :
    firstClash? (itemsOf var (slots.filterMap Slot.typedBinding?)) = some ((i, t), (j, u)) ↔
      Clash rule types values var i j t u ∧
        ∀ i' j' t' u', Clash rule types values var i' j' t' u' → i < i' ∨ i = i' ∧ j ≤ j' := by
  have hsorted := pairwise_position_typedBindings (pairwise_position_inferSlots h) var
  rw [firstClash?_eq_some_iff hsorted]
  simp only [mem_typedBindings_iff h hlength hdeep, Prod.forall]
  constructor
  · rintro ⟨⟨ht, hu, hlt, hdisagree⟩, hleast⟩
    refine ⟨⟨hlt, ht, hu, hdisagree⟩, ?_⟩
    intro i' j' t' u' hclash
    exact hleast i' t' hclash.first_type j' u' hclash.second_type hclash.lt hclash.disagree
  · rintro ⟨hclash, hleast⟩
    refine ⟨⟨hclash.first_type, hclash.second_type, hclash.lt, hclash.disagree⟩, ?_⟩
    intro i' t' ht' j' u' hu' hlt hdisagree
    exact hleast i' j' t' u' ⟨hlt, ht', hu', hdisagree⟩

theorem checkVariables_eq_error_iff_clash (h : inferSlots rule 0 types values = .ok slots)
    (hlength : types.length = values.length) (hdeep : ∀ slot ∈ slots, slot.depthMismatch? = none)
    {e : Violation} :
    checkVariables rule (groupByKey (slots.filterMap Slot.binding?)) = .error e ↔
      FirstClash rule types values e := by
  rw [checkVariables_eq_error_iff (fun slot => typed_of_mem_inferSlots h) hdeep]
  simp only [Prod.exists, firstClash?_eq_some_iff_clash h hlength hdeep,
    firstClash?_eq_none_iff_not_clash h hlength hdeep]
  constructor
  · rintro ⟨var, i, t, j, u, ⟨hclash, hleast⟩, hless, he⟩
    exact ⟨var, i, j, t, u, hclash, hleast, hless, he⟩
  · rintro ⟨var, i, j, t, u, hclash, hleast, hless, he⟩
    exact ⟨var, i, t, j, u, ⟨hclash, hleast⟩, hless, he⟩

theorem checkClass_eq_ok_iff_inClass (h : inferSlots rule 0 types values = .ok slots)
    (hlength : types.length = values.length) (var className : String) :
    checkClass registry var (itemsOf var (slots.filterMap Slot.binding?)) className = .ok () ↔
      InClass registry types values var className := by
  rw [checkClass_eq_ok_iff]
  refine exists_congr fun c => and_congr_right fun _ => ?_
  constructor
  · intro haccepts i w hw
    exact haccepts ⟨i, w⟩ ((mem_bindings_iff h hlength var ⟨i, w⟩).2 hw)
  · intro haccepts r hr
    exact haccepts r.position r.value ((mem_bindings_iff h hlength var r).1 hr)

theorem checkClass_eq_error_iff_representsAt (h : inferSlots rule 0 types values = .ok slots)
    (hlength : types.length = values.length) (var className : String) {e : Violation} :
    checkClass registry var (itemsOf var (slots.filterMap Slot.binding?)) className = .error e ↔
      registry.get? className = none ∧ e = .unknownClass className var ∨
        ∃ c i w, registry.get? className = some c ∧ RepresentsAt types values var i w ∧
          c.accepts w = false ∧
          (∀ j < i, ∀ w', RepresentsAt types values var j w' → c.accepts w' = true) ∧
          e = .unmetConstraint className var i := by
  have hsorted := pairwise_position_bindings (pairwise_position_inferSlots h) var
  rw [checkClass_eq_error_iff hsorted]
  simp only [mem_bindings_iff h hlength]
  refine or_congr Iff.rfl (exists_congr fun c => ?_)
  constructor
  · rintro ⟨hc, r, hr, hrefused, hleast, he⟩
    exact ⟨r.position, r.value, hc, hr, hrefused, fun j hj w' hw' => hleast ⟨j, w'⟩ hw' hj, he⟩
  · rintro ⟨i, w, hc, hw, hrefused, hleast, he⟩
    exact ⟨hc, ⟨i, w⟩, hw, hrefused, fun r hr hlt => hleast r.position hlt r.value hr, he⟩

theorem checkMembership_eq_error_iff_unmet (h : inferSlots rule 0 types values = .ok slots)
    (hlength : types.length = values.length) {e : Violation} :
    checkMembership registry constraints (groupByKey (slots.filterMap Slot.binding?)) = .error e ↔
      FirstUnmet registry constraints types values e := by
  simp only [checkMembership_eq_error_iff, bindings_ne_nil_iff h hlength,
    checkClass_eq_ok_iff_inClass h hlength, checkClass_eq_error_iff_representsAt h hlength,
      FirstUnmet]

/-! ## The report -/

/-- What is reported once the types of the values are known. -/
theorem checkSlots_reports_first_violation (h : inferSlots rule 0 types values = .ok slots)
    (hlength : types.length = values.length) {e : Violation} :
    checkSlots registry constraints rule slots = .error e ↔
      FirstMismatched rule types values e ∨
        (∀ slot : Slot, slot.StandsIn rule types values → ¬slot.Mismatched) ∧
        (FirstTooShallow rule types values e ∨
          (∀ slot : Slot, slot.StandsIn rule types values → ∀ var, ¬slot.TooShallow var) ∧
          (FirstClash rule types values e ∨
            (∀ var i j t u, ¬Clash rule types values var i j t u) ∧
            FirstUnmet registry constraints types values e)) := by
  have hdeep_iff : (∀ slot ∈ slots, slot.depthMismatch? = none) ↔
      ∀ slot : Slot, slot.StandsIn rule types values → ∀ var, ¬slot.TooShallow var := by
    simp only [mem_inferSlots_iff_standsIn h, depthMismatch?_eq_none_iff_not]
  rw [checkSlots_eq_error_iff fun slot => typed_of_mem_inferSlots h]
  simp only [findSome?_typeMismatch?_iff h, findSome?_depthMismatch?_iff h,
    mem_inferSlots_iff_standsIn h, typeMismatch?_eq_none_iff, depthMismatch?_eq_none_iff_not]
  refine or_congr Iff.rfl
    (and_congr_right fun _ => or_congr Iff.rfl (and_congr_right fun hdeep => ?_))
  rw [← hdeep_iff] at hdeep
  simp only [checkVariables_eq_error_iff_clash h hlength hdeep,
    firstClash?_eq_none_iff_not_clash h hlength hdeep, checkMembership_eq_error_iff_unmet h hlength]

/-- Checking reports the first violation in a fixed order, with its true fields, and it reports
one whenever there is one. First come lists of different lengths, then values without a type,
primitive types that are not met, values with too few levels, variables that stand for types which
do not agree, and last classes. Each kind counts only if there is nothing of the kinds before. -/
theorem check_reports_first_violation (registry : Registry) (constraints : Constraints)
    (rule : ArrayRule) (types : List Ty) (values : List Value) (e : Violation) :
    check registry constraints rule types values = .error e ↔
      types.length ≠ values.length ∧ e = .arity types.length values.length ∨
      types.length = values.length ∧
        (FirstUntyped rule values e ∨ (∀ v ∈ values, ∃ u, v.infer rule = .ok u) ∧
          (FirstMismatched rule types values e ∨
            (∀ slot : Slot, slot.StandsIn rule types values → ¬slot.Mismatched) ∧
            (FirstTooShallow rule types values e ∨
              (∀ slot : Slot, slot.StandsIn rule types values → ∀ var, ¬slot.TooShallow var) ∧
              (FirstClash rule types values e ∨
                (∀ var i j t u, ¬Clash rule types values var i j t u) ∧
                FirstUnmet registry constraints types values e)))) := by
  by_cases hlength : types.length = values.length
  · simp only [hlength, ne_eq, not_true_eq_false, false_and, false_or, true_and]
    rw [check_eq_inferSlots_bind hlength, bind_eq_error_iff, inferSlots_eq_error_iff hlength,
      ← exists_inferSlots_iff 0 hlength]
    simp only [Nat.zero_add]
    refine or_congr Iff.rfl ⟨?_, ?_⟩
    · rintro ⟨slots, hslots, h⟩
      exact ⟨⟨slots, hslots⟩, (checkSlots_reports_first_violation hslots hlength).1 h⟩
    · rintro ⟨⟨slots, hslots⟩, h⟩
      exact ⟨slots, hslots, (checkSlots_reports_first_violation hslots hlength).2 h⟩
  · simp [check, hlength, eq_comm]

end Covenant
