import Covenant.Class.Stock
import Covenant.Proofs.Checking

/-!
# Checking decides conformance

Values conform to types if one assignment of types to variables makes every value an instance of
the type at its position, and the classes of the variables accept their representatives. This is
said without passes, slots or an order of positions. Checking finds no assignment; it compares
representatives two by two, although agreement of two types is not transitive. That this comes to
the same rests on one fact about types: any number of types that agree two by two have a type that
all of them fit.

## Main definitions

* `Ty.instantiate`: a type with its variable replaced.
* `Represents`: a value is reached at a position of a variable.
* `Conforms`: what a list of values has to satisfy.

## Main statements

* `Ty.exists_fits_iff_pairwise_agrees`: agreement two by two and a common type.
* `exists_assignment_iff`: the passes over types, and one assignment.
* `check_eq_ok_iff_conforms`: checking decides conformance.
-/

namespace Covenant

variable {rule : ArrayRule}

/-! ## Conformance -/

/-- A type in which a variable stands for a type: its brackets are put around that type. -/
def Ty.instantiate (s : String → Ty) (t : Ty) : Ty :=
  match t.base with
  | .var name => ⟨(s name).base, (s name).depth + t.depth⟩
  | _ => t

/-- A value represents a variable if it is reached from the value at a position of the variable,
through as many first elements as there are brackets. -/
def Represents (types : List Ty) (values : List Value) (var : String) (w : Value) : Prop :=
  ∃ (i : Nat) (t : Ty) (v : Value), types[i]? = some t ∧ values[i]? = some v ∧ t.base = .var var ∧
    descend t.depth v = .reached w

/-- A list of values conforms to a list of types. -/
structure Conforms (registry : Registry) (constraints : Constraints) (rule : ArrayRule)
    (types : List Ty) (values : List Value) : Prop where
  length_eq : types.length = values.length
  /-- Every value has a type. -/
  typed : ∀ v ∈ values, ∃ u, v.infer rule = .ok u
  /-- One assignment makes every value an instance of its type. -/
  instantiated : ∃ s : String → Ty, ∀ (i : Nat) (t : Ty) (v : Value) (u : Ty), types[i]? = some t →
    values[i]? = some v → v.infer rule = .ok u → u.Fits (t.instantiate s)
  /-- The classes of a variable with a representative are registered and accept every one. -/
  member : ∀ (var : String) (classes : List String), constraints[var]? = some classes →
    (∃ w, Represents types values var w) → ∀ className ∈ classes,
      ∃ c, registry.get? className = some c ∧ ∀ w, Represents types values var w →
        c.accepts w = true

/-! ## A common type -/

namespace Ty

theorem agrees_iff {t u : Ty} : t.agrees u = true ↔ t.Fits u ∨ u.Fits t := by
  simp [agrees]

theorem agrees_self (t : Ty) : t.agrees t = true := agrees_iff.2 (.inl (fits_refl t))

theorem agrees_of_fits {t t' u : Ty} (h : t.Fits u) (h' : t'.Fits u) : t.agrees t' = true := by
  rw [agrees_iff]
  rcases h with rfl | ⟨hwild, hle⟩
  · exact .inr h'
  · rcases h' with rfl | ⟨hwild', hle'⟩
    · exact .inl (.inr ⟨hwild, hle⟩)
    · -- of two wildcards the one that is no deeper fits the other
      rcases Nat.le_total t.depth t'.depth with hdepth | hdepth
      · exact .inl (.inr ⟨hwild, hdepth⟩)
      · exact .inr (.inr ⟨hwild', hdepth⟩)

/-- A type fits every other type that agrees with it, unless it is fitted by a wildcard. -/
theorem fits_of_agrees {t u : Ty} (h : t.agrees u = true)
    (hwild : u.isWildcard = false) : t.Fits u := by
  rcases agrees_iff.1 h with h | rfl | ⟨hwild', -⟩
  · exact h
  · exact fits_refl u
  · simp [hwild] at hwild'

/-- Some depth is at least that of each of finitely many types. -/
theorem exists_depth_le (ts : List Ty) : ∃ depth, ∀ t ∈ ts, t.depth ≤ depth := by
  induction ts with
  | nil => exact ⟨0, by simp⟩
  | cons t ts ih =>
      obtain ⟨depth, hdepth⟩ := ih
      refine ⟨max t.depth depth, ?_⟩
      intro u hu
      rcases List.mem_cons.1 hu with rfl | hu
      · exact Nat.le_max_left _ _
      · exact Nat.le_trans (hdepth u hu) (Nat.le_max_right _ _)

/-- Types agree two by two exactly if there is a type that all of them fit. -/
theorem exists_fits_iff_pairwise_agrees (ts : List Ty) :
    (∃ u, ∀ t ∈ ts, t.Fits u) ↔ ts.Pairwise fun t t' => t.agrees t' = true := by
  constructor
  · rintro ⟨u, hu⟩
    apply List.Pairwise.imp_of_mem (R := fun _ _ => True)
    · intro t t' ht ht' _
      exact agrees_of_fits (hu t ht) (hu t' ht')
    · exact List.pairwise_of_forall fun _ _ => trivial
  · intro h
    have hall : ∀ t ∈ ts, ∀ t' ∈ ts, t.agrees t' = true := by
      intro t ht t' ht'
      apply List.Pairwise.forall_of_forall_of_flip (fun t _ => agrees_self t) h ?_ ht ht'
      exact h.imp fun {a b} hab => by rw [flip, agrees_comm, hab]
    by_cases hsolid : ∃ t ∈ ts, t.isWildcard = false
    · -- a type that is no wildcard is the only candidate
      obtain ⟨u, hu, hwild⟩ := hsolid
      exact ⟨u, fun t ht => fits_of_agrees (hall t ht u hu) hwild⟩
    · -- among wildcards any wildcard that is deep enough will do
      obtain ⟨depth, hdepth⟩ := exists_depth_le ts
      refine ⟨.wildcard depth, fun t ht => .inr ⟨?_, hdepth t ht⟩⟩
      simpa using fun hwild => hsolid ⟨t, ht, hwild⟩

end Ty

/-! ## One assignment for all positions -/

/-- Brackets around both sides, or around neither. -/
theorem Ty.fits_add_depth_iff {t u : Ty} {k : Nat} (h : k ≤ t.depth) :
    t.Fits ⟨u.base, u.depth + k⟩ ↔ (⟨t.base, t.depth - k⟩ : Ty).Fits u := by
  obtain ⟨base, depth⟩ := t
  obtain ⟨base', depth'⟩ := u
  simp only [Ty.Fits, Ty.mk.injEq, Ty.isWildcard_iff] at h ⊢
  have heq : depth = depth' + k ↔ depth - k = depth' := by omega
  have hle : depth ≤ depth' + k ↔ depth - k ≤ depth' := by omega
  rw [heq, hle]

/-- At a position of a variable a value is an instance of the type exactly if it is deep enough
and the type of its representative, if it has one, fits what the variable stands for. -/
theorem fits_instantiate_iff_of_var {slot : Slot} (htyped : slot.Typed rule) (s : String → Ty)
    {var : String} (hvar : slot.expected.base = .var var) :
    slot.actual.Fits (slot.expected.instantiate s) ↔ slot.depthMismatch? = none ∧
      ∀ position t, slot.typedBinding? = some (var, position, t) → t.Fits (s var) := by
  have hvar? := Ty.var?_eq_some_iff.2 hvar
  have hinstance : slot.expected.instantiate s =
      ⟨(s var).base, (s var).depth + slot.expected.depth⟩ := by
    simp only [Ty.instantiate, hvar]
  rw [hinstance]
  have hbound : slot.depthMismatch? = none → ∀ r, slot.binding? = some (var, r) →
      (slot.actual.Fits ⟨(s var).base, (s var).depth + slot.expected.depth⟩ ↔
        (⟨slot.actual.base, slot.actual.depth - slot.expected.depth⟩ : Ty).Fits (s var)) :=
    fun hdeep r hr => Ty.fits_add_depth_iff (infer_of_binding? htyped hdeep hr).1
  constructor
  · intro hfits
    have hdeep : slot.depthMismatch? = none := by
      rw [depthMismatch?_eq_none_iff]
      intro _ hlt
      rcases hfits with heq | ⟨hwild, -⟩
      · have := congrArg Ty.depth heq
        simp only at this
        omega
      · exact hwild
    refine ⟨hdeep, ?_⟩
    intro position t ht
    obtain ⟨⟨var', r⟩, hr, heq⟩ := Option.map_eq_some_iff.1 ht
    obtain ⟨rfl, rfl, rfl⟩ := by simpa only [Prod.mk.injEq] using heq
    exact (hbound hdeep r hr).1 hfits
  · rintro ⟨hdeep, hfits⟩
    cases hbinding : slot.binding? with
    | some binding =>
        obtain ⟨var', r⟩ := binding
        obtain ⟨hvar', -⟩ := binding?_eq_some_iff.1 hbinding
        obtain rfl : var = var' := Option.some.inj (hvar?.symm.trans hvar')
        exact (hbound hdeep r hbinding).2 (hfits r.position _ (typedBinding?_of_binding? hbinding))
    | none =>
        rcases Nat.lt_or_ge slot.actual.depth slot.expected.depth with hlt | hle
        · have hwild := depthMismatch?_eq_none_iff.1 hdeep (by simp [hvar?]) hlt
          exact .inr ⟨hwild, by simp only; omega⟩
        · rw [eq_wildcard_of_binding?_eq_none htyped hvar? hle hbinding]
          exact .inr ⟨rfl, Nat.le_add_left _ _⟩

/-- At a position of a primitive type a value is an instance exactly if the type is met. -/
theorem fits_instantiate_iff_of_prim {slot : Slot} (s : String → Ty) {p : Primitive}
    (hprim : slot.expected.base = .prim p) :
    slot.actual.Fits (slot.expected.instantiate s) ↔ slot.typeMismatch? = none := by
  have hinstance : slot.expected.instantiate s = slot.expected := by
    simp only [Ty.instantiate, hprim]
  have hisPrimitive : slot.expected.isPrimitive = true := by
    simp only [Ty.isPrimitive, hprim]
  have hwild : slot.expected.isWildcard = false := by
    simp only [Ty.isWildcard, hprim]
  rw [hinstance, Slot.typeMismatch?, hisPrimitive]
  constructor
  · intro hfits
    simp [Ty.agrees_iff.2 (.inr hfits)]
  · intro h
    have hagrees : slot.expected.agrees slot.actual = true := by simpa using h
    exact Ty.fits_of_agrees (Ty.agrees_comm _ _ ▸ hagrees) hwild

/-- A type that can be written is a primitive or a variable under brackets. -/
theorem Ty.prim_or_var_of_not_wildcard {t : Ty} (h : t.isWildcard = false) :
    (∃ p, t.base = .prim p) ∨ ∃ var, t.base = .var var := by
  obtain ⟨base, depth⟩ := t
  cases base with
  | prim p => exact .inl ⟨p, rfl⟩
  | wildcard => simp [Ty.isWildcard] at h
  | var name => exact .inr ⟨name, rfl⟩

/-- The types of the representatives of a variable are found at its slots. -/
theorem mem_types_of_var_iff {slots : List Slot} {var : String} {t : Ty} :
    t ∈ (itemsOf var (slots.filterMap Slot.typedBinding?)).map (·.2) ↔
      ∃ slot ∈ slots, ∃ position, slot.typedBinding? = some (var, position, t) := by
  simp only [List.mem_map, Prod.exists, exists_eq_right, mem_itemsOf, List.mem_filterMap]
  exact ⟨fun ⟨position, slot, hslot, h⟩ => ⟨slot, hslot, position, h⟩,
    fun ⟨slot, hslot, position, h⟩ => ⟨position, slot, hslot, h⟩⟩

/-- A variable is consistent exactly if there is a type that the types of all its representatives
fit. -/
theorem consistent_iff_exists_fits {slots : List Slot} {var : String} :
    ((itemsOf var (slots.filterMap Slot.typedBinding?)).Pairwise fun a b => a.2.agrees b.2 = true) ↔
      ∃ u, ∀ slot ∈ slots, ∀ position t, slot.typedBinding? = some (var, position, t) →
        t.Fits u := by
  rw [← List.pairwise_map (R := fun t t' : Ty => t.agrees t' = true),
    ← Ty.exists_fits_iff_pairwise_agrees]
  simp only [mem_types_of_var_iff]
  exact exists_congr fun u => ⟨fun h slot hslot position t ht => h t ⟨slot, hslot, position, ht⟩,
    fun h t ⟨slot, hslot, position, ht⟩ => h slot hslot position t ht⟩

/-- One assignment makes every value an instance of its type exactly if the passes over types do
not object. No pass looks at a position whose type is a wildcard. -/
theorem exists_assignment_iff {slots : List Slot} (htyped : ∀ slot ∈ slots, slot.Typed rule) :
    (∃ s : String → Ty, ∀ slot ∈ slots, slot.expected.isWildcard = false →
        slot.actual.Fits (slot.expected.instantiate s)) ↔
      (∀ slot ∈ slots, slot.typeMismatch? = none) ∧ (∀ slot ∈ slots, slot.depthMismatch? = none) ∧
        ∀ var, (itemsOf var (slots.filterMap Slot.typedBinding?)).Pairwise
          fun a b => a.2.agrees b.2 = true := by
  simp only [consistent_iff_exists_fits]
  constructor
  · intro h
    obtain ⟨s, hs⟩ := h
    refine ⟨?_, ?_, ?_⟩
    · intro slot hslot
      cases hbase : slot.expected.base with
      | prim p =>
          have hfits := hs slot hslot (by simp [Ty.isWildcard, hbase])
          exact (fits_instantiate_iff_of_prim s hbase).1 hfits
      | _ => simp [Slot.typeMismatch?, Ty.isPrimitive, hbase]
    · intro slot hslot
      cases hbase : slot.expected.base with
      | var name =>
          have hfits := hs slot hslot (by simp [Ty.isWildcard, hbase])
          exact ((fits_instantiate_iff_of_var (htyped slot hslot) s hbase).1 hfits).1
      | _ => simp [Slot.depthMismatch?, Ty.var?, hbase]
    · intro var
      refine ⟨s var, ?_⟩
      intro slot hslot position t ht
      obtain ⟨⟨var', r⟩, hr, heq⟩ := Option.map_eq_some_iff.1 ht
      obtain ⟨rfl, -⟩ := by simpa only [Prod.mk.injEq] using heq
      have hvar := Ty.var?_eq_some_iff.1 (binding?_eq_some_iff.1 hr).1
      have hfits := hs slot hslot (by simp [Ty.isWildcard, hvar])
      exact ((fits_instantiate_iff_of_var (htyped slot hslot) s hvar).1 hfits).2 position t ht
  · intro h
    obtain ⟨hprimitive, hdeep, hconsistent⟩ := h
    -- each variable stands for the common type of its representatives
    obtain ⟨s, hs⟩ := Classical.axiomOfChoice hconsistent
    refine ⟨s, ?_⟩
    intro slot hslot hwritten
    rcases Ty.prim_or_var_of_not_wildcard hwritten with ⟨p, hprim⟩ | ⟨var, hvar⟩
    · exact (fits_instantiate_iff_of_prim s hprim).2 (hprimitive slot hslot)
    · exact (fits_instantiate_iff_of_var (htyped slot hslot) s hvar).2
        ⟨hdeep slot hslot, hs var slot hslot⟩

/-! ## The decision -/

/-- The representatives of a variable are the values reached at its slots. -/
theorem represents_iff {types : List Ty} {values : List Value} {slots : List Slot}
    (h : inferSlots rule 0 types values = .ok slots) (hlength : types.length = values.length)
    {var : String}
    {w : Value} :
    Represents types values var w ↔
      ∃ r ∈ itemsOf var (slots.filterMap Slot.binding?), r.value = w := by
  simp only [mem_itemsOf, List.mem_filterMap, binding?_eq_some_iff, mem_inferSlots_iff h]
  constructor
  · rintro ⟨i, t, v, ht, hv, hvar, hreached⟩
    obtain ⟨u, hu⟩ := (exists_inferSlots_iff 0 hlength).1 ⟨slots, h⟩ v (List.mem_of_getElem? hv)
    exact ⟨⟨0 + i, w⟩,
      ⟨_, ⟨i, t, v, u, ht, hv, hu, rfl⟩, Ty.var?_eq_some_iff.2 hvar, hreached, rfl⟩, rfl⟩
  · rintro ⟨r, ⟨slot, ⟨i, t, v, u, ht, hv, -, rfl⟩, hvar, hreached, -⟩, rfl⟩
    exact ⟨i, t, v, ht, hv, Ty.var?_eq_some_iff.1 hvar, hreached⟩

/-- A variable passes a class if the class accepts all values that represent it. -/
theorem checkClass_eq_ok_iff_represents {registry : Registry} {types : List Ty}
    {values : List Value} {slots : List Slot} (h : inferSlots rule 0 types values = .ok slots)
    (hlength : types.length = values.length) {var className : String} :
    checkClass registry var (itemsOf var (slots.filterMap Slot.binding?)) className = .ok () ↔
      ∃ c, registry.get? className = some c ∧ ∀ w, Represents types values var w →
        c.accepts w = true := by
  simp only [checkClass_eq_ok_iff, represents_iff h hlength]
  refine exists_congr fun c => and_congr_right fun _ => ?_
  exact ⟨fun hall w ⟨r, hr, hw⟩ => hw ▸ hall r hr, fun hall r hr => hall r.value ⟨r, hr, rfl⟩⟩

/-- A variable has a representative if some value represents it. -/
theorem bound_iff_represents {types : List Ty} {values : List Value} {slots : List Slot}
    (h : inferSlots rule 0 types values = .ok slots) (hlength : types.length = values.length)
    {var : String} :
    itemsOf var (slots.filterMap Slot.binding?) ≠ [] ↔ ∃ w, Represents types values var w := by
  simp only [represents_iff h hlength]
  constructor
  · intro hbound
    obtain ⟨r, hr⟩ := List.exists_mem_of_ne_nil _ hbound
    exact ⟨r.value, r, hr, rfl⟩
  · rintro ⟨w, r, hr, -⟩
    exact List.ne_nil_of_mem hr

/-- What the passes ask of the slots is what conformance asks of the positions. -/
theorem acceptable_iff_conforms {registry : Registry} {constraints : Constraints} {types : List Ty}
    {values : List Value} {slots : List Slot} (h : inferSlots rule 0 types values = .ok slots)
    (hlength : types.length = values.length) (hwritten : ∀ t ∈ types, t.isWildcard = false) :
    Acceptable registry constraints slots ↔ Conforms registry constraints rule types values := by
  have htyped : ∀ slot ∈ slots, slot.Typed rule := fun slot => typed_of_mem_inferSlots h
  have hexpected : ∀ slot ∈ slots, slot.expected.isWildcard = false := by
    intro slot hslot
    obtain ⟨i, t, v, u, ht, -, -, rfl⟩ := (mem_inferSlots_iff h slot).1 hslot
    exact hwritten t (List.mem_of_getElem? ht)
  have hassignment := exists_assignment_iff htyped
  constructor
  · intro ha
    obtain ⟨s, hs⟩ := hassignment.2 ⟨ha.primitive, ha.deep, ha.consistent⟩
    refine ⟨hlength, (exists_inferSlots_iff 0 hlength).1 ⟨slots, h⟩, ⟨s, ?_⟩, ?_⟩
    · intro i t v u ht hv hu
      have hslot := (mem_inferSlots_iff h _).2 ⟨i, t, v, u, ht, hv, hu, rfl⟩
      exact hs ⟨0 + i, t, v, u⟩ hslot (hexpected _ hslot)
    · intro var classes hclasses hbound className hclass
      rw [← checkClass_eq_ok_iff_represents h hlength]
      exact ha.member var classes hclasses ((bound_iff_represents h hlength).2 hbound)
        className hclass
  · intro hc
    obtain ⟨s, hs⟩ := hc.instantiated
    have hfits : ∀ slot ∈ slots, slot.expected.isWildcard = false →
        slot.actual.Fits (slot.expected.instantiate s) := by
      intro slot hslot _
      obtain ⟨i, t, v, u, ht, hv, hu, rfl⟩ := (mem_inferSlots_iff h slot).1 hslot
      exact hs i t v u ht hv hu
    obtain ⟨hprimitive, hdeep, hconsistent⟩ := hassignment.1 ⟨s, hfits⟩
    refine ⟨hprimitive, hdeep, hconsistent, ?_⟩
    intro var classes hclasses hbound className hclass
    rw [checkClass_eq_ok_iff_represents h hlength]
    exact hc.member var classes hclasses ((bound_iff_represents h hlength).1 hbound)
      className hclass

/-- Checking succeeds exactly on values that conform to the types, whatever the registry, the
constraints and the rule. Types that are read from a signature are never wildcards. -/
theorem check_eq_ok_iff_conforms (registry : Registry) (constraints : Constraints)
    (rule : ArrayRule) {types : List Ty} (values : List Value)
    (hwritten : ∀ t ∈ types, t.isWildcard = false) :
    check registry constraints rule types values = .ok () ↔
      Conforms registry constraints rule types values := by
  rw [check_eq_ok_iff_acceptable]
  constructor
  · rintro ⟨hlength, slots, hslots, h⟩
    exact (acceptable_iff_conforms hslots hlength hwritten).1 h
  · intro h
    obtain ⟨slots, hslots⟩ := (exists_inferSlots_iff 0 h.length_eq).2 h.typed
    exact ⟨h.length_eq, slots, hslots, (acceptable_iff_conforms hslots h.length_eq hwritten).2 h⟩

/-- An empty array has no representative, so a class of lists that accepts the array of undefined
values is all that is asked of the variable; a string in place of the empty array clashes with
it. -/
theorem check_eq_ok_iff_conforms_sample :
    let types : List Ty := [⟨.var "a", 1⟩, ⟨.var "a", 0⟩, ⟨.prim .object, 0⟩]
    let registry : Registry := ⟨.insert ∅ "List" (.ofKind "object")⟩
    let constraints := Constraints.ofClauses [⟨"List", "a"⟩]
    (∀ t ∈ types, t.isWildcard = false) ∧
      Conforms registry constraints .collapse types
        [.array [], .array [.undefined], .array [.null, .string "x"]] ∧
      ¬Conforms registry constraints .collapse types
        [.array [.string "x"], .array [.undefined], .null] := by
  intro types registry constraints
  have hwritten : ∀ t ∈ types, t.isWildcard = false := by decide
  refine ⟨hwritten, (check_eq_ok_iff_conforms _ _ _ _ hwritten).1 rfl, ?_⟩
  have hclash : check registry constraints .collapse types
      [.array [.string "x"], .array [.undefined], .null] =
        .error (.inconsistent "a" ⟨.prim .string, 0⟩ 0 ⟨.wildcard, 1⟩ 1) := rfl
  rw [← check_eq_ok_iff_conforms _ _ _ _ hwritten, hclash]
  simp

end Covenant
