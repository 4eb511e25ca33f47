import Covenant.Proofs.Projections

/-!
# Positions and names do not matter

Whether a check succeeds depends neither on the order of the positions nor on the names of
variables. The passes ask something of each slot and of any two slots of one variable, so an order
is not visible to them. A renaming that keeps variables apart commutes with each pass: it renames
the keys under which representatives are gathered and the keys under which classes are looked up,
and touches nothing else.
-/

namespace Covenant

variable {rule : ArrayRule} {registry : Registry} {constraints : Constraints}

/-! ## Positions -/

section Positions

variable {α : Type} {positions : List Nat} {types : List Ty} {values : List Value}

/-- The items of a list at some positions, in the order of the positions. -/
def itemsAt (positions : List Nat) (xs : List α) : List α :=
  positions.filterMap fun i => xs[i]?

/-- At a position of a choice there is the item of the position chosen there. -/
theorem getElem?_itemsAt {xs : List α} (h : ∀ i ∈ positions, i < xs.length) (j : Nat) :
    (itemsAt positions xs)[j]? = positions[j]?.bind fun i => xs[i]? := by
  induction positions generalizing j with
  | nil => simp [itemsAt]
  | cons i positions ih =>
      rw [List.forall_mem_cons] at h
      have hi : xs[i]? = some xs[i] := List.getElem?_eq_getElem h.1
      rw [itemsAt, List.filterMap_cons_some hi]
      cases j with
      | zero => simp [hi]
      | succ j => exact ih h.2 j

theorem length_itemsAt {xs : List α} (h : ∀ i ∈ positions, i < xs.length) :
    (itemsAt positions xs).length = positions.length := by
  induction positions with
  | nil => rfl
  | cons i positions ih =>
      rw [List.forall_mem_cons] at h
      have hi : xs[i]? = some xs[i] := List.getElem?_eq_getElem h.1
      have hrest : (positions.filterMap fun i => xs[i]?).length = positions.length := ih h.2
      rw [itemsAt, List.filterMap_cons_some hi, List.length_cons, hrest, List.length_cons]

/-- A check that succeeds goes on to succeed at some of its positions. -/
theorem check_itemsAt (hlength : types.length = values.length)
    (hpositions : ∀ i ∈ positions, i < types.length)
    (h : check registry constraints rule types values = .ok ()) :
    check registry constraints rule (itemsAt positions types) (itemsAt positions values) =
      .ok () := by
  have hpositions' : ∀ i ∈ positions, i < values.length := fun i hi => hlength ▸ hpositions i hi
  apply check_of_positions h
  · rw [length_itemsAt hpositions, length_itemsAt hpositions']
  · intro j t v ht hv
    rw [getElem?_itemsAt hpositions, Option.bind_eq_some_iff] at ht
    rw [getElem?_itemsAt hpositions', Option.bind_eq_some_iff] at hv
    obtain ⟨i, hi, ht⟩ := ht
    obtain ⟨i', hi', hv⟩ := hv
    obtain rfl : i = i' := Option.some.inj (hi.symm.trans hi')
    exact ⟨i, ht, hv⟩

theorem check_itemsAt_iff (hlength : types.length = values.length)
    (hpositions : positions.Perm (List.range types.length)) :
    check registry constraints rule (itemsAt positions types) (itemsAt positions values) = .ok () ↔
      check registry constraints rule types values = .ok () := by
  have hlt : ∀ i ∈ positions, i < types.length :=
    fun i hi => List.mem_range.1 (hpositions.mem_iff.1 hi)
  have hlt' : ∀ i ∈ positions, i < values.length := fun i hi => hlength ▸ hlt i hi
  constructor
  · intro h
    apply check_of_positions h hlength
    intro i t v ht hv
    -- each position is chosen somewhere
    have hi : i < types.length := (List.getElem?_eq_some_iff.1 ht).1
    obtain ⟨j, hj⟩ := List.mem_iff_getElem?.1 (hpositions.mem_iff.2 (List.mem_range.2 hi))
    exact ⟨j, by simp [getElem?_itemsAt hlt, hj, ht], by simp [getElem?_itemsAt hlt', hj, hv]⟩
  · exact check_itemsAt hlength hlt

end Positions

/-! ## Other names -/

/-- A base with its variable renamed. -/
def Base.rename (f : String → String) : Base → Base
  | .var name => .var (f name)
  | base => base

def Ty.rename (f : String → String) (t : Ty) : Ty := ⟨t.base.rename f, t.depth⟩

def Slot.rename (f : String → String) (slot : Slot) : Slot :=
  { slot with expected := slot.expected.rename f }

/-- The classes of each variable, under other names. -/
def Constraints.rename (f : String → String) (constraints : Constraints) : Constraints :=
  Std.TreeMap.ofList (constraints.toList.map fun entry => (f entry.1, entry.2))

/-- A variable is in use if a type or a constraint names it. -/
def InUse (types : List Ty) (constraints : Constraints) (var : String) : Prop :=
  (∃ t ∈ types, t.var? = some var) ∨ ∃ classes, constraints[var]? = some classes

theorem InUse.mono {types types' : List Ty} {var : String} (h : InUse types' constraints var)
    (hsub : ∀ t ∈ types', t ∈ types) : InUse types constraints var := by
  rcases h with ⟨t, ht, hvar⟩ | hclasses
  · exact .inl ⟨t, hsub t ht, hvar⟩
  · exact .inr hclasses

section Slots

variable {f : String → String}

@[simp] theorem Ty.var?_rename (t : Ty) : (t.rename f).var? = t.var?.map f := by
  obtain ⟨base, depth⟩ := t
  cases base <;> rfl

@[simp] theorem Ty.isPrimitive_rename (t : Ty) : (t.rename f).isPrimitive = t.isPrimitive := by
  obtain ⟨base, depth⟩ := t
  cases base <;> rfl

theorem Ty.rename_of_isPrimitive {t : Ty} (h : t.isPrimitive = true) : t.rename f = t := by
  obtain ⟨base, depth⟩ := t
  cases base with
  | prim p => rfl
  | wildcard => rfl
  | var name => cases h

theorem Slot.expected_rename (slot : Slot) : (slot.rename f).expected = slot.expected.rename f :=
  rfl

theorem Slot.typeMismatch?_rename_eq_none_iff {slot : Slot} :
    (slot.rename f).typeMismatch? = none ↔ slot.typeMismatch? = none := by
  rw [Slot.typeMismatch?, Slot.typeMismatch?, Slot.expected_rename, Ty.isPrimitive_rename]
  cases h : slot.expected.isPrimitive with
  | false => simp
  | true =>
      rw [Ty.rename_of_isPrimitive h]
      simp [Slot.rename]

theorem Slot.depthMismatch?_rename_eq_none_iff {slot : Slot} :
    (slot.rename f).depthMismatch? = none ↔ slot.depthMismatch? = none := by
  rw [depthMismatch?_eq_none_iff, depthMismatch?_eq_none_iff, Slot.expected_rename, Ty.var?_rename,
    Option.isSome_map]
  exact Iff.rfl

theorem Slot.binding?_rename (slot : Slot) :
    (slot.rename f).binding? = slot.binding?.map fun entry => (f entry.1, entry.2) := by
  have hdescend : descend (slot.expected.rename f).depth (slot.rename f).value =
      descend slot.expected.depth slot.value := rfl
  rw [Slot.binding?, Slot.binding?, Slot.expected_rename, Ty.var?_rename, hdescend]
  cases slot.expected.var? with
  | none => rfl
  | some var => cases descend slot.expected.depth slot.value <;> rfl

theorem Slot.typedBinding?_rename (slot : Slot) :
    (slot.rename f).typedBinding? = slot.typedBinding?.map fun entry => (f entry.1, entry.2) := by
  rw [Slot.typedBinding?, Slot.typedBinding?, Slot.binding?_rename]
  cases slot.binding? <;> rfl

theorem inferSlots_rename (position : Nat) (types : List Ty) (values : List Value) :
    inferSlots rule position (types.map (Ty.rename f)) values =
      (inferSlots rule position types values).map (List.map (Slot.rename f)) := by
  induction types generalizing position values with
  | nil => cases values <;> rfl
  | cons t types ih =>
      cases values with
      | nil => rfl
      | cons v values =>
          rw [List.map_cons, inferSlots, inferSlots, ih]
          cases v.infer rule with
          | error e => rfl
          | ok u => cases inferSlots rule (position + 1) types values <;> rfl

end Slots

/-! ## Groups and classes -/

section Keys

variable {α : Type} {f : String → String} {entries : List (String × α)}

theorem itemsOf_eq_nil_iff {key : String} :
    itemsOf key entries = [] ↔ ∀ entry ∈ entries, entry.1 ≠ key := by
  simp [itemsOf]

/-- The items of a key are found under its other name, if no other key has the same. -/
theorem itemsOf_map_key {key : String} (h : ∀ entry ∈ entries, f entry.1 = f key → entry.1 = key) :
    itemsOf (f key) (entries.map fun entry => (f entry.1, entry.2)) = itemsOf key entries := by
  induction entries with
  | nil => rfl
  | cons entry entries ih =>
      rw [List.forall_mem_cons] at h
      rw [List.map_cons, itemsOf_cons, itemsOf_cons, ih h.2]
      by_cases hkey : entry.1 = key
      · simp [hkey]
      · rw [if_neg fun heq => hkey (h.1 heq), if_neg hkey]

/-- Groups under other names are the same groups, if no two are joined. -/
theorem forall_itemsOf_rename_iff {P : List α → Prop} (hnil : P [])
    (hinj : ∀ entry ∈ entries, ∀ other ∈ entries, f entry.1 = f other.1 → entry.1 = other.1) :
    (∀ key, P (itemsOf key (entries.map fun entry => (f entry.1, entry.2)))) ↔
      ∀ key, P (itemsOf key entries) := by
  constructor
  · intro h key
    by_cases hkey : ∃ entry ∈ entries, entry.1 = key
    · obtain ⟨entry, hentry, rfl⟩ := hkey
      rw [← itemsOf_map_key fun other hother => hinj other hother entry hentry]
      exact h (f entry.1)
    · have hnone : itemsOf key entries = [] :=
        itemsOf_eq_nil_iff.2 fun entry hentry heq => hkey ⟨entry, hentry, heq⟩
      rw [hnone]
      exact hnil
  · intro h name
    by_cases hname : ∃ entry ∈ entries, f entry.1 = name
    · obtain ⟨entry, hentry, rfl⟩ := hname
      rw [itemsOf_map_key fun other hother => hinj other hother entry hentry]
      exact h entry.1
    · have hnone : itemsOf name (entries.map fun entry => (f entry.1, entry.2)) = [] := by
        rw [itemsOf_eq_nil_iff, List.forall_mem_map]
        exact fun entry hentry heq => hname ⟨entry, hentry, heq⟩
      rw [hnone]
      exact hnil

/-- The classes of a variable are found under its other name. -/
theorem Constraints.getElem?_rename_eq_some_iff
    (hinj : ∀ a b, (∃ classes, constraints[a]? = some classes) →
      (∃ classes, constraints[b]? = some classes) → f a = f b → a = b)
    {name : String} {classes : List String} :
    (constraints.rename f)[name]? = some classes ↔ ∃ var, f var = name ∧
      constraints[var]? = some classes := by
  have hdistinct : (constraints.toList.map fun entry => (f entry.1, entry.2)).Pairwise
      fun a b => ¬ compare a.1 b.1 = .eq := by
    rw [List.pairwise_map]
    apply List.Pairwise.imp_of_mem _ Std.TreeMap.distinct_keys_toList
    intro a b ha hb hne heq
    have ha' := Std.TreeMap.mem_toList_iff_getElem?_eq_some.1 ha
    have hb' := Std.TreeMap.mem_toList_iff_getElem?_eq_some.1 hb
    apply hne
    rw [hinj a.1 b.1 ⟨_, ha'⟩ ⟨_, hb'⟩ (Std.LawfulEqCmp.eq_of_compare heq)]
    exact Std.ReflCmp.compare_self
  have hfound : ∀ var classes, constraints[var]? = some classes →
      (constraints.rename f)[f var]? = some classes := by
    intro var classes hclasses
    apply Std.TreeMap.getElem?_ofList_of_mem Std.ReflCmp.compare_self hdistinct
    exact List.mem_map.2 ⟨(var, classes), Std.TreeMap.mem_toList_iff_getElem?_eq_some.2 hclasses,
      rfl⟩
  constructor
  · intro h
    by_cases hname : ∃ entry ∈ constraints.toList, f entry.1 = name
    · obtain ⟨entry, hentry, rfl⟩ := hname
      have hentry' := Std.TreeMap.mem_toList_iff_getElem?_eq_some.1 hentry
      rw [hfound _ _ hentry'] at h
      obtain rfl := Option.some.inj h
      exact ⟨entry.1, rfl, hentry'⟩
    · have hnone : (constraints.rename f)[name]? = none := by
        apply Std.TreeMap.getElem?_ofList_of_contains_eq_false
        simpa using hname
      rw [hnone] at h
      cases h
  · intro ⟨var, hvar, hclasses⟩
    rw [← hvar]
    exact hfound var classes hclasses

end Keys

/-! ## Checks under other names -/

section Names

variable {f : String → String} {types : List Ty} {values : List Value} {slots : List Slot}

theorem filterMap_binding?_rename (f : String → String) (slots : List Slot) :
    (slots.map (Slot.rename f)).filterMap Slot.binding? =
      (slots.filterMap Slot.binding?).map fun entry => (f entry.1, entry.2) := by
  rw [List.filterMap_map, List.map_filterMap]
  exact congrArg (slots.filterMap ·) (funext Slot.binding?_rename)

theorem filterMap_typedBinding?_rename (f : String → String) (slots : List Slot) :
    (slots.map (Slot.rename f)).filterMap Slot.typedBinding? =
      (slots.filterMap Slot.typedBinding?).map fun entry => (f entry.1, entry.2) := by
  rw [List.filterMap_map, List.map_filterMap]
  exact congrArg (slots.filterMap ·) (funext Slot.typedBinding?_rename)

theorem inUse_of_binding {entry : String × Representative}
    (h : entry ∈ slots.filterMap Slot.binding?) :
    InUse (slots.map (·.expected)) constraints entry.1 := by
  obtain ⟨slot, hslot, hentry⟩ := List.mem_filterMap.1 h
  exact .inl ⟨slot.expected, List.mem_map_of_mem hslot, (binding?_eq_some_iff.1 hentry).1⟩

theorem inUse_of_typedBinding {entry : String × Nat × Ty}
    (h : entry ∈ slots.filterMap Slot.typedBinding?) :
    InUse (slots.map (·.expected)) constraints entry.1 := by
  obtain ⟨slot, hslot, hentry⟩ := List.mem_filterMap.1 h
  obtain ⟨binding, hbinding, rfl⟩ := Option.map_eq_some_iff.1 hentry
  exact inUse_of_binding (List.mem_filterMap.2 ⟨slot, hslot, hbinding⟩)

/-- The passes ask the same of slots under other names. -/
theorem acceptable_rename_iff
    (hinj : ∀ a b, InUse (slots.map (·.expected)) constraints a →
      InUse (slots.map (·.expected)) constraints b → f a = f b → a = b) :
    Acceptable registry (constraints.rename f) (slots.map (Slot.rename f)) ↔
      Acceptable registry constraints slots := by
  have hprimitive : (∀ slot ∈ slots.map (Slot.rename f), slot.typeMismatch? = none) ↔
      ∀ slot ∈ slots, slot.typeMismatch? = none := by
    simp only [List.forall_mem_map, Slot.typeMismatch?_rename_eq_none_iff]
  have hdeep : (∀ slot ∈ slots.map (Slot.rename f), slot.depthMismatch? = none) ↔
      ∀ slot ∈ slots, slot.depthMismatch? = none := by
    simp only [List.forall_mem_map, Slot.depthMismatch?_rename_eq_none_iff]
  have hconsistent :
      (∀ name, (itemsOf name ((slots.map (Slot.rename f)).filterMap Slot.typedBinding?)).Pairwise
        fun a b => a.2.agrees b.2 = true) ↔
      ∀ var, (itemsOf var (slots.filterMap Slot.typedBinding?)).Pairwise fun a b =>
        a.2.agrees b.2 = true := by
    rw [filterMap_typedBinding?_rename]
    apply forall_itemsOf_rename_iff .nil
    intro entry hentry other hother
    exact hinj _ _ (inUse_of_typedBinding hentry) (inUse_of_typedBinding hother)
  -- what is found under the other name of a constrained variable
  have hitems : ∀ var classes, constraints[var]? = some classes →
      itemsOf (f var) ((slots.map (Slot.rename f)).filterMap Slot.binding?) =
        itemsOf var (slots.filterMap Slot.binding?) := by
    intro var classes hclasses
    rw [filterMap_binding?_rename]
    apply itemsOf_map_key
    intro entry hentry
    exact hinj _ _ (inUse_of_binding hentry) (.inr ⟨classes, hclasses⟩)
  have hlookup : ∀ {name classes}, (constraints.rename f)[name]? = some classes ↔
      ∃ var, f var = name ∧ constraints[var]? = some classes :=
    Constraints.getElem?_rename_eq_some_iff fun a b ha hb => hinj a b (.inr ha) (.inr hb)
  constructor
  · intro h
    refine ⟨hprimitive.1 h.primitive, hdeep.1 h.deep, hconsistent.1 h.consistent, ?_⟩
    intro var classes hclasses hne className hclass
    have hmember := h.member (f var) classes (hlookup.2 ⟨var, rfl, hclasses⟩)
    rw [hitems var classes hclasses] at hmember
    exact checkClass_eq_ok_iff.2 (checkClass_eq_ok_iff.1 (hmember hne className hclass))
  · intro h
    refine ⟨hprimitive.2 h.primitive, hdeep.2 h.deep, hconsistent.2 h.consistent, ?_⟩
    intro name classes hclasses hne className hclass
    obtain ⟨var, rfl, hvar⟩ := hlookup.1 hclasses
    rw [hitems var classes hvar] at hne ⊢
    exact checkClass_eq_ok_iff.2
      (checkClass_eq_ok_iff.1 (h.member var classes hvar hne className hclass))

theorem check_rename_iff
    (hinj : ∀ a b, InUse types constraints a → InUse types constraints b → f a = f b → a = b) :
    check registry (constraints.rename f) rule (types.map (Ty.rename f)) values = .ok () ↔
      check registry constraints rule types values = .ok () := by
  have hacceptable : ∀ {slots}, inferSlots rule 0 types values = .ok slots →
      (Acceptable registry (constraints.rename f) (slots.map (Slot.rename f)) ↔
        Acceptable registry constraints slots) := by
    intro slots hslots
    have hsub : ∀ t ∈ slots.map (·.expected), t ∈ types := by
      rw [List.forall_mem_map]
      intro slot hslot
      obtain ⟨i, t, v, u, ht, _, _, rfl⟩ := (mem_inferSlots_iff hslots slot).1 hslot
      exact List.mem_of_getElem? ht
    exact acceptable_rename_iff fun a b ha hb => hinj a b (ha.mono hsub) (hb.mono hsub)
  rw [check_eq_ok_iff_acceptable, check_eq_ok_iff_acceptable, List.length_map, inferSlots_rename]
  apply and_congr_right
  intro _
  constructor
  · intro ⟨renamed, hrenamed, h⟩
    obtain ⟨slots, hslots, rfl⟩ := map_eq_ok_iff.1 hrenamed
    exact ⟨slots, hslots, (hacceptable hslots).1 h⟩
  · intro ⟨slots, hslots, h⟩
    exact ⟨_, map_eq_ok_iff.2 ⟨slots, hslots, rfl⟩, (hacceptable hslots).2 h⟩

end Names

/-! ## Main statement -/

/-- Whether a check succeeds does not depend on the order of the positions, nor on the names of
the variables in use, as long as they are kept apart. A check that succeeds goes on to succeed at
any of its positions. -/
theorem check_ignores_order_and_names (registry : Registry) (constraints : Constraints)
    (rule : ArrayRule) {types : List Ty} {values : List Value}
    (hlength : types.length = values.length) :
    (∀ positions : List Nat, positions.Perm (List.range types.length) → ∀ f : String → String,
        (∀ a b, InUse types constraints a → InUse types constraints b → f a = f b → a = b) →
        (check registry (constraints.rename f) rule ((itemsAt positions types).map (Ty.rename f))
            (itemsAt positions values) = .ok () ↔
          check registry constraints rule types values = .ok ())) ∧
      (check registry constraints rule types values = .ok () →
        ∀ positions : List Nat, (∀ i ∈ positions, i < types.length) →
          check registry constraints rule (itemsAt positions types) (itemsAt positions values) =
            .ok ()) := by
  constructor
  · intro positions hpositions f hinj
    have hsub : ∀ t ∈ itemsAt positions types, t ∈ types := by
      intro t ht
      obtain ⟨i, _, hi⟩ := List.mem_filterMap.1 ht
      exact List.mem_of_getElem? hi
    rw [check_rename_iff fun a b ha hb => hinj a b (ha.mono hsub) (hb.mono hsub)]
    exact check_itemsAt_iff hlength hpositions
  · intro hcheck positions hpositions
    exact check_itemsAt hlength hpositions hcheck

/-- Two variables that trade names as their positions trade places. -/
theorem check_ignores_order_and_names_sample :
    let registry : Registry := ⟨.insert ∅ "Eq" .any⟩
    let constraints : Constraints := .insert ∅ "a" ["Eq"]
    let types : List Ty := [⟨.var "a", 0⟩, ⟨.var "b", 1⟩]
    let values : List Value := [.string "x", .array [.null]]
    let f := fun name => if name = "a" then "b" else "a"
    types.length = values.length ∧ [1, 0].Perm (List.range types.length) ∧
      (∀ a b, InUse types constraints a → InUse types constraints b → f a = f b → a = b) ∧
      check registry constraints .reject types values = .ok () ∧
      check registry (constraints.rename f) .reject [⟨.var "a", 1⟩, ⟨.var "b", 0⟩]
        [.array [.null], .string "x"] = .ok () ∧
      check registry constraints .reject [⟨.var "b", 1⟩] [.array [.null]] = .ok () := by
  intro registry constraints types values f
  have hlength : types.length = values.length := rfl
  have hpositions : [1, 0].Perm (List.range types.length) := by decide
  have hnames : ∀ a, InUse types constraints a → a = "a" ∨ a = "b" := by
    intro a ha
    rcases ha with ⟨t, ht, hvar⟩ | ⟨classes, hclasses⟩
    · rcases List.mem_cons.1 ht with rfl | ht
      · exact .inl (Option.some.inj hvar).symm
      · obtain rfl := List.mem_singleton.1 ht
        exact .inr (Option.some.inj hvar).symm
    · by_cases hkey : "a" = a
      · exact .inl hkey.symm
      · simp [constraints, hkey] at hclasses
  have hinj : ∀ a b, InUse types constraints a → InUse types constraints b → f a = f b → a = b := by
    intro a b ha hb
    rcases hnames a ha with rfl | rfl <;> rcases hnames b hb with rfl | rfl <;> decide
  have hcheck : check registry constraints .reject types values = .ok () := rfl
  obtain ⟨hiff, hfewer⟩ := check_ignores_order_and_names registry constraints .reject hlength
  exact ⟨hlength, hpositions, hinj, hcheck, (hiff [1, 0] hpositions f hinj).2 hcheck,
    hfewer hcheck [1] (by decide)⟩

end Covenant
