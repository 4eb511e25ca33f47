import Covenant.Proofs.Checking

/-!
# Where a pass stops

A pass goes through a list and stops at the first item that is wrong. The lists are in order:
slots and representatives by position, variables by name. The first item that is wrong is
therefore the least one, and what a pass reports can be said without the list that it went
through. Each lemma is an equivalence, so that it also tells that the report is made.
-/

namespace Covenant

variable {rule : ArrayRule} {registry : Registry} {constraints : Constraints}

/-! ## Lists in order -/

/-- In a list in order, the items before an item are those that are less. -/
theorem first_iff_least {α : Type} {xs : List α} {lt : α → α → Prop}
    (hasymm : ∀ a b, lt a b → ¬lt b a) (hsorted : xs.Pairwise lt) {x : α} {Passes : α → Prop} :
    (∃ before after, xs = before ++ x :: after ∧ ∀ y ∈ before, Passes y) ↔
      x ∈ xs ∧ ∀ y ∈ xs, lt y x → Passes y := by
  constructor
  · rintro ⟨before, after, rfl, hbefore⟩
    refine ⟨by simp, ?_⟩
    intro y hy hlt
    have ⟨_, hafter, _⟩ := List.pairwise_append.1 hsorted
    rcases List.mem_append.1 hy with hy | hy
    · exact hbefore y hy
    · rcases List.mem_cons.1 hy with rfl | hy
      · exact absurd hlt (hasymm y y hlt)
      · exact absurd hlt (hasymm x y (List.rel_of_pairwise_cons hafter hy))
  · rintro ⟨hx, hleast⟩
    obtain ⟨before, after, rfl⟩ := List.append_of_mem hx
    have ⟨_, _, hacross⟩ := List.pairwise_append.1 hsorted
    refine ⟨before, after, rfl, ?_⟩
    intro y hy
    exact hleast y (by simp [hy]) (hacross y hy x List.mem_cons_self)

/-- So the first item at which a pass stops is the least one. -/
theorem exists_first_iff_least {α : Type} {xs : List α} {lt : α → α → Prop}
    (hasymm : ∀ a b, lt a b → ¬lt b a) (hsorted : xs.Pairwise lt) {Stops Passes : α → Prop} :
    (∃ before x after, xs = before ++ x :: after ∧ (∀ y ∈ before, Passes y) ∧ Stops x) ↔
      ∃ x ∈ xs, Stops x ∧ ∀ y ∈ xs, lt y x → Passes y := by
  constructor
  · rintro ⟨before, x, after, hxs, hbefore, hstops⟩
    have ⟨hx, hleast⟩ := (first_iff_least hasymm hsorted).1 ⟨before, after, hxs, hbefore⟩
    exact ⟨x, hx, hstops, hleast⟩
  · rintro ⟨x, hx, hstops, hleast⟩
    obtain ⟨before, after, hxs, hbefore⟩ := (first_iff_least hasymm hsorted).2 ⟨hx, hleast⟩
    exact ⟨before, x, after, hxs, hbefore, hstops⟩

theorem rel_or_eq_or_rel {α : Type} {xs : List α} {R : α → α → Prop} (h : xs.Pairwise R) {a b : α}
    (ha : a ∈ xs) (hb : b ∈ xs) : R a b ∨ a = b ∨ R b a := by
  obtain ⟨before, after, rfl⟩ := List.append_of_mem hb
  have ⟨_, hafter, hacross⟩ := List.pairwise_append.1 h
  rcases List.mem_append.1 ha with ha | ha
  · exact .inl (hacross a ha b List.mem_cons_self)
  · rcases List.mem_cons.1 ha with rfl | ha
    · exact .inr (.inl rfl)
    · exact .inr (.inr (List.rel_of_pairwise_cons hafter ha))

theorem pairwise_key_toList {β : Type} (map : Std.TreeMap String β) :
    map.toList.Pairwise fun a b => a.1 < b.1 := by
  refine List.Pairwise.imp ?_ map.ordered_keys_toList
  intro a b h
  exact compareOfLessAndEq_eq_lt.1 h

theorem pairwise_position_inferSlots {position : Nat} {types : List Ty} {values : List Value}
    {slots : List Slot} (h : inferSlots rule position types values = .ok slots) :
    slots.Pairwise fun a b => a.position < b.position := by
  induction types generalizing position values slots with
  | nil =>
      rw [inferSlots] at h
      · cases h
        exact .nil
      · simp
  | cons t types ih =>
      cases values with
      | nil =>
          rw [inferSlots] at h
          · cases h
            exact .nil
          · simp
      | cons v values =>
          rw [inferSlots, bind_eq_ok_iff] at h
          obtain ⟨u, -, h⟩ := h
          obtain ⟨rest, hrest, h⟩ := bind_eq_ok_iff.1 h
          cases h
          refine .cons ?_ (ih hrest)
          intro slot hslot
          obtain ⟨i, _, _, _, -, -, -, rfl⟩ := (mem_inferSlots_iff hrest slot).1 hslot
          simp only
          omega

/-- What slots yield for a variable is in the order of their positions. -/
theorem pairwise_position_itemsOf {β : Type} {slots : List Slot}
    (hsorted : slots.Pairwise fun a b => a.position < b.position)
    {yield : Slot → Option (String × β)}
    {place : β → Nat}
    (hplace : ∀ slot entry, yield slot = some entry → place entry.2 = slot.position)
    (var : String) :
    (itemsOf var (slots.filterMap yield)).Pairwise fun a b => place a < place b := by
  have hentries : (slots.filterMap yield).Pairwise fun a b => place a.2 < place b.2 := by
    refine hsorted.filterMap yield ?_
    intro slot slot' hlt entry hentry entry' hentry'
    rw [hplace slot entry hentry, hplace slot' entry' hentry']
    exact hlt
  exact List.pairwise_map.2 (hentries.filter _)

theorem pairwise_position_bindings {slots : List Slot}
    (hsorted : slots.Pairwise fun a b => a.position < b.position) (var : String) :
    (itemsOf var (slots.filterMap Slot.binding?)).Pairwise fun a b => a.position < b.position :=
  pairwise_position_itemsOf hsorted (fun _ _ h => (binding?_eq_some_iff.1 h).2.2) var

theorem pairwise_position_typedBindings {slots : List Slot}
    (hsorted : slots.Pairwise fun a b => a.position < b.position) (var : String) :
    (itemsOf var (slots.filterMap Slot.typedBinding?)).Pairwise fun a b => a.1 < b.1 := by
  refine pairwise_position_itemsOf hsorted ?_ var
  intro slot entry hentry
  obtain ⟨⟨var', r⟩, hr, rfl⟩ := Option.map_eq_some_iff.1 hentry
  exact (binding?_eq_some_iff.1 hr).2.2

/-! ## Passes over slots -/

/-- The first value without a type is reported, with the reason why it has none. -/
theorem inferSlots_eq_error_iff {position : Nat} {types : List Ty} {values : List Value}
    {e : Violation} (hlength : types.length = values.length) :
    inferSlots rule position types values = .error e ↔
      ∃ i v array, values[i]? = some v ∧ v.infer rule = .error array ∧
        (∀ j < i, ∀ w, values[j]? = some w → ∃ u, w.infer rule = .ok u) ∧
        e = .mixedArray (position + i) array := by
  induction types generalizing position values with
  | nil =>
      obtain rfl := List.length_eq_zero_iff.1 hlength.symm
      simp [inferSlots]
  | cons t types ih =>
      cases values with
      | nil => simp at hlength
      | cons v values =>
          have htail : types.length = values.length := by simpa using hlength
          rw [inferSlots, bind_eq_error_iff, mapError_eq_error_iff]
          constructor
          · rintro (⟨array, harray, rfl⟩ | ⟨u, hu, h⟩)
            · exact ⟨0, v, array, rfl, harray, by simp, rfl⟩
            · rcases bind_eq_error_iff.1 h with h | ⟨_, _, h⟩
              · obtain ⟨i, w, array, hw, harray, hbefore, rfl⟩ := (ih htail).1 h
                refine ⟨i + 1, w, array, hw, harray, ?_, by rw [Nat.add_right_comm, Nat.add_assoc]⟩
                intro j hj x hx
                cases j with
                | zero =>
                    cases hx
                    exact ⟨u, mapError_eq_ok_iff.1 hu⟩
                | succ j => exact hbefore j (by omega) x hx
              · cases h
          · rintro ⟨i, w, array, hw, harray, hbefore, rfl⟩
            cases i with
            | zero =>
                cases hw
                exact .inl ⟨array, harray, rfl⟩
            | succ i =>
                obtain ⟨u, hu⟩ := hbefore 0 (by omega) v rfl
                have htyped : ∀ j < i, ∀ x, values[j]? = some x → ∃ u, x.infer rule = .ok u :=
                  fun j hj x hx => hbefore (j + 1) (by omega) x hx
                refine .inr ⟨u, mapError_eq_ok_iff.2 hu, bind_eq_error_iff.2 (.inl ?_)⟩
                rw [ih htail]
                exact ⟨i, w, array, hw, harray, htyped, by rw [Nat.add_right_comm, Nat.add_assoc]⟩

/-- Of the violations at slots, the one at the least position is found. -/
theorem findSome?_eq_some_iff_least {slots : List Slot}
    (hsorted : slots.Pairwise fun a b => a.position < b.position) {fault : Slot → Option Violation}
    {e : Violation} :
    slots.findSome? fault = some e ↔
      ∃ slot ∈ slots, fault slot = some e ∧
        ∀ other ∈ slots, other.position < slot.position → fault other = none := by
  rw [List.findSome?_eq_some_iff, ← exists_first_iff_least (fun _ _ => Nat.lt_asymm) hsorted]
  simp only [and_comm]

theorem checkPrimitives_eq_error_iff {slots : List Slot} {e : Violation} :
    checkPrimitives slots = .error e ↔ slots.findSome? Slot.typeMismatch? = some e := by
  rw [checkPrimitives]
  cases slots.findSome? Slot.typeMismatch? <;> simp

/-! ## Consistency -/

theorem eq_of_position_eq {typed : List (Nat × Ty)} (hsorted : typed.Pairwise fun a b => a.1 < b.1)
    {a b : Nat × Ty} (ha : a ∈ typed) (hb : b ∈ typed) (h : a.1 = b.1) : a = b := by
  rcases rel_or_eq_or_rel hsorted ha hb with hlt | heq | hlt
  · omega
  · exact heq
  · omega

/-- Of the items in order that have a property, the one with the least position is found. -/
theorem position_le_of_find? {typed : List (Nat × Ty)}
    (hsorted : typed.Pairwise fun a b => a.1 < b.1) {p : Nat × Ty → Bool} {a b : Nat × Ty}
    (h : typed.find? p = some a) (hb : b ∈ typed) (hp : p b = true) :
    a.1 ≤ b.1 := by
  obtain ⟨-, before, after, rfl, hbefore⟩ := List.find?_eq_some_iff_append.1 h
  rcases List.mem_append.1 hb with hb | hb
  · simpa [hp] using hbefore b hb
  · rcases List.mem_cons.1 hb with rfl | hb
    · exact Nat.le_refl _
    · have ⟨_, hafter, _⟩ := List.pairwise_append.1 hsorted
      exact Nat.le_of_lt (List.rel_of_pairwise_cons hafter hb)

/-- The second position of a pair is not the first one of all. -/
theorem mem_tail_of_position_lt {x a b : Nat × Ty} {rest : List (Nat × Ty)}
    (hsorted : (x :: rest).Pairwise fun a b => a.1 < b.1) (ha : a ∈ x :: rest) (hb : b ∈ x :: rest)
    (hlt : a.1 < b.1) : b ∈ rest := by
  rcases List.mem_cons.1 hb with rfl | hb
  · rcases List.mem_cons.1 ha with rfl | ha
    · exact absurd hlt (Nat.lt_irrefl _)
    · exact absurd hlt (Nat.lt_asymm (List.rel_of_pairwise_cons hsorted ha))
  · exact hb

/-- The pair that is found clashes, and it is the least one: a pair with an earlier first position
does not clash, nor one with the same first position and an earlier second one. -/
theorem least_of_firstClash? {typed : List (Nat × Ty)}
    (hsorted : typed.Pairwise fun a b => a.1 < b.1) {a b : Nat × Ty}
    (h : firstClash? typed = some (a, b)) :
    (a ∈ typed ∧ b ∈ typed ∧ a.1 < b.1 ∧ a.2.agrees b.2 = false) ∧
      ∀ a' ∈ typed, ∀ b' ∈ typed, a'.1 < b'.1 → a'.2.agrees b'.2 = false →
        a.1 < a'.1 ∨ a.1 = a'.1 ∧ b.1 ≤ b'.1 := by
  induction typed with
  | nil => simp [firstClash?] at h
  | cons x rest ih =>
      obtain ⟨hx, hrest⟩ := List.pairwise_cons.1 hsorted
      rw [firstClash?] at h
      cases hfound : rest.find? fun b => !x.2.agrees b.2 with
      | some c =>
          simp only [hfound, Option.some.injEq, Prod.mk.injEq] at h
          obtain ⟨rfl, rfl⟩ := h
          have hc := List.mem_of_find?_eq_some hfound
          refine ⟨⟨List.mem_cons_self, List.mem_cons_of_mem _ hc, hx c hc, ?_⟩, ?_⟩
          · simpa using List.find?_some hfound
          · intro a' ha' b' hb' hlt hclash
            have hlater := mem_tail_of_position_lt hsorted ha' hb' hlt
            rcases List.mem_cons.1 ha' with rfl | ha'
            · exact .inr ⟨rfl, position_le_of_find? hrest hfound hlater (by simp [hclash])⟩
            · exact .inl (hx a' ha')
      | none =>
          simp only [hfound] at h
          obtain ⟨⟨ha, hb, hlt, hclash⟩, hleast⟩ := ih hrest h
          refine ⟨⟨List.mem_cons_of_mem x ha, List.mem_cons_of_mem x hb, hlt, hclash⟩, ?_⟩
          intro a' ha' b' hb' hlt' hclash'
          have hlater := mem_tail_of_position_lt hsorted ha' hb' hlt'
          rcases List.mem_cons.1 ha' with rfl | ha'
          · simp only [List.find?_eq_none, Bool.not_eq_true, Bool.not_eq_false'] at hfound
            simp [hfound b' hlater] at hclash'
          · exact hleast a' ha' b' hlater hlt' hclash'

/-- Nothing is found if no two positions clash. -/
theorem firstClash?_eq_none_iff_of_sorted {typed : List (Nat × Ty)}
    (hsorted : typed.Pairwise fun a b => a.1 < b.1) :
    firstClash? typed = none ↔ ∀ a ∈ typed, ∀ b ∈ typed, a.1 < b.1 → a.2.agrees b.2 = true := by
  constructor
  · intro h a ha b hb hlt
    have hboth := hsorted.and (firstClash?_eq_none_iff.1 h)
    rcases rel_or_eq_or_rel hboth ha hb with ⟨-, hagrees⟩ | rfl | ⟨hgt, -⟩
    · exact hagrees
    · exact absurd hlt (Nat.lt_irrefl _)
    · exact absurd hlt (Nat.lt_asymm hgt)
  · intro h
    cases hfound : firstClash? typed with
    | none => rfl
    | some clash =>
        have ⟨⟨ha, hb, hlt, hclash⟩, _⟩ := least_of_firstClash? hsorted hfound
        simp [h _ ha _ hb hlt] at hclash

/-- Of the pairs of positions that clash, the one with the least first position is found, and of
those the one with the least second position. -/
theorem firstClash?_eq_some_iff {typed : List (Nat × Ty)}
    (hsorted : typed.Pairwise fun a b => a.1 < b.1) {a b : Nat × Ty} :
    firstClash? typed = some (a, b) ↔
      (a ∈ typed ∧ b ∈ typed ∧ a.1 < b.1 ∧ a.2.agrees b.2 = false) ∧
        ∀ a' ∈ typed, ∀ b' ∈ typed, a'.1 < b'.1 → a'.2.agrees b'.2 = false →
          a.1 < a'.1 ∨ a.1 = a'.1 ∧ b.1 ≤ b'.1 := by
  refine ⟨least_of_firstClash? hsorted, ?_⟩
  rintro ⟨⟨ha, hb, hlt, hclash⟩, hleast⟩
  cases hfound : firstClash? typed with
  | none =>
      have hagrees := (firstClash?_eq_none_iff_of_sorted hsorted).1 hfound a ha b hb hlt
      simp [hagrees] at hclash
  | some found =>
      obtain ⟨a', b'⟩ := found
      have ⟨⟨ha', hb', hlt', hclash'⟩, hleast'⟩ := least_of_firstClash? hsorted hfound
      have h₁ := hleast a' ha' b' hb' hlt' hclash'
      have h₂ := hleast' a ha b hb hlt hclash
      rw [eq_of_position_eq hsorted ha' ha (by omega), eq_of_position_eq hsorted hb' hb (by omega)]

theorem checkVariable_eq_ok_iff {slots : List Slot} (htyped : ∀ slot ∈ slots, slot.Typed rule)
    (hdeep : ∀ slot ∈ slots, slot.depthMismatch? = none) (var : String) :
    checkVariable rule var (itemsOf var (slots.filterMap Slot.binding?)) = .ok () ↔
      firstClash? (itemsOf var (slots.filterMap Slot.typedBinding?)) = none := by
  rw [checkVariable_eq htyped hdeep]
  cases firstClash? (itemsOf var (slots.filterMap Slot.typedBinding?)) <;> simp

/-- Of the inconsistent variables, the one with the least name is reported. -/
theorem checkVariables_eq_error_iff {slots : List Slot} (htyped : ∀ slot ∈ slots, slot.Typed rule)
    (hdeep : ∀ slot ∈ slots, slot.depthMismatch? = none) {e : Violation} :
    checkVariables rule (groupByKey (slots.filterMap Slot.binding?)) = .error e ↔
      ∃ var a b, firstClash? (itemsOf var (slots.filterMap Slot.typedBinding?)) = some (a, b) ∧
        (∀ var' < var, firstClash? (itemsOf var' (slots.filterMap Slot.typedBinding?)) = none) ∧
        e = .inconsistent var a.2 a.1 b.2 b.1 := by
  have hpass := checkVariable_eq_ok_iff htyped hdeep
  -- a variable without representatives is not gone through, and has nothing to report
  have hunbound : ∀ var, itemsOf var (slots.filterMap Slot.binding?) = [] →
      firstClash? (itemsOf var (slots.filterMap Slot.typedBinding?)) = none := by
    intro var h
    rw [← hpass, h]
    rfl
  rw [checkVariables, forM_eq_error_iff,
    exists_first_iff_least (fun _ _ => String.lt_asymm) (pairwise_key_toList _)]
  constructor
  · rintro ⟨⟨var, values⟩, hmem, hstop, hbefore⟩
    obtain ⟨rfl, -⟩ := mem_toList_groupByKey.1 hmem
    simp only [checkVariable_eq htyped hdeep] at hstop
    cases hclash : firstClash? (itemsOf var (slots.filterMap Slot.typedBinding?)) with
    | none => simp [hclash] at hstop
    | some clash =>
        rw [hclash] at hstop
        refine ⟨var, clash.1, clash.2, hclash, ?_, (Except.error.inj hstop).symm⟩
        intro var' hlt
        by_cases hnone : itemsOf var' (slots.filterMap Slot.binding?) = []
        · exact hunbound var' hnone
        · exact (hpass var').1 (hbefore (var', _) (mem_toList_groupByKey.2 ⟨rfl, hnone⟩) hlt)
  · rintro ⟨var, a, b, hclash, hbefore, rfl⟩
    have hbound : itemsOf var (slots.filterMap Slot.binding?) ≠ [] := by
      intro hnone
      simp [hunbound var hnone] at hclash
    refine ⟨(var, _), mem_toList_groupByKey.2 ⟨rfl, hbound⟩, ?_, ?_⟩
    · simp only [checkVariable_eq htyped hdeep, hclash, Option.elim_some]
    · rintro ⟨var', values⟩ hmem hlt
      obtain ⟨rfl, -⟩ := mem_toList_groupByKey.1 hmem
      exact (hpass var').2 (hbefore var' hlt)

/-! ## Classes -/

/-- A class that is not registered is reported as such, and one that is registered is reported at
the least position of a value that it does not accept. -/
theorem checkClass_eq_error_iff {var className : String} {values : List Representative}
    (hsorted : values.Pairwise fun a b => a.position < b.position) {e : Violation} :
    checkClass registry var values className = .error e ↔
      registry.get? className = none ∧ e = .unknownClass className var ∨
        ∃ c, registry.get? className = some c ∧ ∃ r ∈ values, c.accepts r.value = false ∧
          (∀ other ∈ values, other.position < r.position → c.accepts other.value = true) ∧
          e = .unmetConstraint className var r.position := by
  rw [checkClass]
  cases registry.get? className with
  | none =>
      simp only [Except.error.injEq, true_and, reduceCtorEq, false_and, exists_false, or_false]
      exact eq_comm
  | some c =>
      simp only [reduceCtorEq, false_and, false_or, Option.some.injEq, exists_eq_left']
      have hleast : ∀ r, values.find? (fun r => !c.accepts r.value) = some r ↔
          c.accepts r.value = false ∧ r ∈ values ∧
            ∀ other ∈ values, other.position < r.position → c.accepts other.value = true := by
        intro r
        rw [List.find?_eq_some_iff_append, first_iff_least (fun _ _ => Nat.lt_asymm) hsorted]
        simp
      constructor
      · intro h
        cases hfound : values.find? fun r => !c.accepts r.value with
        | none => simp [hfound] at h
        | some r =>
            obtain ⟨hrefused, hr, hbefore⟩ := (hleast r).1 hfound
            simp only [hfound, Except.error.injEq] at h
            exact ⟨r, hr, hrefused, hbefore, h.symm⟩
      · rintro ⟨r, hr, hrefused, hbefore, rfl⟩
        rw [(hleast r).2 ⟨hrefused, hr, hbefore⟩]

/-- Of the variables that are not in one of their classes, the one with the least name is
reported, with the first such class in the order in which they were declared. -/
theorem checkMembership_eq_error_iff {entries : List (String × Representative)} {e : Violation} :
    checkMembership registry constraints (groupByKey entries) = .error e ↔
      ∃ var before className after, constraints[var]? = some (before ++ className :: after) ∧
        itemsOf var entries ≠ [] ∧
        (∀ var' < var, ∀ classes, constraints[var']? = some classes → itemsOf var' entries ≠ [] →
          ∀ other ∈ classes, checkClass registry var' (itemsOf var' entries) other = .ok ()) ∧
        (∀ other ∈ before, checkClass registry var (itemsOf var entries) other = .ok ()) ∧
        checkClass registry var (itemsOf var entries) className = .error e := by
  rw [checkMembership, forM_eq_error_iff,
    exists_first_iff_least (fun _ _ => String.lt_asymm) (pairwise_key_toList _)]
  simp only [Prod.exists, Prod.forall, Std.TreeMap.mem_toList_iff_getElem?_eq_some,
    getElem?_groupByKey]
  constructor
  · rintro ⟨var, classes, hclasses, hstop, hless⟩
    by_cases hnone : itemsOf var entries = []
    · simp [hnone] at hstop
    · simp only [if_neg hnone] at hstop
      obtain ⟨before, className, after, rfl, hbefore, hclass⟩ := forM_eq_error_iff.1 hstop
      refine ⟨var, before, className, after, hclasses, hnone, ?_, hbefore, hclass⟩
      intro var' hlt classes' hclasses' hbound
      have hpass := hless var' classes' hclasses' hlt
      simp only [if_neg hbound] at hpass
      exact forM_eq_ok_iff.1 hpass
  · rintro ⟨var, before, className, after, hclasses, hbound, hless, hbefore, hclass⟩
    refine ⟨var, _, hclasses, ?_, ?_⟩
    · simp only [if_neg hbound]
      exact forM_eq_error_iff.2 ⟨before, className, after, rfl, hbefore, hclass⟩
    · intro var' classes' hclasses' hlt
      by_cases hnone : itemsOf var' entries = []
      · simp [hnone]
      · simp only [if_neg hnone]
        exact forM_eq_ok_iff.2 (hless var' hlt classes' hclasses' hnone)

/-! ## All passes -/

/-- A pass reports what it finds if the passes before it found nothing. -/
theorem checkSlots_eq_error_iff {slots : List Slot} (htyped : ∀ slot ∈ slots, slot.Typed rule)
    {e : Violation} :
    checkSlots registry constraints rule slots = .error e ↔
      slots.findSome? Slot.typeMismatch? = some e ∨ (∀ slot ∈ slots, slot.typeMismatch? = none) ∧
        (slots.findSome? Slot.depthMismatch? = some e ∨
          (∀ slot ∈ slots, slot.depthMismatch? = none) ∧
          (checkVariables rule (groupByKey (slots.filterMap Slot.binding?)) = .error e ∨
            (∀ var, firstClash? (itemsOf var (slots.filterMap Slot.typedBinding?)) = none) ∧
              checkMembership registry constraints (groupByKey (slots.filterMap Slot.binding?)) =
                .error e)) := by
  simp only [checkSlots, bind_unit_eq_error_iff, checkPrimitives_eq_error_iff,
    checkPrimitives_eq_ok_iff, representatives_eq htyped]
  refine or_congr Iff.rfl (and_congr_right fun _ => ?_)
  rw [bind_eq_error_iff]
  cases hshallow : slots.findSome? Slot.depthMismatch? with
  | some e' =>
      have hsome : ¬∀ slot ∈ slots, slot.depthMismatch? = none := by
        rw [← List.findSome?_eq_none_iff, hshallow]
        simp
      simp [hsome]
  | none =>
      have hdeep := List.findSome?_eq_none_iff.1 hshallow
      simp only [Option.elim_none, reduceCtorEq, Except.ok.injEq, exists_eq_left', false_or,
        bind_unit_eq_error_iff, checkVariables_eq_ok_iff htyped hdeep, ← firstClash?_eq_none_iff]
      exact (and_iff_right hdeep).symm

end Covenant
