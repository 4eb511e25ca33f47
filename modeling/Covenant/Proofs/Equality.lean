import Mathlib.Data.List.Forall2
import Covenant.Class.Stock
import Covenant.Proofs.FirstFaults

/-!
# Equal values are interchangeable

Equality of values is not identity: a function is equal to every function of the same identity,
zero is equal to minus zero, and arrays and objects are equal part by part. Nothing that a check
looks at tells equal values apart. They have the same type or fail to have one for the same
reason, going down first elements ends alike in both, and they have the same keys. So a check on
equal values has the same outcome, down to the fields of the violation, as long as the tests among
the classes keep to equality.
-/

namespace Covenant

variable {rule : ArrayRule} {registry : Registry} {constraints : Constraints}

/-! ## What is seen of equal values -/

namespace Value

theorem equalItems_eq_true_iff {vs ws : List Value} :
    equalItems vs ws = true ↔ List.Forall₂ (fun v w : Value => (v == w) = true) vs ws := by
  induction vs generalizing ws with
  | nil => cases ws <;> simp [equalItems]
  | cons v vs ih =>
      cases ws with
      | nil => simp [equalItems]
      | cons w ws =>
          rw [equalItems, Bool.and_eq_true, ih, List.forall₂_cons]
          exact Iff.rfl

/-- A value is equal to an array if it is an array of equal elements. -/
theorem array_beq_iff {vs : List Value} {w : Value} :
    (Value.array vs == w) = true ↔
      ∃ ws, w = .array ws ∧ List.Forall₂ (fun v w : Value => (v == w) = true) vs ws := by
  change equals (.array vs) w = true ↔ _
  cases w with
  | array ws => simp [equals, equalItems_eq_true_iff]
  | _ => simp [equals]

theorem items?_eq_none_of_beq {v w : Value} (hv : v.items? = none)
    (h : (v == w) = true) : w.items? = none := by
  change equals v w = true at h
  cases v <;> cases w <;> simp_all [equals, items?]

theorem kind?_eq_of_beq {v w : Value} (h : (v == w) = true) : v.kind? = w.kind? := by
  change equals v w = true at h
  cases v <;> cases w <;> simp_all [equals, kind?]

theorem inferRest_eq_of_forall₂ {vs ws : List Value}
    (h : List.Forall₂ (fun v w : Value => v.infer rule = w.infer rule) vs ws) (element : Ty)
    (index : Nat) :
    inferRest rule element index vs = inferRest rule element index ws := by
  induction h generalizing index with
  | nil => rfl
  | cons hvw _ ih => rw [inferRest, inferRest, hvw, ih]

/-- The type of an array is made from what inference says of its elements. -/
theorem infer_array_eq_of_forall₂ {vs ws : List Value}
    (h : List.Forall₂ (fun v w : Value => v.infer rule = w.infer rule) vs ws) :
    (Value.array vs).infer rule = (Value.array ws).infer rule := by
  cases h with
  | nil => rfl
  | cons hvw hrest =>
      rw [infer_array_cons, infer_array_cons, hvw]
      exact congrArg _ (funext fun element => inferRest_eq_of_forall₂ hrest element 1)

/-- Equal values have the same type, or fail to have one for the same reason. -/
theorem infer_eq_of_beq {v w : Value} (h : (v == w) = true) : v.infer rule = w.infer rule := by
  induction v using Value.induction_on_arrays generalizing w with
  | scalar v hv => exact infer_eq_of_kind?_eq hv (items?_eq_none_of_beq hv h) (kind?_eq_of_beq h)
  | array vs ih =>
      obtain ⟨ws, rfl, hitems⟩ := array_beq_iff.1 h
      have hboth := (List.forall₂_and_left vs ws).2 ⟨fun v hv w => @ih v hv w, hitems⟩
      exact infer_array_eq_of_forall₂ (hboth.imp fun v w hvw => hvw.1 w hvw.2)

theorem any_key_eq_of_equalFields {fs gs : List (String × Value)} (h : equalFields fs gs = true)
    (key : String) :
    fs.any (·.1 == key) = gs.any (·.1 == key) := by
  induction fs generalizing gs with
  | nil =>
      cases gs with
      | nil => rfl
      | cons g gs => simp [equalFields] at h
  | cons f fs ih =>
      cases gs with
      | nil => simp [equalFields] at h
      | cons g gs =>
          simp only [equalFields, Bool.and_eq_true, beq_iff_eq] at h
          rw [List.any_cons, List.any_cons, h.1.1, ih h.2]

theorem hasKey_eq_of_beq {v w : Value} (h : (v == w) = true) (key : String) :
    v.hasKey key = w.hasKey key := by
  change equals v w = true at h
  cases v with
  | object fs =>
      cases w with
      | object gs => exact any_key_eq_of_equalFields (by simpa [equals] using h) key
      | _ => simp [equals] at h
  | _ => cases w <;> simp_all [equals, hasKey]

end Value

/-- Two descents that end alike, at equal values if they reach one. -/
inductive Descent.Alike : Descent → Descent → Prop where
  | reached {v w : Value} (h : (v == w) = true) : Alike (.reached v) (.reached w)
  | empty : Alike .empty .empty
  | blocked : Alike .blocked .blocked

theorem descend_alike (depth : Nat) {v w : Value} (h : (v == w) = true) :
    (descend depth v).Alike (descend depth w) := by
  induction depth generalizing v w with
  | zero => simpa [descend] using .reached h
  | succ depth ih =>
      cases hv : v.items? with
      | none =>
          have hblocked : ∀ x : Value, x.items? = none → descend (depth + 1) x = .blocked := by
            intro x hx
            cases x <;> simp_all [descend, Value.items?]
          rw [hblocked v hv, hblocked w (Value.items?_eq_none_of_beq hv h)]
          exact .blocked
      | some vs =>
          obtain rfl := Value.eq_array_of_items? hv
          obtain ⟨ws, rfl, hitems⟩ := Value.array_beq_iff.1 h
          cases hitems with
          | nil => simpa [descend] using .empty
          | cons hvw _ =>
              rw [descend, descend]
              exact ih hvw

/-! ## Classes -/

/-- A class does not tell equal values apart. This is asked of tests; keys never tell equal values
apart. -/
def Class.RespectsEquality : Class → Prop
  | .predicate test => ∀ v w : Value, (v == w) = true → test v = test w
  | .shape _ => True

theorem Class.accepts_shape_eq (keys : List String) {v w : Value} (h : (v == w) = true) :
    (Class.shape keys).accepts v = (Class.shape keys).accepts w := by
  simp only [Class.accepts, Value.hasKey_eq_of_beq h]

theorem Class.RespectsEquality.accepts_eq {c : Class} (hc : c.RespectsEquality) {v w : Value}
    (h : (v == w) = true) : c.accepts v = c.accepts w := by
  cases c with
  | predicate test => exact hc v w h
  | shape keys => exact Class.accepts_shape_eq keys h

/-! ## Representatives -/

/-- Two representatives of the same position with equal values. -/
structure Representative.Alike (r r' : Representative) : Prop where
  position_eq : r.position = r'.position
  value_eq : (r.value == r'.value) = true

/-- A class that respects equality is passed or failed alike, and failed at the same position. -/
theorem checkClass_eq_of_alike
    (hclasses : ∀ name c, registry.get? name = some c → c.RespectsEquality)
    {values values' : List Representative} (h : List.Forall₂ Representative.Alike values values')
    (var className : String) :
    checkClass registry var values className = checkClass registry var values' className := by
  rw [checkClass, checkClass]
  cases hget : registry.get? className with
  | none => rfl
  | some c =>
      induction h with
      | nil => rfl
      | @cons r r' rs rs' hr _ ih =>
          have haccepts := (hclasses className c hget).accepts_eq hr.value_eq
          simp only [List.find?_cons, haccepts]
          cases c.accepts r'.value with
          | false => simp [hr.position_eq]
          | true => simpa using ih

theorem forall₂_itemsOf {α : Type} {R : α → α → Prop} {xs ys : List (String × α)}
    (h : List.Forall₂ (fun x y => x.1 = y.1 ∧ R x.2 y.2) xs ys) (key : String) :
    List.Forall₂ R (itemsOf key xs) (itemsOf key ys) := by
  induction h with
  | nil => exact .nil
  | cons hxy _ ih =>
      rw [itemsOf_cons, itemsOf_cons, hxy.1]
      split
      · exact .cons hxy.2 ih
      · exact ih

/-- The classes of all variables are passed or failed alike. -/
theorem checkMembership_eq_of_alike
    (hclasses : ∀ name c, registry.get? name = some c → c.RespectsEquality)
    {entries entries' : List (String × Representative)}
    (h : List.Forall₂ (fun x y => x.1 = y.1 ∧ x.2.Alike y.2) entries entries') :
    checkMembership registry constraints (groupByKey entries) =
      checkMembership registry constraints (groupByKey entries') := by
  refine forM_congr ?_
  intro entry _
  have hitems := forall₂_itemsOf h entry.1
  simp only [getElem?_groupByKey]
  generalize itemsOf entry.1 entries = values, itemsOf entry.1 entries' = values' at hitems ⊢
  cases hitems with
  | nil => rfl
  | cons hr hrest =>
      simp only [reduceCtorEq, if_false]
      exact forM_congr fun className _ =>
        checkClass_eq_of_alike hclasses (.cons hr hrest) entry.1 className

/-! ## Slots -/

/-- Two slots that differ in equal values only. -/
structure Slot.Alike (slot slot' : Slot) : Prop where
  position_eq : slot.position = slot'.position
  expected_eq : slot.expected = slot'.expected
  value_eq : (slot.value == slot'.value) = true
  actual_eq : slot.actual = slot'.actual

namespace Slot.Alike

variable {slot slot' : Slot}

theorem typeMismatch?_eq (h : slot.Alike slot') : slot.typeMismatch? = slot'.typeMismatch? := by
  rw [Slot.typeMismatch?, Slot.typeMismatch?, h.position_eq, h.expected_eq, h.actual_eq]

theorem depthMismatch?_eq (h : slot.Alike slot') : slot.depthMismatch? = slot'.depthMismatch? := by
  rw [Slot.depthMismatch?, Slot.depthMismatch?, h.position_eq, h.expected_eq, h.actual_eq]

/-- Both slots have representatives, and these are alike, or neither slot has one. -/
theorem binding? (h : slot.Alike slot') :
    Option.Rel (fun x y => x.1 = y.1 ∧ x.2.Alike y.2) slot.binding? slot'.binding? := by
  rw [Slot.binding?, Slot.binding?, h.expected_eq]
  cases slot'.expected.var? with
  | none => exact .none
  | some var =>
      have hdescend := descend_alike slot'.expected.depth h.value_eq
      generalize descend _ slot.value = d, descend _ slot'.value = d' at hdescend ⊢
      cases hdescend with
      | reached hvalue => exact .some ⟨rfl, h.position_eq, hvalue⟩
      | empty => exact .none
      | blocked => exact .none

theorem typedBinding?_eq (h : slot.Alike slot') : slot.typedBinding? = slot'.typedBinding? := by
  have hbinding := h.binding?
  rw [Slot.typedBinding?, Slot.typedBinding?, h.expected_eq, h.actual_eq]
  generalize slot.binding? = b, slot'.binding? = b' at hbinding ⊢
  cases hbinding with
  | none => rfl
  | some hentry => simp [hentry.1, hentry.2.position_eq]

end Slot.Alike

/-- Equal values fill slots that are alike, or the same one of them has no type. -/
theorem inferSlots_alike {values values' : List Value}
    (h : List.Forall₂ (fun v w : Value => (v == w) = true) values values') (types : List Ty)
    (position : Nat) :
    (∃ e, inferSlots rule position types values = .error e ∧
      inferSlots rule position types values' = .error e) ∨
      ∃ slots slots', inferSlots rule position types values = .ok slots ∧
        inferSlots rule position types values' = .ok slots' ∧
          List.Forall₂ Slot.Alike slots slots' := by
  induction h generalizing position types with
  | nil => cases types <;> exact .inr ⟨[], [], rfl, rfl, .nil⟩
  | @cons v w values values' hvw _ ih =>
      cases types with
      | nil => exact .inr ⟨[], [], rfl, rfl, .nil⟩
      | cons t types =>
          simp only [inferSlots, Value.infer_eq_of_beq hvw]
          cases hinfer : w.infer rule with
          | error array => exact .inl ⟨_, rfl, rfl⟩
          | ok u =>
              rcases ih types (position + 1) with ⟨e, he, he'⟩ |
                ⟨slots, slots', hslots, hslots', halike⟩
              · refine .inl ⟨e, ?_, ?_⟩
                · rw [he]
                  rfl
                · rw [he']
                  rfl
              · refine .inr ⟨⟨position, t, v, u⟩ :: slots, ⟨position, t, w, u⟩ :: slots', ?_, ?_,
                  ?_⟩
                · rw [hslots]
                  rfl
                · rw [hslots']
                  rfl
                · exact .cons ⟨rfl, rfl, hvw, rfl⟩ halike

/-- Slots that are alike find the same faults. -/
theorem findSome?_eq_of_alike {slots slots' : List Slot} (h : List.Forall₂ Slot.Alike slots slots')
    {fault : Slot → Option Violation}
    (hfault : ∀ slot slot', slot.Alike slot' → fault slot = fault slot') :
    slots.findSome? fault = slots'.findSome? fault := by
  induction h with
  | nil => rfl
  | cons hslot _ ih => rw [List.findSome?_cons, List.findSome?_cons, hfault _ _ hslot, ih]

/-- Slots that are alike stand for the same types of the same variables. -/
theorem filterMap_typedBinding?_eq_of_alike {slots slots' : List Slot}
    (h : List.Forall₂ Slot.Alike slots slots') :
    slots.filterMap Slot.typedBinding? = slots'.filterMap Slot.typedBinding? := by
  induction h with
  | nil => rfl
  | cons hslot _ ih => rw [List.filterMap_cons, List.filterMap_cons, hslot.typedBinding?_eq, ih]

/-- The passes over slots do not tell slots apart that are alike. -/
theorem checkSlots_eq_of_alike
    (hclasses : ∀ name c, registry.get? name = some c → c.RespectsEquality)
    {slots slots' : List Slot} (h : List.Forall₂ Slot.Alike slots slots')
    (htyped : ∀ slot ∈ slots, slot.Typed rule) (htyped' : ∀ slot ∈ slots', slot.Typed rule) :
    checkSlots registry constraints rule slots = checkSlots registry constraints rule slots' := by
  have hprimitives : checkPrimitives slots = checkPrimitives slots' := by
    rw [checkPrimitives, checkPrimitives, findSome?_eq_of_alike h fun _ _ halike =>
      halike.typeMismatch?_eq]
  have hshallow : slots.findSome? Slot.depthMismatch? = slots'.findSome? Slot.depthMismatch? :=
    findSome?_eq_of_alike h fun _ _ halike => halike.depthMismatch?_eq
  rw [checkSlots, checkSlots, hprimitives, representatives_eq htyped,
    representatives_eq htyped', hshallow]
  cases hfound : slots'.findSome? Slot.depthMismatch? with
  | some e => rfl
  | none =>
      have hdeep' := List.findSome?_eq_none_iff.1 hfound
      have hdeep := List.findSome?_eq_none_iff.1 (hshallow.trans hfound)
      -- variables are judged by types alone
      have hvariables : checkVariables rule (groupByKey (slots.filterMap Slot.binding?)) =
          checkVariables rule (groupByKey (slots'.filterMap Slot.binding?)) := by
        apply eq_of_forall_error_iff
        intro e
        rw [checkVariables_eq_error_iff htyped hdeep, checkVariables_eq_error_iff htyped' hdeep',
          filterMap_typedBinding?_eq_of_alike h]
      have hmembership : checkMembership registry constraints
          (groupByKey (slots.filterMap Slot.binding?)) =
          checkMembership registry constraints (groupByKey (slots'.filterMap Slot.binding?)) :=
        checkMembership_eq_of_alike hclasses
          (List.rel_filterMap (fun _ _ halike => halike.binding?) h)
      simp only [Option.elim_none, bind, Except.bind, hvariables, hmembership]

/-! ## Checks -/

/-- Equal values are interchangeable. A check has the same outcome on two lists of values that are
equal one by one, be it success or a violation with all its fields, whatever the rule, the
constraints and the types, if the tests among the registered classes do not tell equal values
apart. In particular equal values have the same type, or none for the same reason, and the same
keys. -/
theorem equal_values_are_interchangeable (registry : Registry) (constraints : Constraints)
    (rule : ArrayRule) (types : List Ty)
    (hclasses : ∀ name c, registry.get? name = some c → c.RespectsEquality) :
    (∀ values values' : List Value,
      List.Forall₂ (fun v w : Value => (v == w) = true) values values' →
      check registry constraints rule types values =
        check registry constraints rule types values') ∧
      ∀ v w : Value, (v == w) = true →
        (∀ rule : ArrayRule, v.infer rule = w.infer rule) ∧
          ∀ keys, (Class.shape keys).accepts v = (Class.shape keys).accepts w := by
  refine ⟨?_, ?_⟩
  · intro values values' h
    by_cases hlength : types.length = values.length
    · have hlength' : types.length = values'.length := hlength.trans h.length_eq
      rw [check_eq_inferSlots_bind hlength, check_eq_inferSlots_bind hlength']
      rcases inferSlots_alike h types 0 with ⟨e, he, he'⟩ | ⟨slots, slots', hslots, hslots', halike⟩
      · rw [he, he']
      · rw [hslots, hslots']
        exact checkSlots_eq_of_alike hclasses halike (fun slot => typed_of_mem_inferSlots hslots)
          fun slot => typed_of_mem_inferSlots hslots'
    · have hlength' : ¬types.length = values'.length := h.length_eq ▸ hlength
      simp [check, hlength', h.length_eq]
  · intro v w h
    exact ⟨fun rule => Value.infer_eq_of_beq h, fun keys => Class.accepts_shape_eq keys h⟩

/-- Zero and minus zero, and a function under two names: the numbers are accepted in both lists,
and the object with the function is refused in both for its missing key. -/
theorem equal_values_are_interchangeable_sample :
    let registry : Registry :=
      ⟨.insert (.insert ∅ "Named" (.shape ["name"])) "Number" (.ofKind "number")⟩
    let constraints := Constraints.ofClauses [⟨"Number", "a"⟩, ⟨"Named", "b"⟩]
    let types : List Ty := [⟨.var "a", 1⟩, ⟨.var "b", 0⟩]
    let zero : Value := .array [.number 0, .number 1]
    let minusZero : Value := .array [.number (-0), .number 1]
    let plain : Value := .object [("run", .function ⟨0, none⟩)]
    let named : Value := .object [("run", .function ⟨0, some "f"⟩)]
    (∀ name c, registry.get? name = some c → c.RespectsEquality) ∧
      List.Forall₂ (fun v w : Value => (v == w) = true) [zero, plain] [minusZero, named] ∧
      check registry constraints .reject types [zero, plain] =
        .error (.unmetConstraint "Named" "b" 1) ∧
      check registry constraints .reject types [minusZero, named] =
        .error (.unmetConstraint "Named" "b" 1) ∧
      zero.infer .reject = minusZero.infer .reject ∧
      (Class.shape ["run"]).accepts plain = (Class.shape ["run"]).accepts named := by
  intro registry constraints types zero minusZero plain named
  have hclasses : ∀ name c, registry.get? name = some c → c.RespectsEquality := by
    intro name c hc
    simp only [registry, Registry.get?, Std.TreeMap.getElem?_insert] at hc
    split at hc
    · cases hc
      intro v w h
      simp only [Value.kindName, Value.kind?_eq_of_beq h]
    · split at hc
      · cases hc
        trivial
      · simp at hc
  have hzero : (zero == minusZero) = true := by decide +kernel
  have hnamed : (plain == named) = true := by decide +kernel
  have hvalues : List.Forall₂ (fun v w : Value => (v == w) = true) [zero, plain]
      [minusZero, named] :=
    .cons hzero (.cons hnamed .nil)
  have hcheck : check registry constraints .reject types [zero, plain] =
      .error (.unmetConstraint "Named" "b" 1) := by decide +kernel
  obtain ⟨hsame, hseen⟩ :=
    equal_values_are_interchangeable registry constraints .reject types hclasses
  exact ⟨hclasses, hvalues, hcheck, hsame _ _ hvalues ▸ hcheck, (hseen _ _ hzero).1 .reject,
    (hseen _ _ hnamed).2 ["run"]⟩

end Covenant
