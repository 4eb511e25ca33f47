import Covenant.Contract.Check
import Covenant.Proofs.Outcome

/-!
# The type of a value and the values inside it

The type of an array tells the type of each of its elements, level by level. This is what makes it
sound to look at first elements only: as long as the type of a value is deep enough, going down
reaches a value of the type that is left, or ends at an empty array that says nothing.
-/

namespace Covenant

variable {rule : ArrayRule}

namespace Value

/-- What holds of values that are no array, and of an array if it holds of its elements, holds of
all values. -/
@[elab_as_elim]
theorem induction_on_arrays {P : Value → Prop} (scalar : ∀ v : Value, v.items? = none → P v)
    (array : ∀ vs : List Value, (∀ v ∈ vs, P v) → P (.array vs)) (v : Value) : P v := by
  cases v with
  | array vs => exact array vs fun v _ => induction_on_arrays scalar array v
  | _ => exact scalar _ rfl
termination_by v

@[simp] theorem depth_scalarTy (v : Value) : v.scalarTy.depth = 0 := by
  unfold scalarTy
  split <;> rfl

@[simp] theorem infer_array_nil : (Value.array []).infer rule = .ok (.wildcard 1) := by
  rw [infer]

theorem infer_array_cons (v : Value) (vs : List Value) :
    (Value.array (v :: vs)).infer rule = (v.infer rule).bind fun element =>
      inferRest rule element 1 vs := by
  rw [infer]
  rfl

theorem infer_of_items?_eq_none {v : Value} (h : v.items? = none) :
    v.infer rule = .ok v.scalarTy := by
  cases v with
  | array vs => simp [items?] at h
  | _ => rw [infer] <;> simp

/-- Of a value that is no array, only the kind matters. -/
theorem infer_eq_of_kind?_eq {v w : Value} (hv : v.items? = none) (hw : w.items? = none)
    (hkind : v.kind? = w.kind?) : v.infer rule = w.infer rule := by
  rw [infer_of_items?_eq_none hv, infer_of_items?_eq_none hw, scalarTy, scalarTy, hkind]

theorem eq_array_of_items? {v : Value} {vs : List Value}
    (h : v.items? = some vs) : v = .array vs := by
  cases v <;> simp_all [items?]

/-- An array has a type for one of two reasons: the elements agree, or mixed elements are let
through. -/
theorem inferRest_eq_ok {element : Ty} {index : Nat} {vs : List Value} {t : Ty}
    (h : inferRest rule element index vs = .ok t) :
    (∀ v ∈ vs, v.infer rule = .ok element) ∧ t = element.arrayOf ∨ t = .prim .object := by
  induction vs generalizing index with
  | nil =>
      rw [inferRest] at h
      exact .inl ⟨by simp, (Except.ok.inj h).symm⟩
  | cons v vs ih =>
      rw [inferRest, bind_eq_ok_iff] at h
      obtain ⟨found, hfound, h⟩ := h
      by_cases hsame : found = element
      · subst hsame
        rw [if_pos rfl] at h
        rcases ih h with ⟨hvs, ht⟩ | ht
        · exact .inl ⟨by simpa using ⟨hfound, hvs⟩, ht⟩
        · exact .inr ht
      · rw [if_neg hsame] at h
        cases rule with
        | collapse => exact .inr (Except.ok.inj h).symm
        | reject => contradiction

/-- The elements of an array of some depth have the type of that array, less one level. -/
theorem infer_mem_of_array {vs : List Value} {base : Base} {depth : Nat}
    (h : (Value.array vs).infer rule = .ok ⟨base, depth + 1⟩) :
    ∀ v ∈ vs, v.infer rule = .ok ⟨base, depth⟩ := by
  cases vs with
  | nil => simp
  | cons v vs =>
      rw [infer_array_cons] at h
      obtain ⟨element, hv, hrest⟩ := bind_eq_ok_iff.1 h
      rcases inferRest_eq_ok hrest with ⟨hvs, ht⟩ | ht
      · obtain ⟨rfl, hdepth⟩ := Ty.mk.inj ht
        obtain rfl : depth = element.depth := Nat.succ.inj hdepth
        simpa using ⟨hv, hvs⟩
      · simp [Ty.prim] at ht

theorem eq_array_of_infer {v : Value} {base : Base} {depth : Nat}
    (h : v.infer rule = .ok ⟨base, depth + 1⟩) : ∃ vs, v = .array vs := by
  cases hv : v.items? with
  | none =>
      rw [infer_of_items?_eq_none hv] at h
      have := congrArg Ty.depth (Except.ok.inj h)
      simp at this
  | some vs => exact ⟨vs, eq_array_of_items? hv⟩

end Value

/-- Going down no further than the type of a value is deep reaches a value of the type that is
left. The one exception is an empty array at the very last level, and then the type is a
wildcard. -/
theorem descend_of_infer {v : Value} {base : Base} {depth : Nat} {levels : Nat}
    (h : v.infer rule = .ok ⟨base, depth + levels⟩) :
    (∃ w, descend levels v = .reached w ∧ w.infer rule = .ok ⟨base, depth⟩) ∨
      descend levels v = .empty ∧ base = .wildcard ∧ depth = 0 := by
  induction levels generalizing v with
  | zero => exact .inl ⟨v, by simp [descend], h⟩
  | succ levels ih =>
      obtain ⟨vs, rfl⟩ := Value.eq_array_of_infer h
      cases vs with
      | nil =>
          rw [Value.infer_array_nil] at h
          obtain ⟨hbase, hdepth⟩ := Ty.mk.inj (Except.ok.inj h)
          exact .inr ⟨by simp [descend], hbase.symm, by omega⟩
      | cons v vs =>
          rw [descend]
          exact ih (Value.infer_mem_of_array h v List.mem_cons_self)

/-- Below a wildcard there is no value to reach. -/
theorem descend_ne_reached_of_wildcard {v : Value} {depth levels : Nat}
    (h : v.infer rule = .ok (.wildcard depth)) (hlevels : depth < levels) (w : Value) :
    descend levels v ≠ .reached w := by
  induction levels generalizing v depth with
  | zero => omega
  | succ levels ih =>
      cases depth with
      | zero =>
          -- an array of depth zero is a mixed one, which is an object and no wildcard
          cases v with
          | array vs =>
              cases vs with
              | nil => simp [descend]
              | cons v vs =>
                  rw [Value.infer_array_cons] at h
                  obtain ⟨element, -, hrest⟩ := bind_eq_ok_iff.1 h
                  rcases Value.inferRest_eq_ok hrest with ⟨-, ht⟩ | ht
                  · simp [Ty.wildcard, Ty.arrayOf] at ht
                  · simp [Ty.wildcard, Ty.prim] at ht
          | _ => simp [descend]
      | succ depth =>
          obtain ⟨vs, rfl⟩ := Value.eq_array_of_infer h
          cases vs with
          | nil => simp [descend]
          | cons v vs =>
              rw [descend]
              exact ih (Value.infer_mem_of_array h v List.mem_cons_self) (by omega)

end Covenant
