import Covenant.Proofs.ArrayRules
import Covenant.Proofs.Paths

/-!
# The type of a value and its leaves

Inference compares the type of each element with that of its first neighbour and stops at the
first difference. What it computes can be said at once for all levels: every value in which paths
end gives a descriptor, from its kind and from the number of levels passed, and a value has a type
under the strict rule exactly if all of its descriptors are this type. If it has none, two
elements of one array inside it are to blame.
-/

namespace Covenant

theorem Ty.arrayOf_inj {s t : Ty} (h : s.arrayOf = t.arrayOf) : s = t := by
  cases s
  cases t
  simpa [Ty.arrayOf] using h

namespace Value

/-! ## Descriptors -/

/-- What a value that was reached through some levels says about the type of the whole. A value
that is no array gives its kind at that depth. An empty array says nothing about its elements,
which would be one level deeper. An array with elements leaves the word to them. -/
def descriptor? (levels : Nat) : Value → Option Ty
  | .array [] => some (.wildcard (levels + 1))
  | .array (_ :: _) => none
  | v => some ⟨v.kind?.elim .wildcard .prim, levels⟩

/-- A value has a descriptor if a path in it ends at a value that gives this descriptor. -/
def Leaf (v : Value) (t : Ty) : Prop :=
  ∃ (path : List Nat) (w : Value), v.follow path = some w ∧ w.descriptor? path.length = some t

/-- One more level on the way is one more level of the descriptor. -/
theorem descriptor?_succ (levels : Nat) (v : Value) :
    v.descriptor? (levels + 1) = (v.descriptor? levels).map Ty.arrayOf := by
  cases v with
  | array vs => cases vs <;> rfl
  | _ => rfl

theorem descriptor?_of_items?_eq_none {v : Value} (h : v.items? = none) :
    v.descriptor? 0 = some v.scalarTy := by
  cases v with
  | array vs => simp [items?] at h
  | _ => rfl

/-- In a value that is no array the only path is the empty one. -/
theorem leaf_iff_of_items?_eq_none {v : Value} (h : v.items? = none) {t : Ty} :
    v.Leaf t ↔ t = v.scalarTy := by
  constructor
  · rintro ⟨path, w, hw, ht⟩
    cases path with
    | nil =>
        rw [follow_nil] at hw
        cases hw
        rw [List.length_nil, descriptor?_of_items?_eq_none h] at ht
        exact (Option.some.inj ht).symm
    | cons i path =>
        obtain ⟨vs, x, rfl, -⟩ := follow_cons_eq_some_iff.1 hw
        simp [items?] at h
  · rintro rfl
    exact ⟨[], v, follow_nil v, descriptor?_of_items?_eq_none h⟩

theorem leaf_array_nil_iff {t : Ty} : (Value.array []).Leaf t ↔ t = .wildcard 1 := by
  constructor
  · rintro ⟨path, w, hw, ht⟩
    cases path with
    | nil =>
        rw [follow_nil] at hw
        cases hw
        exact (Option.some.inj ht).symm
    | cons i path => simp [follow_array_cons] at hw
  · rintro rfl
    exact ⟨[], .array [], rfl, rfl⟩

/-- The descriptors of an array are those of its elements, one level deeper. -/
theorem leaf_array_cons_iff {v : Value} {vs : List Value} {t : Ty} :
    (Value.array (v :: vs)).Leaf t ↔ ∃ w ∈ v :: vs, ∃ s, w.Leaf s ∧ t = s.arrayOf := by
  constructor
  · rintro ⟨path, w, hw, ht⟩
    cases path with
    | nil =>
        rw [follow_nil] at hw
        cases hw
        cases ht
    | cons i path =>
        rw [follow_array_cons, Option.bind_eq_some_iff] at hw
        obtain ⟨x, hx, hw⟩ := hw
        rw [List.length_cons, descriptor?_succ, Option.map_eq_some_iff] at ht
        obtain ⟨s, hs, rfl⟩ := ht
        exact ⟨x, List.mem_of_getElem? hx, s, ⟨path, w, hw, hs⟩, rfl⟩
  · rintro ⟨x, hx, s, ⟨path, w, hw, hs⟩, rfl⟩
    obtain ⟨i, hi⟩ := List.getElem?_of_mem hx
    refine ⟨i :: path, w, ?_, ?_⟩
    · rw [follow_array_cons, hi, Option.bind_some, hw]
    · rw [List.length_cons, descriptor?_succ, hs, Option.map_some]

theorem exists_leaf (v : Value) : ∃ t, v.Leaf t := by
  induction v using Value.induction_on_arrays with
  | scalar v hv => exact ⟨v.scalarTy, (leaf_iff_of_items?_eq_none hv).2 rfl⟩
  | array vs ih =>
      cases vs with
      | nil => exact ⟨.wildcard 1, leaf_array_nil_iff.2 rfl⟩
      | cons v vs =>
          have ⟨s, hs⟩ := ih v List.mem_cons_self
          exact ⟨s.arrayOf, leaf_array_cons_iff.2 ⟨v, List.mem_cons_self, s, hs, rfl⟩⟩

/-! ## Types under the strict rule -/

/-- The elements after the first have to have the type of the first. -/
theorem inferRest_reject_eq_ok_iff {element t : Ty} {index : Nat} {vs : List Value} :
    inferRest .reject element index vs = .ok t ↔
      t = element.arrayOf ∧ ∀ v ∈ vs, v.infer .reject = .ok element := by
  induction vs generalizing index with
  | nil => simp [inferRest, eq_comm]
  | cons v vs ih =>
      rw [inferRest, bind_eq_ok_iff, List.forall_mem_cons]
      constructor
      · rintro ⟨found, hfound, h⟩
        by_cases hsame : found = element
        · rw [if_pos hsame, ih] at h
          exact ⟨h.1, hsame ▸ hfound, h.2⟩
        · rw [if_neg hsame] at h
          cases h
      · rintro ⟨ht, hv, hvs⟩
        refine ⟨element, hv, ?_⟩
        rw [if_pos rfl, ih]
        exact ⟨ht, hvs⟩

/-- An array with elements has a type if its elements share one. -/
theorem infer_reject_array_cons_iff {v : Value} {vs : List Value} {t : Ty} :
    (Value.array (v :: vs)).infer .reject = .ok t ↔
      ∃ s : Ty, t = s.arrayOf ∧ ∀ w ∈ v :: vs, w.infer .reject = .ok s := by
  rw [infer_array_cons]
  refine bind_eq_ok_iff.trans (exists_congr fun s => ?_)
  rw [inferRest_reject_eq_ok_iff, List.forall_mem_cons]
  exact and_left_comm

/-- A value has a type under the strict rule exactly if all its descriptors are this type. -/
theorem infer_reject_eq_ok_iff {v : Value} {t : Ty} :
    v.infer .reject = .ok t ↔ ∀ s, v.Leaf s → s = t := by
  induction v using Value.induction_on_arrays generalizing t with
  | scalar v hv => simp [infer_of_items?_eq_none hv, leaf_iff_of_items?_eq_none hv]
  | array vs ih =>
      cases vs with
      | nil => simp [leaf_array_nil_iff]
      | cons v vs =>
          rw [infer_reject_array_cons_iff]
          constructor
          · rintro ⟨s, rfl, hall⟩ u hu
            obtain ⟨w, hw, s', hs', rfl⟩ := leaf_array_cons_iff.1 hu
            rw [(ih w hw).1 (hall w hw) s' hs']
          · intro h
            -- the type of the elements is read off some leaf of the first
            obtain ⟨s, hs⟩ := v.exists_leaf
            have hfirst : s.arrayOf = t :=
              h _ (leaf_array_cons_iff.2 ⟨v, List.mem_cons_self, s, hs, rfl⟩)
            subst hfirst
            refine ⟨s, rfl, ?_⟩
            intro w hw
            rw [ih w hw]
            intro s' hs'
            exact Ty.arrayOf_inj (h _ (leaf_array_cons_iff.2 ⟨w, hw, s', hs', rfl⟩))

end Value

/-! ## Values without a type -/

/-- The elements of an array before the index have the expected type, and the one at the index has
another. -/
structure MixedArray.Describes (e : MixedArray) (vs : List Value) : Prop where
  index_pos : 1 ≤ e.index
  before : ∀ i < e.index, ∃ w, vs[i]? = some w ∧ w.infer .reject = .ok e.expected
  there : ∃ w, vs[e.index]? = some w ∧ w.infer .reject = .ok e.found
  differs : e.found ≠ e.expected

namespace Value

/-- The elements from some index on fail for one of two reasons: one of them has no type, or one
has another type than all elements before. -/
theorem inferRest_reject_eq_error {element : Ty} {vs : List Value} {e : MixedArray}
    (seen : List Value) (hseen : ∀ v ∈ seen, v.infer .reject = .ok element) (hne : seen ≠ [])
    (h : inferRest .reject element seen.length vs = .error e) :
    (∃ v ∈ vs, v.infer .reject = .error e) ∨ e.Describes (seen ++ vs) := by
  induction vs generalizing seen with
  | nil => simp [inferRest] at h
  | cons v vs ih =>
      rw [inferRest, bind_eq_error_iff] at h
      rcases h with h | ⟨found, hfound, h⟩
      · exact .inl ⟨v, List.mem_cons_self, h⟩
      by_cases hsame : found = element
      · rw [if_pos hsame] at h
        have hseen' : ∀ w ∈ seen ++ [v], w.infer .reject = .ok element :=
          List.forall_mem_append.2 ⟨hseen, List.forall_mem_singleton.2 (hsame ▸ hfound)⟩
        rcases ih (seen ++ [v]) hseen' (by simp) (by simpa using h) with ⟨w, hw, he⟩ | hdescribes
        · exact .inl ⟨w, List.mem_cons_of_mem v hw, he⟩
        · exact .inr (by simpa using hdescribes)
      · rw [if_neg hsame] at h
        cases h
        refine .inr ⟨List.length_pos_iff.2 hne, ?_, ⟨v, by simp, hfound⟩, hsame⟩
        intro i hi
        refine ⟨seen.get ⟨i, hi⟩, ?_, hseen _ (List.get_mem _ _)⟩
        simp [List.getElem?_append_left hi, List.getElem?_eq_getElem hi]

/-- If a value has no type, then some array inside it is mixed as reported. -/
theorem exists_describes_of_infer {v : Value} {e : MixedArray} (h : v.infer .reject = .error e) :
    ∃ path vs, v.follow path = some (.array vs) ∧ e.Describes vs := by
  induction v using Value.induction_on_arrays with
  | scalar v hv => simp [infer_of_items?_eq_none hv] at h
  | array vs ih =>
      -- an element without a type has the array inside it
      have hinside : (∃ v ∈ vs, v.infer .reject = .error e) →
          ∃ path ws, (Value.array vs).follow path = some (.array ws) ∧ e.Describes ws := by
        rintro ⟨v, hv, he⟩
        obtain ⟨path, ws, hfollow, hdescribes⟩ := ih v hv he
        obtain ⟨i, hi⟩ := List.getElem?_of_mem hv
        refine ⟨i :: path, ws, ?_, hdescribes⟩
        rw [follow_array_cons, hi, Option.bind_some, hfollow]
      cases vs with
      | nil => simp at h
      | cons v vs =>
          rw [infer_array_cons] at h
          rcases bind_eq_error_iff.1 h with hv | ⟨element, helement, hrest⟩
          · exact hinside ⟨v, List.mem_cons_self, hv⟩
          · rcases inferRest_reject_eq_error [v] (by simpa using helement) (by simp) hrest with
              ⟨w, hw, he⟩ | hdescribes
            · exact hinside ⟨w, List.mem_cons_of_mem v hw, he⟩
            · exact ⟨[], _, follow_nil _, hdescribes⟩

end Value

/-! ## Both rules -/

/-- Inference is determined by the leaves of a value. Under the strict rule a value has a type
exactly if all its descriptors are this type; then it has the same type where mixed arrays are
objects, and there every value has a type. A value without a type has an array inside it, reached
through arrays only, with elements of one type up to the reported index and an element of another
type there. -/
theorem infer_characterised_by_leaves (v : Value) :
    (∀ t, v.infer .reject = .ok t ↔ ∀ s, v.Leaf s → s = t) ∧
      (∀ t, (∀ s, v.Leaf s → s = t) → v.infer .collapse = .ok t) ∧
      v.infer .collapse = .ok v.ty ∧
      ∀ e, v.infer .reject = .error e →
        ∃ path vs, v.follow path = some (.array vs) ∧ e.Describes vs := by
  refine ⟨fun t => Value.infer_reject_eq_ok_iff, ?_, ?_, fun e => Value.exists_describes_of_infer⟩
  · intro t h
    exact Value.infer_collapse_of_reject (Value.infer_reject_eq_ok_iff.2 h)
  · obtain ⟨t, ht⟩ := v.exists_infer_collapse
    simp [Value.ty, ht]

/-- An empty array beside an array of an undefined value is not mixed. Inside the second array of
the other value an array of a string stands beside an empty one, which is. -/
theorem infer_characterised_by_leaves_sample :
    let even : Value := .array [.array [], .array [.undefined]]
    let uneven : Value :=
      .array [.array [.array [.string "x"]], .array [.array [.string "y"], .array []]]
    let array : MixedArray := ⟨1, ⟨.prim .string, 1⟩, .wildcard 1⟩
    (∀ s, even.Leaf s → s = .wildcard 2) ∧ even.infer .collapse = .ok (.wildcard 2) ∧
      uneven.infer .reject = .error array ∧
      ∃ path vs, uneven.follow path = some (.array vs) ∧ array.Describes vs := by
  intro even uneven array
  have ⟨hleaves, hcollapse, _⟩ := infer_characterised_by_leaves even
  have ⟨_, _, _, hmixed⟩ := infer_characterised_by_leaves uneven
  have heven : ∀ s, even.Leaf s → s = .wildcard 2 := (hleaves (.wildcard 2)).1 rfl
  exact ⟨heven, hcollapse _ heven, rfl, hmixed array rfl⟩

end Covenant
