import Covenant.Proofs.Leaves

/-!
# Arrays as sets of their elements

Inference looks at the first element of an array and compares the others with it, from left to
right. Still its result depends neither on the order of the elements nor on how often one occurs,
at any level: it asks only whether there is a type that all elements have. Two values are similar
if they have the same elements up to similarity, as sets have, and similar values have the same
type.
-/

namespace Covenant

namespace Value

variable {rule : ArrayRule}

/-! ## Similar values -/

/-- Two values are similar if both are no arrays and of the same kind, or both are arrays and
every element of each is similar to some element of the other. -/
def Similar : Value → Value → Prop
  | .array vs, .array ws =>
    (∀ v ∈ vs, ∃ w ∈ ws, Similar v w) ∧ ∀ w ∈ ws, ∃ v, ∃ _ : v ∈ vs, Similar v w
  | v, w => v.items? = none ∧ w.items? = none ∧ v.kind? = w.kind?
termination_by v => v

theorem similar_array_iff {vs ws : List Value} :
    (Value.array vs).Similar (.array ws) ↔
      (∀ v ∈ vs, ∃ w ∈ ws, v.Similar w) ∧ ∀ w ∈ ws, ∃ v ∈ vs, v.Similar w := by
  rw [Similar]
  simp only [exists_prop]

theorem similar_iff_of_items?_eq_none {v w : Value} (hv : v.items? = none) :
    v.Similar w ↔ w.items? = none ∧ v.kind? = w.kind? := by
  rw [Similar]
  · exact and_iff_right hv
  · intro vs ws hvs
    simp [hvs, items?] at hv

theorem Similar.exists_eq_array {vs : List Value} {w : Value} (h : (Value.array vs).Similar w) :
    ∃ ws, w = .array ws := by
  cases w with
  | array ws => exact ⟨ws, rfl⟩
  | _ =>
      rw [Similar] at h
      · simp [items?] at h
      · simp

theorem Similar.refl (v : Value) : v.Similar v := by
  induction v using Value.induction_on_arrays with
  | scalar v hv => exact (similar_iff_of_items?_eq_none hv).2 ⟨hv, rfl⟩
  | array vs ih =>
      exact similar_array_iff.2 ⟨fun v hv => ⟨v, hv, ih v hv⟩, fun v hv => ⟨v, hv, ih v hv⟩⟩

/-! ## Rearranged values -/

/-- In some array inside a value the elements are put in another order, repeated, or not repeated
any more. -/
inductive Rearranges : Value → Value → Prop where
  | here {vs ws : List Value} (h : ∀ v, v ∈ vs ↔ v ∈ ws) : Rearranges (.array vs) (.array ws)
  | inside (before : List Value) {v w : Value} (after : List Value) (h : Rearranges v w) :
    Rearranges (.array (before ++ v :: after)) (.array (before ++ w :: after))

theorem Rearranges.similar {v w : Value} (h : v.Rearranges w) : v.Similar w := by
  induction h with
  | here h =>
      refine similar_array_iff.2 ⟨?_, ?_⟩
      · intro v hv
        exact ⟨v, (h v).1 hv, .refl v⟩
      · intro w hw
        exact ⟨w, (h w).2 hw, .refl w⟩
  | inside before after _ ih =>
      -- the other elements stay, on both sides
      simp only [similar_array_iff, List.mem_append, List.mem_cons]
      constructor
      all_goals
        intro x hx
        rcases hx with hx | rfl | hx
        · exact ⟨x, .inl hx, .refl x⟩
        · exact ⟨_, .inr (.inl rfl), ih⟩
        · exact ⟨x, .inr (.inr hx), .refl x⟩

/-! ## The type of an array -/

/-- Where mixed arrays are objects, the elements after the first decide by whether all have the
type of the first. -/
theorem inferRest_collapse_eq_ok_iff {element t : Ty} {index : Nat} {vs : List Value} :
    inferRest .collapse element index vs = .ok t ↔
      (∀ v ∈ vs, v.infer .collapse = .ok element) ∧ t = element.arrayOf ∨
        (¬∀ v ∈ vs, v.infer .collapse = .ok element) ∧ t = .prim .object := by
  induction vs generalizing index with
  | nil => simp [inferRest, eq_comm]
  | cons v vs ih =>
      obtain ⟨found, hfound⟩ := v.exists_infer_collapse
      have hstep : inferRest .collapse element index (v :: vs) =
          if found = element then inferRest .collapse element (index + 1) vs
          else .ok (.prim .object) := by
        rw [inferRest, hfound]
        rfl
      rw [hstep, List.forall_mem_cons, hfound, Except.ok.injEq]
      by_cases hsame : found = element
      · simp only [hsame, if_true, true_and, ih]
      · simp [hsame, eq_comm]

/-- An array with elements has the type of arrays of some type if all elements have this type. If
there is no such type, it is an object or has no type, as the rule says. -/
theorem infer_array_cons_eq_ok_iff {v : Value} {vs : List Value} {t : Ty} :
    (Value.array (v :: vs)).infer rule = .ok t ↔
      (∃ s : Ty, (∀ w ∈ v :: vs, w.infer rule = .ok s) ∧ t = s.arrayOf) ∨
        rule = .collapse ∧ (¬∃ s : Ty, ∀ w ∈ v :: vs, w.infer rule = .ok s) ∧
          t = .prim .object := by
  cases rule with
  | reject =>
      rw [infer_reject_array_cons_iff]
      simp only [reduceCtorEq, false_and, or_false, and_comm]
  | collapse =>
      obtain ⟨element, helement⟩ := v.exists_infer_collapse
      have hfirst : ∀ s, (∀ w ∈ v :: vs, w.infer .collapse = .ok s) ↔
          element = s ∧ ∀ w ∈ vs, w.infer .collapse = .ok s := by
        intro s
        rw [List.forall_mem_cons, helement, Except.ok.injEq]
      have harray : (Value.array (v :: vs)).infer .collapse = inferRest .collapse element 1 vs := by
        rw [infer_array_cons, helement]
        rfl
      simp only [harray, inferRest_collapse_eq_ok_iff, hfirst, and_assoc, exists_eq_left', true_and]

/-- What the type of an array is depends on which types its elements have, and not on their order
or number. -/
theorem infer_array_eq_ok_iff_of_alike {vs ws : List Value}
    (hvs : ∀ v ∈ vs, ∃ w ∈ ws, ∀ t, v.infer rule = .ok t ↔ w.infer rule = .ok t)
    (hws : ∀ w ∈ ws, ∃ v ∈ vs, ∀ t, v.infer rule = .ok t ↔ w.infer rule = .ok t) (t : Ty) :
    (Value.array vs).infer rule = .ok t ↔ (Value.array ws).infer rule = .ok t := by
  have hall : ∀ s, (∀ v ∈ vs, v.infer rule = .ok s) ↔ ∀ w ∈ ws, w.infer rule = .ok s := by
    intro s
    constructor
    · intro h w hw
      obtain ⟨v, hv, hvw⟩ := hws w hw
      exact (hvw s).1 (h v hv)
    · intro h v hv
      obtain ⟨w, hw, hvw⟩ := hvs v hv
      exact (hvw s).2 (h w hw)
  cases vs with
  | nil =>
      cases ws with
      | nil => exact Iff.rfl
      | cons w ws => simpa using hws w List.mem_cons_self
  | cons v vs =>
      cases ws with
      | nil => simpa using hvs v List.mem_cons_self
      | cons w ws => simp only [infer_array_cons_eq_ok_iff, hall]

/-! ## The types of similar values -/

/-- Similar values have the same type under either rule. -/
theorem Similar.infer_eq_ok_iff {v w : Value} (h : v.Similar w) (t : Ty) :
    v.infer rule = .ok t ↔ w.infer rule = .ok t := by
  induction v using Value.induction_on_arrays generalizing w t with
  | scalar v hv =>
      obtain ⟨hw, hkind⟩ := (similar_iff_of_items?_eq_none hv).1 h
      rw [infer_eq_of_kind?_eq hv hw hkind]
  | array vs ih =>
      obtain ⟨ws, rfl⟩ := h.exists_eq_array
      obtain ⟨hvs, hws⟩ := similar_array_iff.1 h
      apply infer_array_eq_ok_iff_of_alike
      · intro v hv
        obtain ⟨w, hw, hvw⟩ := hvs v hv
        exact ⟨w, hw, ih v hv hvw⟩
      · intro w hw
        obtain ⟨v, hv, hvw⟩ := hws w hw
        exact ⟨v, hv, ih v hv hvw⟩

end Value

/-- Inference sees an array as the set of its elements. Elements of arrays inside a value may be
put in another order and repeated, and the value stays similar. Similar values have the same type
where mixed arrays are objects; where mixed arrays have no type, both have the same type or
neither has one. -/
theorem infer_sees_arrays_as_sets :
    (∀ v w : Value, v.Rearranges w → v.Similar w) ∧
      ∀ v w : Value, v.Similar w →
        v.ty = w.ty ∧ ∀ t, v.infer .reject = .ok t ↔ w.infer .reject = .ok t := by
  refine ⟨fun _ _ h => h.similar, ?_⟩
  intro v w h
  refine ⟨?_, fun t => h.infer_eq_ok_iff t⟩
  obtain ⟨t, ht⟩ := v.exists_infer_collapse
  simp only [Value.ty, ht, (h.infer_eq_ok_iff t).1 ht]

/-- The mixed array inside stays mixed when its elements trade places and one is repeated. Two
arrays of strings may shrink to one, of another string, and none of the types changes. -/
theorem infer_sees_arrays_as_sets_sample :
    let mixed : Value := .array [.array [.null, .string "x"], .array []]
    let repeated : Value := .array [.array [.string "x", .null, .string "x"], .array []]
    let strings : Value := .array [.array [.string "x"], .array [.string "y", .string "z"]]
    let shrunk : Value := .array [.array [.string "u"]]
    (mixed.Rearranges repeated ∧ mixed.Similar repeated ∧ mixed.ty = repeated.ty) ∧
      strings.Similar shrunk ∧ strings.ty = shrunk.ty ∧
        shrunk.infer .reject = .ok ⟨.prim .string, 2⟩ ∧
        strings.infer .reject = .ok ⟨.prim .string, 2⟩ := by
  intro mixed repeated strings shrunk
  have ⟨hsimilar, hinfer⟩ := infer_sees_arrays_as_sets
  have hmixed : mixed.Rearranges repeated :=
    .inside [] [.array []]
      (.here fun v => by simp only [List.mem_cons, List.not_mem_nil, or_false]; grind)
  have hstring : ∀ a b, (Value.string a).Similar (.string b) :=
    fun a b => (Value.similar_iff_of_items?_eq_none rfl).2 ⟨rfl, rfl⟩
  have hstrings : strings.Similar shrunk := by
    simp [strings, shrunk, Value.similar_array_iff, hstring]
  have hshrunk : shrunk.infer .reject = .ok ⟨.prim .string, 2⟩ := rfl
  have ⟨hty, hreject⟩ := hinfer strings shrunk hstrings
  exact ⟨⟨hmixed, hsimilar _ _ hmixed, (hinfer _ _ (hsimilar _ _ hmixed)).1⟩,
    hstrings, hty, hshrunk, (hreject _).2 hshrunk⟩

end Covenant
