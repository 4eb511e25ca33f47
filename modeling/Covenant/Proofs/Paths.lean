import Covenant.Proofs.Checking

/-!
# Paths into a value

A check goes down first elements only and takes what it finds there for the whole array. This is
sound because the type of a value speaks of all its elements at once: whichever elements are
chosen, one at each level, the value reached has the type that is left. Only an empty array can
end a path early, and then the type is a wildcard with no further level.
-/

namespace Covenant

variable {rule : ArrayRule}

namespace Value

/-- The value reached through the elements at the given indices, one for each level of array. An
index out of bounds, or one into a value that is no array, leads nowhere. -/
def follow : List Nat → Value → Option Value
  | [], v => some v
  | i :: path, .array vs => vs[i]?.bind (follow path)
  | _ :: _, _ => none

@[simp] theorem follow_nil (v : Value) : v.follow [] = some v := by
  cases v <;> rfl

theorem follow_array_cons (i : Nat) (path : List Nat) (vs : List Value) :
    (Value.array vs).follow (i :: path) = vs[i]?.bind (follow path) := rfl

/-- A path goes on from one of the elements of an array, and from nowhere else. -/
theorem follow_cons_eq_some_iff {i : Nat} {path : List Nat} {v w : Value} :
    v.follow (i :: path) = some w ↔
      ∃ vs x, v = .array vs ∧ vs[i]? = some x ∧ x.follow path = some w := by
  cases v with
  | array vs => simp [follow_array_cons, Option.bind_eq_some_iff]
  | _ => simp [follow]

/-- Every path that is no longer than the type of a value is deep leads to a value of the type
that is left. -/
theorem infer_of_follow {v w : Value} {t : Ty} {path : List Nat} (h : v.infer rule = .ok t)
    (hpath : path.length ≤ t.depth) (hw : v.follow path = some w) :
    w.infer rule = .ok ⟨t.base, t.depth - path.length⟩ := by
  induction path generalizing v t with
  | nil =>
      rw [follow_nil] at hw
      cases hw
      exact h
  | cons i path ih =>
      obtain ⟨vs, x, rfl, hx, hw⟩ := follow_cons_eq_some_iff.1 hw
      rw [List.length_cons] at hpath ⊢
      have hdepth : t.depth = t.depth - 1 + 1 := by omega
      have harray : (Value.array vs).infer rule = .ok ⟨t.base, t.depth - 1 + 1⟩ := by
        rw [← hdepth]
        exact h
      have hmem := infer_mem_of_array harray x (List.mem_of_getElem? hx)
      have hrest := ih hmem (by simp only; omega) hw
      rw [hrest, Nat.sub_sub, Nat.add_comm]

/-- A path that is shorter than the type of a value is deep ends at an array. If this array is
empty, the type is a wildcard and the path lacks one level only. -/
theorem exists_array_of_follow {v w : Value} {t : Ty} {path : List Nat} (h : v.infer rule = .ok t)
    (hpath : path.length < t.depth) (hw : v.follow path = some w) :
    ∃ vs, w = .array vs ∧ (vs = [] → t.isWildcard = true ∧ t.depth = path.length + 1) := by
  obtain ⟨levels, hlevels⟩ : ∃ levels, t.depth - path.length = levels + 1 :=
    ⟨t.depth - path.length - 1, by omega⟩
  have hty := infer_of_follow h (by omega) hw
  rw [hlevels] at hty
  obtain ⟨vs, rfl⟩ := eq_array_of_infer hty
  refine ⟨vs, rfl, ?_⟩
  rintro rfl
  rw [infer_array_nil] at hty
  obtain ⟨hbase, hdepth⟩ := Ty.mk.inj (Except.ok.inj hty)
  exact ⟨Ty.isWildcard_iff.2 hbase.symm, by omega⟩

end Value

/-- Going down first elements is following the path of zeros. -/
theorem descend_eq_reached_iff {levels : Nat} {v w : Value} :
    descend levels v = .reached w ↔ v.follow (List.replicate levels 0) = some w := by
  induction levels generalizing v with
  | zero => simp [descend]
  | succ levels ih =>
      rw [List.replicate_succ, Value.follow_cons_eq_some_iff]
      cases v with
      | array vs =>
          cases vs with
          | nil => simp [descend]
          | cons v vs => simp [descend, ih]
      | _ => simp [descend]

/-- Going down no further than the type is deep reaches a value, or ends at an empty array that
was asked for all levels of a wildcard. -/
theorem descend_of_le_depth {v : Value} {t : Ty} {levels : Nat} (h : v.infer rule = .ok t)
    (hlevels : levels ≤ t.depth) :
    (∃ w, descend levels v = .reached w) ∨
      descend levels v = .empty ∧ t.isWildcard = true ∧ levels = t.depth := by
  have hty : v.infer rule = .ok ⟨t.base, t.depth - levels + levels⟩ := by
    rw [Nat.sub_add_cancel hlevels]
    exact h
  rcases descend_of_infer hty with ⟨w, hreached, -⟩ | ⟨hempty, hbase, hdepth⟩
  · exact .inl ⟨w, hreached⟩
  · exact .inr ⟨hempty, Ty.isWildcard_iff.2 hbase, by omega⟩

/-- One descent stands for all. Let a value have a type under either rule. Any choice of at most
as many elements as the type is deep leads to a value of the type that is left. On the way there
is always an array, and an empty one only if the type is a wildcard and all of its levels were
asked for. So the descent of a check is never blocked, the representative has the type of every
other value at its level, and below a wildcard there is no representative. -/
theorem descent_stands_for_all_paths (rule : ArrayRule) (v : Value) (t : Ty)
    (h : v.infer rule = .ok t) :
    (∀ levels ≤ t.depth,
      (∀ (path : List Nat) (w : Value), path.length = levels → v.follow path = some w →
        w.infer rule = .ok ⟨t.base, t.depth - levels⟩) ∧
      (∀ (path : List Nat) (w : Value), path.length < levels → v.follow path = some w →
        ∃ vs, w = .array vs ∧ (vs = [] → t.isWildcard = true ∧ levels = t.depth)) ∧
      descend levels v ≠ .blocked ∧
      (descend levels v = .empty → t.isWildcard = true ∧ levels = t.depth) ∧
      ∀ w, descend levels v = .reached w → ∀ (path : List Nat) (w' : Value), path.length = levels →
        v.follow path = some w' → w'.infer rule = w.infer rule) ∧
    (t.isWildcard = true → ∀ levels, t.depth < levels → ∀ w, descend levels v ≠ .reached w) := by
  constructor
  · intro levels hlevels
    have hpaths : ∀ (path : List Nat) (w : Value), path.length = levels → v.follow path = some w →
        w.infer rule = .ok ⟨t.base, t.depth - levels⟩ := by
      rintro path w rfl hw
      exact Value.infer_of_follow h hlevels hw
    have hdescend := descend_of_le_depth h hlevels
    refine ⟨hpaths, ?_, ?_, ?_, ?_⟩
    · intro path w hpath hw
      obtain ⟨vs, rfl, hempty⟩ := Value.exists_array_of_follow h (by omega) hw
      refine ⟨vs, rfl, ?_⟩
      intro hvs
      have ⟨hwild, hdepth⟩ := hempty hvs
      exact ⟨hwild, by omega⟩
    · intro hblocked
      simp [hblocked] at hdescend
    · intro hempty
      simpa [hempty] using hdescend
    · intro w hreached path w' hpath hw'
      have hrep := hpaths _ w List.length_replicate (descend_eq_reached_iff.1 hreached)
      rw [hpaths path w' hpath hw', hrep]
  · intro hwild levels hlevels w
    have hty : v.infer rule = .ok (.wildcard t.depth) := by
      rw [Ty.wildcard, ← Ty.isWildcard_iff.1 hwild]
      exact h
    exact descend_ne_reached_of_wildcard hty hlevels w

/-- In an array of two arrays, of which the first is empty, the first level is reached on both
paths; the second one is not reached through the first array, where the check looks, and is
through the other. In an array of two arrays of strings, the first string of the first one stands
for the second string of the second one. -/
theorem descent_stands_for_all_paths_sample :
    let v : Value := .array [.array [], .array [.undefined]]
    let strings : Value := .array [.array [.string "x"], .array [.string "y", .string "z"]]
    (v.infer .reject = .ok (.wildcard 2) ∧
      (∀ (path : List Nat) (w : Value), path.length < 2 → v.follow path = some w →
        ∃ vs, w = .array vs ∧
          (vs = [] → (Ty.wildcard 2).isWildcard = true ∧ 2 = (Ty.wildcard 2).depth)) ∧
      v.follow [0] = some (.array []) ∧ descend 2 v ≠ .blocked ∧ descend 2 v = .empty ∧
      ((Ty.wildcard 2).isWildcard = true ∧ 2 = (Ty.wildcard 2).depth) ∧
      v.follow [1, 0] = some .undefined ∧ Value.undefined.infer .reject = .ok ⟨.wildcard, 2 - 2⟩ ∧
      ∀ w, descend 3 v ≠ .reached w) ∧
    strings.infer .reject = .ok ⟨.prim .string, 2⟩ ∧ descend 2 strings = .reached (.string "x") ∧
      strings.follow [1, 1] = some (.string "z") ∧
      (Value.string "z").infer .reject = (Value.string "x").infer .reject := by
  intro v strings
  have hv : v.infer .reject = .ok (.wildcard 2) := rfl
  have hstrings : strings.infer .reject = .ok ⟨.prim .string, 2⟩ := rfl
  have ⟨hdeep, hbelow⟩ := descent_stands_for_all_paths .reject v (.wildcard 2) hv
  have ⟨hpaths, hends, hblocked, hempty, _⟩ := hdeep 2 (Nat.le_refl 2)
  have ⟨_, _, _, _, hsame⟩ :=
    (descent_stands_for_all_paths .reject strings ⟨.prim .string, 2⟩ hstrings).1 2 (Nat.le_refl 2)
  refine ⟨⟨hv, hends, rfl, hblocked, rfl, hempty rfl, rfl, ?_, ?_⟩, hstrings, rfl, rfl, ?_⟩
  · exact hpaths [1, 0] .undefined rfl rfl
  · exact hbelow rfl 3 (by decide)
  · exact hsame (.string "x") rfl [1, 1] (.string "z") rfl rfl

end Covenant
