/-!
# Passes that can fail

Checking and reading are chains of passes, and most passes go through a list until something is
wrong. The lemmas say what it means that such a chain, or such a pass, came to its end, and where
it stopped if it did not. They hold for any kind of error.
-/

namespace Covenant

variable {ε ε' α β : Type}

/-! ## Single steps -/

theorem bind_eq_ok_iff {x : Except ε α} {f : α → Except ε β} {b : β} :
    (x >>= f) = .ok b ↔ ∃ a, x = .ok a ∧ f a = .ok b := by
  cases x <;> simp [bind, Except.bind]

theorem bind_eq_error_iff {x : Except ε α} {f : α → Except ε β} {e : ε} :
    (x >>= f) = .error e ↔ x = .error e ∨ ∃ a, x = .ok a ∧ f a = .error e := by
  cases x <;> simp [bind, Except.bind]

/-- After a check there is nothing to choose. -/
theorem bind_unit_eq_ok_iff {x : Except ε Unit} {f : Unit → Except ε β} {b : β} :
    (x >>= f) = .ok b ↔ x = .ok () ∧ f () = .ok b := by
  cases x <;> simp [bind, Except.bind]

theorem bind_unit_eq_error_iff {x : Except ε Unit} {f : Unit → Except ε β} {e : ε} :
    (x >>= f) = .error e ↔ x = .error e ∨ x = .ok () ∧ f () = .error e := by
  cases x <;> simp [bind, Except.bind]

theorem map_eq_ok_iff {x : Except ε α} {f : α → β} {b : β} :
    x.map f = .ok b ↔ ∃ a, x = .ok a ∧ f a = b := by
  cases x <;> simp [Except.map]

theorem map_eq_error_iff {x : Except ε α} {f : α → β} {e : ε} :
    x.map f = .error e ↔ x = .error e := by
  cases x <;> simp [Except.map]

/-- Wording an error anew does not touch results. -/
theorem mapError_eq_ok_iff {x : Except ε α} {f : ε → ε'} {a : α} :
    x.mapError f = .ok a ↔ x = .ok a := by
  cases x with
  | error e => exact iff_of_false nofun nofun
  | ok b =>
      change Except.ok b = .ok a ↔ _
      simp

theorem mapError_eq_error_iff {x : Except ε α} {f : ε → ε'} {e : ε'} :
    x.mapError f = .error e ↔ ∃ e', x = .error e' ∧ f e' = e := by
  cases x with
  | error e' =>
      change Except.error (f e') = .error e ↔ _
      simp
  | ok a => exact iff_of_false nofun nofun

/-- Results can be compared where errors cannot. -/
theorem eq_ok_of_toOption {x : Except ε α} {a : α} (h : x.toOption = some a) : x = .ok a := by
  cases x with
  | error e => simp [Except.toOption] at h
  | ok b => simpa [Except.toOption] using h

/-- Checks that report the same are the same. -/
theorem eq_of_forall_error_iff {x y : Except ε Unit}
    (h : ∀ e, x = .error e ↔ y = .error e) : x = y := by
  cases x with
  | error e => exact ((h e).1 rfl).symm
  | ok _ =>
      cases y with
      | error e => exact (h e).2 rfl
      | ok _ => rfl

/-! ## Passes over a list -/

/-- A pass comes to its end if every item passes. -/
theorem forM_eq_ok_iff {xs : List α} {f : α → Except ε Unit} :
    xs.forM f = .ok () ↔ ∀ x ∈ xs, f x = .ok () := by
  induction xs with
  | nil => simp [pure, Except.pure]
  | cons x xs ih =>
      change (f x >>= fun _ => xs.forM f) = .ok () ↔ _
      rw [bind_eq_ok_iff]
      simp only [List.mem_cons, forall_eq_or_imp, ih]
      exact ⟨fun ⟨_, hx, hxs⟩ => ⟨hx, hxs⟩, fun ⟨hx, hxs⟩ => ⟨(), hx, hxs⟩⟩

/-- A pass stops at the first item that does not pass. -/
theorem forM_eq_error_iff {xs : List α} {f : α → Except ε Unit} {e : ε} :
    xs.forM f = .error e ↔
      ∃ before x after, xs = before ++ x :: after ∧ (∀ y ∈ before, f y = .ok ()) ∧
        f x = .error e := by
  induction xs with
  | nil => simp [pure, Except.pure]
  | cons x xs ih =>
      change (f x >>= fun _ => xs.forM f) = .error e ↔ _
      rw [bind_eq_error_iff]
      constructor
      · rintro (hx | ⟨_, hx, hxs⟩)
        · exact ⟨[], x, xs, rfl, by simp, hx⟩
        · obtain ⟨before, y, after, rfl, hbefore, hy⟩ := ih.1 hxs
          refine ⟨x :: before, y, after, rfl, ?_, hy⟩
          simpa using ⟨hx, hbefore⟩
      · rintro ⟨before, y, after, heq, hbefore, hy⟩
        cases before with
        | nil =>
            obtain ⟨rfl, rfl⟩ := List.cons.inj heq
            exact .inl hy
        | cons z before =>
            obtain ⟨rfl, rfl⟩ := List.cons.inj heq
            refine .inr ⟨(), hbefore x List.mem_cons_self, ih.2 ⟨before, y, after, rfl, ?_, hy⟩⟩
            exact fun w hw => hbefore w (List.mem_cons_of_mem x hw)

/-- A fold stops at the first item that it fails on. -/
theorem foldlM_eq_error_iff {xs : List α} {f : β → α → Except ε β} {b : β} {e : ε} :
    xs.foldlM f b = .error e ↔
      ∃ before x after reached, xs = before ++ x :: after ∧ before.foldlM f b = .ok reached ∧
        f reached x = .error e := by
  induction xs generalizing b with
  | nil => simp [pure, Except.pure]
  | cons y xs ih =>
      rw [List.foldlM_cons, bind_eq_error_iff]
      constructor
      · rintro (hy | ⟨next, hy, hxs⟩)
        · exact ⟨[], y, xs, b, rfl, rfl, hy⟩
        · obtain ⟨before, x, after, reached, rfl, hbefore, hx⟩ := ih.1 hxs
          refine ⟨y :: before, x, after, reached, rfl, ?_, hx⟩
          rw [List.foldlM_cons, hy]
          exact hbefore
      · rintro ⟨before, x, after, reached, heq, hbefore, hx⟩
        cases before with
        | nil =>
            obtain ⟨rfl, rfl⟩ := List.cons.inj heq
            obtain rfl := Except.ok.inj hbefore
            exact .inl hx
        | cons z before =>
            obtain ⟨rfl, rfl⟩ := List.cons.inj heq
            obtain ⟨next, hy, hrest⟩ := bind_eq_ok_iff.1 hbefore
            exact .inr ⟨next, hy, ih.2 ⟨before, x, after, reached, rfl, hrest, hx⟩⟩

theorem forM_congr {xs : List α} {f g : α → Except ε Unit} (h : ∀ x ∈ xs, f x = g x) :
    xs.forM f = xs.forM g := by
  induction xs with
  | nil => rfl
  | cons x xs ih =>
      rw [List.forall_mem_cons] at h
      change (f x >>= fun _ => xs.forM f) = (g x >>= fun _ => xs.forM g)
      rw [h.1, ih h.2]

/-- If each item has either an error or a result, the first error decides, and without errors
there are all results. -/
theorem mapM_eq_findSome? {xs : List α} {f : α → Except ε β} {p : α → Option ε} {g : α → β}
    (h : ∀ x ∈ xs, f x = (p x).elim (.ok (g x)) .error) :
    xs.mapM f = (xs.findSome? p).elim (.ok (xs.map g)) .error := by
  induction xs with
  | nil => rfl
  | cons x xs ih =>
      have hx := h x List.mem_cons_self
      have hxs := ih fun y hy => h y (List.mem_cons_of_mem x hy)
      rw [List.mapM_cons, hxs, List.findSome?_cons, List.map_cons, hx]
      cases p x with
      | some e => rfl
      | none => cases xs.findSome? p <;> rfl

end Covenant
