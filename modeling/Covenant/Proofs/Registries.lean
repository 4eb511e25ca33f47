import Covenant.Class.Stock
import Covenant.Proofs.Blame

/-!
# Contracts under a growing registry

A contract is drafted once its classes are registered, and from then on no class is ever missing.
Classes that are registered later make no difference: the text is drafted under every larger
registry too, and guarded calls have the same outcome. The clauses that are looked up on drafting
and the groups that are walked on checking name the same classes.
-/

namespace Covenant

namespace Registry

/-- A larger registry has every name of a smaller one, for a class of the same values. -/
def Grows (small large : Registry) : Prop :=
  ∀ name c, small.get? name = some c → ∃ c', large.get? name = some c' ∧
    ∀ v, c'.accepts v = c.accepts v

/-- Registering a class makes a registry grow: it never replaces one. -/
theorem grows_of_register {registry registry' : Registry} {name : String} {c : Class}
    (h : registry.register name c = .ok registry') : registry.Grows registry' := by
  intro other c' hother
  have hfree : other ≠ name := by
    intro hsame
    have hcontains : registry.contains name = true := by
      rw [contains_eq_isSome_get?, ← hsame, hother]
      rfl
    simp [register, hcontains] at h
  refine ⟨c', ?_, fun v => rfl⟩
  rw [get?_of_register h, if_neg hfree, hother]

namespace Grows

variable {small large : Registry} {constraints : Constraints}

theorem contains_of_contains (h : small.Grows large) {name : String}
    (hname : small.contains name = true) :
    large.contains name = true := by
  rw [contains_eq_isSome_get?] at hname ⊢
  have ⟨c, hc⟩ := Option.isSome_iff_exists.1 hname
  have ⟨c', hc', _⟩ := h name c hc
  rw [hc']
  rfl

/-- A registered class is passed or failed alike. -/
theorem checkClass_eq (h : small.Grows large) {className : String}
    (hregistered : small.get? className ≠ none) (var : String) (values : List Representative) :
    checkClass large var values className = checkClass small var values className := by
  have ⟨c, hc⟩ := Option.ne_none_iff_exists'.1 hregistered
  have ⟨c', hc', haccepts⟩ := h className c hc
  simp only [checkClass, hc, hc', haccepts]

/-- The classes of all variables are passed or failed alike, if they are registered. -/
theorem checkMembership_eq (h : small.Grows large) (hregistered : Registered small constraints)
    (found : Representatives) :
    checkMembership large constraints found = checkMembership small constraints found := by
  refine forM_congr ?_
  intro entry hentry
  have hclasses := Std.TreeMap.mem_toList_iff_getElem?_eq_some.1 hentry
  cases hfound : found[entry.1]? with
  | none => simp only [hfound]
  | some values =>
      simp only [hfound]
      refine forM_congr ?_
      intro className hclass
      exact h.checkClass_eq (hregistered entry.1 entry.2 hclasses className hclass) entry.1 values

/-- A check whose classes are registered has the same outcome under a larger registry. -/
theorem check_eq (h : small.Grows large) (hregistered : Registered small constraints)
    (rule : ArrayRule) (types : List Ty) (values : List Value) :
    check large constraints rule types values = check small constraints rule types values := by
  simp only [check, h.checkMembership_eq hregistered]

end Grows

end Registry

namespace Contract

variable {c : Contract} {large : Registry}

theorem resolve_of_grows {small : Registry} {signature : Signature} (hgrows : small.Grows large)
    (h : resolve small signature = .ok ()) : resolve large signature = .ok () := by
  rw [resolve_eq_ok_iff] at h ⊢
  intro name hname
  exact hgrows.contains_of_contains (h name hname)

/-- Under a larger registry a contract accepts and refuses the same arguments and results. -/
theorem Issued.call_eq_of_grows (hc : c.Issued) (hgrows : c.registry.Grows large) {m : Type → Type}
    [Monad m] (function : List Value → m Value) (args : List Value) :
    ({ c with registry := large } : Contract).call function args = c.call function args := by
  have hcheck := hgrows.check_eq hc.registered c.rule
  simp only [call, checkArguments, checkResult, hcheck]

/-- No class is ever missing in a guarded call. -/
theorem Issued.call_ne_unknownClass (hc : c.Issued) {σ : Type}
    (function : List Value → StateM σ Value) (args : List Value) (s : σ) (className var : String) :
    (c.call function args s).1 ≠ .error (.unknownClass className var) := by
  intro h
  cases hargs : c.checkArguments args with
  | error e =>
      rw [call_run_of_error hargs] at h
      obtain rfl := Except.error.inj h
      rcases hc.blamesCaller hargs with hcount | ⟨p, -, hposition⟩
      · cases hcount
      · exact ne_unknownClass_of_position? hposition className var rfl
  | ok =>
      rw [call_run_of_ok hargs] at h
      cases hresult : c.checkResult args (function args s).1 with
      | ok => simp [hresult, Except.map] at h
      | error e =>
          rw [hresult] at h
          obtain rfl := Except.error.inj h
          exact (hc.blamesFunction hargs hresult).2.2 className var rfl

/-- A text that is drafted into a contract is drafted under every larger registry too. The two
contracts guard calls alike, whatever the function does, and neither ever misses a class. -/
theorem draft_stable_under_growth {small large : Registry} (hgrows : small.Grows large)
    {rule : ArrayRule} {source : String} {c : Contract} (h : draft small rule source = .ok c) :
    ∃ c', draft large rule source = .ok c' ∧
      (∀ (m : Type → Type) [Monad m] (function : List Value → m Value) (args : List Value),
        c'.call function args = c.call function args) ∧
      ∀ (σ : Type) (function : List Value → StateM σ Value) (args : List Value) (s : σ)
        (className var : String),
        (c.call function args s).1 ≠ .error (.unknownClass className var) ∧
          (c'.call function args s).1 ≠ .error (.unknownClass className var) := by
  obtain ⟨hparse, hresolve, rfl, rfl⟩ := eq_of_draft h
  have hdraft : draft large c.rule source = .ok { c with registry := large } := by
    simp only [draft, hparse, resolve_of_grows hgrows hresolve, bind, Except.bind,
      pure, Except.pure]
  have hissued := Issued.drafted h
  refine ⟨_, hdraft, ?_, ?_⟩
  · intro m _ function args
    exact hissued.call_eq_of_grows hgrows function args
  · intro σ function args s className var
    exact ⟨hissued.call_ne_unknownClass function args s className var,
      (Issued.drafted hdraft).call_ne_unknownClass function args s className var⟩

/-- A class of named objects and then a class of all values are registered. The contract on named
objects is drafted before and after, and null is refused in both. -/
theorem draft_stable_under_growth_sample :
    let small : Registry := ⟨.insert ∅ "Named" (.shape ["name"])⟩
    let large : Registry := ⟨small.classes.insert "Any" .any⟩
    let signature : Signature := ⟨"Named a=>a->a", [⟨⟨"Named", "a"⟩, ⟨0, 7⟩⟩],
      [⟨⟨.var "a", 0⟩, ⟨9, 10⟩⟩, ⟨⟨.var "a", 0⟩, ⟨12, 13⟩⟩]⟩
    let identity : List Value → StateM Nat Value := fun args => pure (args.headD .undefined)
    small.Grows large ∧ draft small .reject "Named a=>a->a" = .ok ⟨signature, small, .reject⟩ ∧
      ∃ c', draft large .reject "Named a=>a->a" = .ok c' ∧
        c'.call identity [.null] 0 = (.error (.unmetConstraint "Named" "a" 0), 0) ∧
        (c'.call identity [.null] 0).1 ≠ .error (.unknownClass "Named" "a") := by
  intro small large signature identity
  have hregister : small.register "Any" .any = .ok large := rfl
  have hgrows : small.Grows large := Registry.grows_of_register hregister
  have hparse : Signature.parse "Named a=>a->a" = .ok signature :=
    eq_ok_of_toOption (by decide +kernel)
  have hdraft : draft small .reject "Named a=>a->a" = .ok ⟨signature, small, .reject⟩ := by
    rw [draft, hparse]
    rfl
  obtain ⟨c', hdraft', hcall, hknown⟩ := draft_stable_under_growth hgrows hdraft
  refine ⟨hgrows, hdraft, c', hdraft', ?_, (hknown Nat identity [.null] 0 "Named" "a").2⟩
  rw [hcall]
  rfl

end Contract

end Covenant
