import Covenant.Proofs.Grammar
import Covenant.Proofs.Positions
import Covenant.Session

/-!
# Who is to blame for a violation

A guarded call that fails blames one side. Before the function runs, the arguments are wrong in
number or one of them is at fault. After it has run, only the result can be at fault. So a
violation tells from its position alone whether the function ran, and a log of the runs can be
read off the outcomes.
-/

namespace Covenant

/-! ## Contracts that were issued -/

/-- A contract that a text was drafted into, directly or for a function of a session. -/
inductive Contract.Issued : Contract → Prop
  | drafted {registry : Registry} {rule : ArrayRule} {source : String} {c : Contract}
      (h : Contract.draft registry rule source = .ok c) : Issued c
  | guarded {s s' : Session} {rule : ArrayRule} {name source : String} {function : Nat}
      {f : GuardedFunction}
      (h : s.guard rule name source function = .ok (f, s')) : Issued f.contract

/-- A session drafts its contracts like everyone else. -/
theorem Session.draft_of_guard {s s' : Session} {rule : ArrayRule} {name source : String}
    {function : Nat} {f : GuardedFunction} (h : s.guard rule name source function = .ok (f, s')) :
    Contract.draft s.registry rule source = .ok f.contract := by
  rw [Session.guard, bind_eq_ok_iff] at h
  obtain ⟨c, hc, h⟩ := h
  obtain ⟨rfl, -⟩ := Prod.mk.inj (Except.ok.inj h)
  exact hc

/-- A class that a variable has to be in is named by a clause. -/
theorem Signature.mem_namedClasses_of_constraints {signature : Signature} {var className : String}
    {classes : List String} (hclasses : signature.constraints[var]? = some classes)
    (hclass : className ∈ classes) : className ∈ signature.namedClasses := by
  rw [Signature.constraints, Constraints.ofClauses, getElem?_groupByKey] at hclasses
  split at hclasses
  · contradiction
  · obtain rfl := Option.some.inj hclasses
    rw [mem_itemsOf] at hclass
    simp only [List.map_map, List.mem_map, Function.comp_apply, Prod.mk.injEq] at hclass
    obtain ⟨clause, hclause, -, rfl⟩ := hclass
    exact List.mem_map_of_mem hclause

namespace Contract

variable {c : Contract}

/-- A contract keeps its registry, its rule and the signature that its text spells. -/
theorem eq_of_draft {registry : Registry} {rule : ArrayRule} {source : String}
    (h : draft registry rule source = .ok c) : Signature.parse source = .ok c.signature ∧
      resolve registry c.signature = .ok () ∧ c.registry = registry ∧ c.rule = rule := by
  rw [draft, bind_eq_ok_iff] at h
  obtain ⟨signature, hparse, h⟩ := h
  obtain ⟨⟨⟩, hresolve, h⟩ := bind_eq_ok_iff.1 h
  obtain rfl := Except.ok.inj h
  exact ⟨hparse, hresolve, rfl, rfl⟩

/-- The signature of a contract was read from a text, and its classes were looked up. -/
theorem Issued.parse_resolve (h : c.Issued) :
    (∃ source, Signature.parse source = .ok c.signature) ∧
      resolve c.registry c.signature = .ok () := by
  have hdraft : ∃ registry rule source, draft registry rule source = .ok c := by
    cases h with
    | drafted h => exact ⟨_, _, _, h⟩
    | guarded h => exact ⟨_, _, _, Session.draft_of_guard h⟩
  obtain ⟨registry, rule, source, hdraft⟩ := hdraft
  obtain ⟨hparse, hresolve, rfl, rfl⟩ := eq_of_draft hdraft
  exact ⟨⟨source, hparse⟩, hresolve⟩

/-- The types of a contract are those of its parameters and one more. -/
theorem Issued.types_eq_params_concat (h : c.Issued) :
    ∃ t, c.signature.types = c.signature.params ++ [t] ∧ c.signature.params.length = c.arity := by
  obtain ⟨⟨source, hparse⟩, -⟩ := h.parse_resolve
  have hne := (Signature.derives_of_parse hparse).types_ne_nil
  refine ⟨c.signature.types.getLast hne, ?_, ?_⟩
  · rw [Signature.params, Signature.arity_eq, ← List.dropLast_eq_take, List.dropLast_concat_getLast]
  · rw [arity, Signature.params, List.length_take, Signature.arity_eq]
    omega

theorem resolve_eq_ok_iff {registry : Registry} {signature : Signature} :
    resolve registry signature = .ok () ↔
      ∀ name ∈ signature.namedClasses, registry.contains name = true := by
  rw [resolve]
  cases hfound : signature.namedClasses.find? fun name => !registry.contains name with
  | none => simpa using hfound
  | some name =>
      have hmissing := List.find?_some hfound
      have hnamed := List.mem_of_find?_eq_some hfound
      simp only [reduceCtorEq, false_iff]
      intro hall
      simp [hall name hnamed] at hmissing

theorem Issued.registered (h : c.Issued) : Registered c.registry c.signature.constraints := by
  intro var classes hclasses className hclass
  have hnamed := Signature.mem_namedClasses_of_constraints hclasses hclass
  have hcontains := resolve_eq_ok_iff.1 h.parse_resolve.2 className hnamed
  rw [Registry.contains_eq_isSome_get?] at hcontains
  intro hget
  simp [hget] at hcontains

/-! ## The two sides -/

/-- The arguments are wrong in number, or one of them is at fault. -/
def BlamesCaller (c : Contract) (args : List Value) (e : Violation) : Prop :=
  e = .arity c.arity args.length ∨ ∃ p < c.arity, e.position? = some p

/-- The result is at fault. -/
def BlamesFunction (c : Contract) (e : Violation) : Prop :=
  e.position? = some c.arity ∧ (∀ m n, e ≠ .arity m n) ∧
    ∀ className var, e ≠ .unknownClass className var

instance (c : Contract) (args : List Value) (e : Violation) : Decidable (c.BlamesCaller args e) :=
  inferInstanceAs (Decidable (_ ∨ _))

/-- Arguments that are refused are at fault. -/
theorem Issued.blamesCaller (h : c.Issued) {args : List Value} {e : Violation}
    (hargs : c.checkArguments args = .error e) : c.BlamesCaller args e := by
  obtain ⟨t, -, harity⟩ := h.types_eq_params_concat
  rw [BlamesCaller, ← harity]
  rcases position?_of_check hargs with hcount | hposition |
    ⟨var, classes, hclasses, className, hclass, hunknown, -⟩
  · exact .inl hcount
  · exact .inr hposition
  · exact absurd hunknown (h.registered var classes hclasses className hclass)

/-- After good arguments the result is at fault. -/
theorem Issued.blamesFunction (h : c.Issued) {args : List Value}
    (hargs : c.checkArguments args = .ok ()) {result : Value} {e : Violation}
    (hresult : c.checkResult args result = .error e) :
    c.BlamesFunction e := by
  obtain ⟨t, htypes, harity⟩ := h.types_eq_params_concat
  rw [checkResult, htypes] at hresult
  have hposition := position?_of_check_concat h.registered hargs hresult
  rw [harity] at hposition
  exact ⟨hposition, ne_arity_of_position? hposition, ne_unknownClass_of_position? hposition⟩

theorem not_blamesCaller_of_blamesFunction {args : List Value} {e : Violation}
    (h : c.BlamesFunction e) :
    ¬c.BlamesCaller args e := by
  rintro (rfl | ⟨p, hp, hposition⟩)
  · exact h.2.1 _ _ rfl
  · rw [h.1] at hposition
    have := Option.some.inj hposition
    omega

/-! ## Guarded calls -/

section Call

variable {m : Type → Type} [Monad m] {function : List Value → m Value} {args : List Value}

theorem call_of_error {e : Violation} (h : c.checkArguments args = .error e) :
    c.call function args = pure (.error e) := by
  rw [call, h]

/-- Good arguments reach the function once, and its result is checked. -/
theorem call_of_ok (h : c.checkArguments args = .ok ()) :
    c.call function args = do
      let result ← function args
      return (c.checkResult args result).map fun () => result := by
  rw [call, h]

variable {σ : Type} {run : List Value → StateM σ Value}

theorem call_run_of_error {e : Violation} (h : c.checkArguments args = .error e) (s : σ) :
    c.call run args s = (.error e, s) := by
  rw [call_of_error h]
  rfl

/-- Good arguments lead to one run, whose effects stay whatever becomes of its result. -/
theorem call_run_of_ok (h : c.checkArguments args = .ok ()) (s : σ) :
    c.call run args s =
      ((c.checkResult args (run args s).1).map fun () => (run args s).1, (run args s).2) := by
  rw [call_of_ok h]
  rfl

end Call

end Contract

/-- A function with a log of its runs beside its own state. -/
def traced {σ : Type} (function : List Value → StateM σ Value) (args : List Value) :
    StateM (σ × List (List Value)) Value := fun (s, log) =>
  let (result, s') := function args s
  (result, s', log ++ [args])

namespace Contract

variable {c : Contract} {σ : Type}

/-- The arguments failed the check of the parameter types, and the function did not run. -/
def EndsBefore (c : Contract) (function : List Value → StateM σ Value) (args : List Value) (s : σ)
    (log : List (List Value)) : Prop :=
  ∃ e, check c.registry c.signature.constraints c.rule c.signature.params args = .error e ∧
    c.BlamesCaller args e ∧ c.call (traced function) args (s, log) = (.error e, s, log)

/-- The function ran once, on the arguments, and its result failed the check of all types. -/
def EndsAfter (c : Contract) (function : List Value → StateM σ Value) (args : List Value) (s : σ)
    (log : List (List Value)) : Prop :=
  ∃ e, check c.registry c.signature.constraints c.rule c.signature.types
      (args ++ [(function args s).1]) = .error e ∧
    c.BlamesFunction e ∧
    c.call (traced function) args (s, log) = (.error e, (function args s).2, log ++ [args])

/-- The function ran once, on the arguments, and its result passed the check of all types. -/
def EndsWell (c : Contract) (function : List Value → StateM σ Value) (args : List Value) (s : σ)
    (log : List (List Value)) : Prop :=
  check c.registry c.signature.constraints c.rule c.signature.types
      (args ++ [(function args s).1]) = .ok () ∧
    c.call (traced function) args (s, log) =
      (.ok (function args s).1, (function args s).2, log ++ [args])

/-- A guarded call ends in one of three ways. -/
theorem Issued.ends (h : c.Issued) (function : List Value → StateM σ Value) (args : List Value)
    (s : σ) (log : List (List Value)) :
    c.EndsBefore function args s log ∨ c.EndsAfter function args s log ∨
      c.EndsWell function args s log := by
  cases hargs : c.checkArguments args with
  | error e => exact .inl ⟨e, hargs, h.blamesCaller hargs, call_run_of_error hargs (s, log)⟩
  | ok =>
      right
      have hcall : c.call (traced function) args (s, log) =
          ((c.checkResult args (function args s).1).map fun () => (function args s).1,
            (function args s).2, log ++ [args]) := call_run_of_ok hargs (s, log)
      cases hresult : c.checkResult args (function args s).1 with
      | error e =>
          rw [hresult] at hcall
          exact .inl ⟨e, hresult, h.blamesFunction hargs hresult, hcall⟩
      | ok =>
          rw [hresult] at hcall
          exact .inr ⟨hresult, hcall⟩

/-- No call ends in two ways: a refusal before the run leaves the log as it is, and only the third
way gives a result. -/
theorem ends_unique (function : List Value → StateM σ Value) (args : List Value) (s : σ)
    (log : List (List Value)) :
    ¬(c.EndsBefore function args s log ∧ c.EndsAfter function args s log) ∧
      ¬(c.EndsBefore function args s log ∧ c.EndsWell function args s log) ∧
      ¬(c.EndsAfter function args s log ∧ c.EndsWell function args s log) := by
  refine ⟨?_, ?_, ?_⟩
  · rintro ⟨⟨e, -, -, hbefore⟩, e', -, -, hafter⟩
    have hlog := (Prod.mk.inj (Prod.mk.inj (hbefore.symm.trans hafter)).2).2
    simp at hlog
  · rintro ⟨⟨e, -, -, hbefore⟩, -, hwell⟩
    have houtcome := (Prod.mk.inj (hbefore.symm.trans hwell)).1
    contradiction
  · rintro ⟨⟨e, -, -, hafter⟩, -, hwell⟩
    have houtcome := (Prod.mk.inj (hafter.symm.trans hwell)).1
    contradiction

/-- The outcome of a call that was refused before the function ran. -/
def refused (c : Contract) (args : List Value) : Except Violation Value → Bool
  | .error e => decide (c.BlamesCaller args e)
  | .ok _ => false

end Contract

/-! ## Recording functions -/

/-- A recording function adds each argument list to its log. -/
theorem Host.recorded?_invoke {host : Host} {id : Nat} {log : List (List Value)}
    (h : host.recorded? id = some log) (args : List Value) :
    (host.invoke id args).2.recorded? id = some (log ++ [args]) := by
  rw [recorded?] at h
  split at h
  · next value calls hf =>
      obtain rfl := Option.some.inj h
      have hlogged : (host.log id args).functions[id]? = some ⟨.record value, calls ++ [args]⟩ := by
        simp [Host.log, hf]
      rw [invoke, hf, recorded?]
      simp only [hlogged]
  · contradiction

/-- One call adds its arguments to the log, unless it was refused before the function ran. -/
theorem recorded?_call {c : Contract} (hc : c.Issued) {host : Host} {id : Nat}
    {log : List (List Value)} (h : host.recorded? id = some log) (args : List Value) :
    (c.call (Host.run id) args host).2.recorded? id =
      some (if c.refused args (c.call (Host.run id) args host).1 then log else log ++ [args]) := by
  cases hargs : c.checkArguments args with
  | error e =>
      have hcall : c.call (Host.run id) args host = (.error e, host) :=
        Contract.call_run_of_error hargs host
      have hrefused : c.refused args (.error e) = true := decide_eq_true (hc.blamesCaller hargs)
      rw [hcall, h, hrefused]
      rfl
  | ok =>
      have hcall : c.call (Host.run id) args host =
          ((c.checkResult args (host.invoke id args).1).map fun () => (host.invoke id args).1,
            (host.invoke id args).2) := Contract.call_run_of_ok hargs host
      have hrefused : c.refused args
          ((c.checkResult args (host.invoke id args).1).map fun () => (host.invoke id args).1) =
            false := by
        cases hresult : c.checkResult args (host.invoke id args).1 with
        | ok => rfl
        | error e =>
            exact decide_eq_false
              (Contract.not_blamesCaller_of_blamesFunction (hc.blamesFunction hargs hresult))
      rw [hcall, hrefused]
      exact Host.recorded?_invoke h args

def callAll (calls : List (GuardedFunction × List Value)) :
    StateM Host (List (Except Violation Value)) :=
  calls.mapM fun (f, args) => f.call args

/-- The argument lists of the calls that were not refused before the function ran. -/
def argumentsSeen (calls : List (GuardedFunction × List Value))
    (outcomes : List (Except Violation Value)) : List (List Value) :=
  ((calls.zip outcomes).filter fun (call, outcome) => !call.1.contract.refused call.2 outcome).map
    (·.1.2)

theorem argumentsSeen_cons (f : GuardedFunction) (args : List Value)
    (calls : List (GuardedFunction × List Value)) (outcome : Except Violation Value)
    (outcomes : List (Except Violation Value)) :
    argumentsSeen ((f, args) :: calls) (outcome :: outcomes) =
      if f.contract.refused args outcome then argumentsSeen calls outcomes
      else args :: argumentsSeen calls outcomes := by
  cases h : f.contract.refused args outcome <;> simp [argumentsSeen, h]

/-- A recording function has seen the arguments of the calls that were not refused before it ran. -/
theorem recorded?_callAll {calls : List (GuardedFunction × List Value)} {host : Host} {id : Nat}
    {log : List (List Value)}
    (hcalls : ∀ call ∈ calls, call.1.contract.Issued ∧ call.1.function = id)
    (h : host.recorded? id = some log) :
    (callAll calls host).2.recorded? id =
      some (log ++ argumentsSeen calls (callAll calls host).1) := by
  induction calls generalizing host log with
  | nil =>
      change host.recorded? id = some (log ++ [])
      rw [h, List.append_nil]
  | cons call calls ih =>
      obtain ⟨f, args⟩ := call
      obtain ⟨hissued, rfl⟩ := hcalls (f, args) List.mem_cons_self
      have hstep : (f.call args host).2.recorded? f.function =
          some (if f.contract.refused args (f.call args host).1 then log else log ++ [args]) :=
        recorded?_call hissued h args
      have hall : callAll ((f, args) :: calls) host =
          ((f.call args host).1 :: (callAll calls (f.call args host).2).1,
            (callAll calls (f.call args host).2).2) := by
        rw [callAll, List.mapM_cons]
        rfl
      rw [hall, argumentsSeen_cons,
        ih (fun call hcall => hcalls call (List.mem_cons_of_mem _ hcall)) hstep]
      cases f.contract.refused args (f.call args host).1 <;> simp

/-- A guarded call does exactly one of three things. The arguments fail the check of the parameter
types, the function does not run, and the caller is to blame; or the function runs once on the
arguments, its result fails the check of all types, and the function is to blame; or the function
runs once on the arguments and its result, which passed the check of all types, is returned. Hence,
whatever calls are made one after the other, a recording function has seen exactly the arguments of
those that were not refused before it ran. -/
theorem guarded_calls_blame_and_run_once :
    (∀ (c : Contract), c.Issued → ∀ (σ : Type) (function : List Value → StateM σ Value)
        (args : List Value) (s : σ) (log : List (List Value)),
      (c.EndsBefore function args s log ∨ c.EndsAfter function args s log ∨
          c.EndsWell function args s log) ∧
        ¬(c.EndsBefore function args s log ∧ c.EndsAfter function args s log) ∧
        ¬(c.EndsBefore function args s log ∧ c.EndsWell function args s log) ∧
        ¬(c.EndsAfter function args s log ∧ c.EndsWell function args s log)) ∧
      ∀ (calls : List (GuardedFunction × List Value)) (host : Host) (id : Nat)
        (log : List (List Value)),
        (∀ call ∈ calls, call.1.contract.Issued ∧ call.1.function = id) →
        host.recorded? id = some log →
        (callAll calls host).2.recorded? id =
          some (log ++ argumentsSeen calls (callAll calls host).1) := by
  constructor
  · intro c hc σ function args s log
    exact ⟨hc.ends function args s log, Contract.ends_unique function args s log⟩
  · intro calls host id log hcalls hlog
    exact recorded?_callAll hcalls hlog

/-- A recording function that returns a string, called with a string, with nothing and with null.
The second call never reaches it. The third one does, although its result is refused: the variable
already stands for the type of null. -/
theorem guarded_calls_blame_and_run_once_sample :
    let signature : Signature := ⟨"a->a", [], [⟨⟨.var "a", 0⟩, ⟨0, 1⟩⟩, ⟨⟨.var "a", 0⟩, ⟨3, 4⟩⟩]⟩
    let f : GuardedFunction := ⟨⟨signature, .empty, .collapse⟩, 0, 0⟩
    let host : Host := ⟨[⟨.record (.string "x"), []⟩]⟩
    let calls : List (GuardedFunction × List Value) := [(f, [.string "y"]), (f, []), (f, [.null])]
    let violation : Violation := .inconsistent "a" ⟨.prim .object, 0⟩ 0 ⟨.prim .string, 0⟩ 1
    Contract.draft .empty .collapse "a->a" = .ok f.contract ∧
      (callAll calls host).1 = [.ok (.string "x"), .error (.arity 1 0), .error violation] ∧
      f.contract.EndsAfter (Host.run 0) [.null] host [] ∧
      (callAll calls host).2.recorded? 0 = some [[.string "y"], [.null]] := by
  intro signature f host calls violation
  have hparse : Signature.parse "a->a" = .ok signature := eq_ok_of_toOption (by decide +kernel)
  have hdraft : Contract.draft .empty .collapse "a->a" = .ok f.contract := by
    rw [Contract.draft, hparse]
    rfl
  have hissued : f.contract.Issued := .drafted hdraft
  refine ⟨hdraft, by with_unfolding_all rfl, ?_, ?_⟩
  · obtain ⟨hends, -⟩ :=
      guarded_calls_blame_and_run_once.1 _ hissued Host (Host.run 0) [.null] host []
    have hargs : f.contract.checkArguments [.null] = .ok () := rfl
    have hresult : f.contract.checkResult [.null] (.string "x") = .error violation := by
      with_unfolding_all rfl
    rcases hends with ⟨e, hrefused, -⟩ | hafter | ⟨hpassed, -⟩
    · cases hargs.symm.trans hrefused
    · exact hafter
    · have hrun : (Host.run 0 [.null] host).1 = .string "x" := by with_unfolding_all rfl
      rw [hrun] at hpassed
      cases hresult.symm.trans hpassed
  · rw [guarded_calls_blame_and_run_once.2 calls host 0 [] (by simp [calls, f, hissued]) rfl]
    with_unfolding_all rfl

end Covenant
