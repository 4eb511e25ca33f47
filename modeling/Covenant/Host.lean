import Covenant.Value

/-!
# Hosts

A host gives the functions among the values their meaning. Each function has a body, and the host
keeps the argument lists that it was called with, so that what a function does may depend on how
often it was called, and can be observed later.
-/

namespace Covenant

/-- What a function does with its arguments. -/
inductive Body where
  /-- Return the first argument. -/
  | identity
  /-- Return the array of all arguments. -/
  | pack
  /-- Return the first element of the first argument. -/
  | head
  /-- Add the numbers in the first argument. -/
  | sum
  /-- Return a value. -/
  | const (value : Value)
  /-- Return a value, and let the calls be seen. -/
  | record (value : Value)
  /-- Return an argument. -/
  | arg (index : Nat)
  /-- Multiply the first argument. -/
  | scale (factor : Float)
  /-- Call an argument with the other arguments. -/
  | apply (index : Nat)
  /-- Return one value after the other, and the last one from then on. -/
  | seq (values : List Value)

/-- A function of the host and the argument lists that it was called with, the first call first. -/
structure HostFunction where
  body : Body
  calls : List (List Value)

/-- The functions of a host by their identity. -/
structure Host where
  functions : List HostFunction

namespace Host

def empty : Host := ⟨[]⟩

/-- A new function, which has not been called. -/
def define (host : Host) (body : Body) : Nat × Host :=
  (host.functions.length, ⟨host.functions ++ [⟨body, []⟩]⟩)

/-- Keep the argument list of a call. -/
def log (host : Host) (id : Nat) (args : List Value) : Host :=
  ⟨host.functions.modify id fun f => ⟨f.body, f.calls ++ [args]⟩⟩

/-- Add the numbers among some values, from the left. -/
def sumNumbers (values : List Value) : Float :=
  (values.filterMap Value.number?).foldl (· + ·) 0

/-- Call a function. Unknown functions, and missing or unfit arguments, count as undefined or
zero. -/
def invoke (host : Host) (id : Nat) (args : List Value) : Value × Host :=
  match host.functions[id]? with
  | none => (.undefined, host)
  | some f =>
    let logged := host.log id args
    match f.body with
    | .identity => (args.headD .undefined, logged)
    | .pack => (.array args, logged)
    | .head => (((args.head?.bind Value.items?).bind List.head?).getD .undefined, logged)
    | .sum => (.number (sumNumbers ((args.head?.bind Value.items?).getD [])), logged)
    | .const value => (value, logged)
    | .record value => (value, logged)
    | .arg index => (args[index]?.getD .undefined, logged)
    | .scale factor => (.number ((args.head?.bind Value.number?).getD 0 * factor), logged)
    | .apply index =>
      match h : args[index]? with
      | some (.function g) =>
        have := (List.getElem?_eq_some_iff.1 h).1
        have := List.length_eraseIdx_of_lt this
        invoke logged g.id (args.eraseIdx index)
      | _ => (.undefined, logged)
    | .seq values => ((values[f.calls.length]?.or values.getLast?).getD .undefined, logged)
termination_by args.length

/-- A call as a change of the host. -/
def run (id : Nat) (args : List Value) : StateM Host Value := fun host => host.invoke id args

/-- The argument lists of the calls of a function that lets them be seen. -/
def recorded? (host : Host) (id : Nat) : Option (List (List Value)) :=
  match host.functions[id]? with
  | some ⟨.record _, calls⟩ => some calls
  | _ => none

end Host

end Covenant
