import Covenant.Contract.Basic
import Covenant.Host

/-!
# Sessions

A session puts functions of a host under contracts, with one registry and one rule, and keeps them
by name. Both can be replaced later; functions that are guarded already keep what they had. The
revision counts how often the registry was replaced, which tells whether a function still has the
current one.
-/

namespace Covenant

/-- A function of the host under a contract, and the revision at which it was put under it. -/
structure GuardedFunction where
  contract : Contract
  function : Nat
  revision : Nat

def GuardedFunction.call (f : GuardedFunction) (args : List Value) :
    StateM Host (Except Violation Value) :=
  f.contract.call (Host.run f.function) args

/-- The registry and rule for new contracts, and the functions guarded so far. -/
structure Session where
  registry : Registry
  rule : ArrayRule
  /-- How often the registry was replaced. -/
  revision : Nat
  guarded : Std.TreeMap String GuardedFunction

namespace Session

def start (registry : Registry) (rule : ArrayRule) : Session := ⟨registry, rule, 0, ∅⟩

def withRule (s : Session) (rule : ArrayRule) : Session := { s with rule := rule }

/-- The session with a registry that has one more class. -/
def register (s : Session) (name : String) (c : Class) : Except RegistryError Session := do
  let registry ← s.registry.register name c
  return { s with registry := registry, revision := s.revision + 1 }

/-- Put a function of the host under a contract, and keep it under a name, where it may replace
another one. -/
def guard (s : Session) (rule : ArrayRule) (name source : String) (function : Nat) :
    Except Refusal (GuardedFunction × Session) := do
  let contract ← Contract.draft s.registry rule source
  let f := ⟨contract, function, s.revision⟩
  return (f, { s with guarded := s.guarded.insert name f })

def get? (s : Session) (name : String) : Option GuardedFunction := s.guarded[name]?

/-- Whether a function has the current registry of the session. -/
def shares (s : Session) (f : GuardedFunction) : Bool := f.revision == s.revision

end Session

end Covenant
