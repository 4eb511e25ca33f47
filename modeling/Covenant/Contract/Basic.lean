import Covenant.Contract.Check
import Covenant.EditDistance
import Covenant.Signature.Parser

/-!
# Contracts

A contract is a signature whose classes are all registered, with the registry that they are looked
up in. It guards calls of a function: the arguments are checked before the function runs, and the
arguments with the result after it has run. The function runs at most once, and what it did is not
undone if the second check fails.
-/

namespace Covenant

/-- A signature with the registry and the rule that it is checked under. -/
structure Contract where
  signature : Signature
  registry : Registry
  rule : ArrayRule

namespace Contract

/-- Every class that a signature names is registered; the first that is not is refused, with
registered names that are at most two edits away. -/
def resolve (registry : Registry) (signature : Signature) : Except Refusal Unit :=
  match signature.namedClasses.find? fun name => !registry.contains name with
  | some name =>
    .error ⟨.unknownClass name (similarNames name registry.names 2),
      (signature.spanOfClass? name).getD .origin⟩
  | none => .ok ()

/-- The contract that a text spells. -/
def draft (registry : Registry) (rule : ArrayRule) (source : String) : Except Refusal Contract := do
  let signature ← Signature.parse source
  resolve registry signature
  return ⟨signature, registry, rule⟩

def arity (c : Contract) : Nat := c.signature.arity

/-- Check arguments against the types of the parameters. -/
def checkArguments (c : Contract) (args : List Value) : Except Violation Unit :=
  check c.registry c.signature.constraints c.rule c.signature.params args

/-- Check arguments and a result against all types. -/
def checkResult (c : Contract) (args : List Value) (result : Value) : Except Violation Unit :=
  check c.registry c.signature.constraints c.rule c.signature.types (args ++ [result])

/-- Call a function under a contract. -/
def call {m : Type → Type} [Monad m] (c : Contract) (function : List Value → m Value)
    (args : List Value) :
    m (Except Violation Value) :=
  match c.checkArguments args with
  | .error violation => pure (.error violation)
  | .ok () => do
    let result ← function args
    return (c.checkResult args result).map fun () => result

/-- How a contract is shown: its source and its rule. -/
def render (c : Contract) : String :=
  let rule := match c.rule with
    | .collapse => "Opaque"
    | .reject => "Reject"
  "Signed \x7b signature: " ++ Text.quoteString c.signature.source ++
    ", config: CheckConfig \x7b heterogeneous_arrays: " ++ rule ++ " \x7d, .. \x7d"

end Contract

end Covenant
