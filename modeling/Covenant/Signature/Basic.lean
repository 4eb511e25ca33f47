import Covenant.Grouping
import Covenant.Source.Span
import Covenant.Ty

/-!
# Signatures

A signature is a list of class constraints and a list of types: those of the parameters, then that
of the result. Each part keeps the span it was read from, for reports.
-/

namespace Covenant

/-- A class that the values of a variable have to be in. -/
structure Clause where
  className : String
  var : String
deriving DecidableEq, Repr

/-- The classes that the values of each variable have to be in, in the order of the clauses. -/
abbrev Constraints := Std.TreeMap String (List String)

/-- The classes of each variable of a list of clauses. -/
def Constraints.ofClauses (clauses : List Clause) : Constraints :=
  groupByKey (clauses.map fun clause => (clause.var, clause.className))

/-- The texts of the clauses, variable by variable. -/
def Constraints.renderClauses (constraints : Constraints) : List String :=
  constraints.toList.flatMap fun (var, classes) => classes.map fun className =>
    className ++ " " ++ var

/-- A signature, with the text that it was read from. -/
structure Signature where
  source : String
  clauses : List (Located Clause)
  /-- The types of the parameters and then the type of the result. -/
  typeList : List (Located Ty)
deriving DecidableEq, Repr

namespace Signature

/-- The types of the parameters and then the type of the result. -/
def types (s : Signature) : List Ty := s.typeList.map (·.item)

def arity (s : Signature) : Nat := s.typeList.length - 1

theorem arity_eq (s : Signature) : s.arity = s.types.length - 1 := by
  simp [arity, types]

def params (s : Signature) : List Ty := s.types.take s.arity

/-- The type of the result. -/
def result? (s : Signature) : Option Ty := s.types.getLast?

def constraints (s : Signature) : Constraints :=
  .ofClauses (s.clauses.map (·.item))

/-- The classes that the clauses name, in the order of the text and with repeats. -/
def namedClasses (s : Signature) : List String :=
  s.clauses.map (·.item.className)

/-- The place of the type at a position. -/
def spanOfType? (s : Signature) (position : Nat) : Option Span :=
  s.typeList[position]?.map (·.span)

/-- The place of the first clause that names a class. -/
def spanOfClass? (s : Signature) (className : String) : Option Span :=
  (s.clauses.find? fun clause => clause.item.className == className).map (·.span)

/-- The canonical text: constraints by variable, the unit in place of missing parameters, one blank
around each arrow. -/
def render (s : Signature) : String :=
  let clauses := s.constraints.renderClauses
  let block := if clauses = [] then "" else ", ".intercalate clauses ++ " => "
  let unit := if s.arity = 0 then "() -> " else ""
  block ++ unit ++ " -> ".intercalate (s.types.map Ty.render)

end Signature

end Covenant
