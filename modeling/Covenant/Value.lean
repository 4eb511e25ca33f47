import Covenant.Decimal.Shortest
import Covenant.Text.Quoted
import Covenant.Ty

/-!
# Values

The dynamically typed values that contracts are about. A function is known by its identity alone:
what it does is the business of the host that it belongs to.
-/

namespace Covenant

/-- A function of the host. -/
structure FunctionRef where
  id : Nat
  name : Option String
deriving DecidableEq, Repr

def FunctionRef.render (f : FunctionRef) : String :=
  match f.name with
  | some name => "<function " ++ name ++ ">"
  | none => "<function>"

/-- A dynamically typed value. -/
inductive Value where
  | undefined
  | null
  | boolean (b : Bool)
  | number (x : Float)
  | string (s : String)
  /-- A symbol, known by its description. -/
  | symbol (description : String)
  | function (f : FunctionRef)
  | array (items : List Value)
  /-- An object. Its fields are listed in the order of their keys. -/
  | object (fields : List (String × Value))
deriving Inhabited

namespace Value

/-- Put a field in its place among fields that are in the order of their keys. A field of the same
key is replaced. -/
def insertField (key : String) (value : Value) : List (String × Value) → List (String × Value)
  | [] => [(key, value)]
  | field :: fields =>
    if key < field.1 then (key, value) :: field :: fields
    else if key = field.1 then (key, value) :: fields
    else field :: insertField key value fields

/-- The object with the given fields, of which the last of each key counts. -/
def ofFields (fields : List (String × Value)) : Value :=
  .object (fields.foldl (fun sorted field => insertField field.1 field.2 sorted) [])

/-- The kind of a value: arrays and null are objects, and the undefined value has no kind. -/
def kind? : Value → Option Primitive
  | .undefined => none
  | .null | .array _ | .object _ => some .object
  | .boolean _ => some .boolean
  | .number _ => some .number
  | .string _ => some .string
  | .symbol _ => some .symbol
  | .function _ => some .function

def kindName (v : Value) : String :=
  match v.kind? with
  | some p => p.name
  | none => "undefined"

def items? : Value → Option (List Value)
  | .array items => some items
  | _ => none

def number? : Value → Option Float
  | .number x => some x
  | _ => none

def string? : Value → Option String
  | .string s => some s
  | _ => none

/-- Whether a value has a field of its own; only objects have fields. -/
def hasKey (key : String) : Value → Bool
  | .object fields => fields.any (·.1 == key)
  | _ => false

/-! ## Text -/

mutual

def render : Value → String
  | .undefined => "undefined"
  | .null => "null"
  | .boolean b => if b then "true" else "false"
  | .number x => renderFloat x
  | .string s => Text.quoteString s
  | .symbol description => "Symbol(" ++ description ++ ")"
  | .function f => f.render
  | .array items => "[" ++ ", ".intercalate (renderItems items) ++ "]"
  | .object [] => "\x7b\x7d"
  | .object (field :: fields) =>
    "\x7b " ++ ", ".intercalate (renderFields (field :: fields)) ++ " \x7d"

def renderItems : List Value → List String
  | [] => []
  | v :: vs => v.render :: renderItems vs

def renderFields : List (String × Value) → List String
  | [] => []
  | (key, v) :: fields => (key ++ ": " ++ v.render) :: renderFields fields

end

/-! ## Equality -/

mutual

/-- Equality of values: functions by identity, numbers as numbers, arrays and objects part by
part. -/
def equals : Value → Value → Bool
  | .undefined, .undefined => true
  | .null, .null => true
  | .boolean a, .boolean b => a == b
  | .number x, .number y => x == y
  | .string s, .string t => s == t
  | .symbol d, .symbol e => d == e
  | .function f, .function g => f.id == g.id
  | .array vs, .array ws => equalItems vs ws
  | .object fs, .object gs => equalFields fs gs
  | _, _ => false

def equalItems : List Value → List Value → Bool
  | [], [] => true
  | v :: vs, w :: ws => v.equals w && equalItems vs ws
  | _, _ => false

def equalFields : List (String × Value) → List (String × Value) → Bool
  | [], [] => true
  | (k, v) :: fs, (l, w) :: gs => k == l && v.equals w && equalFields fs gs
  | _, _ => false

end

instance : BEq Value := ⟨equals⟩

end Value

end Covenant
