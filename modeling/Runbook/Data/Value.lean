/-!
# Data values

The form in which a pipeline is exchanged with other programs: texts, truth values, whole numbers,
lists, and objects with named fields.
-/

namespace Runbook.Data

/-- A data value. -/
inductive Value where
  | null
  | bool (b : Bool)
  /-- A whole number. -/
  | natural (n : Nat)
  /-- Any other number. -/
  | number
  | string (s : String)
  | array (xs : List Value)
  | object (fields : List (String × Value))
  deriving Repr, Inhabited

namespace Value

def string? : Value → Option String
  | .string s => some s
  | _ => none

def bool? : Value → Option Bool
  | .bool b => some b
  | _ => none

def natural? : Value → Option Nat
  | .natural n => some n
  | _ => none

def array? : Value → Option (List Value)
  | .array xs => some xs
  | _ => none

def object? : Value → Option (List (String × Value))
  | .object fields => some fields
  | _ => none

def field? (v : Value) (name : String) : Option Value := do
  let fields ← v.object?
  (fields.find? (·.1 = name)).map (·.2)

/-- A list of values of one kind. -/
def listOf? {α : Type} (decode : Value → Option α) (v : Value) : Option (List α) := do
  (← v.array?).mapM decode

end Value

end Runbook.Data
