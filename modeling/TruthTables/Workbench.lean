import TruthTables.Submission

/-!
A workbench holds one parsed expression and one table, and the settings in force. Its steps read
and change them; a step that fails keeps what it had changed before.
-/

namespace TruthTables

structure Workbench where
  settings : Settings
  expression : Option Expression
  table : Option Table
  deriving DecidableEq, Repr

namespace Workbench

def empty (s : Settings) : Workbench := ⟨s, none, none⟩

inductive Stop where
  /-- The step needs an expression or a table that is not there. -/
  | missing
  | failed (fault : Fault)
  deriving DecidableEq, Repr

abbrev Step := ExceptT Stop (StateT Workbench Logged)

def attempt {α : Type} (x : Attempt α) : Step α :=
  ExceptT.mk do
    match ← StateT.lift (ExceptT.run x) with
    | .ok a => pure (.ok a)
    | .error fault => pure (.error (.failed fault))

def logged {α : Type} (x : Logged α) : Step α :=
  ExceptT.lift (StateT.lift x)

def either {α : Type} (x : Except Fault α) : Step α :=
  attempt (ExceptT.mk (pure x))

def theExpression : Step Expression := do
  match (← get).expression with
  | some e => pure e
  | none => throw .missing

def theTable : Step Table := do
  match (← get).table with
  | some t => pure t
  | none => throw .missing

def configure (s : Settings) : Step Settings := do
  modify fun w => { w with settings := s }
  pure s

/-- Whatever comes of the text, the expression held before is gone. -/
def parse (text : Option String) : Step (Option String) := do
  modify fun w => { w with expression := none }
  let expression ← attempt (Expression.read text)
  modify fun w => { w with expression }
  pure (expression.map (·.canonical))

/-- Reads the canonical text of the expression anew, which undoes changes to its postfix form. -/
def reparse : Step (Option Expression) := do
  let e ← theExpression
  let expression ← attempt (Expression.parse e.canonical)
  modify fun w => { w with expression }
  pure expression

def setCode (e : Expression) (code : List Token) : Step Expression := do
  let changed := { e with code }
  modify fun w => { w with expression := some changed }
  pure changed

def push (t : Token) : Step Expression := do
  let e ← theExpression
  setCode e (e.code ++ [t])

def pop : Step (Token × Expression) := do
  let e ← theExpression
  match e.code.getLast? with
  | some t => pure (t, ← setCode e e.code.dropLast)
  | none => throw (.failed .emptyStack)

def check : Step (Bool × Int) := do
  let e ← theExpression
  pure (← logged (checkWellFormed e.code), stackSize e.code)

def render : Step String := do
  let e ← theExpression
  either (canonicalText e.code)

def evaluate (values : Assignment Scalar) : Step (Option Bool) := do
  let e ← theExpression
  attempt (TruthTables.evaluate e.code values)

/-- The text over the results is the canonical text held, or one that is given. -/
def generate (limits : Limits) (canonical : Bool) (expression : Option String) : Step Table := do
  let e ← theExpression
  let heading := if canonical then some e.canonical else expression
  let table ← attempt (Table.generate (← get).settings limits e.code heading)
  modify fun w => { w with table := some table }
  pure table

def process (text : Option String) (maxVariables : Option Int) : Step Submission := do
  let submission ← attempt (Submission.process (← get).settings text maxVariables)
  if let some table := submission.table? then
    modify fun w => { w with table := some table }
  pure submission

def putTable (table : Table) : Step Table := do
  modify fun w => { w with table := some table }
  pure table

/-- Each row's assignment again, through the postfix form held now. -/
def recheck : Step (List (Option Bool)) := do
  let e ← theExpression
  let table ← theTable
  table.rows.mapM fun row =>
    let pairs := (table.vars.zip row.values).reverse
    attempt (TruthTables.evaluate e.code fun name => (Entries.get? name pairs).map some)

def records : Step (List (List String)) := do
  let table ← theTable
  pure (table.records (← get).settings)

def grid : Step (Grid String) := do
  let table ← theTable
  either (table.grid (← get).settings.symbol)

def truthGrid : Step (Grid Bool) := do
  let table ← theTable
  either (table.grid id)

end Workbench

end TruthTables
