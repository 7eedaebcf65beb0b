import TruthTables.Entries
import TruthTables.Postfix.Evaluation
import TruthTables.Postfix.Form
import TruthTables.Table
import TruthTables.Token

/-!
Variables of a sequence and the assignments over which its table runs. Row `i` gives the variable
at place `j` the bit `j` of `i`, so the first variable changes fastest. The assignments are made
column by column; the rows of the table come from turning the columns over.
-/

namespace TruthTables

/-- The names of the operands that are no literals, each where it first occurs. -/
def freeVariables (ts : List Token) : List String :=
  ((ts.filter fun t => t.kind == .operand && !t.isLiteral).map (·.name)).eraseDups

/-- The number of rows of a table of `n` variables. -/
def rowCount (n : Nat) : Nat :=
  Nat.pow 2 n

namespace Assignments

def column (n j : Nat) : List Bool :=
  (List.range (rowCount n)).map fun i => i.testBit j

theorem length_column (n j : Nat) : (column n j).length = rowCount n := by
  simp [column]

/-- A column for each name. A name that occurs again counts as a place of its own, and its last
column wins. -/
def columns (names : List String) : List (String × List Bool) :=
  names.zipIdx.foldl
    (fun entries (name, j) => Entries.put name (column names.length j) entries) []

/-- Row after row of the entries that stand at one place, up to the end of the shortest column. -/
def transposed : List (List Bool) → List (List Bool)
  | [] => []
  | [column] => column.map fun b => [b]
  | column :: columns => List.zipWith List.cons column (transposed columns)

/-- The values of the names in each row. Without names no column tells how many rows there are. -/
def rows (names : List String) (columns : List (String × List Bool)) (size : Nat) :
    List (List Bool) :=
  match names.filterMap fun name => Entries.get? name columns with
  | [] => List.replicate size []
  | lists => transposed lists

end Assignments

/-- Limits given for one table, in place of the configured ones. -/
structure Limits where
  maxVariables : Option Int := none
  warnVariables : Option Int := none
  deriving DecidableEq, Repr

namespace Table

/-- The error is worded before it is raised, so a number of rows that cannot be written hides it. -/
def checkSize (writer : NumberWriter) (s : Settings) (limits : Limits) (count : Nat) :
    Attempt Unit := do
  let maxVariables := limits.maxVariables.getD s.maxVariables
  let warnVariables := limits.warnVariables.getD s.warnVariables
  if maxVariables < count then
    let number ← writer.text count
    let limit ← writer.text maxVariables
    Attempt.write ⟨.generator, .error,
      s!"Refusing to build a table with {number} variables (max {limit})"⟩
    let _ ← writer.text (rowCount count)
    Attempt.fail (.tooManyVariables count maxVariables)
  else if warnVariables < count then
    let number ← writer.text count
    let size ← writer.text (rowCount count)
    Attempt.write ⟨.generator, .warning,
      s!"Building a table with {number} variables ({size} rows)"⟩
  else pure ()

def columnValues (columns : List (String × List Bool)) : Assignment Operand :=
  fun name => (Entries.get? name columns).map .column

/-- The values of the variables row by row, each beside its result. -/
def ofResults (vars : List String) (expression : String) (columns : List (String × List Bool))
    (size : Nat) (results : List Bool) : Table :=
  ⟨vars, expression, List.zipWith Row.mk (Assignments.rows vars columns size) results⟩

def tabulate (writer : NumberWriter) (code : List Token) (expression : String) :
    Attempt Table := do
  let vars := freeVariables code
  let size := rowCount vars.length
  let columns := Assignments.columns vars
  match ← evaluateColumns code (columnValues columns) size with
  | some results =>
    let table := ofResults vars expression columns size results
    let number ← writer.text size
    Attempt.write ⟨.generator, .debug, s!"Generated {number} rows for {expression}"⟩
    pure table
  | none => Attempt.fail (.notEvaluable (code.map (·.name)))

/-- The size is checked before anything else can fail. Without a text the canonical one stands
over the results. -/
def generateWith (writer : NumberWriter) (s : Settings) (limits : Limits) (code : List Token)
    (expression : Option String) : Attempt Table := do
  checkSize writer s limits (freeVariables code).length
  match expression with
  | some text => tabulate writer code text
  | none =>
    let text ← ExceptT.mk (pure (canonicalText code))
    tabulate writer code text

/-- Numbers of any length are written. -/
def generate (s : Settings) (limits : Limits) (code : List Token) (expression : Option String) :
    Attempt Table :=
  generateWith .unlimited s limits code expression

end Table

end TruthTables
