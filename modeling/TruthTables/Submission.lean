import TruthTables.Expression
import TruthTables.Table.Generation

namespace TruthTables

inductive Submission where
  | idle
  /-- An expression is known if only the size of its table was at fault. -/
  | invalid (expression : Option String) (error : String)
  | ok (expression : String) (table : Table)
  deriving DecidableEq, Repr

namespace Submission

def status : Submission → String
  | idle => "idle"
  | invalid _ _ => "invalid"
  | ok _ _ => "ok"

def isOk : Submission → Bool
  | ok _ _ => true
  | _ => false

def expression : Submission → Option String
  | idle => none
  | invalid expression _ => expression
  | ok expression _ => some expression

def error? : Submission → Option String
  | invalid _ error => some error
  | _ => none

def table? : Submission → Option Table
  | ok _ table => some table
  | _ => none

def heading (s : Settings) : Submission → String
  | idle => s.heading false none
  | invalid expression _ => s.heading true expression
  | ok expression _ => s.heading false (some expression)

def describe (s : Settings) (submission : Submission) : String :=
  s!"ProcessResult({quoted submission.status}, {quoted (submission.heading s)})"

/-- Takes a text and a way to build the table of an expression. The two faults that an unfit text
explains end in a refusal; any other is passed on. -/
def processWith (tabulate : Expression → Attempt Table) (text : Option String) :
    Attempt Submission := do
  match ← Attempt.caught (Expression.read text) with
  | .error (.rejected raw code) =>
    pure (invalid none (Fault.rejected raw code).message)
  | .error fault => Attempt.fail fault
  | .ok none => pure idle
  | .ok (some e) =>
    match ← Attempt.caught (tabulate e) with
    | .error (.tooManyVariables count limit) =>
      pure (invalid (some e.canonical) (Fault.tooManyVariables count limit).message)
    | .error fault => Attempt.fail fault
    | .ok table => pure (ok e.canonical table)

def process (s : Settings) (text : Option String) (maxVariables : Option Int) :
    Attempt Submission :=
  processWith (fun e => Table.generate s ⟨maxVariables, none⟩ e.code (some e.canonical)) text

end Submission

end TruthTables
