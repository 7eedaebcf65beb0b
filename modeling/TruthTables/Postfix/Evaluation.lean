import TruthTables.Log
import TruthTables.Operand
import TruthTables.Token

/-!
The value of a postfix sequence. One stack machine serves single values and whole columns: it is
written over an `Interpretation`. A sequence may have no value, which is logged and is not a fault.
-/

namespace TruthTables

abbrev Assignment (α : Type) := String → Option α

namespace Evaluation

inductive Refusal where
  | insufficientOperands (name : String)
  | unexpectedToken (name : String)
  | valueCount (count : Nat)
  deriving DecidableEq, Repr

inductive Stop where
  | refused (reason : Refusal)
  | failed (fault : Fault)
  deriving DecidableEq, Repr

/-- An assigned name has its assigned value, even where it is also a literal. -/
def operandValue {α : Type} (I : Interpretation α) (values : Assignment α) (name : String) :
    Except Stop α :=
  match values name with
  | some value => .ok value
  | none =>
    match Token.literal? name with
    | some b => .ok (I.literal b)
    | none => .error (.failed (.unassigned name))

/-- A connective of arity one takes the value on top; of any other arity it takes two values, the
right one first. Its name is looked up once they are taken. -/
def applyOperator {α : Type} (I : Interpretation α) (stack : List α) (t : Token) :
    Except Stop (List α) :=
  if (stack.length : Int) < t.arity then .error (.refused (.insufficientOperands t.name))
  else if t.arity = 1 then
    match stack with
    | value :: rest =>
      if t.name = "∼" then .ok (I.negate value :: rest)
      else .error (.failed (.unknownConnective t.name))
    | [] => .error (.failed .emptyStack)
  else
    match stack with
    | right :: left :: rest =>
      match Connective.ofSign? t.name with
      | some c =>
        match I.connect c left right with
        | .ok value => .ok (value :: rest)
        | .error fault => .error (.failed fault)
      | none => .error (.failed (.unknownConnective t.name))
    | _ => .error (.failed .emptyStack)

def step {α : Type} (I : Interpretation α) (values : Assignment α) (stack : List α) (t : Token) :
    Except Stop (List α) :=
  match t.kind with
  | .operand => (operandValue I values t.name).map (· :: stack)
  | .operator => applyOperator I stack t
  | .special => .error (.refused (.unexpectedToken t.name))

def runFrom {α : Type} (I : Interpretation α) (values : Assignment α) (stack : List α) :
    List Token → Except Stop (List α)
  | [] => .ok stack
  | t :: ts => (step I values stack t).bind fun next => runFrom I values next ts

theorem runFrom_append {α : Type} (I : Interpretation α) (values : Assignment α) (stack : List α)
    (as bs : List Token) :
    runFrom I values stack (as ++ bs) =
      (runFrom I values stack as).bind fun next => runFrom I values next bs := by
  induction as generalizing stack with
  | nil => rfl
  | cons t ts ih =>
    simp only [List.cons_append, runFrom, ih]
    cases step I values stack t <;> rfl

/-- The one value that is left when the sequence is read. -/
def result {α : Type} (I : Interpretation α) (values : Assignment α) (ts : List Token) :
    Except Stop α :=
  (runFrom I values [] ts).bind fun stack =>
    match stack with
    | [value] => .ok value
    | _ => .error (.refused (.valueCount stack.length))

def Refusal.records (ts : List Token) : Refusal → List LogRecord
  | insufficientOperands name =>
    [⟨.evaluator, .error, s!"Insufficient operands for {name}"⟩]
  | unexpectedToken name =>
    [⟨.evaluator, .error, "Unexpected token during evaluation: " ++ quoted name⟩]
  | valueCount count =>
    [⟨.evaluator, .error, s!"Stack has {count} elements after evaluation, expected 1"⟩,
      ⟨.evaluator, .error, "RPN expression: " ++ spelling ts⟩]

def attempt {α : Type} (I : Interpretation α) (values : Assignment α) (ts : List Token) :
    Attempt (Option α) :=
  match result I values ts with
  | .ok value => pure (some value)
  | .error (.failed fault) => Attempt.fail fault
  | .error (.refused reason) => do
    Attempt.writeAll (reason.records ts)
    pure none

end Evaluation

def evaluate (ts : List Token) (values : Assignment Scalar) : Attempt (Option Bool) := do
  let value ← Evaluation.attempt .scalars values ts
  pure (value.getD none)

/-- The truth values of all rows at once. A value that is the same for all rows is repeated
`length` times; a column is answered as it is. -/
def evaluateColumns (ts : List Token) (columns : Assignment Operand) (length : Int) :
    Attempt (Option (List Bool)) := do
  let value ← Evaluation.attempt .operands columns ts
  match value with
  | none | some (.scalar none) => pure none
  | some (.scalar (some b)) =>
    if length < 0 then Attempt.fail .negativeLength
    else pure (some (List.replicate length.toNat b))
  | some (.column entries) => pure (some entries)

end TruthTables
