import TruthTables.Fault
import TruthTables.Log
import TruthTables.Text.Quoted
import TruthTables.Token

namespace TruthTables

namespace Postfix

/-- The number of values left over, or -1 once a connective lacks operands. -/
def stackSizeFrom (size : Int) : List Token → Int
  | [] => size
  | t :: ts =>
    if t.kind = .operator then
      if size < t.arity then -1 else stackSizeFrom (size - t.arity + 1) ts
    else stackSizeFrom (size + 1) ts

/-- Why a sequence is no formula: the first fault from the left. -/
inductive Defect where
  | insufficientOperands (name : String)
  | illegalIdentifier (name : String)
  | unexpectedToken (name : String)
  | valueCount (count : Int)
  deriving DecidableEq, Repr

def defectFrom (size : Int) : List Token → Option Defect
  | [] => if size = 1 then none else some (.valueCount size)
  | t :: ts =>
    match t.kind with
    | .operator =>
      if size < t.arity then some (.insufficientOperands t.name)
      else defectFrom (size - t.arity + 1) ts
    | .operand =>
      if isIdentifier t.name then defectFrom (size + 1) ts else some (.illegalIdentifier t.name)
    | .special => some (.unexpectedToken t.name)

def Defect.message : Defect → String
  | insufficientOperands name => s!"Insufficient operands for {name}"
  | illegalIdentifier name => "Illegal identifier: " ++ quoted name
  | unexpectedToken name => "Unexpected token in postfix: " ++ quoted name
  | valueCount count => s!"Stack has {count} elements after validation, expected 1"

end Postfix

def stackSize (ts : List Token) : Int :=
  Postfix.stackSizeFrom 0 ts

def defect? (ts : List Token) : Option Postfix.Defect :=
  Postfix.defectFrom 0 ts

def isWellFormed (ts : List Token) : Bool :=
  (defect? ts).isNone

def checkWellFormed (ts : List Token) : Logged Bool :=
  ⟨isWellFormed ts, (defect? ts).toList.map fun d => ⟨.validator, .debug, d.message⟩⟩

namespace Canonical

/-- The sign `∼` stands before one text and every other connective between two; the right one was
put on the stack last. -/
def step (stack : List String) (t : Token) : Except Fault (List String) :=
  if t.kind = .operator then
    if t.name = "∼" then
      match stack with
      | inner :: rest => .ok (("(∼" ++ inner ++ ")") :: rest)
      | [] => .error .emptyStack
    else
      match stack with
      | right :: left :: rest =>
        .ok (("(" ++ left ++ " " ++ t.name ++ " " ++ right ++ ")") :: rest)
      | _ => .error .emptyStack
  else .ok (t.name :: stack)

def run (stack : List String) : List Token → Except Fault (List String)
  | [] => .ok stack
  | t :: ts => (step stack t).bind fun next => run next ts

end Canonical

/-- The text completed last. Texts below it on the stack are not an error here. -/
def canonicalText (ts : List Token) : Except Fault String :=
  (Canonical.run [] ts).bind fun stack =>
    match stack with
    | text :: _ => .ok text
    | [] => .error .emptyStack

end TruthTables
