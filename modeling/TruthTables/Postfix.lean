import TruthTables.Log
import TruthTables.Token

/-!
The postfix form of a sequence of tokens. Operands go straight through; connectives and open
brackets wait on a stack, innermost first. Any sequence has a postfix form: whether it makes sense
is decided on the result.

`released` is what reading one token lets go, `absorb` the stack that it leaves.
-/

namespace TruthTables

namespace Postfix

def opens (t : Token) : Bool :=
  t.kind == .special && t.name == "("

def closes (t : Token) : Bool :=
  t.kind == .special && t.name == ")"

/-- On the stack the name alone makes an open bracket. -/
def isBarrier (t : Token) : Bool :=
  t.name == "("

/-- A waiting token is let go by a connective that binds no stronger, so that connectives of equal
strength group to the left. -/
def givesWay (waiting t : Token) : Bool :=
  !isBarrier waiting && t.binding ≤ waiting.binding

/-- A closing bracket ends the innermost group and takes its bracket away; without a group it
empties the stack. -/
def absorb (stack : List Token) (t : Token) : List Token :=
  if opens t then t :: stack
  else if closes t then (stack.dropWhile fun w => !isBarrier w).tail
  else if t.kind = .operator then t :: stack.dropWhile fun w => givesWay w t
  else stack

def released (stack : List Token) (t : Token) : List Token :=
  if opens t then []
  else if closes t then stack.takeWhile fun w => !isBarrier w
  else if t.kind = .operator then stack.takeWhile fun w => givesWay w t
  else [t]

def stackAfter (stack ts : List Token) : List Token :=
  ts.foldl absorb stack

def emitted (stack : List Token) : List Token → List Token
  | [] => []
  | t :: ts => released stack t ++ emitted (absorb stack t) ts

/-- The number of closing brackets that find no open one. -/
def surplusClosings (stack : List Token) : List Token → Nat
  | [] => 0
  | t :: ts =>
    let surplus := closes t && !stack.any isBarrier
    (if surplus then 1 else 0) + surplusClosings (absorb stack t) ts

theorem stackAfter_cons (stack : List Token) (t : Token) (ts : List Token) :
    stackAfter stack (t :: ts) = stackAfter (absorb stack t) ts :=
  rfl

theorem stackAfter_append (stack as bs : List Token) :
    stackAfter stack (as ++ bs) = stackAfter (stackAfter stack as) bs := by
  simp [stackAfter]

theorem emitted_append (stack as bs : List Token) :
    emitted stack (as ++ bs) = emitted stack as ++ emitted (stackAfter stack as) bs := by
  induction as generalizing stack with
  | nil => rfl
  | cons t ts ih => simp [emitted, ih, stackAfter]

end Postfix

/-- What still waits at the end follows, innermost first. -/
def postfixOf (ts : List Token) : List Token :=
  Postfix.emitted [] ts ++ Postfix.stackAfter [] ts

/-- The postfix form, with a record for each closing bracket that closes nothing. -/
def convert (ts : List Token) : Logged (List Token) :=
  ⟨postfixOf ts, List.replicate (Postfix.surplusClosings [] ts)
    ⟨.converter, .debug, "Unmatched ')' ignored during conversion"⟩⟩

end TruthTables
