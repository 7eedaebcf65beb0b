import TruthTables.Fault

namespace TruthTables

inductive Connective where
  | and
  | or
  | implies
  deriving DecidableEq, Repr

namespace Connective

def sign : Connective → String
  | and => "∧"
  | or => "∨"
  | implies => "→"

def ofSign? (sign : String) : Option Connective :=
  if sign = "∧" then some .and
  else if sign = "∨" then some .or
  else if sign = "→" then some .implies
  else none

theorem ofSign?_sign (c : Connective) : ofSign? c.sign = some c := by
  cases c <;> rfl

def apply : Connective → Bool → Bool → Bool
  | and, a, b => a && b
  | or, a, b => a || b
  | implies, a, b => !a || b

end Connective

/-- A missing value counts as false wherever a truth value is needed. -/
abbrev Scalar := Option Bool

def Scalar.isTrue (s : Scalar) : Bool :=
  s.getD false

inductive Operand where
  | scalar (value : Scalar)
  | column (entries : List Bool)
  deriving DecidableEq, Repr

structure Interpretation (α : Type) where
  literal : Bool → α
  negate : α → α
  connect : Connective → α → α → Except Fault α

namespace Operand

def negate : Operand → Operand
  | scalar a => scalar (some (!a.isTrue))
  | column as => column (as.map (!·))

/-- Columns are combined entry by entry. A column of one entry stretches to the length of the
other, even to no entries at all. -/
def connectColumns (c : Connective) (as bs : List Bool) : Except Fault (List Bool) :=
  if as.length = bs.length then .ok (List.zipWith c.apply as bs)
  else
    match as, bs with
    | [a], _ => .ok (bs.map fun b => c.apply a b)
    | _, [b] => .ok (as.map fun a => c.apply a b)
    | _, _ => .error (.lengthMismatch as.length bs.length)

/-- A single value goes with every entry of a column. -/
def connect (c : Connective) : Operand → Operand → Except Fault Operand
  | scalar a, scalar b => .ok (scalar (some (c.apply a.isTrue b.isTrue)))
  | scalar a, column bs => .ok (column (bs.map fun b => c.apply a.isTrue b))
  | column as, scalar b => .ok (column (as.map fun a => c.apply a b.isTrue))
  | column as, column bs => (connectColumns c as bs).map column

theorem connectColumns_of_length_eq (c : Connective) {as bs : List Bool}
    (h : as.length = bs.length) : connectColumns c as bs = .ok (List.zipWith c.apply as bs) := by
  simp [connectColumns, h]

end Operand

namespace Interpretation

def scalars : Interpretation Scalar where
  literal b := some b
  negate a := some (!a.isTrue)
  connect c a b := .ok (some (c.apply a.isTrue b.isTrue))

def operands : Interpretation Operand where
  literal b := .scalar (some b)
  negate := Operand.negate
  connect := Operand.connect

end Interpretation

end TruthTables
