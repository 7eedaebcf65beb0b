import TruthTables.Settings
import TruthTables.Text.Csv
import TruthTables.Text.Aligned

namespace TruthTables

structure Row where
  values : List Bool
  result : Bool
  deriving DecidableEq, Repr

namespace Row

def bit (b : Bool) : Char :=
  if b then '1' else '0'

/-- The values of the variables as digits, a bar, and the result. -/
def digits (r : Row) : String :=
  String.ofList (r.values.map bit ++ ['|', bit r.result])

def cells (r : Row) : List Bool :=
  r.values ++ [r.result]

end Row

structure Table where
  vars : List String
  expression : String
  rows : List Row
  deriving DecidableEq, Repr

/-- A header and rows of cells, some of which may be missing. Names in the header may repeat. -/
structure Grid (α : Type) where
  header : List String
  rows : List (List (Option α))

namespace Grid

/-- A row of cells with missing ones behind them, up to a width. -/
def fill {α : Type} (width : Nat) (cells : List α) : List (Option α) :=
  cells.map some ++ List.replicate (width - cells.length) none

theorem fill_of_length_le {α : Type} {width : Nat} {cells : List α}
    (h : width ≤ cells.length) : fill width cells = cells.map some := by
  rw [fill, Nat.sub_eq_zero_of_le h, List.replicate_zero, List.append_nil]

end Grid

namespace Table

def header (t : Table) : List String :=
  t.vars ++ [t.expression]

def size (t : Table) : Nat :=
  t.rows.length

def trueCount (t : Table) : Nat :=
  t.rows.countP (·.result)

def pick (t : Table) (numbers : List Nat) : List Row :=
  let rows := t.rows.toArray
  numbers.filterMap fun i => rows[i]?

def records (s : Settings) (t : Table) : List (List String) :=
  t.rows.map fun r => r.cells.map s.symbol

def width (t : Table) : Nat :=
  t.rows.foldl (fun w r => max w r.cells.length) 0

/-- A table with rows is shown only if the widest of them is as wide as its header. The others
are filled up to that width. -/
def grid {α : Type} (cell : Bool → α) (t : Table) : Except Fault (Grid α) :=
  if t.rows.isEmpty || t.width = t.header.length then
    .ok ⟨t.header, t.rows.map fun r => Grid.fill t.header.length (r.cells.map cell)⟩
  else .error (.widthMismatch t.header.length t.width)

end Table

namespace Grid

def entries (missing : String) (g : Grid String) : List (List String) :=
  g.rows.map fun row => row.map fun cell => cell.getD missing

/-- A missing cell is an empty field. -/
def csv (g : Grid String) (returns : Bool := false) : String :=
  Csv.document returns (g.header :: g.entries "")

/-- A grid without rows is described and not drawn. -/
def text (g : Grid String) : String :=
  if g.rows.isEmpty then Aligned.describeEmpty g.header
  else Aligned.layout g.header (g.entries "NaN")

end Grid

end TruthTables
