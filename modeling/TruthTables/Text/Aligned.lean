import TruthTables.Text.Characters

namespace TruthTables.Aligned

/-- Tabs and line breaks are written as signs, so that every entry stays on one line. -/
def visible (entry : String) : String :=
  String.ofList (entry.toList.flatMap fun c =>
    if c = '\t' then ['\\', 't']
    else if c = '\n' then ['\\', 'n']
    else if c = '\r' then ['\\', 'r']
    else [c])

def indent (entry : String) : Nat :=
  (entry.toList.takeWhile isBlank).length

def dropCommonIndent (entries : List String) : List String :=
  match entries.map indent with
  | [] => []
  | n :: ns =>
    let common := ns.foldl min n
    if common = 0 then entries
    else entries.map fun entry => String.ofList (entry.toList.drop common)

def padLeft (width : Nat) (entry : String) : String :=
  "".pushn ' ' (width - entry.length) ++ entry

/-- The wider of two widths, column by column; a list that is longer keeps its tail. -/
def widen : List Nat → List Nat → List Nat
  | [], bs => bs
  | as, [] => as
  | a :: as, b :: bs => max a b :: widen as bs

def widths (lines : List (List String)) : List Nat :=
  lines.foldl (fun ws line => widen ws (line.map String.length)) []

def line (ws : List Nat) (entries : List String) : String :=
  " ".intercalate (List.zipWith padLeft ws entries)

def layout (header : List String) (rows : List (List String)) : String :=
  let lines := dropCommonIndent (header.map visible) :: rows.map fun row => row.map visible
  "\n".intercalate (lines.map (line (widths lines)))

def listLimit : Nat := 100

/-- A table without rows: its columns are listed instead. -/
def describeEmpty (header : List String) : String :=
  let more := if listLimit < header.length then ", ..." else ""
  "Empty DataFrame\nColumns: [" ++ ", ".intercalate (header.take listLimit) ++ more ++
    "]\nIndex: []"

/-- The words of a line: its longest runs without a blank. -/
def words (cs : List Char) : List (List Char) :=
  (cs.splitBy fun a b => isBlank a == isBlank b).filter fun run => !run.any isBlank

end TruthTables.Aligned
