import TruthTables.CommandLine.Folder
import TruthTables.CommandLine.Arguments
import TruthTables.Log.Threshold
import TruthTables.Submission

/-!
A run of the program. `plan` says what is printed, where the table goes and how the run ends, and
does none of it. `Store.run` carries a plan out where texts can be kept, and `report` does so in a
folder.
-/

namespace TruthTables

namespace CommandLine

structure Plan where
  printed : String
  /-- The path and the content of a file that is to be written. -/
  saved : Option (String × String)
  exitCode : Nat
  deriving DecidableEq, Repr

namespace Plan

def target (request : Request) : Option String :=
  request.output.filter fun path => path != ""

def saving (path : String) : LogRecord :=
  ⟨.program, .info, s!"Saving truth table to {path}"⟩

/-- Values separated by commas end their last line themselves. The text does not: printing it ends
the line, and a file is given a line break of its own. -/
def deliver (s : Settings) (request : Request) (heading : String) (grid : Grid String) :
    Attempt Plan :=
  match request.format, target request with
  | .csv, some path => do
    Attempt.write (saving path)
    pure ⟨heading, some (path, grid.csv s.returnsBreak), 0⟩
  | .csv, none => pure ⟨heading ++ grid.csv s.returnsBreak, none, 0⟩
  | .text, some path => do
    Attempt.write (saving path)
    pure ⟨heading, some (path, grid.text ++ "\n"), 0⟩
  | .text, none => pure ⟨heading ++ (grid.text ++ "\n"), none, 0⟩

end Plan

/-- Without a limit the text is still read, but no table is built. -/
def submit (s : Settings) (request : Request) : Attempt Submission :=
  match request.maxVariables with
  | some limit => Submission.process s (some request.expression) (some limit)
  | none => Submission.processWith (fun _ => Attempt.fail .limitMissing) (some request.expression)

/-- Settings that contradict themselves are refused first. An error is logged unless the heading
says the same. -/
def plan (s : Settings) (request : Request) : Attempt Plan :=
  match s.fault? with
  | some fault => Attempt.fail fault
  | none => do
    let submission ← submit s request
    let heading := submission.heading s ++ "\n"
    match submission with
    | .idle => pure ⟨heading, none, 0⟩
    | .invalid _ error =>
      if error ≠ "" ∧ error ≠ submission.heading s then
        Attempt.write ⟨.program, .info, error⟩
      pure ⟨heading, none, 1⟩
    | .ok _ table =>
      let grid ← ExceptT.mk (pure (table.grid s.symbol))
      Plan.deliver s request heading grid

/-- A place that keeps texts under paths. How a text is put there may depend on its format. -/
structure Store (σ : Type) where
  save : σ → Format → String → String → Except Fault σ
  content? : σ → String → Option String

/-- What a run comes to: what it printed, how it ended, and what is kept then. -/
structure Ended (σ : Type) where
  stdout : String
  ending : Except Fault Nat
  kept : σ

namespace Store

variable {σ : Type}

/-- What is printed is printed before anything is put under a path. -/
def carryOut (store : Store σ) (kept : σ) (format : Format) : Except Fault Plan → Ended σ
  | .error fault => ⟨"", .error fault, kept⟩
  | .ok made =>
    match made.saved with
    | none => ⟨made.printed, .ok made.exitCode, kept⟩
    | some (path, content) =>
      match store.save kept format path content with
      | .ok next => ⟨made.printed, .ok made.exitCode, next⟩
      | .error fault => ⟨made.printed, .error fault, kept⟩

/-- Makes a plan and carries it out. -/
def run (store : Store σ) (s : Settings) (kept : σ) (request : Request) : Ended σ :=
  store.carryOut kept request.format (plan s request).outcome

end Store

/-- A table of comma-separated values is not even begun if its folder is missing. -/
def save (folder : Folder) (format : Format) (path content : String) : Except Fault Folder := do
  if format = .csv then Folder.findParent path
  folder.write path content

end CommandLine

/-- The files of a folder, under the paths that lead to them. -/
def Folder.store : CommandLine.Store Folder where
  save := CommandLine.save
  content? := Folder.contentAt?

namespace CommandLine

def threshold (request : Request) : Except Fault Nat :=
  match request.logLevel with
  | some word => Threshold.ofWord word
  | none => .error .levelMissing

structure Report where
  stdout : String
  stderr : String
  ending : Except Fault Nat
  folder : Folder

def logName (who : Identity) : Source → String
  | .program => who.logName
  | source => source.name

def logLine (who : Identity) (r : LogRecord) : String :=
  s!"{logName who r.source} - {r.level.name} - {r.message}\n"

def logLines (who : Identity) (threshold : Nat) (records : List LogRecord) : String :=
  String.join ((records.filter fun r => threshold ≤ r.level.weight).map (logLine who))

def perform (s : Settings) (who : Identity) (folder : Folder) (request : Request) (weight : Nat) :
    Report :=
  let attempt := plan s request
  let ended := Folder.store.carryOut folder request.format attempt.outcome
  ⟨ended.stdout, logLines who weight attempt.records, ended.ending, ended.kept⟩

/-- The level of the log is settled before anything else is done. -/
def report (s : Settings) (who : Identity) (folder : Folder) (words : List String) : Report :=
  match Request.ofWords s.maxVariables s.logLevel words with
  | .error .helpWanted => ⟨help who, "", .ok 0, folder⟩
  | .error (.misused fault) => ⟨"", complaint who fault, .ok 2, folder⟩
  | .ok request =>
    match threshold request with
    | .error fault => ⟨"", "", .error fault, folder⟩
    | .ok weight => perform s who folder request weight

end CommandLine

end TruthTables
