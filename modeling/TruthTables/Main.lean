import TruthTables.CommandLine.Run

open TruthTables TruthTables.CommandLine

/-- Writes the planned file. A path that cannot be written ends the run. -/
def writeDocument (path content : String) : IO UInt32 := do
  try
    IO.FS.writeFile path content
    pure 0
  catch failure =>
    (← IO.getStderr).putStrLn (toString failure)
    pure 1

/-- Standard output is flushed before a file is written, so that the heading is seen first. -/
def carryOut (made : Plan) : IO UInt32 := do
  let out ← IO.getStdout
  out.putStr made.printed
  out.flush
  match made.saved with
  | none => pure made.exitCode.toUInt32
  | some (path, content) => writeDocument path content

def complain (fault : Fault) : IO UInt32 := do
  (← IO.getStderr).putStrLn fault.message
  pure 1

def execute (s : Settings) (request : Request) (weight : Nat) : IO UInt32 := do
  let attempt := plan s request
  (← IO.getStderr).putStr (logLines .installed weight attempt.records)
  match attempt.outcome with
  | .ok made => carryOut made
  | .error fault => complain fault

def main (words : List String) : IO UInt32 := do
  let s : Settings := {}
  match Request.ofWords s.maxVariables s.logLevel words with
  | .error .helpWanted =>
    IO.print (help .installed)
    pure 0
  | .error (.misused fault) =>
    (← IO.getStderr).putStr (complaint .installed fault)
    pure 2
  | .ok request =>
    match threshold request with
    | .ok weight => execute s request weight
    | .error fault => complain fault
