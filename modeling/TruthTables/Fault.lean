import TruthTables.Text.Quoted

namespace TruthTables

inductive Fault where
  /-- The text is no expression; `code` names the tokens of its postfix form. -/
  | rejected (text : String) (code : List String)
  | tooManyVariables (count : Nat) (limit : Int)
  | unassigned (name : String)
  /-- No connective of this name and arity is known. -/
  | unknownConnective (name : String)
  | emptyStack
  | lengthMismatch (left right : Nat)
  | negativeLength
  | notEvaluable (code : List String)
  | widthMismatch (header row : Nat)
  | warnLimitOutOfRange
  | sameSymbols
  /-- The size of a table is to be compared with a limit that has no value. -/
  | limitMissing
  /-- A level of the log is called for and has no value. -/
  | levelMissing
  /-- A text is taken for a level and names none. -/
  | unknownLevel (text : String)
  /-- What is taken for a level is not even a text; `text` describes it. -/
  | unfitLevel (text : String)
  /-- No path holds the character of code zero. -/
  | zeroInPath
  /-- The file would lie in a folder that is not there. -/
  | missingFolder (path : String)
  /-- The same, found before the file is opened. -/
  | missingParent (folder : String)
  | isFolder (path : String)
  | nameTooLong (path : String)
  deriving DecidableEq, Repr

namespace Fault

def message : Fault → String
  | rejected _ _ => "Invalid expression."
  | tooManyVariables count limit =>
    s!"Expression has {count} free variables; at most {limit} are allowed " ++
      s!"({Nat.pow 2 count} rows requested)"
  | unassigned name => name
  | unknownConnective name => name
  | emptyStack => "pop from empty list"
  | lengthMismatch left right =>
    s!"operands could not be broadcast together with shapes ({left},) ({right},) "
  | negativeLength => "negative dimensions are not allowed"
  | notEvaluable code => "Cannot evaluate postfix sequence: " ++ " ".intercalate code
  | widthMismatch header row =>
    s!"{header} columns passed, passed data had {row} columns"
  | warnLimitOutOfRange => "warn_variables must not exceed max_variables"
  | sameSymbols => "true/false symbols must differ"
  | limitMissing => "'>' not supported between instances of 'int' and 'list'"
  | levelMissing => "'list' object has no attribute 'upper'"
  | unknownLevel text => "Unknown level: " ++ quoted text
  | unfitLevel text => "Level not an integer or a valid string: " ++ text
  | zeroInPath => "embedded null byte"
  | missingFolder path => "[Errno 2] No such file or directory: " ++ quoted path
  | missingParent folder => s!"Cannot save file into a non-existent directory: '{folder}'"
  | isFolder path => "[Errno 21] Is a directory: " ++ quoted path
  | nameTooLong path => "[Errno 36] File name too long: " ++ quoted path

end Fault

end TruthTables
