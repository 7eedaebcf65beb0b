import TruthTables.Text.Characters
import TruthTables.Text.Quoted

namespace TruthTables.CommandLine

inductive Format where
  | text
  | csv
  deriving DecidableEq, Repr

/-- What a command line asks for. The limit or the level is missing if its option was given without
a value. -/
structure Request where
  expression : String
  format : Format
  output : Option String
  maxVariables : Option Int
  logLevel : Option String
  deriving DecidableEq, Repr

inductive Setting where
  | format
  | output
  | maxVariables
  | logLevel
  deriving DecidableEq, Repr

inductive Flag where
  | help
  | setting (which : Setting)
  deriving DecidableEq, Repr

namespace Flag

def long : Flag → String
  | help => "--help"
  | setting .format => "--format"
  | setting .output => "--output"
  | setting .maxVariables => "--max_variables"
  | setting .logLevel => "--log_level"

def title : Flag → String
  | help => "-h/--help"
  | flag => flag.long

def all : List Flag :=
  [help, setting .format, setting .output, setting .maxVariables, setting .logLevel]

def beginningWith (start : List Char) : List Flag :=
  all.filter fun flag => start.isPrefixOf flag.long.toList

end Flag

inductive UsageFault where
  | missingExpression
  | unrecognized (words : List String)
  | ambiguous (word : String) (flags : List Flag)
  | valueExpected (flag : Flag)
  | valueIgnored (flag : Flag) (value : String)
  | invalidChoice (value : String)
  | invalidInteger (value : String)
  deriving DecidableEq, Repr

namespace UsageFault

def about (flag : Flag) (text : String) : String :=
  s!"argument {flag.title}: {text}"

def message : UsageFault → String
  | missingExpression => "the following arguments are required: expression"
  | unrecognized words => "unrecognized arguments: " ++ " ".intercalate words
  | ambiguous word flags =>
    s!"ambiguous option: {word} could match " ++ ", ".intercalate (flags.map Flag.long)
  | valueExpected flag => about flag "expected one argument"
  | valueIgnored flag value => about flag ("ignored explicit argument " ++ quoted value)
  | invalidChoice value =>
    about (.setting .format) s!"invalid choice: {quoted value} (choose from 'text', 'csv')"
  | invalidInteger value =>
    about (.setting .maxVariables) ("invalid int value: " ++ quoted value)

end UsageFault

inductive Refusal where
  | helpWanted
  | misused (fault : UsageFault)
  deriving DecidableEq, Repr

inductive Word where
  | plain (text : String)
  /-- An option, with the value that follows its equals sign. -/
  | option (flag : Flag) (value : Option String)
  /-- The short form `-h` with the characters behind it, less an equals sign in front of them. -/
  | shortHelp (tail : List Char)
  | unknown (text : String)
  deriving DecidableEq, Repr

namespace Word

/-- A dash, then digits, with or without a point that has digits behind it. A line break may
follow. -/
def isNegativeNumber (cs : List Char) : Bool :=
  let body := if cs.getLast? = some '\n' then cs.dropLast else cs
  match body with
  | '-' :: ds =>
    match ds.span isDecimalDigit with
    | (whole, []) => !whole.isEmpty
    | (_, '.' :: fraction) => !fraction.isEmpty && fraction.all isDecimalDigit
    | _ => false
  | _ => false

/-- A word with a dash in front that is no option is plain if it is a negative number or holds a
space. -/
def unmatched (text : String) : Word :=
  if isNegativeNumber text.toList || text.toList.contains ' ' then plain text else unknown text

def valueOf (cs : List Char) : Option String :=
  match cs.dropWhile (· != '=') with
  | [] => none
  | _ :: value => some (String.ofList value)

def ofText (text : String) : Except UsageFault Word :=
  match text.toList with
  | '-' :: '-' :: cs =>
    let start := '-' :: '-' :: cs.takeWhile (· != '=')
    match Flag.beginningWith start with
    | [] => .ok (unmatched text)
    | [flag] => .ok (option flag (valueOf cs))
    | flags => .error (.ambiguous text flags)
  | ['-', 'h', '='] => .ok (option .help (some ""))
  | '-' :: 'h' :: '=' :: tail => .ok (shortHelp tail)
  | '-' :: 'h' :: tail => .ok (shortHelp tail)
  | ['-'] => .ok (plain text)
  | '-' :: _ => .ok (unmatched text)
  | _ => .ok (plain text)

/-- The words up to the separator, and the texts behind it, which are plain whatever they are. -/
def ofTexts : List String → Except UsageFault (List Word × Option (List String))
  | [] => .ok ([], none)
  | text :: texts => do
    if text = "--" then pure ([], some texts)
    else
      let word ← ofText text
      let (words, behind) ← ofTexts texts
      pure (word :: words, behind)

end Word

/-- What is known while the words are read from the left. -/
structure Reading where
  expression : Option String
  /-- Whether the word just read became the expression. -/
  fresh : Bool
  format : Format
  output : Option String
  maxVariables : Option Int
  logLevel : Option String
  /-- Words that no option and no argument takes. -/
  extras : List String
  deriving DecidableEq, Repr

namespace Reading

def set (r : Reading) (which : Setting) (value : String) : Except UsageFault Reading :=
  let stale := { r with fresh := false }
  match which with
  | .format =>
    if value = "text" then .ok { stale with format := .text }
    else if value = "csv" then .ok { stale with format := .csv }
    else .error (.invalidChoice value)
  | .output => .ok { stale with output := some value }
  | .maxVariables =>
    match Numeral.integer? value with
    | some n => .ok { stale with maxVariables := some n }
    | none => .error (.invalidInteger value)
  | .logLevel => .ok { stale with logLevel := some value }

/-- Takes an option that is given without a value. What it sets is missing from then on, except that
the format is text. -/
def clear (r : Reading) (which : Setting) : Reading :=
  let stale := { r with fresh := false }
  match which with
  | .format => { stale with format := .text }
  | .output => { stale with output := none }
  | .maxVariables => { stale with maxVariables := none }
  | .logLevel => { stale with logLevel := none }

/-- Takes an option and what follows its equals sign, where the separator stands for no value. -/
def attach (r : Reading) (which : Setting) (value : String) : Except UsageFault Reading :=
  if value = "--" then .ok (r.clear which) else r.set which value

def setAside (r : Reading) (texts : List String) : Reading :=
  { r with extras := r.extras ++ texts, fresh := false }

def takePlain (r : Reading) (text : String) : Reading :=
  match r.expression with
  | none => { r with expression := some text, fresh := true }
  | some _ => r.setAside [text]

/-- The characters behind `-h` may ask for help again, but give it no value. -/
def shortHelp (tail : List Char) : Refusal :=
  match tail.dropWhile (· == 'h') with
  | [] => .helpWanted
  | value => .misused (.valueIgnored .help (String.ofList value))

/-- Takes the texts behind the separator. The separator itself is dropped only next to the text
that becomes the expression. -/
def takeBehind (r : Reading) (texts : List String) : Reading :=
  match r.expression, texts with
  | none, text :: rest => (r.takePlain text).setAside rest
  | none, [] => r.setAside ["--"]
  | some _, rest => if r.fresh then r.setAside rest else r.setAside ("--" :: rest)

/-- Reads the words in order; the first fault ends the reading. -/
def read (r : Reading) : List Word → Except Refusal Reading
  | [] => .ok r
  | .plain text :: words => read (r.takePlain text) words
  | .unknown text :: words => read (r.setAside [text]) words
  | .shortHelp tail :: _ => .error (shortHelp tail)
  | .option .help none :: _ => .error .helpWanted
  | .option .help (some value) :: _ => .error (.misused (.valueIgnored .help value))
  | .option (.setting which) (some value) :: words =>
    match r.attach which value with
    | .ok next => read next words
    | .error fault => .error (.misused fault)
  | .option (.setting which) none :: .plain value :: words =>
    match r.set which value with
    | .ok next => read next words
    | .error fault => .error (.misused fault)
  | .option (.setting which) none :: _ => .error (.misused (.valueExpected (.setting which)))

/-- A missing expression is reported before words that nobody takes. -/
def finish (r : Reading) : Except Refusal Request :=
  match r.expression with
  | none => .error (.misused .missingExpression)
  | some expression =>
    if r.extras.isEmpty then .ok ⟨expression, r.format, r.output, r.maxVariables, r.logLevel⟩
    else .error (.misused (.unrecognized r.extras))

end Reading

def Request.ofWords (maxVariables : Int) (logLevel : String) (texts : List String) :
    Except Refusal Request :=
  match Word.ofTexts texts with
  | .error fault => .error (.misused fault)
  | .ok (words, behind) =>
    match Reading.read ⟨none, false, .text, none, some maxVariables, some logLevel, []⟩ words with
    | .error refusal => .error refusal
    | .ok reading => (behind.elim reading reading.takeBehind).finish

/-- How the program was called, and the name under which it writes its own log records. -/
structure Identity where
  command : String
  logName : String
  deriving DecidableEq, Repr

namespace Identity

def installed : Identity := ⟨"proptable", "main"⟩

def standalone : Identity := ⟨"main.py", "__main__"⟩

end Identity

def usage (who : Identity) : String :=
  let first := s!"usage: {who.command} "
  let margin := "".pushn ' ' first.length
  first ++ "[-h] [--format \x7btext,csv\x7d] [--output OUTPUT]\n" ++
    margin ++ "[--max_variables MAX_VARIABLES] [--log_level LOG_LEVEL]\n" ++
    margin ++ "expression\n"

def help (who : Identity) : String :=
  usage who ++ "\nPropositional logic truth table\n\n" ++
    "positional arguments:\n" ++
    "  expression            Expression using ∼ ∧ ∨ → and parentheses, e.g. \"p ∧ (q\n" ++
    "                        → r)\"\n\n" ++
    "options:\n" ++
    "  -h, --help            show this help message and exit\n" ++
    "  --format \x7btext,csv\x7d   Output format for the truth table\n" ++
    "  --output OUTPUT       Write the truth table to this file instead of stdout\n" ++
    "  --max_variables MAX_VARIABLES\n" ++
    "                        Reject expressions with more free variables than this\n" ++
    "  --log_level LOG_LEVEL\n" ++
    "                        Logging level (DEBUG, INFO, WARNING, ...)\n"

def complaint (who : Identity) (fault : UsageFault) : String :=
  usage who ++ s!"{who.command}: error: {fault.message}\n"

end TruthTables.CommandLine
