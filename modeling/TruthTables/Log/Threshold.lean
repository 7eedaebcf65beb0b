import TruthTables.Entries
import TruthTables.Log

namespace TruthTables

/-- A way to mark the places in a layout that a log record fills. -/
structure LayoutStyle where
  sign : String
  name : String
  opening : String
  closing : String
  deriving DecidableEq, Repr

namespace LayoutStyle

def percent : LayoutStyle := ⟨"%", "PercentStyle", "%(", ")s"⟩

def braces : LayoutStyle := ⟨"\x7b", "StrFormatStyle", "\x7b", "\x7d"⟩

def dollar : LayoutStyle := ⟨"$", "StringTemplateStyle", "$\x7b", "\x7d"⟩

def layout (style : LayoutStyle) : String :=
  ":".intercalate (["levelname", "name", "message"].map fun place =>
    style.opening ++ place ++ style.closing)

def describe (style : LayoutStyle) : String :=
  s!"{quoted style.sign}: (<class 'logging.{style.name}'>, {quoted style.layout})"

def describeAll : String :=
  "\x7b" ++ ", ".intercalate ([percent, braces, dollar].map describe) ++ "\x7d"

end LayoutStyle

namespace Threshold

/-- The characters outside ASCII whose capitals are letters of ASCII. -/
def capitalsOutside : List (Char × List Char) :=
  [('ß', ['S', 'S']), ('ı', ['I']), ('ſ', ['S']), ('ﬀ', ['F', 'F']), ('ﬁ', ['F', 'I']),
    ('ﬂ', ['F', 'L']), ('ﬃ', ['F', 'F', 'I']), ('ﬄ', ['F', 'F', 'L']), ('ﬅ', ['S', 'T']),
    ('ﬆ', ['S', 'T'])]

/-- Any other character outside ASCII may stay as it is, since no word holds its capitals. -/
def capitals (c : Char) : List Char :=
  ((capitalsOutside.find? fun entry => entry.1 == c).map (·.2)).getD [c.toUpper]

def weights : List (String × Nat) :=
  [("NOTSET", 0), ("DEBUG", 10), ("INFO", 20), ("WARN", 30), ("WARNING", 30), ("ERROR", 40),
    ("CRITICAL", 50), ("FATAL", 50)]

/-- The least weight that a word asks for, in small letters or capitals. A word that names neither
a level nor layouts asks for information. -/
def ofWord (word : String) : Except Fault Nat :=
  let upper := String.ofList (word.toList.flatMap capitals)
  if upper = "BASIC_FORMAT" then .error (.unknownLevel LayoutStyle.percent.layout)
  else if upper = "_STYLES" then .error (.unfitLevel LayoutStyle.describeAll)
  else .ok ((Entries.get? upper weights).getD Level.info.weight)

end Threshold

end TruthTables
