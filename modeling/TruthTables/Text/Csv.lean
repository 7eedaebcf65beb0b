/-!
Comma-separated values. A field that holds a comma, a quote or a line break stands in quotes, with
the quotes inside it doubled. Whether a carriage return breaks a line is not the same for all who
write or read. `decode` takes a document apart again.
-/

namespace TruthTables.Csv

/-- A line feed always breaks a line, a carriage return only where it is said to. -/
def isBreak (returns : Bool) (c : Char) : Bool :=
  c == '\n' || (returns && c == '\r')

def needsQuotes (returns : Bool) (field : List Char) : Bool :=
  field.any fun c => c == ',' || c == '"' || isBreak returns c

def doubled (field : List Char) : List Char :=
  field.flatMap fun c => if c = '"' then ['"', '"'] else [c]

def encodeField (returns : Bool) (field : List Char) : List Char :=
  if needsQuotes returns field then '"' :: doubled field ++ ['"'] else field

/-- A record that is one empty field stands in quotes, since an empty line could be none. -/
def encodeRecord (returns : Bool) : List (List Char) → List Char
  | [[]] => ['"', '"']
  | fields => List.intercalate [','] (fields.map (encodeField returns))

def encode (returns : Bool) (records : List (List (List Char))) : List Char :=
  records.flatMap fun fields => encodeRecord returns fields ++ ['\n']

def document (returns : Bool) (records : List (List String)) : String :=
  records.foldl
    (fun text fields =>
      (text ++ String.ofList (encodeRecord returns (fields.map String.toList))).push '\n') ""

private theorem toList_fold (returns : Bool) (text : String) (records : List (List String)) :
    (records.foldl
        (fun text fields =>
          (text ++ String.ofList (encodeRecord returns (fields.map String.toList))).push '\n')
        text).toList =
      text.toList ++ encode returns (records.map fun fields => fields.map String.toList) := by
  induction records generalizing text with
  | nil => simp [encode]
  | cons fields rest ih =>
    rw [List.foldl_cons, ih]
    simp [encode]

theorem toList_document (returns : Bool) (records : List (List String)) :
    (document returns records).toList =
      encode returns (records.map fun fields => fields.map String.toList) := by
  rw [document, toList_fold]
  rfl

/-- Where a reader stands: in front of a field, behind a carriage return that broke a line, in a bare
field, in a quoted one, or behind a quote inside a quoted one. -/
inductive Place where
  | start
  | returned
  | bare
  | inside
  | closed
  deriving DecidableEq, Repr

/-- What a reader has gathered, latest first: finished records, the finished fields of the record
at hand, and the characters of the field at hand. -/
structure Reader where
  place : Place
  records : List (List (List Char))
  fields : List (List Char)
  field : List Char
  deriving DecidableEq, Repr

namespace Reader

def empty : Reader := ⟨.start, [], [], []⟩

def endField (r : Reader) : Reader :=
  ⟨.start, r.records, r.field.reverse :: r.fields, []⟩

def endRecord (r : Reader) (place : Place) : Reader :=
  ⟨place, (r.field.reverse :: r.fields).reverse :: r.records, [], []⟩

def gather (r : Reader) (place : Place) (c : Char) : Reader :=
  ⟨place, r.records, r.fields, c :: r.field⟩

/-- Outside quotes a comma ends the field and a line break the record. -/
def readBare (returns : Bool) (r : Reader) (c : Char) : Reader :=
  if c = ',' then r.endField
  else if isBreak returns c then r.endRecord (if c = '\r' then .returned else .start)
  else r.gather .bare c

/-- Inside quotes every character but the quote is text, and a quote twice in a row is a quote. A
line feed belongs to the carriage return before it. -/
def read (returns : Bool) (r : Reader) (c : Char) : Reader :=
  match r.place with
  | .inside => if c = '"' then { r with place := .closed } else r.gather .inside c
  | .closed => if c = '"' then r.gather .inside c else r.readBare returns c
  | .start => if c = '"' then { r with place := .inside } else r.readBare returns c
  | .returned =>
    if c = '"' then { r with place := .inside }
    else if c = '\n' then { r with place := .start }
    else r.readBare returns c
  | .bare => r.readBare returns c

end Reader

/-- The records of a document in which every record ends its line. -/
def decode (returns : Bool) (cs : List Char) : List (List (List Char)) :=
  (cs.foldl (Reader.read returns) Reader.empty).records.reverse

end TruthTables.Csv
