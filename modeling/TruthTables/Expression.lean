import TruthTables.Postfix
import TruthTables.Postfix.Form
import TruthTables.Token

namespace TruthTables

structure Expression where
  canonical : String
  code : List Token
  /-- The tokens as they were written. -/
  tokens : List Token
  deriving DecidableEq, Repr

namespace Expression

def names (ts : List Token) : List String :=
  ts.map (·.name)

def describe (e : Expression) : String :=
  s!"ParsedExpression({quoted e.canonical})"

def scan (text : String) : Logged (List Token) :=
  let tokens := tokensOf text
  let record := ⟨.lexer, .debug, s!"Lexed {tokens.length} tokens: {spelling tokens}"⟩
  ⟨tokens, [record]⟩

def codeOf (text : String) : Logged (List Token) := do
  convert (← scan text)

def rejection (text : String) (code : List Token) : LogRecord :=
  ⟨.parser, .info,
    s!"Rejected expression {quoted text} (postfix: {spelling code}, " ++
      s!"stack size: {stackSize code})"⟩

/-- A text of blanks holds no expression, which is not a fault; a text whose postfix form is not
well-formed is rejected. -/
def parse (text : String) : Attempt (Option Expression) :=
  if isBlankText text.toList then pure none
  else do
    let tokens ← ExceptT.lift (scan text)
    let code ← ExceptT.lift (convert tokens)
    if ← ExceptT.lift (checkWellFormed code) then
      match canonicalText code with
      | .ok canonical =>
        Attempt.write ⟨.parser, .debug, s!"Parsed {quoted text} -> {canonical}"⟩
        pure (some ⟨canonical, code, tokens⟩)
      | .error fault => Attempt.fail fault
    else
      Attempt.write (rejection text code)
      Attempt.fail (.rejected text (names code))

/-- No text at all holds no expression either. -/
def read (text : Option String) : Attempt (Option Expression) :=
  match text with
  | none => pure none
  | some text => parse text

/-- Whether the canonical text is read as the same expression again. -/
def isFixedPoint (e : Expression) : Attempt Bool := do
  match ← parse e.canonical with
  | some again =>
    pure (again.canonical == e.canonical && again.code.map Token.symbol == e.code.map Token.symbol)
  | none => pure false

end Expression

end TruthTables
