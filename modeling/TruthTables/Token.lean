import TruthTables.Text.Characters
import TruthTables.Text.Quoted

/-!
Tokens of propositional expressions: brackets, connectives, and words that name operands. A written
expression falls into pieces, each sign by itself and each longest run of characters that are
neither signs nor blanks, and `tokensOf` makes the token of every piece.
-/

namespace TruthTables

inductive TokenKind where
  | special
  | operand
  | operator
  deriving DecidableEq, Repr

def TokenKind.name : TokenKind → String
  | special => "special"
  | operand => "operand"
  | operator => "operator"

/-- Nothing ties the parts of a token to one another: a token that was not made from a text may be
an operand called `(` or a connective of any arity. -/
structure Token where
  kind : TokenKind
  name : String
  arity : Int
  precedence : Int
  deriving DecidableEq, Repr

namespace Token

def special (name : String) : Token := ⟨.special, name, 0, 0⟩

def operand (name : String) : Token := ⟨.operand, name, 0, 0⟩

def operator (name : String) (arity precedence : Int) : Token :=
  ⟨.operator, name, arity, precedence⟩

def opening : Token := special "("

def closing : Token := special ")"

def negation : Token := operator "∼" 1 4

def conjunction : Token := operator "∧" 2 3

def disjunction : Token := operator "∨" 2 2

def implication : Token := operator "→" 2 1

def signs : List Token :=
  [opening, closing, negation, conjunction, disjunction, implication]

/-- A text that is no sign is an operand, whatever its characters: whether it may name a variable
is decided later. -/
def ofText (text : String) : Token :=
  (signs.find? fun t => t.name == text).getD (operand text)

theorem name_ofText (text : String) : (ofText text).name = text := by
  unfold ofText
  cases h : signs.find? fun t => t.name == text with
  | none => rfl
  | some t => simpa using List.find?_some h

/-- What makes two tokens the same token: arity and precedence follow from it for every token that
was made from a text. -/
def symbol (t : Token) : TokenKind × String :=
  (t.kind, t.name)

def sameAs (a b : Token) : Bool :=
  a.symbol == b.symbol

def distinct (ts : List Token) : Nat :=
  (ts.map symbol).eraseDups.length

def describe (t : Token) : String :=
  s!"Token({t.kind.name}, {quoted t.name})"

/-- Only connectives bind. -/
def binding (t : Token) : Int :=
  if t.kind = .operator then t.precedence else 0

def literal? (name : String) : Option Bool :=
  if name = "T" then some true else if name = "F" then some false else none

def isLiteral (t : Token) : Bool :=
  t.kind == .operand && (literal? t.name).isSome

end Token

def spelling (ts : List Token) : String :=
  " ".intercalate (ts.map (·.name))

namespace Identifier

def isStart (c : Char) : Bool :=
  c.isAlpha || c == '_'

def isPart (c : Char) : Bool :=
  c.isAlphanum || c == '_'

end Identifier

/-- The words that may name a variable: letters, digits and low lines of ASCII, with no digit in
front. -/
def isIdentifier (name : String) : Bool :=
  match name.toList with
  | [] => false
  | c :: cs => Identifier.isStart c && cs.all Identifier.isPart

def isSign (c : Char) : Bool :=
  c == '(' || c == ')' || c == '∼' || c == '∧' || c == '∨' || c == '→'

def isWordChar (c : Char) : Bool :=
  !isSign c && !isBlank c

def extendFirst (c : Char) : List (List Char) → List (List Char)
  | [] => [[c]]
  | piece :: rest => (c :: piece) :: rest

/-- Reads from the right: a word character joins the piece behind it exactly if that piece begins
with the next character and is a word. -/
def pieces : List Char → List (List Char)
  | [] => []
  | c :: cs =>
    if isSign c then [c] :: pieces cs
    else if isBlank c then pieces cs
    else if cs.head?.any isWordChar then extendFirst c (pieces cs)
    else [c] :: pieces cs

theorem flatten_pieces (cs : List Char) :
    (pieces cs).flatten = cs.filter fun c => isSign c || !isBlank c := by
  induction cs with
  | nil => rfl
  | cons c cs ih =>
    have extend (ps : List (List Char)) : (extendFirst c ps).flatten = c :: ps.flatten := by
      cases ps <;> rfl
    by_cases hs : isSign c
    · simp [pieces, hs, ih]
    by_cases hb : isBlank c
    · simp [pieces, hs, hb, ih]
    by_cases hw : cs.head?.any isWordChar
    · simp [pieces, hs, hb, hw, extend, ih]
    · simp [pieces, hs, hb, hw, ih]

def piecesOf (text : String) : List String :=
  (pieces text.toList).map String.ofList

def tokensOf (text : String) : List Token :=
  (piecesOf text).map Token.ofText

theorem map_name_tokensOf (text : String) : (tokensOf text).map (·.name) = piecesOf text := by
  simp [tokensOf, Function.comp_def, Token.name_ofText]

end TruthTables
