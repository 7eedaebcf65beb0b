import TruthTables.Fault

namespace TruthTables

structure Settings where
  maxVariables : Int := 20
  /-- Tables with more variables are built with a warning. -/
  warnVariables : Int := 16
  trueSymbol : String := "T"
  falseSymbol : String := "F"
  idleHeading : String := "The truth table of: "
  invalidHeading : String := "Invalid expression."
  logLevel : String := "INFO"
  /-- Whether a carriage return is quoted as a line break among values separated by commas. That is
  not chosen: what writes the values differs in it from version to version. -/
  returnsBreak : Bool := false
  deriving DecidableEq, Repr

namespace Settings

def fault? (s : Settings) : Option Fault :=
  if ¬(0 ≤ s.warnVariables ∧ s.warnVariables ≤ s.maxVariables) then some .warnLimitOutOfRange
  else if s.trueSymbol = s.falseSymbol then some .sameSymbols
  else none

def symbol (s : Settings) (value : Bool) : String :=
  if value then s.trueSymbol else s.falseSymbol

def heading (s : Settings) (invalid : Bool) (expression : Option String) : String :=
  if invalid then s.invalidHeading else s.idleHeading ++ expression.getD ""

theorem symbol_injective {s : Settings} (h : s.fault? = none) {a b : Bool}
    (hab : s.symbol a = s.symbol b) : a = b := by
  have hne : s.trueSymbol ≠ s.falseSymbol := by
    intro heq
    simp [fault?, heq] at h
    split at h <;> simp at h
  cases a <;> cases b <;> simp_all [symbol, eq_comm]

end Settings

end TruthTables
