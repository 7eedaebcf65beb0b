import TruthTables.Fault

/-!
Log records as data. `Logged` pairs a value with the records written on the way to it, and
`Attempt` is a computation that may end in a fault and keeps its records then too.
-/

namespace TruthTables

inductive Level where
  | debug
  | info
  | warning
  | error
  deriving DecidableEq, Repr

namespace Level

def name : Level → String
  | debug => "DEBUG"
  | info => "INFO"
  | warning => "WARNING"
  | error => "ERROR"

/-- Records are shown from a least weight on. -/
def weight : Level → Nat
  | debug => 10
  | info => 20
  | warning => 30
  | error => 40

end Level

inductive Source where
  | lexer
  | converter
  | validator
  | parser
  | evaluator
  | generator
  | program
  deriving DecidableEq, Repr

namespace Source

def name : Source → String
  | lexer => "core.lexer"
  | converter => "core.converter"
  | validator => "core.token_system"
  | parser => "core.parser"
  | evaluator => "core.rpn_evaluator"
  | generator => "table.generator"
  | program => "main"

end Source

structure LogRecord where
  source : Source
  level : Level
  message : String
  deriving DecidableEq, Repr

structure Logged (α : Type) where
  value : α
  records : List LogRecord

namespace Logged

instance : Monad Logged where
  pure a := ⟨a, []⟩
  bind x f :=
    let y := f x.value
    ⟨y.value, x.records ++ y.records⟩

def write (record : LogRecord) : Logged Unit :=
  ⟨(), [record]⟩

end Logged

abbrev Attempt := ExceptT Fault Logged

namespace Attempt

/-- What an attempt ends in, without its records. -/
def outcome {α : Type} (x : Attempt α) : Except Fault α :=
  (ExceptT.run x).value

def records {α : Type} (x : Attempt α) : List LogRecord :=
  (ExceptT.run x).records

def write (record : LogRecord) : Attempt Unit :=
  ExceptT.lift (Logged.write record)

def writeAll (records : List LogRecord) : Attempt Unit :=
  ExceptT.lift ⟨(), records⟩

def fail {α : Type} (fault : Fault) : Attempt α :=
  throw fault

/-- An attempt whose fault, if any, is looked at and not passed on. -/
def caught {α : Type} (x : Attempt α) : Attempt (Except Fault α) :=
  ExceptT.lift (ExceptT.run x)

@[simp] theorem outcome_pure {α : Type} (a : α) : outcome (pure a) = .ok a := rfl

@[simp] theorem outcome_fail {α : Type} (fault : Fault) :
    outcome (fail fault : Attempt α) = .error fault := rfl

@[simp] theorem outcome_write (record : LogRecord) : outcome (write record) = .ok () := rfl

@[simp] theorem outcome_writeAll (rs : List LogRecord) : outcome (writeAll rs) = .ok () := rfl

@[simp] theorem outcome_lift {α : Type} (x : Logged α) :
    outcome (ExceptT.lift x) = .ok x.value := rfl

@[simp] theorem outcome_caught {α : Type} (x : Attempt α) :
    outcome (caught x) = .ok (outcome x) := rfl

@[simp] theorem outcome_bind {α β : Type} (x : Attempt α) (f : α → Attempt β) :
    outcome (x >>= f) = (outcome x).bind fun a => outcome (f a) := by
  change (ExceptT.bindCont f (ExceptT.run x).value).value = _
  unfold outcome
  cases (ExceptT.run x).value <;> rfl

end Attempt

/-- Puts numbers into messages. A writer may refuse a number that is too long for it. -/
abbrev NumberWriter := Int → Except Fault String

namespace NumberWriter

def unlimited : NumberWriter :=
  fun n => .ok (toString n)

def text (writer : NumberWriter) (n : Int) : Attempt String :=
  ExceptT.mk (pure (writer n))

@[simp] theorem outcome_text (writer : NumberWriter) (n : Int) :
    (writer.text n).outcome = writer n := rfl

end NumberWriter

end TruthTables
