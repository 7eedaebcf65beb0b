import TruthTables.Postfix.Evaluation
import TruthTables.Postfix.Form

/-!
Formulas as trees: what a well-formed postfix sequence stands for. Each of the three stack machines
reads the postorder of a formula as one value on top of an unchanged stack.
-/

namespace TruthTables

def Connective.token : Connective → Token
  | and => .conjunction
  | or => .disjunction
  | implies => .implication

/-- The truth tables: both sides, one of them at least, no true premise with a false conclusion. -/
def Connective.table : Connective → Bool → Bool → Bool
  | and, true, true => true
  | and, _, _ => false
  | or, false, false => false
  | or, _, _ => true
  | implies, true, false => false
  | implies, _, _ => true

theorem Connective.apply_eq_table (c : Connective) (a b : Bool) : c.apply a b = c.table a b := by
  cases c <;> cases a <;> cases b <;> rfl

inductive Formula where
  | atom (name : String)
  | not (inner : Formula)
  | join (c : Connective) (left right : Formula)
  deriving DecidableEq, Repr

namespace Formula

/-- Every atom has a name that a variable may have. -/
def IsNamed : Formula → Prop
  | atom name => isIdentifier name = true
  | not inner => inner.IsNamed
  | join _ left right => left.IsNamed ∧ right.IsNamed

/-- The postorder: operands first, then what joins them. -/
def code : Formula → List Token
  | atom name => [Token.ofText name]
  | not inner => inner.code ++ [.negation]
  | join c left right => left.code ++ right.code ++ [c.token]

/-- Infix, with brackets around every use of a connective. -/
def text : Formula → String
  | atom name => name
  | not inner => "(∼" ++ inner.text ++ ")"
  | join c left right => "(" ++ left.text ++ " " ++ c.sign ++ " " ++ right.text ++ ")"

/-- The atoms that have one value in every row. -/
def constant? : String → Option Bool
  | "T" => some true
  | "F" => some false
  | _ => none

/-- The truth value when the atoms have the given ones; the constants have their own. -/
def truth (values : String → Bool) : Formula → Bool
  | atom name => (constant? name).getD (values name)
  | not inner => !inner.truth values
  | join c left right => c.table (left.truth values) (right.truth values)

theorem literal?_eq_constant? (name : String) : Token.literal? name = constant? name := by
  by_cases htrue : name = "T"
  · rw [htrue]
    rfl
  by_cases hfalse : name = "F"
  · rw [hfalse]
    rfl
  simp [Token.literal?, constant?, htrue, hfalse]

theorem truth_atom (values : String → Bool) (name : String) :
    (atom name).truth values = (Token.literal? name).getD (values name) := by
  rw [truth, literal?_eq_constant?]

theorem truth_join (values : String → Bool) (c : Connective) (f g : Formula) :
    (join c f g).truth values = c.apply (f.truth values) (g.truth values) := by
  rw [truth, Connective.apply_eq_table]

end Formula

theorem Connective.kind_token (c : Connective) : c.token.kind = .operator := by
  cases c <;> rfl

theorem Connective.name_token (c : Connective) : c.token.name = c.sign := by
  cases c <;> rfl

theorem Connective.arity_token (c : Connective) : c.token.arity = 2 := by
  cases c <;> rfl

theorem Token.ofText_of_isIdentifier {name : String} (h : isIdentifier name = true) :
    Token.ofText name = Token.operand name := by
  have hs : ∀ t ∈ Token.signs, isIdentifier t.name = false := by decide
  unfold Token.ofText
  rw [List.find?_eq_none.mpr]
  · rfl
  · intro t ht hname
    rw [beq_iff_eq] at hname
    have := hs t ht
    rw [hname, h] at this
    contradiction

namespace Postfix

theorem defectFrom_apply {t : Token} (hkind : t.kind = .operator) {size : Int}
    (h : t.arity ≤ size) (ts : List Token) :
    defectFrom size (t :: ts) = defectFrom (size - t.arity + 1) ts := by
  simp only [defectFrom, hkind]
  rw [if_neg (by omega)]

theorem defectFrom_code (f : Formula) (hf : f.IsNamed) {size : Int} (hsize : 0 ≤ size)
    (ts : List Token) : defectFrom size (f.code ++ ts) = defectFrom (size + 1) ts := by
  induction f generalizing size ts with
  | atom name =>
    have hname : isIdentifier name = true := hf
    simp [Formula.code, Token.ofText_of_isIdentifier hname, Token.operand, defectFrom, hname]
  | not inner ih =>
    have harity : Token.negation.arity = 1 := rfl
    rw [Formula.code, List.append_assoc, ih hf hsize, List.singleton_append,
      defectFrom_apply rfl (by omega), harity]
    congr 1
    omega
  | join c left right ihLeft ihRight =>
    have harity := c.arity_token
    rw [Formula.code, List.append_assoc, List.append_assoc, ihLeft hf.1 hsize,
      ihRight hf.2 (by omega), List.singleton_append,
      defectFrom_apply c.kind_token (by omega), harity]
    congr 1
    omega

end Postfix

theorem isWellFormed_code (f : Formula) (hf : f.IsNamed) : isWellFormed f.code = true := by
  have h := Postfix.defectFrom_code f hf (Int.le_refl 0) []
  rw [List.append_nil] at h
  simp [isWellFormed, defect?, h, Postfix.defectFrom]

namespace Canonical

theorem run_code (f : Formula) (hf : f.IsNamed) (stack : List String) (ts : List Token) :
    run stack (f.code ++ ts) = run (f.text :: stack) ts := by
  induction f generalizing stack ts with
  | atom name =>
    have hname : isIdentifier name = true := hf
    simp only [Formula.code, Token.ofText_of_isIdentifier hname]
    rfl
  | not inner ih =>
    rw [Formula.code, List.append_assoc, ih hf]
    rfl
  | join c left right ihLeft ihRight =>
    rw [Formula.code, List.append_assoc, List.append_assoc, ihLeft hf.1, ihRight hf.2]
    cases c <;> rfl

end Canonical

theorem canonicalText_code (f : Formula) (hf : f.IsNamed) : canonicalText f.code = .ok f.text := by
  have h := Canonical.run_code f hf [] []
  rw [List.append_nil] at h
  rw [canonicalText, h]
  rfl

/-- The operations of an interpretation compute a meaning of formulas. -/
structure Interpretation.Computes {α : Type} (I : Interpretation α) (meaning : Formula → α) :
    Prop where
  not (f : Formula) : I.negate (meaning f) = meaning f.not
  join (c : Connective) (f g : Formula) :
    I.connect c (meaning f) (meaning g) = .ok (meaning (.join c f g))

namespace Evaluation

theorem step_negation {α : Type} (I : Interpretation α) (values : Assignment α) (a : α)
    (rest : List α) : step I values (a :: rest) .negation = .ok (I.negate a :: rest) := by
  simp only [step, Token.negation, Token.operator, applyOperator]
  rw [if_neg (by simp only [List.length_cons]; omega)]
  rfl

theorem step_join {α : Type} {I : Interpretation α} {c : Connective} {left right value : α}
    (h : I.connect c left right = .ok value) (values : Assignment α) (rest : List α) :
    step I values (right :: left :: rest) c.token = .ok (value :: rest) := by
  simp only [step, Connective.kind_token, applyOperator, Connective.arity_token,
    Connective.name_token, Connective.ofSign?_sign, h]
  rw [if_neg (by simp only [List.length_cons]; omega), if_neg (by decide)]

/-- Where the atoms have their meaning, a formula is read as its meaning. -/
theorem runFrom_code_of_computes {α : Type} {I : Interpretation α} {meaning : Formula → α}
    (hI : I.Computes meaning) {values : Assignment α} (f : Formula) (hf : f.IsNamed)
    (h : ∀ name, Token.operand name ∈ f.code →
      operandValue I values name = .ok (meaning (.atom name)))
    (stack : List α) (ts : List Token) :
    runFrom I values stack (f.code ++ ts) = runFrom I values (meaning f :: stack) ts := by
  induction f generalizing stack ts with
  | atom name =>
    have hname : isIdentifier name = true := hf
    have hvalue := h name (by simp [Formula.code, Token.ofText_of_isIdentifier hname])
    simp only [Formula.code, Token.ofText_of_isIdentifier hname, List.singleton_append, runFrom,
      step, Token.operand, hvalue]
    rfl
  | not inner ih =>
    have hinner := ih hf fun name hmem => h name (by simp [Formula.code, hmem])
    rw [Formula.code, List.append_assoc, hinner, List.singleton_append, runFrom, step_negation,
      hI.not]
    rfl
  | join c left right ihLeft ihRight =>
    rw [Formula.code, List.append_assoc, List.append_assoc,
      ihLeft hf.1 fun name hmem => h name (by simp [Formula.code, hmem]),
      ihRight hf.2 fun name hmem => h name (by simp [Formula.code, hmem]), List.singleton_append,
      runFrom, step_join (hI.join c left right)]
    rfl

/-- The assignment gives an atom the truth value that it has under the valuation. -/
def Agrees (values : Assignment Scalar) (valuation : String → Bool) (name : String) : Prop :=
  operandValue .scalars values name = .ok (some ((Formula.atom name).truth valuation))

theorem computes_truth (valuation : String → Bool) :
    Interpretation.scalars.Computes fun f => some (f.truth valuation) where
  not _ := rfl
  join c f g := by
    rw [Formula.truth_join]
    rfl

theorem runFrom_code (f : Formula) (hf : f.IsNamed) {values : Assignment Scalar}
    {valuation : String → Bool}
    (h : ∀ name, Token.operand name ∈ f.code → Agrees values valuation name)
    (stack : List Scalar) (ts : List Token) :
    runFrom .scalars values stack (f.code ++ ts) =
      runFrom .scalars values (some (f.truth valuation) :: stack) ts :=
  runFrom_code_of_computes (computes_truth valuation) f hf h stack ts

end Evaluation

namespace Formula

/-- The levels of the grammar, each of which takes in the ones above it. -/
inductive Rank where
  | primary
  | unary
  | conjunction
  | disjunction
  | implication
  deriving DecidableEq, Repr

inductive Derives : Rank → List Token → Formula → Prop where
  | name {name : String} (h : isIdentifier name = true) :
      Derives .primary [Token.ofText name] (atom name)
  | group {ts : List Token} {f : Formula} (h : Derives .implication ts f) :
      Derives .primary (.opening :: ts ++ [.closing]) f
  | ofPrimary {ts : List Token} {f : Formula} (h : Derives .primary ts f) : Derives .unary ts f
  | negation {ts : List Token} {f : Formula} (h : Derives .primary ts f) :
      Derives .unary (.negation :: ts) (not f)
  | ofUnary {ts : List Token} {f : Formula} (h : Derives .unary ts f) : Derives .conjunction ts f
  | conjunction {as bs : List Token} {f g : Formula} (hf : Derives .conjunction as f)
      (hg : Derives .unary bs g) :
      Derives .conjunction (as ++ .conjunction :: bs) (join .and f g)
  | ofConjunction {ts : List Token} {f : Formula} (h : Derives .conjunction ts f) :
      Derives .disjunction ts f
  | disjunction {as bs : List Token} {f g : Formula} (hf : Derives .disjunction as f)
      (hg : Derives .conjunction bs g) :
      Derives .disjunction (as ++ .disjunction :: bs) (join .or f g)
  | ofDisjunction {ts : List Token} {f : Formula} (h : Derives .disjunction ts f) :
      Derives .implication ts f
  | implication {as bs : List Token} {f g : Formula} (hf : Derives .implication as f)
      (hg : Derives .disjunction bs g) :
      Derives .implication (as ++ .implication :: bs) (join .implies f g)

theorem Derives.isNamed {rank : Rank} {ts : List Token} {f : Formula} (h : Derives rank ts f) :
    f.IsNamed := by
  induction h with
  | name h => exact h
  | group _ ih => exact ih
  | ofPrimary _ ih => exact ih
  | negation _ ih => exact ih
  | ofUnary _ ih => exact ih
  | conjunction _ _ ihf ihg => exact ⟨ihf, ihg⟩
  | ofConjunction _ ih => exact ih
  | disjunction _ _ ihf ihg => exact ⟨ihf, ihg⟩
  | ofDisjunction _ ih => exact ih
  | implication _ _ ihf ihg => exact ⟨ihf, ihg⟩

end Formula

end TruthTables
