import TruthTables.Proofs.Formula.Tabulation
import TruthTables.Proofs.Postfix.Readability

namespace TruthTables

/-- Formulas as values: the machine puts together the formula that it reads. -/
def Interpretation.formulas : Interpretation Formula where
  literal b := .atom (if b then "T" else "F")
  negate := .not
  connect c left right := .ok (.join c left right)

theorem Evaluation.computes_id : Interpretation.formulas.Computes id where
  not _ := rfl
  join _ _ _ := rfl

theorem Formula.result_formulas {f : Formula} (hf : f.IsNamed) :
    Evaluation.result .formulas (fun name => some (.atom name)) f.code = .ok f := by
  have hvalues : ∀ name, Token.operand name ∈ f.code →
      Evaluation.operandValue .formulas (fun name => some (.atom name)) name =
        .ok (id (.atom name)) := fun _ _ => rfl
  have hrun := Evaluation.runFrom_code_of_computes Evaluation.computes_id f hf hvalues [] []
  rw [List.append_nil] at hrun
  exact Evaluation.result_eq_ok_iff.mpr hrun

theorem Formula.code_injOn {f g : Formula} (hf : f.IsNamed) (hg : g.IsNamed)
    (h : f.code = g.code) : f = g := by
  have hread := Formula.result_formulas hf
  rw [h, Formula.result_formulas hg] at hread
  exact (Except.ok.inj hread).symm

theorem Formula.run_canonical {f : Formula} (hf : f.IsNamed) :
    Canonical.run [] f.code = .ok [f.text] := by
  have hrun := Canonical.run_code f hf [] []
  rw [List.append_nil] at hrun
  exact hrun

namespace Evaluation

theorem agrees_of_covers {ts : List Token} {a : Assignment Bool}
    (hcovers : ∀ name ∈ freeVariables ts, (a name).isSome = true) (hT : a "T" = none)
    (hF : a "F" = none) {name : String} (hname : Token.operand name ∈ ts) :
    Agrees (mapAssignment some a) (fun name => (a name).getD false) name := by
  unfold Agrees operandValue mapAssignment
  rw [Formula.truth_atom]
  cases hliteral : Token.literal? name with
  | none =>
      have hmem : name ∈ freeVariables ts := mem_freeVariables.mpr ⟨hliteral, _, hname, rfl, rfl⟩
      obtain ⟨b, hb⟩ := Option.isSome_iff_exists.mp (hcovers name hmem)
      simp [hb]
  | some b =>
      have hnone : a name = none := by
        rcases Token.literal?_isSome_iff.mp (by rw [hliteral]; rfl) with rfl | rfl
        · exact hT
        · exact hF
      simp [hnone, Interpretation.scalars]

/-- An operand that the check lets pass and that has a truth value. -/
def Valued (values : Assignment Scalar) (t : Token) : Prop :=
  t.kind = .operand → isIdentifier t.name = true ∧ ∃ b, values t.name = some (some b)

variable {values : Assignment Scalar}

theorem refused_of_underflow {t : Token} (hkind : t.kind = .operator) {stack : List Bool}
    (h : (stack.length : Int) < t.arity) :
    (∃ reason, step .scalars values (stack.map some) t = .error (.refused reason)) ∧
      ∀ ts, Postfix.defectFrom stack.length (t :: ts) ≠ none := by
  constructor
  · refine ⟨.insufficientOperands t.name, ?_⟩
    simp [step, hkind, applyOperator, h]
  · intro ts
    simp [Postfix.defectFrom, hkind, h]

theorem step_cases {t : Token} (ht : t.FromText) (hvalued : Valued values t) (stack : List Bool) :
    (∃ next : List Bool, step .scalars values (stack.map some) t = .ok (next.map some) ∧
        ∀ ts, Postfix.defectFrom stack.length (t :: ts) = Postfix.defectFrom next.length ts) ∨
      ((∃ reason, step .scalars values (stack.map some) t = .error (.refused reason)) ∧
        ∀ ts, Postfix.defectFrom stack.length (t :: ts) ≠ none) := by
  -- On a token that was made from a text the evaluation goes on exactly if the check does, and
  -- then as many values wait as are counted.
  rcases ht.cases with rfl | rfl | rfl | ⟨c, rfl⟩ | hoperand
  · refine .inr ⟨⟨_, rfl⟩, fun ts => ?_⟩
    simp [Postfix.defectFrom, Token.opening, Token.special]
  · refine .inr ⟨⟨_, rfl⟩, fun ts => ?_⟩
    simp [Postfix.defectFrom, Token.closing, Token.special]
  · have harity : Token.negation.arity = 1 := rfl
    rcases stack with _ | ⟨a, rest⟩
    · exact .inr (refused_of_underflow rfl (by simp [harity]))
    · refine .inl ⟨(!a) :: rest, step_negation .scalars values (some a) (rest.map some), ?_⟩
      intro ts
      rw [Postfix.defectFrom_apply rfl (by simp only [harity, List.length_cons]; omega), harity]
      congr 1
      simp only [List.length_cons]
      omega
  · have harity := c.arity_token
    rcases stack with _ | ⟨right, _ | ⟨left, rest⟩⟩
    · exact .inr (refused_of_underflow c.kind_token (by simp [harity]))
    · exact .inr (refused_of_underflow c.kind_token (by simp [harity]))
    · refine .inl ⟨c.apply left right :: rest, step_join rfl values (rest.map some), ?_⟩
      intro ts
      rw [Postfix.defectFrom_apply c.kind_token (by simp only [harity, List.length_cons]; omega),
        harity]
      congr 1
      simp only [List.length_cons]
      omega
  · have hkind : t.kind = .operand := by rw [hoperand]; rfl
    obtain ⟨hname, b, hb⟩ := hvalued hkind
    refine .inl ⟨b :: stack, ?_, fun ts => ?_⟩
    · simp [step, hkind, operandValue, hb, Except.map]
    · simp [Postfix.defectFrom, hkind, hname]

theorem runFrom_cases {ts : List Token} (hts : ∀ t ∈ ts, t.FromText)
    (hvalued : ∀ t ∈ ts, Valued values t) (stack : List Bool) :
    (Postfix.defectFrom stack.length ts = none ∧
        ∃ b, runFrom .scalars values (stack.map some) ts = .ok [some b]) ∨
      (Postfix.defectFrom stack.length ts ≠ none ∧
        ((∃ reason, runFrom .scalars values (stack.map some) ts = .error (.refused reason)) ∨
          ∃ next, runFrom .scalars values (stack.map some) ts = .ok next ∧ next.length ≠ 1)) := by
  induction ts generalizing stack with
  | nil =>
      rcases stack with _ | ⟨b, _ | ⟨b', rest⟩⟩
      · exact .inr ⟨by simp [Postfix.defectFrom], .inr ⟨[], rfl, by simp⟩⟩
      · exact .inl ⟨by simp [Postfix.defectFrom], b, rfl⟩
      · refine .inr ⟨?_, .inr ⟨_, rfl, by simp⟩⟩
        simp only [Postfix.defectFrom, List.length_cons]
        rw [if_neg (by omega)]
        simp
  | cons t ts ih =>
      rw [List.forall_mem_cons] at hts hvalued
      rw [runFrom]
      rcases step_cases hts.1 hvalued.1 stack with
        ⟨next, hstep, hdefect⟩ | ⟨⟨reason, hstep⟩, hdefect⟩
      · rw [hdefect, hstep]
        exact ih hts.2 hvalued.2 next
      · rw [hstep]
        exact .inr ⟨hdefect ts, .inl ⟨reason, rfl⟩⟩

end Evaluation

theorem evaluate_eq_none_iff {ts : List Token} (hts : ∀ t ∈ ts, t.FromText)
    {values : Assignment Scalar} (hvalued : ∀ t ∈ ts, Evaluation.Valued values t) :
    (evaluate ts values).outcome = .ok none ↔ isWellFormed ts = false := by
  have hdefect {d : Option Postfix.Defect} (h : d ≠ none) : d.isNone = false := by
    rw [← Bool.not_eq_true, Option.isNone_iff_eq_none]
    exact h
  rw [outcome_evaluate, Evaluation.result, isWellFormed, defect?]
  rcases Evaluation.runFrom_cases hts hvalued [] with
    ⟨hnone, b, hrun⟩ | ⟨hsome, ⟨reason, hrun⟩ | ⟨next, hrun, hlength⟩⟩
  · change Postfix.defectFrom 0 ts = none at hnone
    change Evaluation.runFrom .scalars values [] ts = _ at hrun
    rw [hnone, hrun]
    simp [Except.bind]
  · change Evaluation.runFrom .scalars values [] ts = _ at hrun
    exact iff_of_true (by rw [hrun]; rfl) (hdefect hsome)
  · change Evaluation.runFrom .scalars values [] ts = _ at hrun
    refine iff_of_true ?_ (hdefect hsome)
    rcases next with _ | ⟨a, _ | ⟨b, rest⟩⟩
    · rw [hrun]
      rfl
    · simp at hlength
    · rw [hrun]
      rfl

/-- A sequence of tokens that were made from texts is well-formed exactly if it is the postorder of
a formula. That formula is the only one, the canonical text spells it and the evaluation gives its
truth value. Where all operands are identifiers with truth values, only a sequence that is not
well-formed has no value. -/
theorem postfix_reading (names : List String) :
    (isWellFormed (names.map Token.ofText) = true ↔
      ∃ f : Formula, f.IsNamed ∧ f.code = names.map Token.ofText) ∧
    (∀ f : Formula, f.IsNamed → f.code = names.map Token.ofText →
      (∀ g : Formula, g.IsNamed → g.code = names.map Token.ofText → g = f) ∧
      Canonical.run [] (names.map Token.ofText) = .ok [f.text] ∧
      canonicalText (names.map Token.ofText) = .ok f.text ∧
      ∀ a : Assignment Bool,
        (∀ name ∈ freeVariables (names.map Token.ofText), (a name).isSome = true) →
        a "T" = none → a "F" = none →
        (evaluate (names.map Token.ofText) (Evaluation.mapAssignment some a)).outcome =
          .ok (some (f.truth fun name => (a name).getD false))) ∧
    ((∀ t ∈ names.map Token.ofText, t.kind = .operand → isIdentifier t.name = true) →
      ∀ a : Assignment Bool,
        (∀ t ∈ names.map Token.ofText, t.kind = .operand → (a t.name).isSome = true) →
        ((evaluate (names.map Token.ofText) (Evaluation.mapAssignment some a)).outcome = .ok none ↔
          isWellFormed (names.map Token.ofText) = false)) := by
  have htext : ∀ t ∈ names.map Token.ofText, t.FromText :=
    List.forall_mem_map.mpr fun name _ => Token.fromText_ofText name
  refine ⟨⟨exists_formula_of_isWellFormed htext, ?_⟩, ?_, ?_⟩
  · rintro ⟨f, hf, hcode⟩
    rw [← hcode]
    exact isWellFormed_code f hf
  · intro f hf hcode
    rw [← hcode]
    refine ⟨fun g hg h => Formula.code_injOn hg hf h, Formula.run_canonical hf,
      canonicalText_code f hf, fun a hcovers hT hF => ?_⟩
    exact Formula.outcome_evaluate_code hf fun _ hname =>
      Evaluation.agrees_of_covers hcovers hT hF hname
  · intro hnames a hassigned
    refine evaluate_eq_none_iff htext fun t ht hkind => ⟨hnames t ht hkind, ?_⟩
    obtain ⟨b, hb⟩ := Option.isSome_iff_exists.mp (hassigned t ht hkind)
    exact ⟨b, by rw [Evaluation.mapAssignment, hb, Option.map_some]⟩

theorem postfix_reading_literal :
    let a : Assignment Bool := fun name =>
      Entries.get? name [("p", true), ("q", false), ("r", true)]
    let f := Formula.not (.join .and (.join .implies (.atom "p") (.atom "q")) (.atom "T"))
    f.IsNamed ∧ f.code = ["p", "q", "→", "T", "∧", "∼"].map Token.ofText ∧
      canonicalText (["p", "q", "→", "T", "∧", "∼"].map Token.ofText) =
        .ok "(∼((p → q) ∧ T))" ∧
      (evaluate (["p", "q", "→", "T", "∧", "∼"].map Token.ofText)
        (Evaluation.mapAssignment some a)).outcome = .ok (some true) ∧
      (evaluate (["p", "q", "→", "∧"].map Token.ofText)
        (Evaluation.mapAssignment some a)).outcome = .ok none := by
  intro a f
  have hp : isIdentifier "p" = true := by decide
  have hq : isIdentifier "q" = true := by decide
  have hT : isIdentifier "T" = true := by decide
  have hf : f.IsNamed := ⟨⟨hp, hq⟩, hT⟩
  have hcode : f.code = ["p", "q", "→", "T", "∧", "∼"].map Token.ofText := by decide
  obtain ⟨-, -, htext, hvalue⟩ :=
    (postfix_reading ["p", "q", "→", "T", "∧", "∼"]).2.1 f hf hcode
  have hnone := (postfix_reading ["p", "q", "→", "∧"]).2.2 (by decide) a (by decide)
  exact ⟨hf, hcode, htext, hvalue a (by decide) rfl rfl, hnone.mpr (by decide)⟩

end TruthTables
