import Mathlib.Data.Finset.Card
import TruthTables.Formula
import TruthTables.Proofs.Postfix.Conservation
import TruthTables.Proofs.Table.Completeness

namespace TruthTables

namespace Formula

/-- The names of the atoms, from left to right. -/
def names : Formula → List String
  | atom name => [name]
  | not inner => inner.names
  | join _ left right => left.names ++ right.names

theorem isNamed_iff {f : Formula} : f.IsNamed ↔ ∀ name ∈ f.names, isIdentifier name = true := by
  induction f with
  | atom name => simp [IsNamed, names]
  | not inner ih => exact ih
  | join c left right ihLeft ihRight =>
      rw [IsNamed, names, ihLeft, ihRight, List.forall_mem_append]

theorem operands_code {f : Formula} (hf : f.IsNamed) :
    operands f.code = f.names.map Token.operand := by
  induction f with
  | atom name =>
      rw [code, Token.ofText_of_isIdentifier hf]
      rfl
  | not inner ih =>
      rw [code, operands_append, ih hf]
      exact List.append_nil _
  | join c left right ihLeft ihRight =>
      have hsign : operands [c.token] = [] := operands_eq_nil (by simp [c.kind_token])
      rw [code, operands_append, operands_append, ihLeft hf.1, ihRight hf.2, hsign,
        List.append_nil, names, List.map_append]

theorem length_names {f : Formula} (hf : f.IsNamed) : f.names.length = joins f.code + 1 := by
  induction f with
  | atom name =>
      have hzero : joins [Token.operand name] = 0 := by
        simp [joins, Token.operand, Token.conjunction, Token.disjunction, Token.implication,
          Token.operator]
      rw [code, Token.ofText_of_isIdentifier hf, hzero]
      rfl
  | not inner ih =>
      rw [code, joins_append, names, ih hf]
      rfl
  | join c left right ihLeft ihRight =>
      have hone : joins [c.token] = 1 := by cases c <;> decide
      rw [code, joins_append, joins_append, names, List.length_append, ihLeft hf.1, ihRight hf.2,
        hone]
      omega

theorem isBarrier_operand {name : String} (h : isIdentifier name = true) :
    Postfix.isBarrier (Token.operand name) = false := by
  have hopening : isIdentifier "(" = false := by decide
  change (name == "(") = false
  rw [beq_eq_false_iff_ne]
  rintro rfl
  rw [hopening] at h
  contradiction

theorem isBarrier_of_mem_code {f : Formula} (hf : f.IsNamed) :
    ∀ t ∈ f.code, Postfix.isBarrier t = false := by
  induction f with
  | atom name =>
      rw [code, Token.ofText_of_isIdentifier hf, List.forall_mem_singleton]
      exact isBarrier_operand hf
  | not inner ih =>
      rw [code, List.forall_mem_append, List.forall_mem_singleton]
      exact ⟨ih hf, rfl⟩
  | join c left right ihLeft ihRight =>
      rw [code, List.forall_mem_append, List.forall_mem_append, List.forall_mem_singleton]
      exact ⟨⟨ihLeft hf.1, ihRight hf.2⟩, by cases c <;> rfl⟩

end Formula

/-- The values that a row gives to the variables over its columns. -/
def Row.valuation (vars : List String) (r : Row) (name : String) : Bool :=
  r.values.getD (vars.idxOf name) false

namespace Formula

/-- The names in a formula that are no constants. -/
def vars : Formula → Finset String
  | atom name => if (constant? name).isSome then ∅ else {name}
  | not inner => inner.vars
  | join _ left right => left.vars ∪ right.vars

theorem vars_atom (name : String) :
    (atom name).vars = if (Token.literal? name).isSome then ∅ else {name} := by
  rw [vars, literal?_eq_constant?]

theorem mem_vars_atom {name : String} (h : Token.literal? name = none) :
    name ∈ (atom name).vars := by
  simp [vars_atom, h]

theorem mem_vars_iff {f : Formula} {name : String} :
    name ∈ f.vars ↔ Token.literal? name = none ∧ name ∈ f.names := by
  induction f with
  | atom other =>
      rw [vars_atom, names, List.mem_singleton]
      cases hliteral : Token.literal? other with
      | some b =>
          refine iff_of_false (Finset.notMem_empty name) ?_
          rintro ⟨hnone, rfl⟩
          rw [hliteral] at hnone
          contradiction
      | none =>
          rw [if_neg (by simp), Finset.mem_singleton, iff_and_self]
          rintro rfl
          exact hliteral
  | not inner ih => exact ih
  | join c left right ihLeft ihRight =>
      rw [vars, names, Finset.mem_union, ihLeft, ihRight, List.mem_append, and_or_left]

theorem truth_congr {f : Formula} {v w : String → Bool} (h : ∀ name ∈ f.vars, v name = w name) :
    f.truth v = f.truth w := by
  induction f with
  | atom name =>
      rw [truth_atom, truth_atom]
      cases hliteral : Token.literal? name with
      | some b => rfl
      | none => exact h name (mem_vars_atom hliteral)
  | not inner ih => exact congrArg _ (ih h)
  | join c left right ihLeft ihRight =>
      rw [truth, truth, ihLeft fun name hname => h name (Finset.mem_union_left _ hname),
        ihRight fun name hname => h name (Finset.mem_union_right _ hname)]

theorem mem_freeVariables_code {f : Formula} (hf : f.IsNamed) {name : String} :
    name ∈ freeVariables f.code ↔ name ∈ f.vars := by
  have hnames : (∃ t ∈ f.code, t.kind = .operand ∧ t.name = name) ↔
      name ∈ (operands f.code).map (·.name) := by
    simp [operands, and_assoc]
  have hmap : (operands f.code).map (·.name) = f.names := by
    rw [operands_code hf, List.map_map]
    exact List.map_id _
  rw [mem_freeVariables, hnames, hmap, mem_vars_iff]

theorem toFinset_freeVariables {f : Formula} (hf : f.IsNamed) :
    (freeVariables f.code).toFinset = f.vars := by
  ext name
  rw [List.mem_toFinset, mem_freeVariables_code hf]

theorem length_freeVariables {f : Formula} (hf : f.IsNamed) :
    (freeVariables f.code).length = f.vars.card := by
  rw [← toFinset_freeVariables hf, List.toFinset_card_of_nodup (nodup_freeVariables f.code)]

theorem outcome_evaluate_code {f : Formula} (hf : f.IsNamed) {values : Assignment Scalar}
    {valuation : String → Bool}
    (h : ∀ name, Token.operand name ∈ f.code → Evaluation.Agrees values valuation name) :
    (evaluate f.code values).outcome = .ok (some (f.truth valuation)) := by
  have hrun := Evaluation.runFrom_code f hf h [] []
  rw [List.append_nil] at hrun
  rw [outcome_evaluate, Evaluation.result_eq_ok_iff.mpr hrun]

end Formula

namespace Table

theorem agrees_rowAssignment {code : List Token} {i : Nat}
    (hi : i < rowCount (freeVariables code).length) {name : String}
    (hname : Token.operand name ∈ code) :
    Evaluation.Agrees (rowAssignment (variableColumns code) i)
      (fun name => i.testBit ((freeVariables code).idxOf name)) name := by
  unfold Evaluation.Agrees Evaluation.operandValue
  rw [rowAssignment_variableColumns hi, Formula.truth_atom]
  cases hliteral : Token.literal? name with
  | none =>
      have hmem : name ∈ freeVariables code :=
        mem_freeVariables.mpr ⟨hliteral, _, hname, rfl, rfl⟩
      rw [if_pos hmem]
      rfl
  | some b =>
      rw [if_neg (not_mem_freeVariables_of_literal hliteral code)]
      rfl

theorem exists_results {f : Formula} (hf : f.IsNamed) :
    ∃ results, resultsOf f.code = .ok (some results) := by
  have hpos : 0 < rowCount (freeVariables f.code).length := by
    rw [rowCount_eq_two_pow]
    exact Nat.two_pow_pos _
  have hzero := Formula.outcome_evaluate_code hf fun _ hname => agrees_rowAssignment hpos hname
  rw [outcome_evaluate_row (length_variableColumns f.code) f.code (by omega)] at hzero
  change (resultsOf f.code).map _ = _ at hzero
  rcases hresults : resultsOf f.code with fault | (_ | results)
  · simp [hresults, Except.map] at hzero
  · simp [hresults, Except.map] at hzero
  · exact ⟨results, rfl⟩

theorem Tabulates.valuation_eq {code : List Token} {table : Table} (h : Tabulates code table)
    {i : Nat} (hi : i < table.rows.length) :
    table.rows[i].valuation table.vars =
      fun name => i.testBit ((freeVariables code).idxOf name) := by
  funext name
  rw [Row.valuation, h.values hi, h.vars, Assignments.getD_bits (h.length ▸ hi)]

theorem Tabulates.result_eq_truth {f : Formula} (hf : f.IsNamed) {table : Table}
    (h : Tabulates f.code table) {i : Nat} (hi : i < table.rows.length) :
    table.rows[i].result = f.truth (table.rows[i].valuation table.vars) := by
  have hrow := h.result hi
  have htruth := Formula.outcome_evaluate_code hf fun _ hname =>
    agrees_rowAssignment (h.length ▸ hi) hname
  rw [hrow, ← h.valuation_eq hi] at htruth
  simpa using htruth

end Table

end TruthTables
