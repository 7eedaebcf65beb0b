import TruthTables.Proofs.Formula.Reading
import TruthTables.Proofs.Formula.Renaming

namespace TruthTables

/-- The first of the variables that an assignment leaves out. -/
def firstUnassigned (a : Assignment Bool) (ts : List Token) : Option String :=
  (freeVariables ts).find? fun name => (a name).isNone

theorem firstUnassigned_append (a : Assignment Bool) (as bs : List Token) :
    firstUnassigned a (as ++ bs) = (firstUnassigned a as).or (firstUnassigned a bs) := by
  unfold firstUnassigned
  rw [freeVariables_append, List.find?_append]
  cases hfirst : (freeVariables as).find? fun name => (a name).isNone with
  | some name => rfl
  | none =>
      -- What `as` has in common with `bs` is assigned, so that leaving it out changes nothing.
      have hassigned := List.find?_eq_none.mp hfirst
      have hnew : (fun name => decide ((decide (name ∉ freeVariables as) = true) ∧
          (a name).isNone = true)) = fun name => (a name).isNone := by
        funext name
        have hmem : (a name).isNone = true → name ∉ freeVariables as :=
          fun hnone hmem => hassigned name hmem hnone
        grind
      rw [List.find?_filter, hnew]

theorem firstUnassigned_eq_none_iff {a : Assignment Bool} {ts : List Token} :
    firstUnassigned a ts = none ↔ ∀ name ∈ freeVariables ts, (a name).isSome = true := by
  simp [firstUnassigned, Option.isSome_iff_ne_none]

theorem firstUnassigned_operator {t : Token} (h : t.kind = .operator) (a : Assignment Bool) :
    firstUnassigned a [t] = none := by
  rw [firstUnassigned, freeVariables_eq_nil (by simp [h])]
  rfl

namespace Formula

/-- The truth value where the literals may be given values too. -/
def value (a : Assignment Bool) : Formula → Bool
  | atom name => (a name).getD ((Token.literal? name).getD false)
  | not inner => !inner.value a
  | join c left right => c.apply (left.value a) (right.value a)

end Formula

namespace Evaluation

variable {a : Assignment Bool}

theorem computes_value (a : Assignment Bool) :
    Interpretation.scalars.Computes fun f => some (f.value a) where
  not _ := rfl
  join _ _ _ := rfl

theorem operandValue_of_assigned {ts : List Token} (h : firstUnassigned a ts = none)
    {name : String} (hname : Token.operand name ∈ ts) :
    operandValue .scalars (mapAssignment some a) name =
      .ok (some ((Formula.atom name).value a)) := by
  unfold operandValue mapAssignment Formula.value
  cases hvalue : a name with
  | some b => rfl
  | none =>
      cases hliteral : Token.literal? name with
      | some b => rfl
      | none =>
          have hmem : name ∈ freeVariables ts :=
            mem_freeVariables.mpr ⟨hliteral, _, hname, rfl, rfl⟩
          have hsome := firstUnassigned_eq_none_iff.mp h name hmem
          rw [hvalue] at hsome
          contradiction

theorem runFrom_of_assigned {f : Formula} (hf : f.IsNamed)
    (h : firstUnassigned a f.code = none) (stack : List Scalar) (ts : List Token) :
    runFrom .scalars (mapAssignment some a) stack (f.code ++ ts) =
      runFrom .scalars (mapAssignment some a) (some (f.value a) :: stack) ts :=
  runFrom_code_of_computes (computes_value a) f hf
    (fun _ hname => operandValue_of_assigned h hname) stack ts

/-- No connective of a formula stops the machine before its first variable without a value does. -/
theorem runFrom_of_unassigned {f : Formula} (hf : f.IsNamed) {name : String}
    (h : firstUnassigned a f.code = some name) (stack : List Scalar) (ts : List Token) :
    runFrom .scalars (mapAssignment some a) stack (f.code ++ ts) =
      .error (.failed (.unassigned name)) := by
  induction f generalizing stack ts with
  | atom other =>
      rw [Formula.code, Token.ofText_of_isIdentifier hf] at h ⊢
      rw [firstUnassigned, Formula.freeVariables_operand] at h
      cases hliteral : Token.literal? other with
      | some b => simp [hliteral] at h
      | none =>
          cases hvalue : a other with
          | some b => simp [hliteral, hvalue] at h
          | none =>
              have hname : other = name := by simpa [hliteral, hvalue] using h
              subst hname
              simp [runFrom, step, Token.operand, operandValue, mapAssignment, hvalue, hliteral,
                Except.map, Except.bind]
  | not inner ih =>
      rw [Formula.code, firstUnassigned_append, firstUnassigned_operator rfl, Option.or_none] at h
      rw [Formula.code, List.append_assoc]
      exact ih hf h stack _
  | join c left right ihLeft ihRight =>
      rw [Formula.code, firstUnassigned_append, firstUnassigned_append,
        firstUnassigned_operator c.kind_token, Option.or_none] at h
      rw [Formula.code, List.append_assoc, List.append_assoc]
      cases hleft : firstUnassigned a left.code with
      | some other =>
          have hname : other = name := by simpa [hleft] using h
          exact ihLeft hf.1 (hname ▸ hleft) stack _
      | none =>
          rw [hleft, Option.none_or] at h
          rw [runFrom_of_assigned hf.1 hleft]
          exact ihRight hf.2 h _ _

end Evaluation

namespace Formula

theorem outcome_evaluate_of_assigned {f : Formula} (hf : f.IsNamed) {a : Assignment Bool}
    (h : firstUnassigned a f.code = none) :
    (evaluate f.code (Evaluation.mapAssignment some a)).outcome = .ok (some (f.value a)) := by
  have hrun := Evaluation.runFrom_of_assigned hf h [] []
  rw [List.append_nil] at hrun
  rw [outcome_evaluate, Evaluation.result_eq_ok_iff.mpr hrun]

theorem outcome_evaluate_of_unassigned {f : Formula} (hf : f.IsNamed) {a : Assignment Bool}
    {name : String} (h : firstUnassigned a f.code = some name) :
    (evaluate f.code (Evaluation.mapAssignment some a)).outcome = .error (.unassigned name) := by
  have hrun := Evaluation.runFrom_of_unassigned hf h [] []
  rw [List.append_nil] at hrun
  rw [outcome_evaluate, Evaluation.result_eq_failed_iff.mpr hrun]

end Formula

/-- Whatever an assignment gives values to, a well-formed sequence either fails at the first of its
variables that has none, and then in no other way, or has a truth value. A literal is never
missed. -/
theorem evaluate_reports_first_unassigned (names : List String)
    (h : isWellFormed (names.map Token.ofText) = true) (a : Assignment Bool) :
    ((∃ key, (evaluate (names.map Token.ofText) (Evaluation.mapAssignment some a)).outcome =
        .error (.unassigned key)) ↔
      ∃ name ∈ freeVariables (names.map Token.ofText), a name = none) ∧
    (∀ fault, (evaluate (names.map Token.ofText) (Evaluation.mapAssignment some a)).outcome =
        .error fault ↔
      ∃ key, (freeVariables (names.map Token.ofText)).find? (fun name => (a name).isNone) =
        some key ∧ fault = .unassigned key) ∧
    ((∀ name ∈ freeVariables (names.map Token.ofText), a name ≠ none) →
      ∃ b : Bool, (evaluate (names.map Token.ofText) (Evaluation.mapAssignment some a)).outcome =
        .ok (some b)) ∧
    ∀ key, key = "T" ∨ key = "F" →
      (evaluate (names.map Token.ofText) (Evaluation.mapAssignment some a)).outcome ≠
        .error (.unassigned key) := by
  obtain ⟨f, hf, hcode⟩ := exists_formula_of_isWellFormed Token.fromText_of_mem_map h
  rw [← hcode]
  change (_ ↔ _) ∧ (∀ fault, _ ↔ ∃ key, firstUnassigned a f.code = some key ∧ _) ∧ _
  cases hfirst : firstUnassigned a f.code with
  | none =>
      have hassigned := firstUnassigned_eq_none_iff.mp hfirst
      rw [Formula.outcome_evaluate_of_assigned hf hfirst]
      refine ⟨?_, by simp, fun _ => ⟨_, rfl⟩, by simp⟩
      constructor
      · rintro ⟨key, hkey⟩
        contradiction
      · rintro ⟨name, hname, hnone⟩
        have hsome := hassigned name hname
        rw [hnone] at hsome
        contradiction
  | some name =>
      have hname : name ∈ freeVariables f.code := List.mem_of_find?_eq_some hfirst
      have hnone : a name = none := by simpa using List.find?_some hfirst
      rw [Formula.outcome_evaluate_of_unassigned hf hfirst]
      refine ⟨iff_of_true ⟨name, rfl⟩ ⟨name, hname, hnone⟩, ?_, ?_, ?_⟩
      · intro fault
        simp [eq_comm]
      · intro hassigned
        exact absurd hnone (hassigned name hname)
      · rintro key hkey heq
        have hliteral : Token.literal? name = none := (mem_freeVariables.mp hname).1
        obtain ⟨hneT, hneF⟩ := Token.literal?_eq_none_iff.mp hliteral
        simp only [Except.error.injEq, Fault.unassigned.injEq] at heq
        subst heq
        exact hkey.elim hneT hneF

theorem evaluate_reports_first_unassigned_literal :
    let a : Assignment Bool := fun name => Entries.get? name [("q", true), ("F", true)]
    isWellFormed (["q", "F", "∧", "r", "p", "∨", "→"].map Token.ofText) = true ∧
    (evaluate (["q", "F", "∧", "r", "p", "∨", "→"].map Token.ofText)
      (Evaluation.mapAssignment some a)).outcome = .error (.unassigned "r") ∧
    isWellFormed (["q", "F", "∧"].map Token.ofText) = true ∧
    ∃ b : Bool, (evaluate (["q", "F", "∧"].map Token.ofText)
      (Evaluation.mapAssignment some a)).outcome = .ok (some b) := by
  intro a
  have hmissing : isWellFormed (["q", "F", "∧", "r", "p", "∨", "→"].map Token.ofText) = true := by
    decide
  have hassigned : isWellFormed (["q", "F", "∧"].map Token.ofText) = true := by decide
  exact ⟨hmissing,
    ((evaluate_reports_first_unassigned _ hmissing a).2.1 _).mpr ⟨"r", by decide, rfl⟩,
    hassigned, (evaluate_reports_first_unassigned _ hassigned a).2.2.1 (by decide)⟩

end TruthTables
