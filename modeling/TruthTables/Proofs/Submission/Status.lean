import TruthTables.Proofs.Submission

namespace TruthTables.Submission

/-- The postfix form of what was submitted: no text has no tokens. -/
def code (text : Option String) : List Token :=
  postfixOf (text.elim [] tokensOf)

/-- No text, or white space only. -/
def IsBlank (text : Option String) : Prop :=
  ∀ raw ∈ text, ∀ c ∈ raw.toList, isBlank c = true

theorem isBlank_some_iff {raw : String} :
    IsBlank (some raw) ↔ isBlankText raw.toList = true := by
  simp [IsBlank, isBlankText]

theorem isWellFormed_code_of_isBlank {text : Option String} (h : IsBlank text) :
    isWellFormed (code text) = false := by
  cases text with
  | none => rfl
  | some raw =>
      rw [code, Option.elim_some, tokensOf_of_isBlankText (isBlank_some_iff.mp h)]
      rfl

theorem outcome_process_of_isBlank {text : Option String} (h : IsBlank text) (s : Settings)
    (limit : Option Int) : (process s text limit).outcome = .ok idle := by
  cases text with
  | none => rfl
  | some raw =>
      have hparse : (Expression.parse raw).outcome = .ok none := by
        rw [Expression.outcome_parse, if_pos (isBlank_some_iff.mp h)]
      simp only [process, processWith, Expression.read, Attempt.outcome_bind,
        Attempt.outcome_caught, hparse, Except.bind]
      rfl

theorem outcome_process_of_unfit {text : Option String} (hblank : ¬IsBlank text)
    (hunfit : isWellFormed (code text) = false) (s : Settings) (limit : Option Int) :
    ∃ error, (process s text limit).outcome = .ok (invalid none error) := by
  cases text with
  | none => exact absurd (by simp [IsBlank]) hblank
  | some raw =>
      rw [code, Option.elim_some] at hunfit
      rw [isBlank_some_iff] at hblank
      have hparse := Expression.outcome_parse_of_unfit hblank hunfit
      simp only [process, processWith, Expression.read, Attempt.outcome_bind,
        Attempt.outcome_caught, hparse, Except.bind]
      exact ⟨_, rfl⟩

theorem outcome_process_of_isWellFormed {text : Option String}
    (h : isWellFormed (code text) = true) (s : Settings) (limit : Option Int) :
    ∃ canonical, canonicalText (code text) = .ok canonical ∧
      ((limit.getD s.maxVariables < (freeVariables (code text)).length ∧
          ∃ error, (process s text limit).outcome = .ok (invalid (some canonical) error)) ∨
        ((freeVariables (code text)).length ≤ limit.getD s.maxVariables ∧
          ∃ table, (process s text limit).outcome = .ok (ok canonical table) ∧
            table.header = freeVariables (code text) ++ [canonical])) := by
  cases text with
  | none => contradiction
  | some raw =>
      obtain ⟨f, hf, hcode⟩ := exists_formula_of_text h
      change code (some raw) = f.code at hcode
      have hparse := Expression.outcome_parse_eq_some_iff.mpr ⟨f, hf, hcode, rfl⟩
      rw [outcome_process hparse, hcode, canonicalText_code f hf,
        Formula.length_freeVariables hf]
      refine ⟨f.text, rfl, ?_⟩
      rcases Table.outcome_generate_code hf s ⟨limit, none⟩ f.text with
        ⟨hlt, hgenerate⟩ | ⟨hle, table, hgenerate, hvars, htext, -⟩
      · rw [hgenerate]
        exact .inl ⟨hlt, _, rfl⟩
      · rw [hgenerate]
        refine .inr ⟨hle, table, rfl, ?_⟩
        rw [Table.header, hvars, htext]

/-- Nothing that can be submitted ends in a fault. A blank text is idle, one that is not well-formed
is invalid without an expression, one with too many variables is invalid with its canonical text,
and every other one has a table under its canonical text. -/
theorem process_status (s : Settings) (text : Option String) (limit : Option Int) :
    ∃ submission, (process s text limit).outcome = .ok submission ∧
      (submission.status = "idle" ↔ IsBlank text) ∧
      (submission.status = "invalid" ∧ submission.expression = none ↔
        ¬IsBlank text ∧ isWellFormed (code text) = false) ∧
      (submission.status = "invalid" ∧
          (∃ canonical, canonicalText (code text) = .ok canonical ∧
            submission.expression = some canonical) ↔
        isWellFormed (code text) = true ∧
          limit.getD s.maxVariables < (freeVariables (code text)).length) ∧
      (submission.status = "ok" ↔
        isWellFormed (code text) = true ∧
          (freeVariables (code text)).length ≤ limit.getD s.maxVariables) ∧
      (submission.status = "idle" → submission.expression = none ∧ submission.table? = none) ∧
      (submission.status = "invalid" → submission.table? = none) ∧
      (submission.status = "ok" → ∃ canonical table,
        canonicalText (code text) = .ok canonical ∧
          submission.expression = some canonical ∧
          submission.heading s = s.idleHeading ++ canonical ∧
          submission.table? = some table ∧
          table.header = freeVariables (code text) ++ [canonical]) := by
  by_cases hblank : IsBlank text
  · refine ⟨idle, outcome_process_of_isBlank hblank s limit, ?_⟩
    simp [status, expression, table?, hblank, isWellFormed_code_of_isBlank hblank]
  cases hwell : isWellFormed (code text) with
  | false =>
      obtain ⟨error, hprocess⟩ := outcome_process_of_unfit hblank hwell s limit
      refine ⟨_, hprocess, ?_⟩
      simp [status, expression, table?, hblank]
  | true =>
      obtain ⟨canonical, hcanonical, ⟨hlt, error, hprocess⟩ | ⟨hle, table, hprocess, hheader⟩⟩ :=
        outcome_process_of_isWellFormed hwell s limit
      · refine ⟨_, hprocess, ?_⟩
        simp [status, expression, table?, hblank, hcanonical, hlt]
      · refine ⟨_, hprocess, ?_⟩
        simp [status, expression, table?, heading, Settings.heading, hblank, hcanonical, hle,
          hheader]

end TruthTables.Submission
