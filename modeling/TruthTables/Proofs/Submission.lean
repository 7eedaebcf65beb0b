import TruthTables.Proofs.Formula.Tabulation
import TruthTables.Proofs.Postfix.Readability
import TruthTables.Proofs.Token.Pieces
import TruthTables.Submission

namespace TruthTables

theorem Formula.code_ne_nil (f : Formula) : f.code ≠ [] := by
  cases f <;> simp [code]

theorem tokensOf_of_isBlankText {text : String} (h : isBlankText text.toList = true) :
    tokensOf text = [] := by
  rw [tokensOf, piecesOf, (pieces_eq_nil_iff _).mpr h]
  rfl

theorem fromText_of_mem_tokensOf {text : String} {t : Token} (h : t ∈ tokensOf text) :
    t.FromText := by
  obtain ⟨piece, -, rfl⟩ := List.mem_map.mp h
  exact Token.fromText_ofText piece

theorem exists_formula_of_text {text : String}
    (h : isWellFormed (postfixOf (tokensOf text)) = true) :
    ∃ f : Formula, f.IsNamed ∧ postfixOf (tokensOf text) = f.code := by
  obtain ⟨f, hf, hcode⟩ := exists_formula_of_isWellFormed
    (fun t ht => fromText_of_mem_tokensOf (mem_of_mem_postfixOf ht)) h
  exact ⟨f, hf, hcode.symm⟩

namespace Expression

theorem outcome_parse (text : String) :
    (parse text).outcome =
      if isBlankText text.toList then .ok none
      else if isWellFormed (postfixOf (tokensOf text)) then
        (canonicalText (postfixOf (tokensOf text))).map fun canonical =>
          some ⟨canonical, postfixOf (tokensOf text), tokensOf text⟩
      else .error (.rejected text (names (postfixOf (tokensOf text)))) := by
  unfold parse
  split
  · rfl
  · simp only [Attempt.outcome_bind, Attempt.outcome_lift, Except.bind, scan, convert,
      checkWellFormed]
    split
    · cases canonicalText (postfixOf (tokensOf text)) <;> rfl
    · rfl

theorem outcome_parse_of_unfit {text : String} (hblank : ¬isBlankText text.toList = true)
    (hunfit : isWellFormed (postfixOf (tokensOf text)) = false) :
    (parse text).outcome = .error (.rejected text (names (postfixOf (tokensOf text)))) := by
  rw [outcome_parse, if_neg hblank, hunfit]
  rfl

/-- A text is accepted as the formula whose postorder is its postfix form. -/
theorem outcome_parse_eq_some_iff {text : String} {e : Expression} :
    (parse text).outcome = .ok (some e) ↔
      ∃ f : Formula, f.IsNamed ∧ postfixOf (tokensOf text) = f.code ∧
        e = ⟨f.text, f.code, tokensOf text⟩ := by
  rw [outcome_parse]
  constructor
  · intro h
    split at h
    · simp at h
    split at h
    · rename_i hwell
      obtain ⟨f, hf, hcode⟩ := exists_formula_of_text hwell
      rw [hcode, canonicalText_code f hf] at h
      simp only [Except.map, Except.ok.injEq, Option.some.injEq] at h
      exact ⟨f, hf, hcode, h.symm⟩
    · simp at h
  · rintro ⟨f, hf, hcode, rfl⟩
    have hblank : ¬isBlankText text.toList = true := by
      intro hblank
      rw [tokensOf_of_isBlankText hblank] at hcode
      exact f.code_ne_nil hcode.symm
    rw [if_neg hblank, hcode, if_pos (isWellFormed_code f hf), canonicalText_code f hf]
    rfl

theorem exists_outcome_parse {text : String}
    (h : isWellFormed (postfixOf (tokensOf text)) = true) :
    ∃ e, (parse text).outcome = .ok (some e) := by
  obtain ⟨f, hf, hcode⟩ := exists_formula_of_text h
  exact ⟨_, outcome_parse_eq_some_iff.mpr ⟨f, hf, hcode, rfl⟩⟩

end Expression

theorem Table.outcome_generate_code {f : Formula} (hf : f.IsNamed) (s : Settings)
    (limits : Limits) (text : String) :
    (limits.maxVariables.getD s.maxVariables < f.vars.card ∧
        (generate s limits f.code (some text)).outcome =
          .error (.tooManyVariables f.vars.card (limits.maxVariables.getD s.maxVariables))) ∨
      (f.vars.card ≤ limits.maxVariables.getD s.maxVariables ∧
        ∃ table, (generate s limits f.code (some text)).outcome = .ok table ∧
          table.vars = freeVariables f.code ∧ table.expression = text ∧
          Tabulates f.code table) := by
  rw [outcome_generate, Formula.length_freeVariables hf, Limits.effective]
  split
  · rename_i hlt
    exact .inl ⟨hlt, rfl⟩
  · rename_i hle
    obtain ⟨results, hresults⟩ := exists_results hf
    refine .inr ⟨by omega, tableOf f.code text results, ?_, rfl, rfl,
      tabulates_tableOf hresults text⟩
    simp [filled, headingOf, hresults, Except.bind]

namespace Submission

/-- What an accepted text comes to, by the table of its expression. -/
def settled (e : Expression) : Except Fault Table → Except Fault Submission
  | .ok table => .ok (.ok e.canonical table)
  | .error (.tooManyVariables count limit) =>
      .ok (.invalid (some e.canonical) (Fault.tooManyVariables count limit).message)
  | .error fault => .error fault

theorem outcome_process {raw : String} {e : Expression}
    (h : (Expression.parse raw).outcome = .ok (some e)) (s : Settings) (limit : Option Int) :
    (process s (some raw) limit).outcome =
      settled e (Table.generate s ⟨limit, none⟩ e.code (some e.canonical)).outcome := by
  simp only [process, processWith, Expression.read, Attempt.outcome_bind, Attempt.outcome_caught,
    h, Except.bind]
  cases (Table.generate s ⟨limit, none⟩ e.code (some e.canonical)).outcome with
  | ok table => rfl
  | error fault => cases fault <;> rfl

theorem exists_error {raw : String} {f : Formula} (hf : f.IsNamed) {tokens : List Token}
    (h : (Expression.parse raw).outcome = .ok (some ⟨f.text, f.code, tokens⟩)) {s : Settings}
    {limit : Option Int} (hlimit : limit.getD s.maxVariables < (f.vars.card : Int)) :
    ∃ error, (process s (some raw) limit).outcome = .ok (.invalid (some f.text) error) := by
  have hprocess := outcome_process h s limit
  rcases Table.outcome_generate_code hf s ⟨limit, none⟩ f.text with ⟨-, hgenerate⟩ | ⟨hle, -⟩
  · rw [hgenerate] at hprocess
    exact ⟨_, hprocess⟩
  · simp only at hle
    omega

theorem exists_table {raw : String} {f : Formula} (hf : f.IsNamed) {tokens : List Token}
    (h : (Expression.parse raw).outcome = .ok (some ⟨f.text, f.code, tokens⟩)) {s : Settings}
    {limit : Option Int} (hlimit : (f.vars.card : Int) ≤ limit.getD s.maxVariables) :
    ∃ table, (process s (some raw) limit).outcome = .ok (.ok f.text table) ∧
      Table.Tabulates f.code table := by
  have hprocess := outcome_process h s limit
  rcases Table.outcome_generate_code hf s ⟨limit, none⟩ f.text with
    ⟨hlt, -⟩ | ⟨-, table, hgenerate, -, -, htable⟩
  · simp only at hlt
    omega
  · rw [hgenerate] at hprocess
    exact ⟨table, hprocess, htable⟩

end Submission

end TruthTables
