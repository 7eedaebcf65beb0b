import TruthTables.Proofs.Composition
import TruthTables.Proofs.Formula.Juxtaposition
import TruthTables.Proofs.Postfix.Conversion
import TruthTables.Proofs.Submission

namespace TruthTables

namespace Formula

theorem Derives.fromText {rank : Rank} {ts : List Token} {f : Formula} (h : Derives rank ts f) :
    ∀ t ∈ ts, t.FromText := by
  induction h with
  | name h =>
      intro t ht
      rw [List.mem_singleton.mp ht]
      exact Token.fromText_ofText _
  | group _ ih =>
      simp only [List.cons_append, List.forall_mem_cons, List.forall_mem_append]
      exact ⟨rfl, ih, rfl, by simp⟩
  | ofPrimary _ ih => exact ih
  | negation _ ih => exact List.forall_mem_cons.mpr ⟨rfl, ih⟩
  | ofUnary _ ih => exact ih
  | conjunction _ _ ihf ihg =>
      exact List.forall_mem_append.mpr ⟨ihf, List.forall_mem_cons.mpr ⟨rfl, ihg⟩⟩
  | ofConjunction _ ih => exact ih
  | disjunction _ _ ihf ihg =>
      exact List.forall_mem_append.mpr ⟨ihf, List.forall_mem_cons.mpr ⟨rfl, ihg⟩⟩
  | ofDisjunction _ ih => exact ih
  | implication _ _ ihf ihg =>
      exact List.forall_mem_append.mpr ⟨ihf, List.forall_mem_cons.mpr ⟨rfl, ihg⟩⟩

theorem Derives.tokensOf_eq {rank : Rank} {ts : List Token} {f : Formula} (h : Derives rank ts f)
    {raw : String} (hraw : piecesOf raw = ts.map (·.name)) : tokensOf raw = ts := by
  rw [tokensOf, hraw, List.map_map]
  calc
    ts.map (Token.ofText ∘ (·.name)) = ts.map id := List.map_congr_left h.fromText
    _ = ts := List.map_id ts

theorem Derives.outcome_parse {rank : Rank} {ts : List Token} {f : Formula}
    (h : Derives rank ts f) {raw : String} (hraw : piecesOf raw = ts.map (·.name)) :
    (Expression.parse raw).outcome = .ok (some ⟨f.text, f.code, ts⟩) := by
  have htokens := h.tokensOf_eq hraw
  rw [Expression.outcome_parse_eq_some_iff]
  exact ⟨f, h.isNamed, by rw [htokens, h.postfixOf_eq], by rw [htokens]⟩

/-- A text with the tokens of an infix formula is read as that formula. If its variables are not
too many, each row of its table has the truth value under the assignment that the row shows. -/
theorem process_of_derives {ts : List Token} {f : Formula} (h : Derives .implication ts f)
    {raw : String} (hraw : piecesOf raw = ts.map (·.name)) :
    (Expression.parse raw).outcome = .ok (some ⟨f.text, f.code, ts⟩) ∧
    ∀ (s : Settings) (limit : Option Int), (f.vars.card : Int) ≤ limit.getD s.maxVariables →
      ∃ table, (Submission.process s (some raw) limit).outcome = .ok (.ok f.text table) ∧
        table.vars.Nodup ∧ table.vars.toFinset = f.vars ∧
        table.rows.length = 2 ^ f.vars.card ∧
        ∀ row ∈ table.rows, row.values.length = table.vars.length ∧
          row.result = f.truth (row.valuation table.vars) := by
  have hparse := h.outcome_parse hraw
  refine ⟨hparse, fun s limit hlimit => ?_⟩
  obtain ⟨table, hprocess, htable⟩ := Submission.exists_table h.isNamed hparse hlimit
  refine ⟨table, hprocess, ?_, ?_, ?_, ?_⟩
  · rw [htable.vars]
    exact nodup_freeVariables f.code
  · rw [htable.vars, toFinset_freeVariables h.isNamed]
  · rw [htable.length, rowCount_eq_two_pow, length_freeVariables h.isNamed]
  · intro row hrow
    obtain ⟨i, hi, rfl⟩ := List.mem_iff_getElem.mp hrow
    refine ⟨?_, htable.result_eq_truth h.isNamed hi⟩
    rw [htable.values hi, Assignments.length_bits, htable.vars]

theorem process_of_derives_literal :
    let f := join .implies (join .and (not (atom "p")) (atom "q")) (atom "T")
    let ts := [.negation, Token.ofText "p", .conjunction, .opening, Token.ofText "q", .closing,
      .implication, Token.ofText "T"]
    Derives .implication ts f ∧ piecesOf "∼p ∧( q)→T" = ts.map (·.name) ∧
      (Expression.parse "∼p ∧( q)→T").outcome = .ok (some ⟨"(((∼p) ∧ q) → T)", f.code, ts⟩) ∧
      ∃ table, (Submission.process {} (some "∼p ∧( q)→T") none).outcome =
          .ok (.ok "(((∼p) ∧ q) → T)" table) ∧
        table.rows.length = 4 ∧
        ∀ row ∈ table.rows, row.values.length = table.vars.length ∧
          row.result = f.truth (row.valuation table.vars) := by
  intro f ts
  have hp : Derives .conjunction [.negation, Token.ofText "p"] (not (atom "p")) :=
    .ofUnary (.negation (.name (by decide)))
  have hq : Derives .unary [.opening, Token.ofText "q", .closing] (atom "q") :=
    .ofPrimary (.group (.ofDisjunction (.ofConjunction (.ofUnary (.ofPrimary
      (.name (by decide)))))))
  have hT : Derives .disjunction [Token.ofText "T"] (atom "T") :=
    .ofConjunction (.ofUnary (.ofPrimary (.name (by decide))))
  have h : Derives .implication ts f :=
    .implication (.ofDisjunction (.ofConjunction (.conjunction hp hq))) hT
  have hraw : piecesOf "∼p ∧( q)→T" = ts.map (·.name) := by decide
  have hcard : f.vars.card = 2 := by decide
  obtain ⟨hparse, hprocess⟩ := process_of_derives h hraw
  obtain ⟨table, htable, -, -, hlength, hrows⟩ := hprocess {} none (by rw [hcard]; decide)
  rw [hcard] at hlength
  exact ⟨h, hraw, hparse, table, htable, hlength, hrows⟩

end Formula

theorem exists_derives_of_accepted {raw : String} {f : Formula} (hf : f.IsNamed)
    (h : postfixOf (tokensOf raw) = f.code) (hmatched : IsMatched raw)
    (hnegation : ¬[.negation, .negation] <:+: tokensOf raw)
    (hseparated : Separated (tokensOf raw)) :
    ∃ g, Formula.Derives .implication (tokensOf raw) g := by
  have hts : ∀ t ∈ tokensOf raw,
      t.FromText ∧ (t.kind = .operand → isIdentifier t.name = true) := by
    refine fun t ht => ⟨fromText_of_mem_tokensOf ht, fun hkind => ?_⟩
    obtain ⟨name, hname, rfl⟩ := exists_name_of_operand hf h ht hkind
    exact Formula.isNamed_iff.mp hf name hname
  have hdepth := depth_of_postfixOf hf h
  have hsurplus := hmatched.surplus_eq_zero
  rw [← Bracket.filterMap_ofToken?_tokensOf] at hdepth hsurplus
  exact Formula.exists_derives_of_separated hts hseparated hnegation hdepth hsurplus
    (length_operands_tokensOf hf h)

/-- A text in which every closing bracket closes an earlier one and no negation is negated at once:
if it is accepted, it is an infix formula exactly if no two operands stand side by side. Where none
do, every text that is no infix formula is rejected, unless it is blank. -/
theorem accepted_infix_iff_separated (raw : String) (hmatched : IsMatched raw)
    (hnegation : ¬[.negation, .negation] <:+: tokensOf raw) :
    (∀ e, (Expression.parse raw).outcome = .ok (some e) →
      ((∃ f, Formula.Derives .implication (tokensOf raw) f) ↔ Separated (tokensOf raw))) ∧
    (Separated (tokensOf raw) → isBlankText raw.toList = false →
      (¬∃ f, Formula.Derives .implication (tokensOf raw) f) →
      (Expression.parse raw).outcome =
        .error (.rejected raw (Expression.names (postfixOf (tokensOf raw))))) := by
  constructor
  · intro e he
    obtain ⟨f, hf, hcode, -⟩ := Expression.outcome_parse_eq_some_iff.mp he
    constructor
    · rintro ⟨g, hg⟩
      exact hg.separated
    · exact exists_derives_of_accepted hf hcode hmatched hnegation
  · intro hseparated hblank hnone
    have hnotBlank : ¬isBlankText raw.toList = true := by simp [hblank]
    apply Expression.outcome_parse_of_unfit hnotBlank
    rw [← Bool.not_eq_true]
    intro hwell
    obtain ⟨f, hf, hcode⟩ := exists_formula_of_text hwell
    exact hnone (exists_derives_of_accepted hf hcode hmatched hnegation hseparated)

theorem accepted_infix_iff_separated_literal :
    IsMatched "∼p ∧ (q → T)" ∧ ¬[.negation, .negation] <:+: tokensOf "∼p ∧ (q → T)" ∧
      (∃ e, (Expression.parse "∼p ∧ (q → T)").outcome = .ok (some e)) ∧
      (∃ f, Formula.Derives .implication (tokensOf "∼p ∧ (q → T)") f) ∧
      IsMatched "p ∧ ()" ∧ ¬[.negation, .negation] <:+: tokensOf "p ∧ ()" ∧
      (Expression.parse "p ∧ ()").outcome = .error (.rejected "p ∧ ()" ["p", "∧"]) := by
  have hmatched : IsMatched "∼p ∧ (q → T)" := by decide
  have hnegation : ¬[.negation, .negation] <:+: tokensOf "∼p ∧ (q → T)" := by decide
  have hmatched' : IsMatched "p ∧ ()" := by decide
  have hnegation' : ¬[.negation, .negation] <:+: tokensOf "p ∧ ()" := by decide
  obtain ⟨e, hparse⟩ : ∃ e, (Expression.parse "∼p ∧ (q → T)").outcome = .ok (some e) :=
    Expression.exists_outcome_parse (by decide)
  have hinfix := ((accepted_infix_iff_separated _ hmatched hnegation).1 _ hparse).mpr (by decide)
  have hnone : ¬∃ f, Formula.Derives .implication (tokensOf "p ∧ ()") f := by
    rintro ⟨g, hg⟩
    have hwell := isWellFormed_code g hg.isNamed
    rw [← hg.postfixOf_eq] at hwell
    revert hwell
    decide
  have hrejected :=
    (accepted_infix_iff_separated _ hmatched' hnegation').2 (by decide) (by decide) hnone
  exact ⟨hmatched, hnegation, ⟨e, hparse⟩, hinfix, hmatched', hnegation', hrejected⟩

/-- The conversion puts the operands of a connective in front of it, where they may be already. -/
theorem operands_side_by_side_accepted :
    IsMatched "p q ∧" ∧ ¬[.negation, .negation] <:+: tokensOf "p q ∧" ∧
      (∃ e, (Expression.parse "p q ∧").outcome = .ok (some e)) ∧
      ¬∃ f, Formula.Derives .implication (tokensOf "p q ∧") f := by
  refine ⟨by decide, by decide, Expression.exists_outcome_parse (by decide), ?_⟩
  rintro ⟨g, hg⟩
  have hseparated : ¬Separated (tokensOf "p q ∧") := by decide
  exact hseparated hg.separated

end TruthTables
