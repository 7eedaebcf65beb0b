import TruthTables.Proofs.AcceptedText
import TruthTables.Proofs.Postfix.Frame
import TruthTables.Proofs.Table.Composition

namespace TruthTables

/-- Two texts in brackets under a connective. -/
def Connective.joined (c : Connective) (a b : String) : String :=
  "(" ++ a ++ ") " ++ c.sign ++ " (" ++ b ++ ")"

def negated (a : String) : String :=
  "∼(" ++ a ++ ")"

/-- No closing bracket of the text is surplus. -/
def IsMatched (a : String) : Prop :=
  Bracket.AllOpened (a.toList.filterMap Bracket.ofChar?)

instance : DecidablePred IsMatched :=
  fun _ => inferInstanceAs (Decidable (Bracket.AllOpened _))

theorem tokensOf_group (a : String) :
    tokensOf ("(" ++ a ++ ")") = .opening :: tokensOf a ++ [.closing] := by
  have hopening : tokensOf "(" = [.opening] := by decide
  have hclosing : tokensOf ")" = [.closing] := by decide
  rw [tokensOf_append (.inr (by decide)), tokensOf_append (.inl (by decide)), hopening, hclosing]
  rfl

theorem Connective.tokensOf_joined (c : Connective) (a b : String) :
    tokensOf (c.joined a b) =
      (.opening :: tokensOf a ++ [.closing]) ++
        c.token :: (.opening :: tokensOf b ++ [.closing]) := by
  have hsplit : c.joined a b =
      "(" ++ a ++ ")" ++ (" " ++ c.sign ++ " " ++ ("(" ++ b ++ ")")) := by
    have hclosing : ") " = ")" ++ " " := by decide
    have hopening : " (" = " " ++ "(" := by decide
    rw [joined, hclosing, hopening]
    simp only [String.append_assoc]
  have hblank : (" " ++ c.sign ++ " " ++ ("(" ++ b ++ ")")).toList.head? = some ' ' := by simp
  rw [hsplit, tokensOf_append (.inr (by rw [hblank]; decide)), c.tokensOf_sign_append,
    tokensOf_group, tokensOf_group]

theorem tokensOf_negated (a : String) :
    tokensOf (negated a) = .negation :: (.opening :: tokensOf a ++ [.closing]) := by
  have hsplit : negated a = "∼" ++ ("(" ++ a ++ ")") := by
    have hsign : "∼(" = "∼" ++ "(" := by decide
    rw [negated, hsign]
    simp only [String.append_assoc]
  have hsign : tokensOf "∼" = [.negation] := by decide
  rw [hsplit, tokensOf_append (.inl (by decide)), hsign, tokensOf_group]
  rfl

theorem converts_accepted {a : String} {f : Formula} (hf : f.IsNamed)
    (h : postfixOf (tokensOf a) = f.code) (ha : IsMatched a) (floor : Int) :
    Postfix.Converts floor (.opening :: tokensOf a ++ [.closing]) f.code := by
  have hmatched : Postfix.surplusClosings [] (tokensOf a) = 0 := by
    rw [Postfix.surplusClosings_eq (isBarrier_of_mem_tokensOf a),
      Bracket.filterMap_ofToken?_tokensOf]
    exact ha.surplus_eq_zero
  rw [← h]
  exact Postfix.converts_group_of_matched hmatched (isBarrier_of_mem_stackAfter hf h) floor

theorem outcome_parse_joined {a b : String} {f g : Formula} (hf : f.IsNamed) (hg : g.IsNamed)
    (hcodeA : postfixOf (tokensOf a) = f.code) (hcodeB : postfixOf (tokensOf b) = g.code)
    (ha : IsMatched a) (hb : IsMatched b) (c : Connective) :
    (Expression.parse (c.joined a b)).outcome =
      .ok (some ⟨(Formula.join c f g).text, (Formula.join c f g).code,
        tokensOf (c.joined a b)⟩) := by
  have hconverts := Postfix.converts_join c (converts_accepted hf hcodeA ha _)
    (converts_accepted hg hcodeB hb _)
  rw [← c.tokensOf_joined] at hconverts
  exact Expression.outcome_parse_eq_some_iff.mpr
    ⟨.join c f g, ⟨hf, hg⟩, hconverts.postfixOf_eq, rfl⟩

theorem outcome_parse_negated {a : String} {f : Formula} (hf : f.IsNamed)
    (hcode : postfixOf (tokensOf a) = f.code) (ha : IsMatched a) :
    (Expression.parse (negated a)).outcome =
      .ok (some ⟨f.not.text, f.not.code, tokensOf (negated a)⟩) := by
  have hconverts := Postfix.converts_negation (converts_accepted hf hcode ha _)
  rw [← tokensOf_negated] at hconverts
  exact Expression.outcome_parse_eq_some_iff.mpr ⟨f.not, hf, hconverts.postfixOf_eq, rfl⟩

/-- Two accepted texts in brackets under a connective are read as they are by themselves. Their
variables stand in the order of the texts, and the connective puts the results of their tables
together. A negated text has the table of the text with the opposite results. -/
theorem tables_compose (a b : String) (ea eb : Expression)
    (hparseA : (Expression.parse a).outcome = .ok (some ea))
    (hparseB : (Expression.parse b).outcome = .ok (some eb))
    (ha : IsMatched a) (hb : IsMatched b) :
    (∀ c : Connective, ∃ e, (Expression.parse (c.joined a b)).outcome = .ok (some e) ∧
      e.canonical = "(" ++ ea.canonical ++ " " ++ c.sign ++ " " ++ eb.canonical ++ ")" ∧
      freeVariables e.code = freeVariables ea.code ++
        (freeVariables eb.code).filter (fun name => name ∉ freeVariables ea.code) ∧
      ∀ (s : Settings) (limit : Option Int),
        ((freeVariables e.code).length : Int) ≤ limit.getD s.maxVariables →
          ∃ left right table,
            (Submission.process s (some a) limit).outcome = .ok (.ok ea.canonical left) ∧
            (Submission.process s (some b) limit).outcome = .ok (.ok eb.canonical right) ∧
            (Submission.process s (some (c.joined a b)) limit).outcome =
              .ok (.ok e.canonical table) ∧
            table.IsJoin c left right) ∧
    ∃ e, (Expression.parse (negated a)).outcome = .ok (some e) ∧
      e.canonical = "(∼" ++ ea.canonical ++ ")" ∧
      freeVariables e.code = freeVariables ea.code ∧
      ∀ (s : Settings) (limit : Option Int),
        ((freeVariables e.code).length : Int) ≤ limit.getD s.maxVariables →
          ∃ inner table,
            (Submission.process s (some a) limit).outcome = .ok (.ok ea.canonical inner) ∧
            (Submission.process s (some (negated a)) limit).outcome =
              .ok (.ok e.canonical table) ∧
            table.IsNegation inner := by
  obtain ⟨f, hf, hcodeA, rfl⟩ := Expression.outcome_parse_eq_some_iff.mp hparseA
  obtain ⟨g, hg, hcodeB, rfl⟩ := Expression.outcome_parse_eq_some_iff.mp hparseB
  constructor
  · intro c
    have hnamed : (Formula.join c f g).IsNamed := ⟨hf, hg⟩
    have hparse := outcome_parse_joined hf hg hcodeA hcodeB ha hb c
    refine ⟨_, hparse, rfl, Formula.freeVariables_join c f g, fun s limit hlimit => ?_⟩
    rw [Formula.length_freeVariables hnamed] at hlimit
    -- The parts have no more variables than the whole, so that they have tables too.
    have hcardA : f.vars.card ≤ (Formula.join c f g).vars.card :=
      Finset.card_le_card Finset.subset_union_left
    have hcardB : g.vars.card ≤ (Formula.join c f g).vars.card :=
      Finset.card_le_card Finset.subset_union_right
    have hlimitA : (f.vars.card : Int) ≤ limit.getD s.maxVariables := by omega
    have hlimitB : (g.vars.card : Int) ≤ limit.getD s.maxVariables := by omega
    obtain ⟨left, hprocessA, hleft⟩ := Submission.exists_table hf hparseA hlimitA
    obtain ⟨right, hprocessB, hright⟩ := Submission.exists_table hg hparseB hlimitB
    obtain ⟨table, hprocess, htable⟩ := Submission.exists_table hnamed hparse hlimit
    exact ⟨left, right, table, hprocessA, hprocessB, hprocess, hleft.isJoin hf hg hright htable⟩
  · have hparse := outcome_parse_negated hf hcodeA ha
    refine ⟨_, hparse, rfl, Formula.freeVariables_not f, fun s limit hlimit => ?_⟩
    rw [Formula.length_freeVariables (f := f.not) hf] at hlimit
    obtain ⟨inner, hprocessA, hinner⟩ := Submission.exists_table hf hparseA hlimit
    obtain ⟨table, hprocess, htable⟩ := Submission.exists_table (f := f.not) hf hparse hlimit
    exact ⟨inner, table, hprocessA, hprocess, hinner.isNegation hf htable⟩

theorem tables_compose_literal :
    ∃ ea eb e e' : Expression, ∃ left right table table' : Table,
      (Expression.parse "p q∧").outcome = .ok (some ea) ∧ IsMatched "p q∧" ∧
      (Expression.parse "( q)→r").outcome = .ok (some eb) ∧ IsMatched "( q)→r" ∧
      (Expression.parse "(p q∧) ∨ (( q)→r)").outcome = .ok (some e) ∧
      e.canonical = "((p ∧ q) ∨ (q → r))" ∧ freeVariables e.code = ["p", "q", "r"] ∧
      (Submission.process {} (some "(p q∧) ∨ (( q)→r)") (some 3)).outcome =
        .ok (.ok e.canonical table) ∧ table.IsJoin .or left right ∧
      (Expression.parse "∼(p q∧)").outcome = .ok (some e') ∧ e'.canonical = "(∼(p ∧ q))" ∧
      (Submission.process {} (some "∼(p q∧)") (some 3)).outcome =
        .ok (.ok e'.canonical table') ∧ table'.IsNegation left := by
  let f := Formula.join .and (.atom "p") (.atom "q")
  let g := Formula.join .implies (.atom "q") (.atom "r")
  have hp : isIdentifier "p" = true := by decide
  have hq : isIdentifier "q" = true := by decide
  have hr : isIdentifier "r" = true := by decide
  have hparseA : (Expression.parse "p q∧").outcome =
      .ok (some ⟨f.text, f.code, tokensOf "p q∧"⟩) :=
    Expression.outcome_parse_eq_some_iff.mpr ⟨f, ⟨hp, hq⟩, by decide, rfl⟩
  have hparseB : (Expression.parse "( q)→r").outcome =
      .ok (some ⟨g.text, g.code, tokensOf "( q)→r"⟩) :=
    Expression.outcome_parse_eq_some_iff.mpr ⟨g, ⟨hq, hr⟩, by decide, rfl⟩
  have ha : IsMatched "p q∧" := by
    intro as cs h
    have hnone : "p q∧".toList.filterMap Bracket.ofChar? = [] := by decide
    rw [hnone] at h
    simp at h
  have hb : IsMatched "( q)→r" := by
    intro as cs h
    have hpair : "( q)→r".toList.filterMap Bracket.ofChar? = [.opening, .closing] := by decide
    rw [hpair] at h
    rcases as with _ | ⟨_, as⟩
    · simp at h
    · obtain ⟨rfl, h⟩ := List.cons.inj h
      rcases as with _ | ⟨_, as⟩
      · exact ⟨[], [], rfl, .nil⟩
      · simp at h
  have htextJoin : Connective.or.joined "p q∧" "( q)→r" = "(p q∧) ∨ (( q)→r)" := by decide
  have htextNot : negated "p q∧" = "∼(p q∧)" := by decide
  obtain ⟨hjoin, hnegation⟩ := tables_compose _ _ _ _ hparseA hparseB ha hb
  obtain ⟨e, hparse, hcanonical, hvars, htables⟩ := hjoin .or
  obtain ⟨e', hparse', hcanonical', hvars', htables'⟩ := hnegation
  have hnames : freeVariables e.code = ["p", "q", "r"] := hvars
  have hnames' : freeVariables e'.code = ["p", "q"] := hvars'
  obtain ⟨left, right, table, hleft, -, htable, hisJoin⟩ :=
    htables {} (some 3) (by rw [hnames]; decide)
  obtain ⟨inner, table', hinner, htable', hisNegation⟩ :=
    htables' {} (some 3) (by rw [hnames']; decide)
  have hsame : inner = left := by
    rw [hleft] at hinner
    exact (Submission.ok.inj (Except.ok.inj hinner)).2.symm
  rw [htextJoin] at hparse htable
  rw [htextNot] at hparse' htable'
  rw [hsame] at hisNegation
  exact ⟨_, _, e, e', left, right, table, table', hparseA, ha, hparseB, hb, hparse, hcanonical,
    hnames, htable, hisJoin, hparse', hcanonical', htable', hisNegation⟩

end TruthTables
