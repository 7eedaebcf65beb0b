import TruthTables.Proofs.Postfix.Conversion
import TruthTables.Proofs.Submission

namespace TruthTables

theorem tokensOf_append {u v : String} (h : Parted u.toList v.toList) :
    tokensOf (u ++ v) = tokensOf u ++ tokensOf v := by
  simp only [tokensOf, piecesOf, String.toList_append, pieces_append h, List.map_append]

theorem Identifier.isPart_of_isStart {c : Char} (h : isStart c = true) : isPart c = true := by
  simp only [isStart, isPart, Char.isAlphanum, Bool.or_eq_true] at h ⊢
  rcases h with halpha | hlow
  · exact .inl (.inl halpha)
  · exact .inr hlow

theorem isWordChar_of_isIdentifier {name : String} (h : isIdentifier name = true) :
    name.toList ≠ [] ∧ ∀ c ∈ name.toList, isWordChar c = true := by
  unfold isIdentifier at h
  cases hname : name.toList with
  | nil =>
      rw [hname] at h
      contradiction
  | cons c cs =>
      simp only [hname, Bool.and_eq_true, List.all_eq_true] at h
      obtain ⟨hstart, hparts⟩ := h
      refine ⟨List.cons_ne_nil c cs, List.forall_mem_cons.mpr ⟨?_, ?_⟩⟩
      · exact isWordChar_of_isPart (Identifier.isPart_of_isStart hstart)
      · exact fun d hd => isWordChar_of_isPart (hparts d hd)

theorem tokensOf_of_isIdentifier {name : String} (h : isIdentifier name = true) :
    tokensOf name = [Token.ofText name] := by
  obtain ⟨hne, hword⟩ := isWordChar_of_isIdentifier h
  simp [tokensOf, piecesOf, pieces_word hne hword]

theorem Connective.tokensOf_sign_append (c : Connective) (text : String) :
    tokensOf (" " ++ c.sign ++ " " ++ text) = c.token :: tokensOf text := by
  have hparted : Parted (" " ++ c.sign ++ " ").toList text.toList := .inl (by cases c <;> decide)
  have hsign : tokensOf (" " ++ c.sign ++ " ") = [c.token] := by cases c <;> decide
  rw [tokensOf_append hparted, hsign, List.singleton_append]

namespace Formula

/-- The tokens of the canonical text. -/
def bracketed : Formula → List Token
  | atom name => [Token.ofText name]
  | not inner => .opening :: (.negation :: inner.bracketed) ++ [.closing]
  | join c left right => .opening :: (left.bracketed ++ c.token :: right.bracketed) ++ [.closing]

theorem derives_bracketed {f : Formula} (hf : f.IsNamed) : Derives .primary f.bracketed f := by
  induction f with
  | atom name => exact .name hf
  | not inner ih =>
      exact .group (.ofDisjunction (.ofConjunction (.ofUnary (.negation (ih hf)))))
  | join c left right ihLeft ihRight =>
      have hleft : Derives .conjunction left.bracketed left := .ofUnary (.ofPrimary (ihLeft hf.1))
      have hright : Derives .unary right.bracketed right := .ofPrimary (ihRight hf.2)
      cases c with
      | and =>
          exact .group (.ofDisjunction (.ofConjunction (.conjunction hleft hright)))
      | or =>
          exact .group (.ofDisjunction (.disjunction (.ofConjunction hleft) (.ofUnary hright)))
      | implies =>
          exact .group (.implication (.ofDisjunction (.ofConjunction hleft))
            (.ofConjunction (.ofUnary hright)))

theorem tokensOf_text {f : Formula} (hf : f.IsNamed) : tokensOf f.text = f.bracketed := by
  induction f with
  | atom name => exact tokensOf_of_isIdentifier hf
  | not inner ih =>
      rw [text, tokensOf_append (.inr (by decide)), tokensOf_append (.inl (by decide)), ih hf]
      rfl
  | join c left right ihLeft ihRight =>
      have hopening : tokensOf "(" = [.opening] := by decide
      have hclosing : tokensOf ")" = [.closing] := by decide
      have hblank : (" " ++ c.sign ++ " " ++ (right.text ++ ")")).toList.head? = some ' ' := by
        simp
      have hsplit : (join c left right).text =
          "(" ++ (left.text ++ (" " ++ c.sign ++ " " ++ (right.text ++ ")"))) := by
        simp only [text, String.append_assoc]
      rw [hsplit, tokensOf_append (.inl (by decide)),
        tokensOf_append (.inr (by rw [hblank]; decide)), c.tokensOf_sign_append,
        tokensOf_append (.inr (by decide)), ihLeft hf.1, ihRight hf.2, hopening, hclosing]
      simp [bracketed]

theorem postfixOf_tokensOf_text {f : Formula} (hf : f.IsNamed) :
    postfixOf (tokensOf f.text) = f.code := by
  rw [tokensOf_text hf, (derives_bracketed hf).postfixOf_eq]

theorem code_eq_of_text_eq {f g : Formula} (hf : f.IsNamed) (hg : g.IsNamed)
    (h : f.text = g.text) : f.code = g.code := by
  rw [← postfixOf_tokensOf_text hf, h, postfixOf_tokensOf_text hg]

theorem outcome_parse_text {f : Formula} (hf : f.IsNamed) :
    (Expression.parse f.text).outcome = .ok (some ⟨f.text, f.code, tokensOf f.text⟩) := by
  rw [Expression.outcome_parse_eq_some_iff]
  exact ⟨f, hf, postfixOf_tokensOf_text hf, rfl⟩

theorem exists_settled {f : Formula} (hf : f.IsNamed) (s : Settings) (limit : Option Int)
    (tokens : List Token) :
    ∃ submission,
      Submission.settled ⟨f.text, f.code, tokens⟩
          (Table.generate s ⟨limit, none⟩ f.code (some f.text)).outcome = .ok submission ∧
        ((f.vars.card : Int) ≤ limit.getD s.maxVariables →
          ∃ table, submission = .ok f.text table) := by
  rcases Table.outcome_generate_code hf s ⟨limit, none⟩ f.text with
    ⟨hlt, hgenerate⟩ | ⟨-, table, hgenerate, -⟩
  · rw [hgenerate]
    refine ⟨_, rfl, fun hle => ?_⟩
    simp only at hlt
    omega
  · rw [hgenerate]
    exact ⟨_, rfl, fun _ => ⟨table, rfl⟩⟩

end Formula

/-- The canonical text is a faithful spelling of the postfix form. Every well-formed sequence of
tokens that were made from texts is read back from it, and an accepted text can be replaced by its
canonical text. -/
theorem canonicalText_faithful :
    (∀ names : List String, isWellFormed (names.map Token.ofText) = true →
      ∃ text, canonicalText (names.map Token.ofText) = .ok text ∧
        postfixOf (tokensOf text) = names.map Token.ofText) ∧
    ∀ (raw : String) (e : Expression), (Expression.parse raw).outcome = .ok (some e) →
      (∃ again, (Expression.parse e.canonical).outcome = .ok (some again) ∧
        again.canonical = e.canonical ∧ again.code = e.code) ∧
      (∀ (raw' : String) (e' : Expression), (Expression.parse raw').outcome = .ok (some e') →
        e'.canonical = e.canonical → e'.code = e.code) ∧
      ∀ (s : Settings) (limit : Option Int), ∃ submission,
        (Submission.process s (some raw) limit).outcome = .ok submission ∧
        (Submission.process s (some e.canonical) limit).outcome = .ok submission ∧
        (((freeVariables e.code).length : Int) ≤ limit.getD s.maxVariables →
          ∃ table, submission = .ok e.canonical table) := by
  constructor
  · intro names h
    have hnames : ∀ t ∈ names.map Token.ofText, t.FromText := by
      intro t ht
      obtain ⟨name, -, rfl⟩ := List.mem_map.mp ht
      exact Token.fromText_ofText name
    obtain ⟨f, hf, hcode⟩ := exists_formula_of_isWellFormed hnames h
    rw [← hcode]
    exact ⟨f.text, canonicalText_code f hf, Formula.postfixOf_tokensOf_text hf⟩
  · intro raw e h
    obtain ⟨f, hf, hcode, rfl⟩ := Expression.outcome_parse_eq_some_iff.mp h
    have hagain := Formula.outcome_parse_text hf
    refine ⟨⟨_, hagain, rfl, rfl⟩, ?_, ?_⟩
    · intro raw' e' h' htext
      obtain ⟨g, hg, hcode', rfl⟩ := Expression.outcome_parse_eq_some_iff.mp h'
      exact Formula.code_eq_of_text_eq hg hf htext
    · intro s limit
      obtain ⟨submission, hsettled, htable⟩ := Formula.exists_settled hf s limit (tokensOf raw)
      refine ⟨submission, ?_, ?_, ?_⟩
      · rw [Submission.outcome_process h, hsettled]
      · rw [Submission.outcome_process hagain, ← hsettled]
        rfl
      · rw [Formula.length_freeVariables hf]
        exact htable

theorem canonicalText_faithful_literal :
    (isWellFormed (["p", "∼", "∼"].map Token.ofText) = true ∧
      ∃ text, canonicalText (["p", "∼", "∼"].map Token.ofText) = .ok text ∧
        postfixOf (tokensOf text) = ["p", "∼", "∼"].map Token.ofText) ∧
    ∃ e e' again : Expression, ∃ submission,
      (Expression.parse "p ∧(q→T)").outcome = .ok (some e) ∧ e.canonical = "(p ∧ (q → T))" ∧
      (Expression.parse "(p)∧ (q →T)").outcome = .ok (some e') ∧ e'.code = e.code ∧
      (Expression.parse "(p ∧ (q → T))").outcome = .ok (some again) ∧ again.code = e.code ∧
      (Submission.process {} (some "p ∧(q→T)") (some 2)).outcome = .ok submission ∧
      (Submission.process {} (some "(p ∧ (q → T))") (some 2)).outcome = .ok submission ∧
      ∃ table, submission = .ok "(p ∧ (q → T))" table := by
  have hwell : isWellFormed (["p", "∼", "∼"].map Token.ofText) = true := by decide
  let f := Formula.join .and (.atom "p") (.join .implies (.atom "q") (.atom "T"))
  have hp : isIdentifier "p" = true := by decide
  have hq : isIdentifier "q" = true := by decide
  have hT : isIdentifier "T" = true := by decide
  have h : (Expression.parse "p ∧(q→T)").outcome =
      .ok (some ⟨f.text, f.code, tokensOf "p ∧(q→T)"⟩) :=
    Expression.outcome_parse_eq_some_iff.mpr ⟨f, ⟨hp, hq, hT⟩, by decide, rfl⟩
  have h' : (Expression.parse "(p)∧ (q →T)").outcome =
      .ok (some ⟨f.text, f.code, tokensOf "(p)∧ (q →T)"⟩) :=
    Expression.outcome_parse_eq_some_iff.mpr ⟨f, ⟨hp, hq, hT⟩, by decide, rfl⟩
  obtain ⟨hnames, hraw⟩ := canonicalText_faithful
  obtain ⟨⟨again, hagain, -, hcode⟩, hsame, hprocess⟩ := hraw _ _ h
  obtain ⟨submission, hfirst, hsecond, htable⟩ := hprocess {} (some 2)
  exact ⟨⟨hwell, hnames _ hwell⟩, _, _, again, submission, h, rfl, h', hsame _ _ h' rfl, hagain,
    hcode, hfirst, hsecond, htable (by decide)⟩

end TruthTables
