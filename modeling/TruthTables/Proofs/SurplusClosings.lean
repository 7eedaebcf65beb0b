import TruthTables.Proofs.AcceptedText
import TruthTables.Proofs.Postfix.Frame

namespace TruthTables

/-- The number of the closing brackets that find none open. -/
def surplusOf (ts : List Token) : Nat :=
  Bracket.surplus 0 (ts.filterMap Bracket.ofToken?)

/-- The text behind a number of opening brackets. -/
def opened (k : Nat) (text : String) : String :=
  String.ofList (List.replicate k '(') ++ text

theorem toList_opened (k : Nat) (text : String) :
    (opened k text).toList = List.replicate k '(' ++ text.toList := by
  rw [opened, String.toList_append, String.toList_ofList]

theorem pieces_opened (k : Nat) (cs : List Char) :
    pieces (List.replicate k '(' ++ cs) = List.replicate k ['('] ++ pieces cs := by
  induction k with
  | zero => rfl
  | succ k ih =>
      rw [List.replicate_succ, List.replicate_succ, List.cons_append, List.cons_append,
        pieces_sign rfl, ih]

theorem tokensOf_opened (k : Nat) (text : String) :
    tokensOf (opened k text) = Postfix.openings k ++ tokensOf text := by
  have hopening : Token.ofText (String.ofList ['(']) = .opening := by decide
  rw [tokensOf, piecesOf, toList_opened, pieces_opened, List.map_append, List.map_append,
    List.map_replicate, List.map_replicate, hopening]
  rfl

theorem not_isBlankText_opened {text : String} (h : ¬isBlankText text.toList = true) (k : Nat) :
    ¬isBlankText (opened k text).toList = true := by
  intro hopened
  rw [toList_opened, isBlankText, List.all_append, Bool.and_eq_true] at hopened
  exact h hopened.2

theorem surplusClosings_eq_surplusOf {ts : List Token} (hts : ∀ t ∈ ts, t.FromText) :
    Postfix.surplusClosings [] ts = surplusOf ts :=
  Postfix.surplusClosings_eq (fun t ht => Postfix.isBarrier_of_operator (hts t ht)) []

theorem postfixOf_opened {ts : List Token} (hts : ∀ t ∈ ts, t.FromText) :
    postfixOf (Postfix.openings (surplusOf ts) ++ ts) = postfixOf ts := by
  rw [← surplusClosings_eq_surplusOf hts, Postfix.postfixOf_openings_append]

/-- A closing bracket that finds none open does what it would do if one more bracket had been opened
at the very start: the postfix form is the same, and a text is accepted with the same canonical text
or rejected with the same postfix form. -/
theorem surplus_closing_opens_at_start :
    (∀ names : List String,
      postfixOf (Postfix.openings (surplusOf (names.map Token.ofText)) ++
        names.map Token.ofText) = postfixOf (names.map Token.ofText)) ∧
    ∀ raw : String, isBlankText raw.toList = false →
      (∃ e e', (Expression.parse raw).outcome = .ok (some e) ∧
        (Expression.parse (opened (surplusOf (tokensOf raw)) raw)).outcome = .ok (some e') ∧
        e'.canonical = e.canonical ∧ e'.code = e.code) ∨
      ∃ code, (Expression.parse raw).outcome = .error (.rejected raw code) ∧
        (Expression.parse (opened (surplusOf (tokensOf raw)) raw)).outcome =
          .error (.rejected (opened (surplusOf (tokensOf raw)) raw) code) := by
  constructor
  · intro names
    exact postfixOf_opened (List.forall_mem_map.mpr fun name _ => Token.fromText_ofText name)
  · intro raw hblank
    have hcode : postfixOf (tokensOf (opened (surplusOf (tokensOf raw)) raw)) =
        postfixOf (tokensOf raw) := by
      rw [tokensOf_opened, postfixOf_opened fun t ht => fromText_of_mem_tokensOf ht]
    rw [← Bool.not_eq_true] at hblank
    cases hwell : isWellFormed (postfixOf (tokensOf raw)) with
    | true =>
        obtain ⟨f, hf, hformula⟩ := exists_formula_of_text hwell
        exact .inl ⟨_, _, Expression.outcome_parse_eq_some_iff.mpr ⟨f, hf, hformula, rfl⟩,
          Expression.outcome_parse_eq_some_iff.mpr ⟨f, hf, hcode.trans hformula, rfl⟩, rfl, rfl⟩
    | false =>
        have hopened := Expression.outcome_parse_of_unfit
          (not_isBlankText_opened hblank (surplusOf (tokensOf raw))) (by rw [hcode, hwell])
        rw [hcode] at hopened
        exact .inr ⟨_, Expression.outcome_parse_of_unfit hblank hwell, hopened⟩

theorem surplus_closing_opens_at_start_literal :
    surplusOf (["p", "∨", ")", "(", "q", ")", "∼", ")", "("].map Token.ofText) = 2 ∧
    postfixOf (["(", "(", "p", "∨", ")", "(", "q", ")", "∼", ")", "("].map Token.ofText) =
      postfixOf (["p", "∨", ")", "(", "q", ")", "∼", ")", "("].map Token.ofText) ∧
    isBlankText "p ∨ q) ∧ r) → s".toList = false ∧
      surplusOf (tokensOf "p ∨ q) ∧ r) → s") = 2 ∧
      ∃ e e', (Expression.parse "p ∨ q) ∧ r) → s").outcome = .ok (some e) ∧
        (Expression.parse "((p ∨ q) ∧ r) → s").outcome = .ok (some e') ∧
        e.canonical = "(((p ∨ q) ∧ r) → s)" ∧ e'.canonical = e.canonical ∧ e'.code = e.code := by
  have hcount : surplusOf (["p", "∨", ")", "(", "q", ")", "∼", ")", "("].map Token.ofText) = 2 := by
    decide
  have hblank : isBlankText "p ∨ q) ∧ r) → s".toList = false := by decide
  have hsurplus : surplusOf (tokensOf "p ∨ q) ∧ r) → s") = 2 := by decide
  have hopened : opened 2 "p ∨ q) ∧ r) → s" = "((p ∨ q) ∧ r) → s" := by decide
  let f := Formula.join .implies (.join .and (.join .or (.atom "p") (.atom "q")) (.atom "r"))
    (.atom "s")
  have hf : f.IsNamed := by
    refine ⟨⟨⟨?_, ?_⟩, ?_⟩, ?_⟩ <;> change isIdentifier _ = true <;> decide
  have hparse : (Expression.parse "p ∨ q) ∧ r) → s").outcome =
      .ok (some ⟨f.text, f.code, tokensOf "p ∨ q) ∧ r) → s"⟩) :=
    Expression.outcome_parse_eq_some_iff.mpr ⟨f, hf, by decide, rfl⟩
  obtain ⟨htokens, htext⟩ := surplus_closing_opens_at_start
  have hcode := htokens ["p", "∨", ")", "(", "q", ")", "∼", ")", "("]
  rw [hcount] at hcode
  refine ⟨hcount, hcode, hblank, hsurplus, ?_⟩
  rcases htext _ hblank with ⟨e, e', he, he', hcanonical, hcode'⟩ | ⟨code, hrejected, -⟩
  · rw [hsurplus, hopened] at he'
    refine ⟨e, e', he, he', ?_, hcanonical, hcode'⟩
    rw [hparse] at he
    cases he
    rfl
  · rw [hparse] at hrejected
    contradiction

end TruthTables
