import TruthTables.Proofs.Formula.Reading
import TruthTables.Proofs.Formula.Substitution

namespace TruthTables

theorem mem_freeVariables_substitute {word name : String} {inserted ts : List Token}
    (h : name ∈ freeVariables (substitute word inserted ts)) :
    name ∈ freeVariables inserted ∨ name ∈ freeVariables ts ∧ name ≠ word := by
  obtain ⟨hliteral, t, ht, hkind, rfl⟩ := mem_freeVariables.mp h
  rcases mem_substitute ht with hinserted | ⟨hmem, hother⟩
  · exact .inl (mem_freeVariables.mpr ⟨hliteral, t, hinserted, hkind, rfl⟩)
  · refine .inr ⟨mem_freeVariables.mpr ⟨hliteral, t, hmem, hkind, rfl⟩, ?_⟩
    exact fun hname => hother ⟨hkind, hname⟩

theorem Formula.outcome_evaluate_of_covers {f : Formula} (hf : f.IsNamed) {a : Assignment Bool}
    (hcovers : ∀ name ∈ freeVariables f.code, (a name).isSome = true) (hT : a "T" = none)
    (hF : a "F" = none) :
    (evaluate f.code (Evaluation.mapAssignment some a)).outcome =
      .ok (some (f.truth fun name => (a name).getD false)) :=
  Formula.outcome_evaluate_code hf fun _ hname =>
    Evaluation.agrees_of_covers hcovers hT hF hname

theorem Formula.outcome_evaluate_subst {f g : Formula} (hf : f.IsNamed) (hg : g.IsNamed)
    {word : String} (hword : Token.literal? word = none) {a : Assignment Bool}
    (hinserted : ∀ name ∈ freeVariables g.code, (a name).isSome = true)
    (hkept : ∀ name ∈ freeVariables f.code, name ≠ word → (a name).isSome = true)
    (hT : a "T" = none) (hF : a "F" = none) :
    (evaluate (f.subst word g).code (Evaluation.mapAssignment some a)).outcome =
      .ok (some (f.truth (Function.update (fun name => (a name).getD false) word
        (g.truth fun name => (a name).getD false)))) := by
  have hcovers : ∀ name ∈ freeVariables (f.subst word g).code, (a name).isSome = true := by
    intro name hname
    rw [code_subst hf] at hname
    rcases mem_freeVariables_substitute hname with hmem | ⟨hmem, hne⟩
    · exact hinserted name hmem
    · exact hkept name hmem hne
  rw [outcome_evaluate_of_covers (isNamed_subst hf hg) hcovers hT hF, truth_subst hword]

theorem Formula.outcome_evaluate_update {f : Formula} (hf : f.IsNamed) {word : String}
    (hword : Token.literal? word = none) {a : Assignment Bool}
    (hkept : ∀ name ∈ freeVariables f.code, name ≠ word → (a name).isSome = true)
    (hT : a "T" = none) (hF : a "F" = none) (b : Bool) :
    (evaluate f.code (Evaluation.mapAssignment some (Function.update a word (some b)))).outcome =
      .ok (some (f.truth (Function.update (fun name => (a name).getD false) word b))) := by
  have hcovers : ∀ name ∈ freeVariables f.code,
      (Function.update a word (some b) name).isSome = true := by
    intro name hname
    by_cases hne : name = word
    · rw [hne, Function.update_self, Option.isSome_some]
    · rw [Function.update_of_ne hne]
      exact hkept name hname hne
  obtain ⟨hneT, hneF⟩ := Token.literal?_eq_none_iff.mp hword
  have hvalues : (fun name => (Function.update a word (some b) name).getD false) =
      Function.update (fun name => (a name).getD false) word b :=
    Function.comp_update (fun value : Option Bool => value.getD false) a word (some b)
  have hT' : Function.update a word (some b) "T" = none := by
    rw [Function.update_of_ne hneT.symm, hT]
  have hF' : Function.update a word (some b) "F" = none := by
    rw [Function.update_of_ne hneF.symm, hF]
  rw [outcome_evaluate_of_covers hf hcovers hT' hF', hvalues]

/-- A well-formed sequence may be put in place of a variable of another one. The canonical text then
has the text of the inserted sequence in place of that word, and the value is what comes out where
the variable has the value of the inserted sequence. -/
theorem substitution_updates_assignment (names inserted : List String) (word : String)
    (hnames : isWellFormed (names.map Token.ofText) = true)
    (hinserted : isWellFormed (inserted.map Token.ofText) = true)
    (hT : word ≠ "T") (hF : word ≠ "F") :
    isWellFormed (substitute word (inserted.map Token.ofText) (names.map Token.ofText)) = true ∧
    (∃ text new, canonicalText (names.map Token.ofText) = .ok text ∧
      canonicalText (inserted.map Token.ofText) = .ok new ∧
      canonicalText (substitute word (inserted.map Token.ofText) (names.map Token.ofText)) =
        .ok (replaceWord word new text)) ∧
    ∀ a : Assignment Bool,
      (∀ name ∈ freeVariables (inserted.map Token.ofText), (a name).isSome = true) →
      (∀ name ∈ freeVariables (names.map Token.ofText), name ≠ word → (a name).isSome = true) →
      a "T" = none → a "F" = none →
      ∃ b r, (evaluate (inserted.map Token.ofText) (Evaluation.mapAssignment some a)).outcome =
          .ok (some b) ∧
        (evaluate (substitute word (inserted.map Token.ofText) (names.map Token.ofText))
          (Evaluation.mapAssignment some a)).outcome = .ok (some r) ∧
        (evaluate (names.map Token.ofText)
          (Evaluation.mapAssignment some (Function.update a word (some b)))).outcome =
            .ok (some r) := by
  obtain ⟨f, hf, hfcode⟩ := exists_formula_of_isWellFormed Token.fromText_of_mem_map hnames
  obtain ⟨g, hg, hgcode⟩ := exists_formula_of_isWellFormed Token.fromText_of_mem_map hinserted
  have hfg : (f.subst word g).IsNamed := Formula.isNamed_subst hf hg
  have hword : Token.literal? word = none := Token.literal?_eq_none_iff.mpr ⟨hT, hF⟩
  rw [← hfcode, ← hgcode, ← Formula.code_subst hf]
  refine ⟨isWellFormed_code _ hfg, ⟨f.text, g.text, canonicalText_code f hf,
    canonicalText_code g hg, ?_⟩, ?_⟩
  · rw [canonicalText_code _ hfg, Formula.text_subst hf]
  · intro a hcovers hkept haT haF
    exact ⟨_, _, Formula.outcome_evaluate_of_covers hg hcovers haT haF,
      Formula.outcome_evaluate_subst hf hg hword hcovers hkept haT haF,
      Formula.outcome_evaluate_update hf hword hkept haT haF _⟩

theorem substitution_updates_assignment_literal :
    let a : Assignment Bool := fun name => Entries.get? name [("q", true), ("p1", false)]
    isWellFormed (["p", "p1", "∨", "p", "∧"].map Token.ofText) = true ∧
    isWellFormed (["q", "∼", "T", "→"].map Token.ofText) = true ∧ "p" ≠ "T" ∧ "p" ≠ "F" ∧
    substitute "p" (["q", "∼", "T", "→"].map Token.ofText)
      (["p", "p1", "∨", "p", "∧"].map Token.ofText) =
        ["q", "∼", "T", "→", "p1", "∨", "q", "∼", "T", "→", "∧"].map Token.ofText ∧
    (∃ text new, text = "((p ∨ p1) ∧ p)" ∧ new = "((∼q) → T)" ∧
      canonicalText (substitute "p" (["q", "∼", "T", "→"].map Token.ofText)
        (["p", "p1", "∨", "p", "∧"].map Token.ofText)) = .ok (replaceWord "p" new text) ∧
      replaceWord "p" new text = "((((∼q) → T) ∨ p1) ∧ ((∼q) → T))") ∧
    ∃ b r, (evaluate (["q", "∼", "T", "→"].map Token.ofText)
        (Evaluation.mapAssignment some a)).outcome = .ok (some b) ∧
      (evaluate (substitute "p" (["q", "∼", "T", "→"].map Token.ofText)
        (["p", "p1", "∨", "p", "∧"].map Token.ofText))
          (Evaluation.mapAssignment some a)).outcome = .ok (some r) ∧
      (evaluate (["p", "p1", "∨", "p", "∧"].map Token.ofText)
        (Evaluation.mapAssignment some (Function.update a "p" (some b)))).outcome =
          .ok (some r) := by
  intro a
  have hnames : isWellFormed (["p", "p1", "∨", "p", "∧"].map Token.ofText) = true := by decide
  have hinserted : isWellFormed (["q", "∼", "T", "→"].map Token.ofText) = true := by decide
  obtain ⟨-, ⟨text, new, htext, hnew, hwhole⟩, hvalue⟩ :=
    substitution_updates_assignment _ _ "p" hnames hinserted (by decide) (by decide)
  have htextEq : text = "((p ∨ p1) ∧ p)" := (Except.ok.inj htext).symm
  have hnewEq : new = "((∼q) → T)" := (Except.ok.inj hnew).symm
  refine ⟨hnames, hinserted, by decide, by decide, by decide,
    ⟨text, new, htextEq, hnewEq, hwhole, ?_⟩,
    hvalue a (by decide) (by decide) rfl rfl⟩
  rw [htextEq, hnewEq]
  decide

end TruthTables
