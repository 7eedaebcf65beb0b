import TruthTables.Proofs.AcceptedText
import TruthTables.Proofs.Formula.Renaming

namespace TruthTables

theorem alike_rename_operand {s : String → String} {name : String}
    (hname : isIdentifier name = true) (hrenamed : isIdentifier (renamed s name) = true) :
    Postfix.Alike (.operand name) ((Token.operand name).rename s) where
  kind := rfl
  binding := rfl
  isBarrier := by
    rw [Formula.isBarrier_operand hname]
    exact Formula.isBarrier_operand hrenamed
  closes := rfl

section Accepted

variable {raw : String} {f : Formula} (hf : f.IsNamed) (h : postfixOf (tokensOf raw) = f.code)
  {s : String → String} (hs : Renames s f.vars)

include hf h hs

theorem rename_of_mem_tokensOf {t : Token} (ht : t ∈ tokensOf raw) :
    (t.rename s).FromText ∧ Postfix.Alike t (t.rename s) := by
  -- The renamed token is the one that its text makes, and the conversion cannot tell it from
  -- the old one.
  by_cases hkind : t.kind = .operand
  · obtain ⟨name, hname, rfl⟩ := exists_name_of_operand hf h ht hkind
    have hrenamed := Formula.isIdentifier_renamed hf hs hname
    exact ⟨Token.ofText_of_isIdentifier hrenamed,
      alike_rename_operand (Formula.isNamed_iff.mp hf name hname) hrenamed⟩
  · rw [Token.rename_of_kind_ne hkind]
    exact ⟨fromText_of_mem_tokensOf ht, ⟨rfl, rfl, rfl, rfl⟩⟩

variable {raw' : String} (hraw' : piecesOf raw' = (tokensOf raw).map fun t => (t.rename s).name)

include hraw'

theorem tokensOf_renamed : tokensOf raw' = (tokensOf raw).map (Token.rename s) := by
  rw [tokensOf, hraw', List.map_map]
  exact List.map_congr_left fun t ht => (rename_of_mem_tokensOf hf h hs ht).1

theorem postfixOf_renamed : postfixOf (tokensOf raw') = (f.rename s).code := by
  have halike : ∀ t ∈ tokensOf raw, Postfix.Alike t (t.rename s) :=
    fun t ht => (rename_of_mem_tokensOf hf h hs ht).2
  rw [tokensOf_renamed hf h hs hraw', postfixOf_map halike, h, Formula.code_rename hf hs]

end Accepted

theorem Formula.piecesOf_text_rename {f : Formula} (hf : f.IsNamed) {s : String → String}
    (hs : Renames s f.vars) :
    piecesOf (f.rename s).text = (tokensOf f.text).map fun t => (t.rename s).name := by
  rw [← map_name_tokensOf, tokensOf_text (isNamed_rename hf hs), bracketed_rename hf hs,
    tokensOf_text hf, List.map_map]
  rfl

theorem exists_process_renamed {f : Formula} (hf : f.IsNamed) {s : String → String}
    (hs : Renames s f.vars) {raw raw' : String} {tokens tokens' : List Token}
    (h : (Expression.parse raw).outcome = .ok (some ⟨f.text, f.code, tokens⟩))
    (h' : (Expression.parse raw').outcome =
      .ok (some ⟨(f.rename s).text, (f.rename s).code, tokens'⟩))
    (settings : Settings) (limit : Option Int) :
    ∃ submission submission', (Submission.process settings (some raw) limit).outcome =
        .ok submission ∧
      (Submission.process settings (some raw') limit).outcome = .ok submission' ∧
      submission'.status = submission.status ∧
      ∀ canonical table, submission = .ok canonical table →
        ∃ table', submission' = .ok (f.rename s).text table' ∧
          table'.vars = table.vars.map s ∧ table'.rows = table.rows := by
  have hf' := Formula.isNamed_rename hf hs
  have hcard : (f.rename s).vars.card = f.vars.card := by
    rw [← Formula.length_freeVariables hf', Formula.freeVariables_rename hf hs, List.length_map,
      Formula.length_freeVariables hf]
  rcases lt_or_ge (limit.getD settings.maxVariables) (f.vars.card : Int) with hlt | hle
  · obtain ⟨error, hprocess⟩ := Submission.exists_error hf h hlt
    obtain ⟨error', hprocess'⟩ := Submission.exists_error hf' h' (hcard ▸ hlt)
    refine ⟨_, _, hprocess, hprocess', rfl, fun canonical table hok => ?_⟩
    contradiction
  · obtain ⟨table, hprocess, htable⟩ := Submission.exists_table hf h hle
    obtain ⟨table', hprocess', htable'⟩ := Submission.exists_table hf' h' (hcard ▸ hle)
    refine ⟨_, _, hprocess, hprocess', rfl, fun canonical other hok => ?_⟩
    cases hok
    exact ⟨table', rfl, htable.rename hf hs htable'⟩

/-- New names for the variables of an accepted text, different ones for different variables and none
of them a literal, change the names in its postfix form and in its canonical text and nothing else.
The text comes to the same end, and its table has the same rows under the new names. -/
theorem renaming_keeps_table (raw raw' : String) (e : Expression) (s : String → String)
    (h : (Expression.parse raw).outcome = .ok (some e))
    (hinj : Set.InjOn s {name | name ∈ freeVariables e.code})
    (hnames : ∀ name ∈ freeVariables e.code,
      isIdentifier (s name) = true ∧ s name ≠ "T" ∧ s name ≠ "F")
    (hraw' : piecesOf raw' = (tokensOf raw).map fun t => (t.rename s).name) :
    ∃ e', (Expression.parse raw').outcome = .ok (some e') ∧
      e'.code = e.code.map (Token.rename s) ∧
      piecesOf e'.canonical = (tokensOf e.canonical).map (fun t => (t.rename s).name) ∧
      ∀ (settings : Settings) (limit : Option Int), ∃ submission submission',
        (Submission.process settings (some raw) limit).outcome = .ok submission ∧
        (Submission.process settings (some raw') limit).outcome = .ok submission' ∧
        submission'.status = submission.status ∧
        ∀ canonical table, submission = .ok canonical table →
          ∃ table', submission' = .ok e'.canonical table' ∧
            table'.vars = table.vars.map s ∧ table'.rows = table.rows := by
  obtain ⟨f, hf, hcode, rfl⟩ := Expression.outcome_parse_eq_some_iff.mp h
  have hmem {name : String} (hname : name ∈ f.vars) : name ∈ freeVariables f.code :=
    (Formula.mem_freeVariables_code hf).mpr hname
  have hs : Renames s f.vars :=
    { isIdentifier := fun hname => (hnames _ (hmem hname)).1
      literal? := fun hname => by
        obtain ⟨-, hT, hF⟩ := hnames _ (hmem hname)
        rw [Token.literal?, if_neg hT, if_neg hF]
      injOn := fun _ hname _ hother heq => hinj (hmem hname) (hmem hother) heq }
  have h' := Expression.outcome_parse_eq_some_iff.mpr
    ⟨f.rename s, Formula.isNamed_rename hf hs, postfixOf_renamed hf hcode hs hraw', rfl⟩
  exact ⟨_, h', Formula.code_rename hf hs, Formula.piecesOf_text_rename hf hs,
    exists_process_renamed hf hs h h'⟩

theorem renaming_keeps_table_literal :
    ∃ e e', (Expression.parse "p ∧(q→T)").outcome = .ok (some e) ∧
      (Expression.parse "q∧ (p →T)").outcome = .ok (some e') ∧
      e.canonical = "(p ∧ (q → T))" ∧ e'.code.map (·.name) = ["q", "p", "T", "→", "∧"] ∧
      ∃ submission submission',
        (Submission.process {} (some "p ∧(q→T)") (some 2)).outcome = .ok submission ∧
        (Submission.process {} (some "q∧ (p →T)") (some 2)).outcome = .ok submission' ∧
        submission'.status = submission.status := by
  let f := Formula.join .and (.atom "p") (.join .implies (.atom "q") (.atom "T"))
  let s := fun name => if name = "p" then "q" else "p"
  have hf : f.IsNamed := by
    refine ⟨?_, ?_, ?_⟩ <;> change isIdentifier _ = true <;> decide
  have hparse : (Expression.parse "p ∧(q→T)").outcome =
      .ok (some ⟨f.text, f.code, tokensOf "p ∧(q→T)"⟩) :=
    Expression.outcome_parse_eq_some_iff.mpr ⟨f, hf, by decide, rfl⟩
  have hfree : freeVariables f.code = ["p", "q"] := by decide
  have hinj : ∀ x ∈ ["p", "q"], ∀ y ∈ ["p", "q"], s x = s y → x = y := by decide
  rw [← hfree] at hinj
  have hnames : ∀ name ∈ freeVariables f.code,
      isIdentifier (s name) = true ∧ s name ≠ "T" ∧ s name ≠ "F" := by
    rw [hfree]
    decide
  obtain ⟨e', he', hcode, -, hprocess⟩ := renaming_keeps_table "p ∧(q→T)" "q∧ (p →T)"
    ⟨f.text, f.code, tokensOf "p ∧(q→T)"⟩ s hparse
    (fun x hx y hy => hinj x hx y hy) hnames (by decide)
  obtain ⟨submission, submission', hsubmission, hsubmission', hstatus, -⟩ :=
    hprocess {} (some 2)
  refine ⟨_, e', hparse, he', rfl, ?_, submission, submission', hsubmission, hsubmission', hstatus⟩
  rw [hcode]
  decide

end TruthTables
