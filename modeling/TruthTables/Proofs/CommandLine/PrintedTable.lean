import TruthTables.Proofs.CanonicalText
import TruthTables.Proofs.CommandLine.Plan
import TruthTables.Proofs.Formula.Tabulation
import TruthTables.Proofs.Text.Aligned
import TruthTables.Proofs.Text.Csv

namespace TruthTables

/-- The truth value that a symbol stands for. -/
def Settings.value? (s : Settings) (symbol : String) : Option Bool :=
  if symbol = s.trueSymbol then some true
  else if symbol = s.falseSymbol then some false
  else none

theorem Settings.value?_symbol {s : Settings} (h : s.fault? = none) (b : Bool) :
    s.value? (s.symbol b) = some b := by
  cases b with
  | true => exact if_pos rfl
  | false =>
      have hne : s.falseSymbol ≠ s.trueSymbol := fun heq =>
        Bool.noConfusion (s.symbol_injective h (a := false) (b := true) heq)
      exact (if_neg hne).trans (if_pos rfl)

theorem Table.map_value?_records {s : Settings} (h : s.fault? = none) (t : Table) :
    (t.records s).map (fun row => row.map s.value?) = t.rows.map fun r => r.cells.map some := by
  rw [records, List.map_map]
  refine List.map_congr_left fun r _ => ?_
  rw [Function.comp_apply, List.map_map]
  exact List.map_congr_left fun b _ => Settings.value?_symbol h b

namespace Formula

variable {f : Formula} (hf : f.IsNamed)

include hf

theorem isIdentifier_of_mem_freeVariables {name : String} (h : name ∈ freeVariables f.code) :
    isIdentifier name = true :=
  isNamed_iff.mp hf name (mem_vars_iff.mp ((mem_freeVariables_code hf).mp h)).2

theorem return_notMem_text : '\r' ∉ f.text.toList := by
  induction f with
  | atom name => exact fun hmem => absurd ((isWordChar_of_isIdentifier hf).2 _ hmem) (by decide)
  | not inner ih =>
      simp only [text, String.toList_append, List.mem_append, not_or]
      exact ⟨⟨by decide, ih hf⟩, by decide⟩
  | join c left right ihLeft ihRight =>
      have hsign : '\r' ∉ c.sign.toList := by cases c <;> decide
      simp only [text, String.toList_append, List.mem_append, not_or]
      exact ⟨⟨⟨⟨⟨⟨by decide, ihLeft hf.1⟩, by decide⟩, hsign⟩, by decide⟩, ihRight hf.2⟩, by decide⟩

end Formula

namespace CommandLine

theorem fits_of_symbols {s : Settings} {reads : Bool}
    (hreturns : reads = true → s.returnsBreak = true ∨ ∀ b, '\r' ∉ (s.symbol b).toList)
    {f : Formula} (hf : f.IsNamed) {table : Table} (h : Table.Tabulates f.code table)
    (hexpression : table.expression = f.text) :
    ∀ fields ∈ table.header :: table.records s, ∀ field ∈ fields,
      Csv.Fits s.returnsBreak reads field.toList := by
  rw [List.forall_mem_cons, Table.header, List.forall_mem_append, List.forall_mem_singleton,
    Table.records, List.forall_mem_map]
  refine ⟨⟨fun name hname => ?_, ?_⟩, fun row _ => ?_⟩
  · rw [h.vars] at hname
    have hidentifier := Formula.isIdentifier_of_mem_freeVariables hf hname
    refine Csv.fits_of_returns fun _ => .inr fun hmem => ?_
    exact absurd ((isWordChar_of_isIdentifier hidentifier).2 _ hmem) (by decide)
  · rw [hexpression]
    exact Csv.fits_of_returns fun _ => .inr (Formula.return_notMem_text hf)
  · rw [List.forall_mem_map]
    intro b _
    exact Csv.fits_of_returns fun hreads => (hreturns hreads).imp_right fun hnone => hnone b

/-- Behind the heading a run prints the table, and it can be read there again. Values separated by
commas give back the header and the records, whatever the symbols are, to everyone who breaks lines
only at characters that are quoted, and so the truth values; where the symbols are words, the words
of the aligned lines are the records too. -/
theorem printed_table_read_again (s : Settings) (hs : s.fault? = none) (request : Request)
    (limit : Option Int) (hlimit : request.maxVariables = some (limit.getD s.maxVariables))
    (htarget : Plan.target request = none) (canonical : String) (table : Table)
    (h : (Submission.process s (some request.expression) limit).outcome =
      .ok (.ok canonical table)) (who : Identity) (folder : Folder) (weight : Nat) :
    ∃ printed, (perform s who folder request weight).stdout =
        s.idleHeading ++ canonical ++ "\n" ++ printed ∧
      (request.format = .csv → ∀ returns : Bool,
        (returns = true → s.returnsBreak = true ∨ ∀ b, '\r' ∉ (s.symbol b).toList) →
        Csv.read returns printed = (table.vars ++ [canonical]) :: table.records s ∧
        (Csv.read returns printed).tail.map (fun row => row.map s.value?) =
          table.rows.map fun r => r.cells.map some) ∧
      (request.format = .text →
        (∀ b, s.symbol b ≠ "" ∧ ∀ c ∈ (s.symbol b).toList, isBlank c = false) →
        Aligned.read printed = table.records s) := by
  obtain ⟨_, hprocess, htabulates⟩ :=
    Submission.exists_outcome_process s request.expression limit
  obtain ⟨hexpression, f, hf, htext, htable⟩ :=
    htabulates _ _ (Except.ok.inj (hprocess.symm.trans h))
  obtain ⟨grid, hgrid, hcsv, hlayout⟩ := htable.isFull.exists_grid htable.rows_ne_nil s
  have hplan : (plan s request).outcome =
      .ok ⟨s.idleHeading ++ canonical ++ "\n" ++ document s request.format grid, none, 0⟩ := by
    rw [outcome_plan_of_ok hs ((outcome_submit hlimit).trans h) hgrid,
      Plan.outcome_deliver_printed htarget]
    rfl
  have hheader : table.header = table.vars ++ [canonical] := by rw [Table.header, hexpression]
  refine ⟨document s request.format grid, by rw [perform, hplan]; rfl, ?_, ?_⟩
  · intro hformat returns hreturns
    have hne : ∀ fields ∈ table.header :: table.records s, fields ≠ [] := by
      rw [List.forall_mem_cons, Table.records, List.forall_mem_map]
      exact ⟨by simp [Table.header], fun r _ => by simp [Row.cells]⟩
    have hfits := fits_of_symbols hreturns hf htable (hexpression.trans htext)
    have hread : Csv.read returns (document s request.format grid) =
        (table.vars ++ [canonical]) :: table.records s := by
      rw [hformat, document, hcsv, Csv.read_document hne hfits, hheader]
    exact ⟨hread, by rw [hread, List.tail_cons, Table.map_value?_records hs]⟩
  · intro hformat hsymbols
    rw [hformat, document, hlayout]
    apply Aligned.read_layout
    intro row hrow entry hentry
    rw [Table.records, List.mem_map] at hrow
    obtain ⟨r, -, rfl⟩ := hrow
    obtain ⟨b, -, rfl⟩ := List.mem_map.mp hentry
    exact ⟨String.toList_eq_nil_iff.not.mpr (hsymbols b).1, (hsymbols b).2⟩

theorem printed_table_read_again_literal :
    let s : Settings := { trueSymbol := "\"", falseSymbol := "a\r\n,b", returnsBreak := true }
    let table : Table := ⟨["p"], "p", [⟨[false], false⟩, ⟨[true], true⟩]⟩
    s.fault? = none ∧
    (Submission.process s (some " p") none).outcome = .ok (.ok "p" table) ∧
    (Submission.process {} (some " p") (some 1)).outcome = .ok (.ok "p" table) ∧
    (∃ printed, (perform s .installed .empty ⟨" p", .csv, none, some 20, none⟩ 20).stdout =
        "The truth table of: p\n" ++ printed ∧
      Csv.read true printed = [["p", "p"], ["a\r\n,b", "a\r\n,b"], ["\"", "\""]]) ∧
    ∃ printed, (perform {} .installed .empty ⟨" p", .text, some "", some 1, none⟩ 20).stdout =
        "The truth table of: p\n" ++ printed ∧
      Aligned.read printed = [["F", "F"], ["T", "T"]] := by
  intro s table
  have hp : isIdentifier "p" = true := by decide
  have hs : s.fault? = none := by decide
  have hparse : (Expression.parse " p").outcome =
      .ok (some ⟨"p", [Token.ofText "p"], tokensOf " p"⟩) :=
    Expression.outcome_parse_eq_some_iff.mpr ⟨.atom "p", hp, by decide, rfl⟩
  have hprocess : (Submission.process s (some " p") none).outcome = .ok (.ok "p" table) := by
    rw [Submission.outcome_process hparse]
    rfl
  have hdefault : (Submission.process {} (some " p") (some 1)).outcome =
      .ok (.ok "p" table) := by
    rw [Submission.outcome_process hparse]
    rfl
  have hwords (b : Bool) : Settings.symbol {} b ≠ "" ∧
      ∀ c ∈ (Settings.symbol {} b).toList, isBlank c = false := by
    cases b <;> exact ⟨by decide, List.forall_mem_singleton.mpr (by decide)⟩
  obtain ⟨printed, hstdout, hcsv, -⟩ := printed_table_read_again s hs
    ⟨" p", .csv, none, some 20, none⟩ none rfl rfl "p" table hprocess .installed .empty 20
  obtain ⟨printed', hstdout', -, htext⟩ := printed_table_read_again {} (by decide)
    ⟨" p", .text, some "", some 1, none⟩ (some 1) rfl rfl "p" table hdefault .installed .empty 20
  exact ⟨hs, hprocess, hdefault, ⟨printed, hstdout, (hcsv rfl true fun _ => .inl rfl).1⟩,
    ⟨printed', hstdout', htext rfl hwords⟩⟩

end CommandLine

end TruthTables
