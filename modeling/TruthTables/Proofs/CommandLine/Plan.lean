import TruthTables.CommandLine.Run
import TruthTables.Proofs.Submission.Status
import TruthTables.Proofs.Table.Completeness

namespace TruthTables

theorem Grid.entries_map_some (header : List String) (rows : List (List String))
    (missing : String) :
    (Grid.mk header (rows.map fun row => row.map some)).entries missing = rows := by
  simp [Grid.entries, Function.comp_def]

namespace Table

/-- Every row has a value for each variable, and no other. -/
def IsFull (t : Table) : Prop :=
  ∀ r ∈ t.rows, r.values.length = t.vars.length

theorem Tabulates.isFull {code : List Token} {table : Table} (h : Tabulates code table) :
    table.IsFull := by
  intro r hr
  obtain ⟨i, hi, rfl⟩ := List.getElem_of_mem hr
  rw [h.values hi, h.vars, Assignments.length_bits]

theorem Tabulates.rows_ne_nil {code : List Token} {table : Table} (h : Tabulates code table) :
    table.rows ≠ [] := by
  apply List.ne_nil_of_length_pos
  rw [h.length_rows]
  exact Nat.two_pow_pos _

variable {t : Table}

theorem IsFull.length_cells (h : t.IsFull) {r : Row} (hr : r ∈ t.rows) :
    r.cells.length = t.header.length := by
  rw [Row.cells, header, List.length_append, List.length_append, h r hr]
  rfl

theorem foldl_max_length {rows : List Row} {n : Nat} (h : ∀ r ∈ rows, r.cells.length = n) :
    rows.foldl (fun w r => max w r.cells.length) n = n := by
  induction rows with
  | nil => rfl
  | cons r rows ih =>
      obtain ⟨hr, hrows⟩ := List.forall_mem_cons.mp h
      rw [List.foldl_cons, hr, Nat.max_self, ih hrows]

theorem IsFull.width_eq (h : t.IsFull) (hne : t.rows ≠ []) : t.width = t.header.length := by
  have hcells : ∀ r ∈ t.rows, r.cells.length = t.header.length := fun r hr => h.length_cells hr
  rw [width]
  cases hrows : t.rows with
  | nil => exact absurd hrows hne
  | cons r rows =>
      rw [hrows] at hcells
      obtain ⟨hr, hrest⟩ := List.forall_mem_cons.mp hcells
      rw [List.foldl_cons, hr, Nat.zero_max, foldl_max_length hrest]

theorem IsFull.grid_eq (h : t.IsFull) (hne : t.rows ≠ []) (s : Settings) :
    t.grid s.symbol = .ok ⟨t.header, (t.records s).map fun row => row.map some⟩ := by
  have hrows : t.rows.map (fun r => Grid.fill t.header.length (r.cells.map s.symbol)) =
      (t.records s).map fun row => row.map some := by
    rw [records, List.map_map]
    refine List.map_congr_left fun r hr => Grid.fill_of_length_le ?_
    rw [List.length_map, h.length_cells hr]
  rw [grid, if_pos, hrows]
  rw [h.width_eq hne]
  simp

theorem IsFull.exists_grid (h : t.IsFull) (hne : t.rows ≠ []) (s : Settings) :
    ∃ grid, t.grid s.symbol = .ok grid ∧
      (∀ returns, grid.csv returns = Csv.document returns (t.header :: t.records s)) ∧
      grid.text = Aligned.layout t.header (t.records s) := by
  refine ⟨_, h.grid_eq hne s, fun returns => ?_, ?_⟩
  · rw [Grid.csv, Grid.entries_map_some]
  · have hrecords : ((t.records s).map fun row => row.map some).isEmpty = false := by
      simpa [records] using hne
    rw [Grid.text, Grid.entries_map_some, hrecords]
    rfl

end Table

/-- No text that is submitted ends in a fault, and the table of an accepted one is the table of a
formula, under the canonical text. -/
theorem Submission.exists_outcome_process (s : Settings) (raw : String) (limit : Option Int) :
    ∃ submission, (Submission.process s (some raw) limit).outcome = .ok submission ∧
      ∀ canonical table, submission = .ok canonical table →
        table.expression = canonical ∧
          ∃ f : Formula, f.IsNamed ∧ canonical = f.text ∧ Table.Tabulates f.code table := by
  by_cases hblank : IsBlank (some raw)
  · exact ⟨_, outcome_process_of_isBlank hblank s limit, by simp⟩
  cases hwell : isWellFormed (code (some raw)) with
  | false =>
      obtain ⟨error, hprocess⟩ := outcome_process_of_unfit hblank hwell s limit
      exact ⟨_, hprocess, by simp⟩
  | true =>
      obtain ⟨f, hf, hcode⟩ := exists_formula_of_text hwell
      rw [outcome_process (Expression.outcome_parse_eq_some_iff.mpr ⟨f, hf, hcode, rfl⟩)]
      rcases Table.outcome_generate_code hf s ⟨limit, none⟩ f.text with
        ⟨-, hgenerate⟩ | ⟨-, table, hgenerate, -, htext, htable⟩
      · rw [hgenerate]
        exact ⟨_, rfl, by simp⟩
      · rw [hgenerate]
        refine ⟨_, rfl, fun canonical built hok => ?_⟩
        obtain ⟨rfl, rfl⟩ := Submission.ok.inj hok
        exact ⟨htext, f, hf, rfl, htable⟩

namespace CommandLine

/-- The document of a grid: its lines, each with a line break. -/
def document (s : Settings) : Format → Grid String → String
  | .csv, grid => grid.csv s.returnsBreak
  | .text, grid => grid.text ++ "\n"

theorem Plan.outcome_deliver_printed {request : Request} (h : target request = none)
    (s : Settings) (heading : String) (grid : Grid String) :
    (deliver s request heading grid).outcome =
      .ok ⟨heading ++ document s request.format grid, none, 0⟩ := by
  unfold deliver
  cases request.format <;> rw [h] <;> rfl

theorem Plan.outcome_deliver_saved {request : Request} {path : String}
    (h : target request = some path) (s : Settings) (heading : String) (grid : Grid String) :
    (deliver s request heading grid).outcome =
      .ok ⟨heading, some (path, document s request.format grid), 0⟩ := by
  unfold deliver
  cases request.format <;> rw [h] <;> rfl

theorem outcome_submit {s : Settings} {request : Request} {limit : Option Int}
    (h : request.maxVariables = some (limit.getD s.maxVariables)) :
    (submit s request).outcome =
      (Submission.process s (some request.expression) limit).outcome := by
  rw [submit, h]
  cases limit with
  | none => rfl
  | some n => rfl

section Plan

variable {s : Settings} {request : Request} (hs : s.fault? = none)

include hs

theorem outcome_plan_of_idle (h : (submit s request).outcome = .ok .idle) :
    (plan s request).outcome = .ok ⟨Submission.idle.heading s ++ "\n", none, 0⟩ := by
  simp only [plan, hs, Attempt.outcome_bind, h, Except.bind]
  rfl

theorem outcome_plan_of_invalid {expression : Option String} {error : String}
    (h : (submit s request).outcome = .ok (.invalid expression error)) :
    (plan s request).outcome =
      .ok ⟨(Submission.invalid expression error).heading s ++ "\n", none, 1⟩ := by
  simp only [plan, hs, Attempt.outcome_bind, h, Except.bind]
  split <;> rfl

theorem outcome_plan_of_ok {canonical : String} {table : Table} {grid : Grid String}
    (h : (submit s request).outcome = .ok (.ok canonical table))
    (hgrid : table.grid s.symbol = .ok grid) :
    (plan s request).outcome =
      (Plan.deliver s request ((Submission.ok canonical table).heading s ++ "\n") grid).outcome := by
  have hattempt (x : Except Fault (Grid String)) : Attempt.outcome (ExceptT.mk (pure x)) = x := rfl
  simp only [plan, hs, Attempt.outcome_bind, h, Except.bind, hgrid, hattempt]

end Plan

end CommandLine

end TruthTables
