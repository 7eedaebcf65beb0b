import TruthTables.Proofs.Evaluation.Entrywise
import TruthTables.Proofs.Table.Assignments
import TruthTables.Table.Generation

namespace TruthTables

namespace Token

theorem literal?_isSome_iff {name : String} :
    (literal? name).isSome = true ↔ name = "T" ∨ name = "F" := by
  unfold literal?
  split
  · simp_all
  · split <;> simp_all

theorem literal?_eq_none_iff {name : String} :
    literal? name = none ↔ name ≠ "T" ∧ name ≠ "F" := by
  rw [← Option.not_isSome_iff_eq_none, literal?_isSome_iff, not_or]

end Token

/-- The limit that was given, or else the configured one. -/
def Limits.effective (limits : Limits) (s : Settings) : Int :=
  limits.maxVariables.getD s.maxVariables

namespace NumberWriter

def CanWrite (writer : NumberWriter) (n : Int) : Prop :=
  ∃ text, writer n = .ok text

/-- The numbers that are written of a table with so many variables. -/
structure Announces (writer : NumberWriter) (count : Nat) : Prop where
  number : writer.CanWrite count
  size : writer.CanWrite (rowCount count)

theorem canWrite_unlimited (n : Int) : unlimited.CanWrite n :=
  ⟨_, rfl⟩

theorem announces_unlimited (count : Nat) : unlimited.Announces count :=
  ⟨canWrite_unlimited _, canWrite_unlimited _⟩

end NumberWriter

namespace Table

/-- The column of each free variable. -/
def variableColumns (code : List Token) : Assignment (List Bool) :=
  fun name => Entries.get? name (Assignments.columns (freeVariables code))

/-- The text over the results. -/
def headingOf (code : List Token) : Option String → Except Fault String
  | some text => .ok text
  | none => canonicalText code

/-- The results of all rows, if the sequence has a value. -/
def resultsOf (code : List Token) : Except Fault (Option (List Bool)) :=
  (evaluateColumns code (columnAssignment (variableColumns code))
    (rowCount (freeVariables code).length)).outcome

/-- The table that goes with the results, row by row. -/
def tableOf (code : List Token) (text : String) (results : List Bool) : Table :=
  ofResults (freeVariables code) text (Assignments.columns (freeVariables code))
    (rowCount (freeVariables code).length) results

theorem rows_tableOf (code : List Token) (text : String) (results : List Bool) :
    (tableOf code text results).rows =
      List.zipWith Row.mk ((List.range (rowCount (freeVariables code).length)).map
        (Assignments.bits (freeVariables code).length)) results := by
  rw [tableOf, ofResults, Assignments.rows_columns (nodup_freeVariables code)]

/-- What becomes of a sequence once its size is no matter. -/
def filled (code : List Token) (expression : Option String) : Except Fault Table :=
  (headingOf code expression).bind fun text =>
    (resultsOf code).bind fun
      | some results => .ok (tableOf code text results)
      | none => .error (.notEvaluable (code.map (·.name)))

theorem outcome_checkSize {writer : NumberWriter} {s : Settings} {limits : Limits} {count : Nat}
    (h : writer.Announces count)
    (hlimit : limits.effective s < count → writer.CanWrite (limits.effective s)) :
    (checkSize writer s limits count).outcome =
      if limits.effective s < count then .error (.tooManyVariables count (limits.effective s))
      else .ok () := by
  obtain ⟨number, hnumber⟩ := h.number
  obtain ⟨size, hsize⟩ := h.size
  unfold Limits.effective at hlimit ⊢
  unfold checkSize
  dsimp only
  split
  · rename_i hlt
    obtain ⟨limit, htext⟩ := hlimit hlt
    simp [hnumber, hsize, htext, Except.bind]
  · split
    · simp [hnumber, hsize, Except.bind]
    · rfl

theorem outcome_tabulate {writer : NumberWriter} {code : List Token}
    (h : writer.CanWrite (rowCount (freeVariables code).length)) (text : String) :
    (tabulate writer code text).outcome = filled code (some text) := by
  obtain ⟨size, hsize⟩ := h
  rw [tabulate, Attempt.outcome_bind]
  change Except.bind (resultsOf code) _ = Except.bind (resultsOf code) _
  rcases resultsOf code with fault | (_ | results)
  · rfl
  · rfl
  · simp [Except.bind, hsize, tableOf]

/-- Where the numbers can be written, the size is checked first, then the heading is made, then the
results. -/
theorem outcome_generateWith {writer : NumberWriter} {s : Settings} {limits : Limits}
    {code : List Token} (h : writer.Announces (freeVariables code).length)
    (hlimit : limits.effective s < (freeVariables code).length →
      writer.CanWrite (limits.effective s)) (expression : Option String) :
    (generateWith writer s limits code expression).outcome =
      if limits.effective s < (freeVariables code).length then
        .error (.tooManyVariables (freeVariables code).length (limits.effective s))
      else filled code expression := by
  unfold generateWith
  rw [Attempt.outcome_bind, outcome_checkSize h hlimit]
  split
  · rfl
  · cases expression with
    | some text => exact outcome_tabulate h.size text
    | none =>
        simp only [Except.bind, Attempt.outcome_bind, outcome_tabulate h.size]
        change Except.bind (canonicalText code) _ = Except.bind (canonicalText code) _
        cases canonicalText code <;> rfl

theorem outcome_generate (s : Settings) (limits : Limits) (code : List Token)
    (expression : Option String) :
    (generate s limits code expression).outcome =
      if limits.effective s < (freeVariables code).length then
        .error (.tooManyVariables (freeVariables code).length (limits.effective s))
      else filled code expression :=
  outcome_generateWith (NumberWriter.announces_unlimited _)
    (fun _ => NumberWriter.canWrite_unlimited _) expression

theorem variableColumns_apply (code : List Token) (name : String) :
    variableColumns code name =
      if name ∈ freeVariables code then
        some (Assignments.column (freeVariables code).length ((freeVariables code).idxOf name))
      else none :=
  Assignments.get?_columns (nodup_freeVariables code) name

theorem length_variableColumns (code : List Token) :
    ∀ name entries, variableColumns code name = some entries →
      (entries.length : Int) = (rowCount (freeVariables code).length : Nat) := by
  intro name entries h
  rw [variableColumns_apply] at h
  split at h
  · cases h
    rw [Assignments.length_column]
  · contradiction

theorem rowAssignment_variableColumns {code : List Token} {i : Nat}
    (hi : i < rowCount (freeVariables code).length) (name : String) :
    rowAssignment (variableColumns code) i name =
      if name ∈ freeVariables code then some (some (i.testBit ((freeVariables code).idxOf name)))
      else none := by
  unfold rowAssignment Evaluation.mapAssignment
  rw [variableColumns_apply]
  split
  · rw [Option.map_some, Assignments.getElem?_column hi]
  · rfl

theorem outcome_evaluate_of_bits {code : List Token} {a : Assignment Bool} {i : Nat}
    (hi : i < rowCount (freeVariables code).length)
    (ha : ∀ name ∈ freeVariables code,
      a name = some (i.testBit ((freeVariables code).idxOf name)))
    (hliteral : ∀ name, (Token.literal? name).isSome = true → a name = none) :
    (evaluate code (Evaluation.mapAssignment some a)).outcome =
      (evaluate code (rowAssignment (variableColumns code) i)).outcome := by
  -- An assignment that gives the variables the bits of a number makes of the sequence what the
  -- row of that number makes of it.
  apply outcome_evaluate_congr
  intro t ht hkind
  have hvalue : Evaluation.mapAssignment some a t.name =
      rowAssignment (variableColumns code) i t.name := by
    rw [rowAssignment_variableColumns hi]
    unfold Evaluation.mapAssignment
    cases hname : Token.literal? t.name with
    | none =>
        have hmem : t.name ∈ freeVariables code :=
          mem_freeVariables.mpr ⟨hname, t, ht, hkind, rfl⟩
        rw [if_pos hmem, ha t.name hmem, Option.map_some]
    | some b =>
        rw [if_neg (not_mem_freeVariables_of_literal hname code),
          hliteral t.name (by rw [hname]; rfl), Option.map_none]
  unfold Evaluation.operandValue
  rw [hvalue]

/-- The rows of a table are the values of the sequence over all numbers, in their order. -/
structure Tabulates (code : List Token) (table : Table) : Prop where
  vars : table.vars = freeVariables code
  length : table.rows.length = rowCount (freeVariables code).length
  values {i : Nat} (hi : i < table.rows.length) :
    table.rows[i].values = Assignments.bits (freeVariables code).length i
  result {i : Nat} (hi : i < table.rows.length) :
    (evaluate code (rowAssignment (variableColumns code) i)).outcome =
      .ok (some table.rows[i].result)

theorem tabulates_tableOf {code : List Token} {results : List Bool}
    (h : resultsOf code = .ok (some results)) (text : String) :
    Tabulates code (tableOf code text results) := by
  have hcolumns := length_variableColumns code
  have hlength := length_of_evaluateColumns hcolumns h
  have hrows : (tableOf code text results).rows.length =
      rowCount (freeVariables code).length := by
    rw [rows_tableOf, List.length_zipWith, List.length_map, List.length_range]
    omega
  refine ⟨rfl, hrows, fun {i} hi => ?_, fun {i} hi => ?_⟩
  · simp [rows_tableOf]
  · rw [hrows] at hi
    rw [outcome_evaluate_row hcolumns code (by omega)]
    change (resultsOf code).map _ = _
    have hlt : i < results.length := by omega
    simp [h, Except.map, rows_tableOf, hlt]

theorem tabulates_of_filled {code : List Token} {expression : Option String} {table : Table}
    (h : filled code expression = .ok table) : Tabulates code table := by
  rw [filled] at h
  cases hheading : headingOf code expression with
  | error fault => simp [hheading, Except.bind] at h
  | ok text =>
      rcases hresults : resultsOf code with fault | (_ | results)
      · simp [hheading, hresults, Except.bind] at h
      · simp [hheading, hresults, Except.bind] at h
      · simp only [hheading, hresults, Except.bind, Except.ok.injEq] at h
        subst table
        exact tabulates_tableOf hresults text

theorem tabulates_of_generate {s : Settings} {limits : Limits} {code : List Token}
    {expression : Option String} {table : Table}
    (h : (generate s limits code expression).outcome = .ok table) : Tabulates code table := by
  rw [outcome_generate] at h
  split at h
  · contradiction
  · exact tabulates_of_filled h

theorem Tabulates.length_rows {code : List Token} {table : Table} (h : Tabulates code table) :
    table.rows.length = 2 ^ table.vars.length := by
  rw [h.length, rowCount_eq_two_pow, h.vars]

theorem Tabulates.getElem?_values {code : List Token} {table : Table} (h : Tabulates code table)
    (i : Nat) :
    (table.rows[i]?).map Row.values =
      if i < table.rows.length then some (Assignments.bits table.vars.length i) else none := by
  split
  · rename_i hi
    rw [List.getElem?_eq_getElem hi, Option.map_some, h.values hi, h.vars]
  · rename_i hi
    rw [List.getElem?_eq_none (by omega), Option.map_none]

theorem Tabulates.existsUnique_row {code : List Token} {table : Table} (h : Tabulates code table)
    (values : List Bool) (hvalues : values.length = table.vars.length) :
    ∃! i : Nat, (table.rows[i]?).map Row.values = some values := by
  have hsize : table.rows.length = rowCount table.vars.length := by rw [h.length, h.vars]
  have hnumber : Nat.ofBits values.get < table.rows.length := by
    rw [h.length_rows, ← hvalues]
    exact Nat.ofBits_lt_two_pow values.get
  have hbits : Assignments.bits table.vars.length (Nat.ofBits values.get) = values := by
    rw [← hvalues, Assignments.bits_ofBits, List.ofFn_get]
  simp only [h.getElem?_values]
  refine ⟨Nat.ofBits values.get, ?_, ?_⟩
  · dsimp only
    rw [if_pos hnumber, hbits]
  · intro k hk
    split at hk
    · rename_i hlt
      rw [hsize] at hlt hnumber
      apply Assignments.bits_injOn hlt hnumber
      rw [hbits]
      exact Option.some.inj hk
    · contradiction

/-- A table lists each assignment to its different variables once. Whatever else an assignment
gives values to, the literals apart, the sequence has under it the result of the row whose number
has the values of the variables as bits. -/
theorem generate_complete (s : Settings) (limits : Limits) (code : List Token)
    (expression : Option String) (table : Table)
    (h : (generate s limits code expression).outcome = .ok table) :
    table.vars.Nodup ∧
    table.rows.length = 2 ^ table.vars.length ∧
    (∀ (i : Nat) (hi : i < table.rows.length),
      table.rows[i].values.length = table.vars.length ∧
        ∀ (j : Nat) (hj : j < table.rows[i].values.length),
          table.rows[i].values[j] = i.testBit j) ∧
    (∀ values : List Bool, values.length = table.vars.length →
      ∃! i : Nat, (table.rows[i]?).map Row.values = some values) ∧
    ∀ a : Assignment Bool, (∀ name ∈ table.vars, (a name).isSome = true) →
      a "T" = none → a "F" = none →
      ∃ row, table.rows[∑ j : Fin table.vars.length,
          ((a table.vars[j]).getD false).toNat * 2 ^ (j : Nat)]? = some row ∧
        (evaluate code (Evaluation.mapAssignment some a)).outcome = .ok (some row.result) := by
  have htable := tabulates_of_generate h
  have hnodup : table.vars.Nodup := htable.vars ▸ nodup_freeVariables code
  have hsize := htable.length_rows
  refine ⟨hnodup, hsize, ?_, htable.existsUnique_row, ?_⟩
  · intro i hi
    have hvalues := htable.values hi
    rw [← htable.vars] at hvalues
    refine ⟨by simp [hvalues], fun j hj => ?_⟩
    simp [hvalues, Assignments.bits]
  · intro a hcovers hT hF
    rw [← Assignments.ofBits_eq_sum fun j : Fin table.vars.length => (a table.vars[j]).getD false]
    generalize hnumber :
      Nat.ofBits (fun j : Fin table.vars.length => (a table.vars[j]).getD false) = i
    have hi : i < table.rows.length := by
      rw [hsize, ← hnumber]
      exact Nat.ofBits_lt_two_pow _
    have hbits : ∀ name ∈ freeVariables code,
        a name = some (i.testBit ((freeVariables code).idxOf name)) := by
      rw [← htable.vars]
      intro name hname
      have hlt := List.idxOf_lt_length_iff.mpr hname
      obtain ⟨b, hb⟩ := Option.isSome_iff_exists.mp (hcovers name hname)
      rw [← hnumber, Nat.testBit_ofBits_lt _ _ hlt]
      simp [hb]
    have hliteral : ∀ name, (Token.literal? name).isSome = true → a name = none := by
      intro name hname
      rcases Token.literal?_isSome_iff.mp hname with rfl | rfl
      · exact hT
      · exact hF
    refine ⟨table.rows[i], List.getElem?_eq_getElem hi, ?_⟩
    rw [outcome_evaluate_of_bits (htable.length ▸ hi) hbits hliteral]
    exact htable.result hi

theorem generate_complete_literal :
    (generate {} {} [.operand "p", .operand "T", .conjunction, .operand "q", .implication]
      none).outcome =
        .ok ⟨["p", "q"], "((p ∧ T) → q)",
          [⟨[false, false], true⟩, ⟨[true, false], false⟩, ⟨[false, true], true⟩,
            ⟨[true, true], true⟩]⟩ ∧
    ∃ row, ([⟨[false, false], true⟩, ⟨[true, false], false⟩, ⟨[false, true], true⟩,
        ⟨[true, true], true⟩] : List Row)[1]? = some row ∧
      (evaluate [.operand "p", .operand "T", .conjunction, .operand "q", .implication]
        (Evaluation.mapAssignment some fun name =>
          Entries.get? name [("q", false), ("r", true), ("p", true)])).outcome =
        .ok (some row.result) := by
  have h : (generate {} {} [.operand "p", .operand "T", .conjunction, .operand "q", .implication]
      none).outcome =
        .ok ⟨["p", "q"], "((p ∧ T) → q)",
          [⟨[false, false], true⟩, ⟨[true, false], false⟩, ⟨[false, true], true⟩,
            ⟨[true, true], true⟩]⟩ := by rfl
  exact ⟨h, (generate_complete _ _ _ _ _ h).2.2.2.2
    (fun name => Entries.get? name [("q", false), ("r", true), ("p", true)])
    (by decide) (by decide) (by decide)⟩

end Table

end TruthTables
