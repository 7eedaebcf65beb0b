import TruthTables.Entries
import TruthTables.Proofs.Evaluation.Transfer

namespace TruthTables

namespace Operand

/-- The truth value at a place. A single value is the same at every place. -/
def entry (i : Nat) : Operand → Scalar
  | scalar a => a
  | column entries => entries[i]?

/-- A truth value that is not missing, or a column of length `n`. -/
def Fits (n : Int) : Operand → Prop
  | scalar a => a.isSome = true
  | column entries => (entries.length : Int) = n

@[simp] theorem fits_column (n : Int) (entries : List Bool) :
    (column entries).Fits n ↔ (entries.length : Int) = n :=
  Iff.rfl

theorem closedUnder_fits (n : Int) : Interpretation.operands.ClosedUnder (Fits n) where
  literal _ := rfl
  negate {a} ha := by
    cases a with
    | scalar a => rfl
    | column entries => simpa [Interpretation.operands, negate] using ha
  connect c {a b} ha hb := by
    cases a with
    | scalar a =>
        cases b with
        | scalar b => exact ⟨_, rfl, rfl⟩
        | column bs => exact ⟨_, rfl, by simpa using hb⟩
    | column as =>
        cases b with
        | scalar b => exact ⟨_, rfl, by simpa using ha⟩
        | column bs =>
            rw [fits_column] at ha hb
            have hlength : as.length = bs.length := by omega
            refine ⟨column (List.zipWith c.apply as bs), ?_, ?_⟩
            · simp only [Interpretation.operands, connect, connectColumns_of_length_eq c hlength]
              rfl
            · rw [fits_column, List.length_zipWith]
              omega

theorem carriedTo_entry {n : Int} {i : Nat} (hi : (i : Int) < n) :
    Interpretation.operands.CarriedTo .scalars (Fits n) (entry i) where
  literal _ := rfl
  negate {a} ha := by
    cases a with
    | scalar a => rfl
    | column entries =>
        rw [fits_column] at ha
        have hlt : i < entries.length := by omega
        simp [entry, Interpretation.operands, Interpretation.scalars, negate, Scalar.isTrue, hlt]
  connect c {a b} ha hb := by
    cases a with
    | scalar a =>
        cases b with
        | scalar b => rfl
        | column bs =>
            rw [fits_column] at hb
            have hlt : i < bs.length := by omega
            simp [entry, Interpretation.operands, Interpretation.scalars, connect, Except.map,
              Scalar.isTrue, hlt]
    | column as =>
        rw [fits_column] at ha
        have hlt : i < as.length := by omega
        cases b with
        | scalar b =>
            simp [entry, Interpretation.operands, Interpretation.scalars, connect, Except.map,
              Scalar.isTrue, hlt]
        | column bs =>
            rw [fits_column] at hb
            have hlength : as.length = bs.length := by omega
            have hlt' : i < bs.length := by omega
            simp only [Interpretation.operands, connect, connectColumns_of_length_eq c hlength]
            change Except.ok (some (c.apply (as[i]?.getD false) (bs[i]?.getD false))) =
              Except.ok (List.zipWith c.apply as bs)[i]?
            rw [List.getElem?_zipWith, List.getElem?_eq_getElem hlt, List.getElem?_eq_getElem hlt']
            rfl

end Operand

/-- Columns as values for the machine. -/
def columnAssignment (columns : Assignment (List Bool)) : Assignment Operand :=
  Evaluation.mapAssignment .column columns

/-- The entries of all columns at one place. -/
def rowAssignment (columns : Assignment (List Bool)) (i : Nat) : Assignment Scalar :=
  Evaluation.mapAssignment (fun entries => entries[i]?) columns

namespace Evaluation

theorem outcome_attempt {α : Type} (I : Interpretation α) (values : Assignment α)
    (ts : List Token) :
    (attempt I values ts).outcome =
      match result I values ts with
      | .ok value => .ok (some value)
      | .error (.failed fault) => .error fault
      | .error (.refused _) => .ok none := by
  unfold attempt
  rcases result I values ts with (reason | fault) | value
  · simp [Except.bind]
  · rfl
  · rfl

end Evaluation

theorem outcome_evaluate (ts : List Token) (values : Assignment Scalar) :
    (evaluate ts values).outcome =
      match Evaluation.result .scalars values ts with
      | .ok value => .ok value
      | .error (.failed fault) => .error fault
      | .error (.refused _) => .ok none := by
  rw [evaluate, Attempt.outcome_bind, Evaluation.outcome_attempt]
  rcases Evaluation.result .scalars values ts with (reason | fault) | value <;> rfl

theorem outcome_evaluate_congr {ts : List Token} {values values' : Assignment Scalar}
    (h : ∀ t ∈ ts, t.kind = .operand →
      Evaluation.operandValue .scalars values t.name =
        Evaluation.operandValue .scalars values' t.name) :
    (evaluate ts values).outcome = (evaluate ts values').outcome := by
  rw [outcome_evaluate, outcome_evaluate, Evaluation.result_congr h]

theorem outcome_evaluateColumns (ts : List Token) (columns : Assignment Operand) (n : Int) :
    (evaluateColumns ts columns n).outcome =
      match Evaluation.result .operands columns ts with
      | .ok (.scalar none) => .ok none
      | .ok (.scalar (some b)) =>
          if n < 0 then .error .negativeLength else .ok (some (List.replicate n.toNat b))
      | .ok (.column entries) => .ok (some entries)
      | .error (.failed fault) => .error fault
      | .error (.refused _) => .ok none := by
  rw [evaluateColumns, Attempt.outcome_bind, Evaluation.outcome_attempt]
  rcases Evaluation.result .operands columns ts with (reason | fault) | ((_ | b) | entries)
  · rfl
  · rfl
  · rfl
  · simp only [Except.bind]
    split <;> rfl
  · rfl

section Columns

variable {columns : Assignment (List Bool)} {n : Int}
  (h : ∀ name entries, columns name = some entries → (entries.length : Int) = n)

include h

theorem fits_columnAssignment :
    ∀ name value, columnAssignment columns name = some value → value.Fits n := by
  intro name value hvalue
  unfold columnAssignment Evaluation.mapAssignment at hvalue
  obtain ⟨entries, hentries, rfl⟩ := Option.map_eq_some_iff.mp hvalue
  exact h name entries hentries

/-- A row has the value that the columns have at its place, and stops where they stop. -/
theorem outcome_evaluate_row
    (ts : List Token) {i : Nat} (hi : (i : Int) < n) :
    (evaluate ts (rowAssignment columns i)).outcome =
      (evaluateColumns ts (columnAssignment columns) n).outcome.map fun answer =>
        answer.bind fun entries => entries[i]? := by
  have hfits := fits_columnAssignment h
  have hmap := Evaluation.result_map (Operand.closedUnder_fits n) (Operand.carriedTo_entry hi)
    hfits ts
  have hrow : Evaluation.mapAssignment (Operand.entry i) (columnAssignment columns) =
      rowAssignment columns i := by
    funext name
    simp only [columnAssignment, rowAssignment, Evaluation.mapAssignment, Option.map_map]
    rfl
  rw [hrow] at hmap
  rw [outcome_evaluate, outcome_evaluateColumns, hmap]
  rcases hresult : Evaluation.result .operands (columnAssignment columns) ts with
    (reason | fault) | ((_ | b) | entries)
  · rfl
  · rfl
  · have hmem := Evaluation.result_mem (Operand.closedUnder_fits n) hfits hresult
    contradiction
  · have hlt : i < n.toNat := by omega
    have hn : ¬n < 0 := by omega
    simp [Except.map, Operand.entry, hlt, hn]
  · rfl

theorem length_of_evaluateColumns
    {ts : List Token} {entries : List Bool}
    (hentries : (evaluateColumns ts (columnAssignment columns) n).outcome = .ok (some entries)) :
    (entries.length : Int) = n := by
  rw [outcome_evaluateColumns] at hentries
  rcases hresult : Evaluation.result .operands (columnAssignment columns) ts with
    (reason | fault) | ((_ | b) | found) <;> rw [hresult] at hentries
  · simp at hentries
  · simp at hentries
  · simp at hentries
  · dsimp only at hentries
    split at hentries
    · simp at hentries
    · simp only [Except.ok.injEq, Option.some.injEq] at hentries
      subst entries
      rw [List.length_replicate]
      omega
  · simp only [Except.ok.injEq, Option.some.injEq] at hentries
    subst found
    exact Evaluation.result_mem (Operand.closedUnder_fits n) (fits_columnAssignment h) hresult

theorem evaluateColumns_eq_error_iff
    (ts : List Token) {i : Nat} (hi : (i : Int) < n) (fault : Fault) :
    (evaluateColumns ts (columnAssignment columns) n).outcome = .error fault ↔
      (evaluate ts (rowAssignment columns i)).outcome = .error fault := by
  rw [outcome_evaluate_row h ts hi]
  rcases (evaluateColumns ts (columnAssignment columns) n).outcome with found | answer <;>
    simp [Except.map]

theorem evaluateColumns_eq_none_iff
    (ts : List Token) {i : Nat} (hi : (i : Int) < n) :
    (evaluateColumns ts (columnAssignment columns) n).outcome = .ok none ↔
      (evaluate ts (rowAssignment columns i)).outcome = .ok none := by
  rw [outcome_evaluate_row h ts hi]
  rcases hwhole : (evaluateColumns ts (columnAssignment columns) n).outcome with
    fault | (_ | results)
  · simp [Except.map]
  · simp [Except.map]
  · have hlength := length_of_evaluateColumns h hwhole
    have hlt : i < results.length := by omega
    simp [Except.map, hlt]

theorem evaluateColumns_ne_lengthMismatch
    (ts : List Token) (left right : Nat) :
    (evaluateColumns ts (columnAssignment columns) n).outcome ≠
      .error (.lengthMismatch left right) := by
  intro hfault
  rw [outcome_evaluateColumns] at hfault
  rcases hresult : Evaluation.result .operands (columnAssignment columns) ts with
    (reason | fault) | ((_ | b) | entries) <;> rw [hresult] at hfault
  · simp at hfault
  · have hmachine := Evaluation.result_fault (Operand.closedUnder_fits n) (fits_columnAssignment h)
      hresult
    simp only [Except.error.injEq] at hfault
    subst fault
    exact hmachine
  · simp at hfault
  · dsimp only at hfault
    split at hfault <;> simp at hfault
  · simp at hfault

end Columns

/-- A name was looked up in vain, of a variable or of a connective. -/
def Fault.Misses (key : String) (fault : Fault) : Prop :=
  fault = .unassigned key ∨ fault = .unknownConnective key

/-- Any sequence of tokens has the same value over columns as over each of their rows, and fails
over columns as it fails over each row. Columns of one length never clash. -/
theorem evaluateColumns_entrywise (ts : List Token) (n : Int) (columns : Assignment (List Bool))
    (hcolumns : ∀ name entries, columns name = some entries → (entries.length : Int) = n) :
    (∀ results, (evaluateColumns ts (columnAssignment columns) n).outcome = .ok (some results) →
      (results.length : Int) = n ∧
        ∀ (i : Nat) (hi : i < results.length),
          (evaluate ts (rowAssignment columns i)).outcome = .ok (some results[i])) ∧
    (1 ≤ n →
      ((evaluateColumns ts (columnAssignment columns) n).outcome = .ok none ↔
        ∀ i : Nat, (i : Int) < n →
          (evaluate ts (rowAssignment columns i)).outcome = .ok none) ∧
      (∀ key,
        (∃ fault : Fault, fault.Misses key ∧
          (evaluateColumns ts (columnAssignment columns) n).outcome = .error fault) ↔
        ∀ i : Nat, (i : Int) < n → ∃ fault : Fault, fault.Misses key ∧
          (evaluate ts (rowAssignment columns i)).outcome = .error fault) ∧
      ((evaluateColumns ts (columnAssignment columns) n).outcome = .error .emptyStack ↔
        ∀ i : Nat, (i : Int) < n →
          (evaluate ts (rowAssignment columns i)).outcome = .error .emptyStack)) ∧
    ∀ left right, (evaluateColumns ts (columnAssignment columns) n).outcome ≠
      .error (.lengthMismatch left right) := by
  refine ⟨?_, ?_, evaluateColumns_ne_lengthMismatch hcolumns ts⟩
  · intro results hresults
    have hlength := length_of_evaluateColumns hcolumns hresults
    refine ⟨hlength, fun i hi => ?_⟩
    rw [outcome_evaluate_row hcolumns ts (by omega), hresults]
    simp [Except.map, hi]
  · -- One row is enough to tell how all of them end.
    intro hn
    have hzero : ((0 : Nat) : Int) < n := by omega
    have herror := fun i hi => evaluateColumns_eq_error_iff hcolumns ts (i := i) hi
    have hnone := fun i hi => evaluateColumns_eq_none_iff hcolumns ts (i := i) hi
    refine ⟨⟨fun h i hi => (hnone i hi).mp h, fun h => (hnone 0 hzero).mpr (h 0 hzero)⟩, ?_,
      ⟨fun h i hi => (herror i hi _).mp h, fun h => (herror 0 hzero _).mpr (h 0 hzero)⟩⟩
    intro key
    constructor
    · rintro ⟨fault, hkey, hfault⟩ i hi
      exact ⟨fault, hkey, (herror i hi fault).mp hfault⟩
    · intro h
      obtain ⟨fault, hkey, hfault⟩ := h 0 hzero
      exact ⟨fault, hkey, (herror 0 hzero fault).mpr hfault⟩

theorem evaluateColumns_entrywise_literal :
    let columns : Assignment (List Bool) := fun name =>
      Entries.get? name [("p", [false, true]), ("q", [true, false])]
    (∀ name entries, columns name = some entries → (entries.length : Int) = 2) ∧ (1 : Int) ≤ 2 ∧
    (evaluate [.operand "p", .operand "T", .conjunction, .operand "q", .implication]
      (rowAssignment columns 1)).outcome = .ok (some false) ∧
    (∀ i : Nat, (i : Int) < 2 →
      (evaluate [.operand "p", .conjunction] (rowAssignment columns i)).outcome = .ok none) ∧
    ∀ i : Nat, (i : Int) < 2 → ∃ fault : Fault, fault.Misses "r" ∧
      (evaluate [.operand "r"] (rowAssignment columns i)).outcome = .error fault := by
  intro columns
  have hcolumns : ∀ name entries, columns name = some entries → (entries.length : Int) = 2 := by
    intro name entries h
    simp only [columns, Entries.get?] at h
    split at h
    · cases h
      rfl
    · split at h
      · cases h
        rfl
      · contradiction
  have hvalue := (evaluateColumns_entrywise
    [.operand "p", .operand "T", .conjunction, .operand "q", .implication] 2 columns hcolumns).1
    [true, false] rfl
  have hnone := ((evaluateColumns_entrywise [.operand "p", .conjunction] 2 columns hcolumns).2.1
    (by decide)).1
  have hmissing := ((evaluateColumns_entrywise [.operand "r"] 2 columns hcolumns).2.1
    (by decide)).2.1 "r"
  exact ⟨hcolumns, by decide, hvalue.2 1 (by decide), hnone.mp rfl,
    hmissing.mp ⟨_, .inl rfl, rfl⟩⟩

end TruthTables
