import TruthTables.Proofs.Formula.Tabulation

namespace TruthTables

namespace Formula

theorem freeVariables_not (f : Formula) : freeVariables f.not.code = freeVariables f.code := by
  have hsign : freeVariables [.negation] = [] := freeVariables_eq_nil (by decide)
  rw [code, freeVariables_append, hsign, List.filter_nil, List.append_nil]

theorem freeVariables_join (c : Connective) (f g : Formula) :
    freeVariables (join c f g).code =
      freeVariables f.code ++
        (freeVariables g.code).filter fun name => name ∉ freeVariables f.code := by
  have hsign : freeVariables [c.token] = [] := freeVariables_eq_nil (by simp [c.kind_token])
  rw [code, freeVariables_append, hsign, List.filter_nil, List.append_nil, freeVariables_append]

end Formula

theorem Row.valuation_of_values {vars : List String} {r : Row} {v : String → Bool}
    (h : r.values = vars.map v) {name : String} (hname : name ∈ vars) :
    r.valuation vars name = v name := by
  rw [Row.valuation, h, List.getD_eq_getElem?_getD, List.getElem?_map,
    List.getElem?_idxOf hname]
  rfl

namespace Table

/-- The table has this row where its variables have the given values. -/
def Selects (t : Table) (valuation : String → Bool) (r : Row) : Prop :=
  r ∈ t.rows ∧ r.values = t.vars.map valuation

theorem Tabulates.getElem_rows {f : Formula} (hf : f.IsNamed) {table : Table}
    (h : Tabulates f.code table) {i : Nat} (hi : i < table.rows.length) :
    table.rows[i] = ⟨Assignments.bits (freeVariables f.code).length i,
      f.truth fun name => i.testBit ((freeVariables f.code).idxOf name)⟩ := by
  have hresult := h.result_eq_truth hf hi
  rw [h.valuation_eq hi] at hresult
  rw [← h.values hi, ← hresult]

theorem Tabulates.selects_iff {f : Formula} (hf : f.IsNamed) {table : Table}
    (h : Tabulates f.code table) {v : String → Bool} {r : Row} :
    table.Selects v r ↔ r = ⟨table.vars.map v, f.truth v⟩ := by
  have hmem {name : String} (hname : name ∈ f.vars) : name ∈ table.vars := by
    rwa [h.vars, ← List.mem_toFinset, Formula.toFinset_freeVariables hf]
  have heq {r : Row} (hr : table.Selects v r) : r = ⟨table.vars.map v, f.truth v⟩ := by
    obtain ⟨hrow, hvalues⟩ := hr
    obtain ⟨i, hi, rfl⟩ := List.mem_iff_getElem.mp hrow
    have hresult : table.rows[i].result = f.truth v := by
      rw [h.result_eq_truth hf hi]
      exact Formula.truth_congr fun name hname => Row.valuation_of_values hvalues (hmem hname)
    rw [← hvalues, ← hresult]
  constructor
  · exact heq
  · -- Some row shows the values, and `heq` tells what its result is.
    rintro rfl
    obtain ⟨i, hi, -⟩ := h.existsUnique_row (table.vars.map v) (by simp)
    obtain ⟨r, hrow, hvalues⟩ := Option.map_eq_some_iff.mp hi
    have hr : table.Selects v r := ⟨List.mem_of_getElem? hrow, hvalues⟩
    rwa [← heq hr]

theorem Tabulates.selects_valuation {code : List Token} {table : Table} (h : Tabulates code table)
    {row : Row} (hrow : row ∈ table.rows) : table.Selects (row.valuation table.vars) row := by
  refine ⟨hrow, ?_⟩
  have hnodup : table.vars.Nodup := h.vars ▸ nodup_freeVariables code
  obtain ⟨i, hi, rfl⟩ := List.mem_iff_getElem.mp hrow
  apply List.ext_getElem
  · rw [h.values hi, Assignments.length_bits, List.length_map, h.vars]
  · intro j hj _
    rw [List.getElem_map, Row.valuation, hnodup.idxOf_getElem, List.getD_eq_getElem?_getD,
      List.getElem?_eq_getElem hj, Option.getD_some]

/-- The table of two formulas under a connective: at the values of each of its rows the two tables
have one row each, and the truth table of the connective puts their results together. -/
structure IsJoin (table : Table) (c : Connective) (left right : Table) : Prop where
  vars : table.vars = left.vars ++ right.vars.filter fun name => name ∉ left.vars
  size : table.rows.length = 2 ^ table.vars.length
  result : ∀ row ∈ table.rows, table.Selects (row.valuation table.vars) row ∧
    ∃ l r, (∀ l', left.Selects (row.valuation table.vars) l' ↔ l' = l) ∧
      (∀ r', right.Selects (row.valuation table.vars) r' ↔ r' = r) ∧
      row.result = c.table l.result r.result

structure IsNegation (table inner : Table) : Prop where
  vars : table.vars = inner.vars
  size : table.rows.length = 2 ^ table.vars.length
  rows : table.rows = inner.rows.map fun r => { r with result := !r.result }

theorem Tabulates.isJoin {c : Connective} {f g : Formula} (hf : f.IsNamed) (hg : g.IsNamed)
    {left right table : Table} (hleft : Tabulates f.code left) (hright : Tabulates g.code right)
    (htable : Tabulates (Formula.join c f g).code table) : table.IsJoin c left right where
  vars := by rw [htable.vars, hleft.vars, hright.vars, Formula.freeVariables_join]
  size := htable.length_rows
  result := by
    intro row hrow
    have hselects := htable.selects_valuation hrow
    have hrowEq := (htable.selects_iff (f := .join c f g) ⟨hf, hg⟩).mp hselects
    refine ⟨hselects, _, _, fun _ => hleft.selects_iff hf, fun _ => hright.selects_iff hg, ?_⟩
    exact congrArg Row.result hrowEq

theorem Tabulates.isNegation {f : Formula} (hf : f.IsNamed) {inner table : Table}
    (hinner : Tabulates f.code inner) (htable : Tabulates f.not.code table) :
    table.IsNegation inner where
  vars := by rw [htable.vars, hinner.vars, Formula.freeVariables_not]
  size := htable.length_rows
  rows := by
    have hlength : table.rows.length = inner.rows.length := by
      rw [htable.length, hinner.length, Formula.freeVariables_not]
    apply List.ext_getElem
    · rw [List.length_map, hlength]
    · intro i hi _
      rw [List.getElem_map, htable.getElem_rows (f := f.not) hf hi,
        hinner.getElem_rows hf (hlength ▸ hi), Formula.freeVariables_not]
      rfl

end Table

end TruthTables
