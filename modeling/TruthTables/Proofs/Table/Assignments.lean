import Mathlib.Algebra.BigOperators.Fin
import TruthTables.Table.Generation

namespace TruthTables

theorem eraseDups_induction {motive : List String → Prop} (nil : motive [])
    (cons : ∀ name rest, motive (rest.filter fun other => !other == name) → motive (name :: rest))
    (names : List String) : motive names := by
  induction hlength : names.length using Nat.strong_induction_on generalizing names with
  | _ length ih =>
      cases names with
      | nil => exact nil
      | cons name rest =>
          refine cons name rest (ih _ ?_ _ rfl)
          have hfilter := List.length_filter_le (fun other => !other == name) rest
          rw [List.length_cons] at hlength
          omega

theorem nodup_eraseDups (names : List String) : names.eraseDups.Nodup := by
  induction names using eraseDups_induction with
  | nil => simp
  | cons name rest ih =>
      rw [List.eraseDups_cons, List.nodup_cons]
      exact ⟨by simp, ih⟩

theorem eraseDups_filter (p : String → Bool) (names : List String) :
    (names.filter p).eraseDups = names.eraseDups.filter p := by
  induction names using eraseDups_induction with
  | nil => rfl
  | cons name rest ih =>
      rw [List.filter_comm] at ih
      rw [List.eraseDups_cons]
      cases hp : p name with
      | true => rw [List.filter_cons_of_pos hp, List.filter_cons_of_pos hp, List.eraseDups_cons, ih]
      | false =>
          -- What passes `p` is no repetition of a name that does not.
          have hother : ∀ other ∈ rest.filter p, (!other == name) = true := by
            intro other hmem
            have hne : other ≠ name := by
              rintro rfl
              rw [(List.mem_filter.mp hmem).2] at hp
              contradiction
            simp [hne]
          rw [List.filter_cons_of_neg (by simp [hp]), List.filter_cons_of_neg (by simp [hp]), ← ih,
            List.filter_eq_self.mpr hother]

theorem pairwise_idxOf_eraseDups (names : List String) :
    names.eraseDups.Pairwise fun a b => names.idxOf a < names.idxOf b := by
  induction names with
  | nil => simp
  | cons name rest ih =>
      rw [List.eraseDups_cons, eraseDups_filter, List.pairwise_cons]
      have hne : ∀ b ∈ rest.eraseDups.filter (fun other => !other == name), name ≠ b := by
        intro b hb
        rintro rfl
        simp at hb
      constructor
      · intro b hb
        rw [List.idxOf_cons_self, List.idxOf_cons_ne _ (hne b hb)]
        exact Nat.succ_pos _
      · refine (ih.filter _).imp_of_mem fun ha hb hlt => ?_
        rw [List.idxOf_cons_ne _ (hne _ ha), List.idxOf_cons_ne _ (hne _ hb)]
        exact Nat.succ_lt_succ hlt

theorem nodup_freeVariables (ts : List Token) : (freeVariables ts).Nodup :=
  nodup_eraseDups _

theorem freeVariables_append (as bs : List Token) :
    freeVariables (as ++ bs) =
      freeVariables as ++ (freeVariables bs).filter fun name => name ∉ freeVariables as := by
  unfold freeVariables
  rw [List.filter_append, List.map_append, List.eraseDups_append, List.removeAll, eraseDups_filter]
  simp only [List.elem_eq_mem, List.mem_eraseDups, decide_not]

theorem freeVariables_eq_nil {ts : List Token} (h : ∀ t ∈ ts, t.kind ≠ .operand) :
    freeVariables ts = [] := by
  have hnone : ts.filter (fun t => t.kind == .operand && !t.isLiteral) = [] :=
    List.filter_eq_nil_iff.mpr fun t ht => by simp [h t ht]
  rw [freeVariables, hnone]
  rfl

theorem mem_freeVariables {name : String} {ts : List Token} :
    name ∈ freeVariables ts ↔
      Token.literal? name = none ∧ ∃ t ∈ ts, t.kind = .operand ∧ t.name = name := by
  simp only [freeVariables, List.mem_eraseDups, List.mem_map, List.mem_filter, Token.isLiteral,
    Bool.and_eq_true, beq_iff_eq]
  constructor
  · rintro ⟨t, ⟨ht, hkind, hliteral⟩, rfl⟩
    exact ⟨by simpa [hkind] using hliteral, t, ht, hkind, rfl⟩
  · rintro ⟨hliteral, t, ht, hkind, rfl⟩
    exact ⟨t, ⟨ht, hkind, by simp [hkind, hliteral]⟩, rfl⟩

theorem not_mem_freeVariables_of_literal {name : String} {b : Bool}
    (h : Token.literal? name = some b) (ts : List Token) : name ∉ freeVariables ts := by
  intro hmem
  rw [(mem_freeVariables.mp hmem).1] at h
  contradiction

theorem rowCount_eq_two_pow (n : Nat) : rowCount n = 2 ^ n :=
  rfl

namespace Assignments

/-- The `n` lowest bits of a number, the lowest first. -/
def bits (n i : Nat) : List Bool :=
  (List.range n).map i.testBit

@[simp] theorem length_bits (n i : Nat) : (bits n i).length = n := by
  simp [bits]

theorem getElem?_bits {n j : Nat} (hj : j < n) (i : Nat) :
    (bits n i)[j]? = some (i.testBit j) := by
  simp [bits, hj]

theorem getD_bits {n i : Nat} (hi : i < rowCount n) (j : Nat) :
    (bits n i).getD j false = i.testBit j := by
  rw [List.getD_eq_getElem?_getD]
  rcases Nat.lt_or_ge j n with hj | hj
  · rw [getElem?_bits hj, Option.getD_some]
  · rw [rowCount_eq_two_pow] at hi
    have hpow : 2 ^ n ≤ 2 ^ j := Nat.pow_le_pow_right (by omega) hj
    rw [List.getElem?_eq_none (by rw [length_bits]; omega), Nat.testBit_lt_two_pow (by omega)]
    rfl

theorem bits_injOn {n i k : Nat} (hi : i < rowCount n) (hk : k < rowCount n)
    (h : bits n i = bits n k) : i = k := by
  apply Nat.eq_of_testBit_eq
  intro j
  rw [← getD_bits hi, h, getD_bits hk]

theorem bits_ofBits {n : Nat} (values : Fin n → Bool) :
    bits n (Nat.ofBits values) = List.ofFn values := by
  apply List.ext_getElem
  · simp
  · intro j hj _
    have hlt : j < n := by simpa using hj
    simp [bits, Nat.testBit_ofBits_lt values j hlt]

theorem ofBits_eq_sum {n : Nat} (values : Fin n → Bool) :
    Nat.ofBits values = ∑ j, (values j).toNat * 2 ^ (j : Nat) := by
  induction n with
  | zero => rfl
  | succ n ih =>
      rw [Nat.ofBits_succ, ih, Fin.sum_univ_succ, Finset.mul_sum, Nat.add_comm]
      congr 1
      · simp
      · apply Finset.sum_congr rfl
        intro j _
        simp only [Function.comp_apply, Fin.val_succ, pow_succ]
        rw [Nat.mul_comm 2, Nat.mul_assoc]

theorem get?_foldl_put {names : List String} (hnames : names.Nodup) (n k : Nat)
    (entries : List (String × List Bool)) (x : String) :
    Entries.get? x ((names.zipIdx k).foldl
        (fun entries (name, j) => Entries.put name (column n j) entries) entries) =
      if x ∈ names then some (column n (k + names.idxOf x)) else Entries.get? x entries := by
  induction names generalizing k entries with
  | nil => simp
  | cons name rest ih =>
      obtain ⟨hname, hrest⟩ := List.nodup_cons.mp hnames
      rw [List.zipIdx_cons, List.foldl_cons, ih hrest, Entries.get?_put]
      by_cases hx : name = x
      · subst hx
        simp [hname]
      · have hsum : k + 1 + rest.idxOf x = k + (rest.idxOf x + 1) := by omega
        simp [hx, Ne.symm hx, List.idxOf_cons_ne, hsum]

theorem get?_columns {names : List String} (hnames : names.Nodup) (x : String) :
    Entries.get? x (columns names) =
      if x ∈ names then some (column names.length (names.idxOf x)) else none := by
  have h := get?_foldl_put hnames names.length 0 [] x
  rw [Nat.zero_add] at h
  exact h

theorem getElem?_column {n i : Nat} (hi : i < rowCount n) (j : Nat) :
    (column n j)[i]? = some (i.testBit j) := by
  simp [column, hi]

theorem getElem?_transposed {lists : List (List Bool)} (h : lists ≠ []) (i : Nat) :
    (transposed lists)[i]? = lists.mapM fun list => list[i]? := by
  induction lists with
  | nil => exact absurd rfl h
  | cons list rest ih =>
      cases rest with
      | nil => cases hentry : list[i]? <;> simp [transposed, hentry]
      | cons next rest =>
          rw [transposed, List.getElem?_zipWith, ih (List.cons_ne_nil _ _),
            List.mapM_cons (a := list)]
          · cases list[i]? with
            | none => rfl
            | some b => cases (next :: rest).mapM fun list => list[i]? <;> rfl
          · simp

theorem filterMap_get?_columns {names : List String} (hnames : names.Nodup) :
    (names.filterMap fun name => Entries.get? name (columns names)) =
      (List.range names.length).map (column names.length) := by
  have hfound : ∀ name ∈ names, Entries.get? name (columns names) =
      some (column names.length (names.idxOf name)) := by
    intro name hname
    rw [get?_columns hnames, if_pos hname]
  rw [List.filterMap_congr hfound, List.filterMap_eq_map']
  apply List.ext_getElem
  · simp
  · intro j hj _
    have hlt : j < names.length := by simpa using hj
    simp [hnames.idxOf_getElem j hlt]

/-- Turned over, the columns give each row the bits of its number. -/
theorem rows_columns {names : List String} (hnames : names.Nodup) :
    rows names (columns names) (rowCount names.length) =
      (List.range (rowCount names.length)).map (bits names.length) := by
  rw [rows, filterMap_get?_columns hnames]
  generalize names.length = n
  cases n with
  | zero => rfl
  | succ n =>
      have hne : (List.range (n + 1)).map (column (n + 1)) ≠ [] := by simp
      split
      · contradiction
      · rename_i hlists
        apply List.ext_getElem?
        intro i
        rw [getElem?_transposed hne, List.mapM_map]
        rcases Nat.lt_or_ge i (rowCount (n + 1)) with hi | hi
        · simp only [Function.comp_def, getElem?_column hi]
          rw [List.getElem?_map, List.getElem?_range hi]
          exact List.mapM_pure
        · have hnone (j : Nat) : (column (n + 1) j)[i]? = none := by
            rw [List.getElem?_eq_none_iff, length_column]
            exact hi
          simp [Function.comp_def, hnone, hi, List.range_succ_eq_map]

end Assignments

end TruthTables
