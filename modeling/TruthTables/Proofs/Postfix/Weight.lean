import TruthTables.Proofs.Postfix.Supply

namespace TruthTables

theorem Token.add_weight_of_operator {t : Token} (hkind : t.kind = .operator) (size : Int) :
    size + t.weight = size - t.arity + 1 := by
  rw [Token.weight_of_operator hkind]
  omega

theorem totalWeight_append (as bs : List Token) :
    totalWeight (as ++ bs) = totalWeight as + totalWeight bs := by
  induction as with
  | nil => exact (Int.zero_add _).symm
  | cons t as ih => rw [List.cons_append, totalWeight, totalWeight, ih, Int.add_assoc]

theorem Supplied.of_append {size : Int} {as bs : List Token} (h : Supplied size (as ++ bs)) :
    Supplied size as := by
  rintro cs t ds rfl hkind
  exact h cs t (ds ++ bs) (by simp) hkind

theorem supplied_iff_one_le {size : Int} (hsize : 0 ≤ size) {ts : List Token} :
    Supplied size ts ↔ ∀ as, as <+: ts → as ≠ [] → 1 ≤ size + totalWeight as := by
  constructor
  · rintro h as ⟨bs, rfl⟩ hne
    exact h.of_append.one_le hsize hne
  · rintro h as t bs rfl hkind
    have hone := h (as ++ [t]) ⟨bs, by simp⟩ (by simp)
    rw [totalWeight_append, totalWeight, totalWeight, Token.weight_of_operator hkind] at hone
    omega

namespace Postfix

theorem stackSizeFrom_cons (size : Int) (t : Token) (ts : List Token) :
    stackSizeFrom size (t :: ts) =
      if t.kind = .operator → t.arity ≤ size then stackSizeFrom (size + t.weight) ts else -1 := by
  rw [stackSizeFrom]
  by_cases hkind : t.kind = .operator
  · rw [if_pos hkind, Token.add_weight_of_operator hkind]
    by_cases hlt : size < t.arity
    · rw [if_pos hlt, if_neg fun h => Int.not_le.mpr hlt (h hkind)]
    · rw [if_neg hlt, if_pos fun _ => Int.not_lt.mp hlt]
  · rw [if_neg hkind, if_pos fun h => absurd h hkind, Token.weight_of_kind_ne hkind]

theorem stackSizeFrom_eq (size : Int) (ts : List Token) :
    stackSizeFrom size ts = if Supplied size ts then size + totalWeight ts else -1 := by
  -- The number of values at first stays open: every token but a unary connective changes it.
  induction ts generalizing size with
  | nil => rw [stackSizeFrom, if_pos (supplied_nil size), totalWeight, Int.add_zero]
  | cons t ts ih =>
      rw [stackSizeFrom_cons, ih, totalWeight, Int.add_assoc]
      by_cases harity : t.kind = .operator → t.arity ≤ size
      · by_cases hrest : Supplied (size + t.weight) ts
        · rw [if_pos harity, if_pos hrest, if_pos (supplied_cons.mpr ⟨harity, hrest⟩)]
        · rw [if_pos harity, if_neg hrest, if_neg fun h => hrest (supplied_cons.mp h).2]
      · rw [if_neg harity, if_neg fun h => harity (supplied_cons.mp h).1]

theorem defectFrom_cons_eq_none_iff {size : Int} {t : Token} {ts : List Token} :
    defectFrom size (t :: ts) = none ↔
      t.kind ≠ .special ∧ (t.kind = .operand → isIdentifier t.name = true) ∧
        (t.kind = .operator → t.arity ≤ size) ∧ defectFrom (size + t.weight) ts = none := by
  rw [defectFrom]
  cases hkind : t.kind with
  | special => simp
  | operand =>
      rw [Token.weight_of_kind_ne (by simp [hkind])]
      cases hname : isIdentifier t.name <;> simp
  | operator =>
      rw [Token.add_weight_of_operator hkind]
      by_cases hlt : size < t.arity
      · simp [hlt, Int.not_le.mpr hlt]
      · simp [hlt, Int.not_lt.mp hlt]

theorem defectFrom_eq_none_iff {size : Int} {ts : List Token} :
    defectFrom size ts = none ↔
      (∀ t ∈ ts, t.kind ≠ .special) ∧ (∀ t ∈ ts, t.kind = .operand → isIdentifier t.name = true) ∧
        Supplied size ts ∧ size + totalWeight ts = 1 := by
  induction ts generalizing size with
  | nil => simp [defectFrom, supplied_nil, totalWeight]
  | cons t ts ih =>
      rw [defectFrom_cons_eq_none_iff, ih, supplied_cons, totalWeight, Int.add_assoc,
        List.forall_mem_cons, List.forall_mem_cons]
      constructor
      · rintro ⟨hkind, hname, harity, hkinds, hnames, hrest, hone⟩
        exact ⟨⟨hkind, hkinds⟩, ⟨hname, hnames⟩, ⟨harity, hrest⟩, hone⟩
      · rintro ⟨⟨hkind, hkinds⟩, ⟨hname, hnames⟩, ⟨harity, hrest⟩, hone⟩
        exact ⟨hkind, hname, harity, hkinds, hnames, hrest, hone⟩

end Postfix

theorem stackSize_eq (ts : List Token) :
    stackSize ts = if Supplied 0 ts then totalWeight ts else -1 := by
  rw [stackSize, Postfix.stackSizeFrom_eq, Int.zero_add]

theorem stackSize_eq_neg_one_iff {ts : List Token} : stackSize ts = -1 ↔ ¬Supplied 0 ts := by
  rw [stackSize_eq]
  by_cases hsupplied : Supplied 0 ts
  · rw [if_pos hsupplied]
    refine iff_of_false (fun h => ?_) (not_not_intro hsupplied)
    -- A sequence that weighs -1 is not empty, so it is itself one of the beginnings.
    have hne : ts ≠ [] := by
      rintro rfl
      contradiction
    have hone := hsupplied.one_le (Int.le_refl 0) hne
    omega
  · rw [if_neg hsupplied]
    exact iff_of_true rfl hsupplied

theorem stackSize_eq_one_iff {ts : List Token} :
    stackSize ts = 1 ↔ Supplied 0 ts ∧ totalWeight ts = 1 := by
  rw [stackSize_eq]
  by_cases hsupplied : Supplied 0 ts
  · simp [hsupplied]
  · simp [hsupplied]

theorem isWellFormed_iff {ts : List Token} :
    isWellFormed ts = true ↔
      (∀ t ∈ ts, t.kind ≠ .special) ∧ (∀ t ∈ ts, t.kind = .operand → isIdentifier t.name = true) ∧
        Supplied 0 ts ∧ totalWeight ts = 1 := by
  rw [isWellFormed, Option.isNone_iff_eq_none, defect?, Postfix.defectFrom_eq_none_iff,
    Int.zero_add]

theorem Token.operator_or_named_iff {t : Token} :
    (t.kind = .operator ∨ t.kind = .operand ∧ isIdentifier t.name = true) ↔
      t.kind ≠ .special ∧ (t.kind = .operand → isIdentifier t.name = true) := by
  cases t.kind <;> simp

/-- Whatever the kinds of the tokens and the arities, the number of values is -1 exactly if some
beginning of the sequence weighs less than one, and otherwise the weight of the whole. A sequence is
well-formed exactly if it has no bracket, its operands are identifiers, every beginning weighs at
least one and the whole weighs one; so exactly if one value is left and its tokens are
connectives and identifiers. -/
theorem checks_decided_by_weight (ts : List Token) :
    (stackSize ts = -1 ↔ ∃ as, as <+: ts ∧ as ≠ [] ∧ totalWeight as < 1) ∧
    (stackSize ts ≠ -1 → stackSize ts = totalWeight ts) ∧
    (isWellFormed ts = true ↔
      (∀ t ∈ ts, t.kind ≠ .special) ∧ (∀ t ∈ ts, t.kind = .operand → isIdentifier t.name = true) ∧
        (∀ as, as <+: ts → as ≠ [] → 1 ≤ totalWeight as) ∧ totalWeight ts = 1) ∧
    (isWellFormed ts = true ↔ stackSize ts = 1 ∧
      ∀ t ∈ ts, t.kind = .operator ∨ t.kind = .operand ∧ isIdentifier t.name = true) := by
  have hsupplied : Supplied 0 ts ↔ ∀ as, as <+: ts → as ≠ [] → 1 ≤ totalWeight as := by
    rw [supplied_iff_one_le (Int.le_refl 0)]
    simp only [Int.zero_add]
  refine ⟨?_, ?_, ?_, ?_⟩
  · rw [stackSize_eq_neg_one_iff, hsupplied]
    simp only [Classical.not_forall, Int.not_le, exists_prop]
  · rw [Ne, stackSize_eq_neg_one_iff, Classical.not_not]
    intro h
    rw [stackSize_eq, if_pos h]
  · rw [isWellFormed_iff, hsupplied]
  · rw [isWellFormed_iff, stackSize_eq_one_iff]
    simp only [Token.operator_or_named_iff]
    constructor
    · rintro ⟨hkinds, hnames, hcount⟩
      exact ⟨hcount, fun t ht => ⟨hkinds t ht, hnames t ht⟩⟩
    · rintro ⟨hcount, htokens⟩
      exact ⟨fun t ht => (htokens t ht).1, fun t ht => (htokens t ht).2, hcount⟩

theorem checks_decided_by_weight_literal :
    let p := Token.operand "p"
    let mixed := [.operator "k" (-2) 0, p, .operator "⊕" 3 7, .special "(", .conjunction]
    let recovered := [p, .operator "⊕" 3 7, .operator "k" (-3) 0]
    let formed := [.operator "k" 0 0, p, p, .operator "⊕" 3 7]
    stackSize mixed ≠ -1 ∧ stackSize mixed = totalWeight mixed ∧ totalWeight mixed = 2 ∧
      totalWeight recovered = 3 ∧ stackSize recovered = -1 ∧
      (∀ t ∈ formed, t.kind = .operator ∨ t.kind = .operand ∧ isIdentifier t.name = true) ∧
      isWellFormed formed = true ∧ totalWeight formed = 1 := by
  intro p mixed recovered formed
  have hmixed : stackSize mixed ≠ -1 := by decide
  have htokens :
      ∀ t ∈ formed, t.kind = .operator ∨ t.kind = .operand ∧ isIdentifier t.name = true := by
    decide
  obtain ⟨-, hweight, -⟩ := checks_decided_by_weight mixed
  obtain ⟨hlacking, -⟩ := checks_decided_by_weight recovered
  obtain ⟨-, -, hformed, hsingle⟩ := checks_decided_by_weight formed
  have hwell : isWellFormed formed = true := hsingle.mpr ⟨by decide, htokens⟩
  refine ⟨hmixed, hweight hmixed, by decide, by decide, ?_, htokens, hwell, ?_⟩
  · exact hlacking.mpr ⟨recovered.take 2, List.take_prefix 2 recovered, by decide, by decide⟩
  · exact (hformed.mp hwell).2.2.2

end TruthTables
