import TruthTables.Formula
import TruthTables.Proofs.Postfix.Step

namespace TruthTables

/-- Made from a text, so that the name tells everything else. -/
def Token.FromText (t : Token) : Prop :=
  ofText t.name = t

theorem Token.fromText_ofText (text : String) : (ofText text).FromText := by
  unfold FromText
  rw [name_ofText]

theorem Token.fromText_of_mem_map {names : List String} :
    ∀ t ∈ names.map ofText, t.FromText :=
  List.forall_mem_map.mpr fun name _ => fromText_ofText name

theorem Token.FromText.cases {t : Token} (h : t.FromText) :
    t = opening ∨ t = closing ∨ t = negation ∨ (∃ c : Connective, t = c.token) ∨
      t = operand t.name := by
  unfold FromText ofText at h
  cases hfind : signs.find? fun sign => sign.name == t.name with
  | some sign =>
      rw [hfind, Option.getD_some] at h
      subst sign
      have hmem := List.mem_of_find?_eq_some hfind
      simp only [signs, List.mem_cons, List.not_mem_nil, or_false] at hmem
      rcases hmem with rfl | rfl | rfl | rfl | rfl | rfl
      · exact .inl rfl
      · exact .inr (.inl rfl)
      · exact .inr (.inr (.inl rfl))
      · exact .inr (.inr (.inr (.inl ⟨.and, rfl⟩)))
      · exact .inr (.inr (.inr (.inl ⟨.or, rfl⟩)))
      · exact .inr (.inr (.inr (.inl ⟨.implies, rfl⟩)))
  | none =>
      rw [hfind, Option.getD_none] at h
      exact .inr (.inr (.inr (.inr h.symm)))

theorem Token.FromText.of_operator {t : Token} (h : t.FromText) (hkind : t.kind = .operator) :
    t = negation ∨ ∃ c : Connective, t = c.token := by
  rcases h.cases with rfl | rfl | rfl | hjoin | hoperand
  · contradiction
  · contradiction
  · exact .inl rfl
  · exact .inr hjoin
  · rw [hoperand] at hkind
    contradiction

namespace Postfix

theorem Reads.mem {stack out next : List Token} {t u : Token} (h : Reads stack t out next)
    (hu : u ∈ out ++ next) : u ∈ t :: stack := by
  cases h with
  | opening _ => exact hu
  | closing _ _ _ =>
      rcases List.mem_append.mp hu with hout | hnext
      · exact List.mem_cons_of_mem t (List.mem_append_left _ hout)
      · exact List.mem_cons_of_mem t (List.mem_append_right _ (List.mem_cons_of_mem _ hnext))
  | surplus _ _ => exact List.mem_cons_of_mem t (by simpa using hu)
  | @operator _ rest _ _ _ _ =>
      have hperm : (out ++ t :: rest).Perm (t :: (out ++ rest)) := List.perm_middle
      exact hperm.mem_iff.mp hu
  | other _ _ _ => exact hu

theorem mem_of_mem_run {stack ts : List Token} {u : Token}
    (h : u ∈ emitted stack ts ++ stackAfter stack ts) : u ∈ stack ∨ u ∈ ts := by
  induction ts generalizing stack with
  | nil => exact .inl (by simpa [emitted, stackAfter] using h)
  | cons t ts ih =>
      have hread (hu : u ∈ released stack t ++ absorb stack t) : u ∈ stack ∨ u ∈ t :: ts := by
        rcases List.mem_cons.mp ((reads stack t).mem hu) with rfl | hstack
        · exact .inr (List.mem_cons_self ..)
        · exact .inl hstack
      rw [emitted, stackAfter_cons, List.append_assoc] at h
      rcases List.mem_append.mp h with hout | hrest
      · exact hread (List.mem_append_left _ hout)
      · rcases ih hrest with habsorb | hts
        · exact hread (List.mem_append_right _ habsorb)
        · exact .inr (List.mem_cons_of_mem t hts)

end Postfix

theorem mem_of_mem_postfixOf {ts : List Token} {u : Token} (h : u ∈ postfixOf ts) : u ∈ ts := by
  rcases Postfix.mem_of_mem_run h with hstack | hts
  · contradiction
  · exact hts

namespace Postfix

theorem defectFrom_operator {t : Token} (hkind : t.kind = .operator) {size : Int}
    {ts : List Token} (h : defectFrom size (t :: ts) = none) :
    t.arity ≤ size ∧ defectFrom (size - t.arity + 1) ts = none := by
  simp only [defectFrom, hkind] at h
  split at h
  · contradiction
  · exact ⟨by omega, h⟩

/-- The formulas read so far, the latest first, are extended to one formula by the rest of a
sequence without a defect. -/
theorem exists_formula_from {ts : List Token} (hts : ∀ t ∈ ts, t.FromText)
    (stack : List Formula) (hstack : ∀ f ∈ stack, f.IsNamed)
    (h : defectFrom stack.length ts = none) :
    ∃ f : Formula, f.IsNamed ∧ f.code = stack.reverse.flatMap Formula.code ++ ts := by
  induction ts generalizing stack with
  | nil =>
      rcases stack with _ | ⟨f, _ | ⟨g, stack⟩⟩
      · simp [defectFrom] at h
      · exact ⟨f, hstack f (by simp), by simp⟩
      · simp [defectFrom] at h
        omega
  | cons t ts ih =>
      obtain ⟨ht, hrest⟩ := List.forall_mem_cons.mp hts
      rcases ht.cases with rfl | rfl | rfl | ⟨c, rfl⟩ | hoperand
      · simp [defectFrom, Token.opening, Token.special] at h
      · simp [defectFrom, Token.closing, Token.special] at h
      · obtain ⟨hsize, hnext⟩ := defectFrom_operator rfl h
        have harity : Token.negation.arity = 1 := rfl
        rw [harity] at hsize hnext
        rcases stack with _ | ⟨f, stack⟩
        · simp at hsize
        · obtain ⟨hf, hstack⟩ := List.forall_mem_cons.mp hstack
          have hlength : ((Formula.not f :: stack).length : Int) =
              ((f :: stack).length : Int) - 1 + 1 := by
            simp only [List.length_cons]
            omega
          rw [← hlength] at hnext
          obtain ⟨g, hg, hcode⟩ :=
            ih hrest (.not f :: stack) (List.forall_mem_cons.mpr ⟨hf, hstack⟩) hnext
          exact ⟨g, hg, by simp [hcode, Formula.code]⟩
      · obtain ⟨hsize, hnext⟩ := defectFrom_operator c.kind_token h
        rw [c.arity_token] at hsize hnext
        rcases stack with _ | ⟨right, _ | ⟨left, stack⟩⟩
        · simp at hsize
        · simp at hsize
        · simp only [List.forall_mem_cons] at hstack
          obtain ⟨hright, hleft, hstack⟩ := hstack
          have hlength : ((Formula.join c left right :: stack).length : Int) =
              ((right :: left :: stack).length : Int) - 2 + 1 := by
            simp only [List.length_cons]
            omega
          rw [← hlength] at hnext
          obtain ⟨g, hg, hcode⟩ := ih hrest (.join c left right :: stack)
            (List.forall_mem_cons.mpr ⟨⟨hleft, hright⟩, hstack⟩) hnext
          exact ⟨g, hg, by simp [hcode, Formula.code]⟩
      · have hkind : t.kind = .operand := by rw [hoperand]; rfl
        simp only [defectFrom, hkind] at h
        split at h
        · rename_i hname
          have hcode : (Formula.atom t.name).code = [t] := by rw [Formula.code, ht]
          obtain ⟨g, hg, hgcode⟩ := ih hrest (.atom t.name :: stack)
            (List.forall_mem_cons.mpr ⟨hname, hstack⟩) (by simpa using h)
          exact ⟨g, hg, by simp [hgcode, hcode]⟩
        · contradiction

end Postfix

theorem exists_formula_of_isWellFormed {ts : List Token} (hts : ∀ t ∈ ts, t.FromText)
    (h : isWellFormed ts = true) : ∃ f : Formula, f.IsNamed ∧ f.code = ts := by
  rw [isWellFormed, Option.isNone_iff_eq_none] at h
  obtain ⟨f, hf, hcode⟩ := Postfix.exists_formula_from hts [] (by simp) h
  exact ⟨f, hf, by simpa using hcode⟩

end TruthTables
