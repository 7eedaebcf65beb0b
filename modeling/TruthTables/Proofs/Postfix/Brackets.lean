import TruthTables.Proofs.Postfix.Conservation

namespace TruthTables

namespace Postfix

theorem Reads.isBarrier_of_mem_out {stack out next : List Token} {t : Token}
    (h : Reads stack t out next) (ht : t.FromText) : ∀ w ∈ out, isBarrier w = false := by
  cases h with
  | opening _ => simp
  | closing _ htop _ => exact htop
  | surplus _ hstack => exact hstack
  | operator _ htop _ => exact fun w hw => isBarrier_of_givesWay (htop w hw)
  | other hopens _ _ =>
      simp only [List.forall_mem_singleton, Bool.eq_false_iff]
      intro hbarrier
      rw [eq_opening_of_isBarrier ht hbarrier] at hopens
      contradiction

theorem isBarrier_of_mem_emitted {ts : List Token} (hts : ∀ t ∈ ts, t.FromText)
    (stack : List Token) : ∀ w ∈ emitted stack ts, isBarrier w = false := by
  induction ts generalizing stack with
  | nil => simp [emitted]
  | cons t ts ih =>
      rw [List.forall_mem_cons] at hts
      rw [emitted, List.forall_mem_append]
      exact ⟨(reads stack t).isBarrier_of_mem_out hts.1, ih hts.2 _⟩

theorem Reads.closes_eq_false {stack out next : List Token} {t : Token}
    (h : Reads stack t out next) (hstack : ∀ w ∈ stack, closes w = false) :
    ∀ w ∈ out ++ next, closes w = false := by
  have hread (ht : closes t = false) : ∀ w ∈ out ++ next, closes w = false := by
    intro w hw
    rcases List.mem_cons.mp (h.mem hw) with rfl | hmem
    · exact ht
    · exact hstack w hmem
  cases h with
  | opening hopens => exact hread (closes_of_opens hopens)
  | closing _ _ _ =>
      rw [List.forall_mem_append, List.forall_mem_cons] at hstack
      exact List.forall_mem_append.mpr ⟨hstack.1, hstack.2.2⟩
  | surplus _ _ => simpa using hstack
  | operator hkind _ _ => exact hread (closes_of_operator hkind)
  | other _ hcloses _ => exact hread hcloses

theorem closes_run {stack : List Token} (hstack : ∀ w ∈ stack, closes w = false)
    (ts : List Token) : ∀ w ∈ emitted stack ts ++ stackAfter stack ts, closes w = false := by
  induction ts generalizing stack with
  | nil => exact hstack
  | cons t ts ih =>
      have hread := (reads stack t).closes_eq_false hstack
      rw [List.forall_mem_append] at hread
      rw [emitted, stackAfter_cons, List.append_assoc, List.forall_mem_append]
      exact ⟨hread.1, ih hread.2⟩

theorem kind_ne_of_mem_stackAfter {stack : List Token} (hstack : ∀ w ∈ stack, w.kind ≠ .operand)
    (ts : List Token) : ∀ w ∈ stackAfter stack ts, w.kind ≠ .operand := by
  induction ts generalizing stack with
  | nil => exact hstack
  | cons t ts ih => exact ih ((reads stack t).operands_eq hstack).2

theorem eq_opening_iff {t : Token} (ht : t.FromText) : t = .opening ↔ isBarrier t = true := by
  constructor
  · rintro rfl
    rfl
  · exact eq_opening_of_isBarrier ht

end Postfix

theorem closes_of_mem_postfixOf {ts : List Token} :
    ∀ t ∈ postfixOf ts, Postfix.closes t = false :=
  Postfix.closes_run (by simp) ts

section FromText

variable {ts : List Token} (hts : ∀ t ∈ ts, t.FromText)

include hts

theorem fromText_of_mem_stackAfter : ∀ w ∈ Postfix.stackAfter [] ts, w.FromText := by
  intro w hw
  exact hts w (mem_of_mem_postfixOf (List.mem_append_right _ hw))

/-- As many opening brackets wait as the tokens read so far leave open. -/
theorem count_opening_stackAfter :
    (Postfix.stackAfter [] ts).count .opening =
      Bracket.depth 0 (ts.filterMap Bracket.ofToken?) := by
  have hbarrier : (Postfix.stackAfter [] ts).countP (· == .opening) =
      (Postfix.stackAfter [] ts).countP Postfix.isBarrier := by
    apply List.countP_congr
    intro t ht
    rw [beq_iff_eq]
    exact Postfix.eq_opening_iff (fromText_of_mem_stackAfter hts t ht)
  rw [List.count, hbarrier, Postfix.countP_stackAfter
    (fun t ht hkind => Postfix.isBarrier_of_operator (hts t ht) hkind) []]
  rfl

theorem count_opening_postfixOf :
    (postfixOf ts).count .opening = Bracket.depth 0 (ts.filterMap Bracket.ofToken?) := by
  have hnone : Token.opening ∉ Postfix.emitted [] ts := by
    intro hopening
    have hbarrier := Postfix.isBarrier_of_mem_emitted hts [] .opening hopening
    contradiction
  rw [postfixOf, List.count_append, List.count_eq_zero_of_not_mem hnone, Nat.zero_add,
    count_opening_stackAfter hts]

theorem kind_ne_of_opening {as bs : List Token} (h : postfixOf ts = as ++ .opening :: bs) :
    ∀ t ∈ bs, t.kind ≠ .operand := by
  have hwaiting : ∀ w ∈ Postfix.stackAfter [] ts, w.kind ≠ .operand :=
    Postfix.kind_ne_of_mem_stackAfter (by simp) ts
  rw [postfixOf, List.append_eq_append_iff] at h
  rcases h with ⟨cs, -, hstack⟩ | ⟨cs, hemitted, hsplit⟩
  · rw [hstack, List.forall_mem_append, List.forall_mem_cons] at hwaiting
    exact hwaiting.2.2
  · cases cs with
    | nil =>
        rw [List.nil_append] at hsplit
        rw [← hsplit, List.forall_mem_cons] at hwaiting
        exact hwaiting.2
    | cons c cs =>
        obtain ⟨rfl, -⟩ := List.cons.inj hsplit
        have hbarrier := Postfix.isBarrier_of_mem_emitted hts [] .opening (by simp [hemitted])
        contradiction

end FromText

end TruthTables
