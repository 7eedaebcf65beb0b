import TruthTables.Proofs.Brackets
import TruthTables.Proofs.Postfix.Readability
import TruthTables.Proofs.Postfix.Step

namespace TruthTables

def operands (ts : List Token) : List Token :=
  ts.filter fun t => t.kind == .operand

theorem operands_append (as bs : List Token) : operands (as ++ bs) = operands as ++ operands bs :=
  List.filter_append ..

theorem operands_eq_nil {ts : List Token} (h : ∀ t ∈ ts, t.kind ≠ .operand) : operands ts = [] :=
  List.filter_eq_nil_iff.mpr fun t ht => by simpa using h t ht

/-- The number of the connectives that join two formulas. -/
def joins (ts : List Token) : Nat :=
  ts.count .conjunction + ts.count .disjunction + ts.count .implication

theorem joins_append (as bs : List Token) : joins (as ++ bs) = joins as + joins bs := by
  simp only [joins, List.count_append]
  omega

namespace Postfix

theorem kind_of_opens {t : Token} (h : opens t = true) : t.kind = .special := by
  simp only [opens, Bool.and_eq_true, beq_iff_eq] at h
  exact h.1

theorem kind_of_closes {t : Token} (h : closes t = true) : t.kind = .special := by
  simp only [closes, Bool.and_eq_true, beq_iff_eq] at h
  exact h.1

theorem isBarrier_of_opens {t : Token} (h : opens t = true) : isBarrier t = true := by
  simp only [opens, Bool.and_eq_true, beq_iff_eq] at h
  simp [isBarrier, h.2]

theorem eq_opening_of_isBarrier {t : Token} (ht : t.FromText) (h : isBarrier t = true) :
    t = .opening := by
  rw [isBarrier, beq_iff_eq] at h
  rw [← ht, h]
  rfl

theorem isBarrier_of_operator {t : Token} (ht : t.FromText) (hkind : t.kind = .operator) :
    isBarrier t = false := by
  rw [Bool.eq_false_iff]
  intro hbarrier
  rw [eq_opening_of_isBarrier ht hbarrier] at hkind
  contradiction

theorem Reads.count_eq {stack out next : List Token} {t u : Token} (h : Reads stack t out next)
    (hbarrier : isBarrier u = false) (hcloses : closes u = false) :
    out.count u + next.count u = (t :: stack).count u := by
  have hne {w : Token} (hw : isBarrier w = true ∨ closes w = true) : w ≠ u := by
    rintro rfl
    simp [hbarrier, hcloses] at hw
  cases h with
  | opening ht => rw [List.count_nil, Nat.zero_add]
  | closing ht htop hw =>
      rw [List.count_cons_of_ne (hne (.inr ht)), List.count_append,
        List.count_cons_of_ne (hne (.inl hw))]
  | surplus ht hstack => rw [List.count_cons_of_ne (hne (.inr ht)), List.count_nil, Nat.add_zero]
  | operator ht htop hrest =>
      simp only [List.count_cons, List.count_append]
      omega
  | other hopens hcloses hkind =>
      simp only [List.count_cons, List.count_nil]
      omega

theorem count_run {u : Token} (hbarrier : isBarrier u = false) (hcloses : closes u = false)
    (stack ts : List Token) :
    (emitted stack ts ++ stackAfter stack ts).count u = (stack ++ ts).count u := by
  induction ts generalizing stack with
  | nil => simp [emitted, stackAfter]
  | cons t ts ih =>
      have hstep := (reads stack t).count_eq hbarrier hcloses
      rw [emitted, stackAfter_cons, List.append_assoc, List.count_append, ih]
      simp only [List.count_append, List.count_cons] at hstep ⊢
      omega

theorem Reads.operands_eq {stack out next : List Token} {t : Token} (h : Reads stack t out next)
    (hstack : ∀ w ∈ stack, w.kind ≠ .operand) :
    operands out = operands [t] ∧ ∀ w ∈ next, w.kind ≠ .operand := by
  have hnone (hkind : t.kind ≠ .operand) : operands [t] = [] :=
    operands_eq_nil (by simpa using hkind)
  cases h with
  | opening ht =>
      have hkind : t.kind ≠ .operand := by simp [kind_of_opens ht]
      exact ⟨(hnone hkind).symm, List.forall_mem_cons.mpr ⟨hkind, hstack⟩⟩
  | closing ht htop hw =>
      rw [List.forall_mem_append, List.forall_mem_cons] at hstack
      rw [hnone (by simp [kind_of_closes ht])]
      exact ⟨operands_eq_nil hstack.1, hstack.2.2⟩
  | surplus ht _ =>
      rw [hnone (by simp [kind_of_closes ht])]
      exact ⟨operands_eq_nil hstack, by simp⟩
  | operator ht htop hrest =>
      have hkind : t.kind ≠ .operand := by simp [ht]
      rw [List.forall_mem_append] at hstack
      rw [hnone hkind]
      exact ⟨operands_eq_nil hstack.1, List.forall_mem_cons.mpr ⟨hkind, hstack.2⟩⟩
  | other hopens hcloses hkind => exact ⟨rfl, hstack⟩

theorem operands_run {stack : List Token} (hstack : ∀ w ∈ stack, w.kind ≠ .operand)
    (ts : List Token) : operands (emitted stack ts ++ stackAfter stack ts) = operands ts := by
  induction ts generalizing stack with
  | nil => exact operands_eq_nil hstack
  | cons t ts ih =>
      obtain ⟨hout, hnext⟩ := (reads stack t).operands_eq hstack
      have hcons : operands (t :: ts) = operands [t] ++ operands ts := operands_append [t] ts
      rw [emitted, stackAfter_cons, List.append_assoc, operands_append, hout, hcons, ih hnext]

theorem ofToken?_of_opens {t : Token} (h : opens t = true) :
    Bracket.ofToken? t = some .opening := by
  rw [Bracket.ofToken?, if_pos h]

theorem ofToken?_of_closes {t : Token} (h : closes t = true) :
    Bracket.ofToken? t = some .closing := by
  rw [Bracket.ofToken?, if_neg (by simp [opens_of_closes h]), if_pos h]

theorem ofToken?_eq_none {t : Token} (hopens : opens t = false) (hcloses : closes t = false) :
    Bracket.ofToken? t = none := by
  rw [Bracket.ofToken?, if_neg (by simp [hopens]), if_neg (by simp [hcloses])]

theorem filterMap_ofToken?_cons (t : Token) (ts : List Token) :
    (t :: ts).filterMap Bracket.ofToken? =
      (Bracket.ofToken? t).toList ++ ts.filterMap Bracket.ofToken? := by
  rw [List.filterMap_cons]
  cases Bracket.ofToken? t <;> rfl

theorem Reads.countP_eq {stack out next : List Token} {t : Token} (h : Reads stack t out next)
    (ht : t.kind = .operator → isBarrier t = false) :
    next.countP isBarrier =
      Bracket.depth (stack.countP isBarrier) (Bracket.ofToken? t).toList := by
  have hzero {top : List Token} (htop : ∀ v ∈ top, isBarrier v = false) :
      top.countP isBarrier = 0 := List.countP_eq_zero.mpr fun v hv => by simp [htop v hv]
  cases h with
  | opening hopens =>
      rw [List.countP_cons_of_pos (isBarrier_of_opens hopens), ofToken?_of_opens hopens]
      rfl
  | closing hcloses htop hw =>
      rw [ofToken?_of_closes hcloses, List.countP_append, List.countP_cons_of_pos hw, hzero htop,
        Nat.zero_add]
      rfl
  | surplus hcloses hstack =>
      rw [ofToken?_of_closes hcloses, hzero hstack]
      rfl
  | operator hkind htop hrest =>
      rw [ofToken?_eq_none (opens_of_operator hkind) (closes_of_operator hkind),
        List.countP_cons_of_neg (by simp [ht hkind]), List.countP_append,
        hzero fun v hv => isBarrier_of_givesWay (htop v hv), Nat.zero_add]
      rfl
  | other hopens hcloses hkind =>
      rw [ofToken?_eq_none hopens hcloses]
      rfl

theorem countP_stackAfter {ts : List Token}
    (hts : ∀ t ∈ ts, t.kind = .operator → isBarrier t = false) (stack : List Token) :
    (stackAfter stack ts).countP isBarrier =
      Bracket.depth (stack.countP isBarrier) (ts.filterMap Bracket.ofToken?) := by
  induction ts generalizing stack with
  | nil => rfl
  | cons t ts ih =>
      rw [List.forall_mem_cons] at hts
      rw [stackAfter_cons, ih hts.2, filterMap_ofToken?_cons, Bracket.depth_append,
        (reads stack t).countP_eq hts.1]

end Postfix

theorem count_postfixOf {u : Token} (hbarrier : Postfix.isBarrier u = false)
    (hcloses : Postfix.closes u = false) (ts : List Token) :
    (postfixOf ts).count u = ts.count u :=
  Postfix.count_run hbarrier hcloses [] ts

theorem joins_postfixOf (ts : List Token) : joins (postfixOf ts) = joins ts := by
  simp only [joins]
  rw [count_postfixOf rfl rfl, count_postfixOf rfl rfl, count_postfixOf rfl rfl]

theorem operands_postfixOf (ts : List Token) : operands (postfixOf ts) = operands ts :=
  Postfix.operands_run (by simp) ts

end TruthTables
