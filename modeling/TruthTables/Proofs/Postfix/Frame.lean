import TruthTables.Proofs.Postfix.Conservation
import TruthTables.Proofs.Postfix.Conversion

/-!
Reading above open brackets. A closing bracket that finds no open one of its own takes one of them
away, and nothing else reaches them. A matched text in brackets is therefore converted as it is by
itself, and a surplus closing bracket does what it does if a bracket was opened at the very start.
-/

namespace TruthTables.Postfix

theorem surplusClosings_singleton (stack : List Token) (t : Token) :
    surplusClosings stack [t] =
      Bracket.surplus (stack.countP isBarrier) (Bracket.ofToken? t).toList := by
  have hany : stack.any isBarrier = decide (0 < stack.countP isBarrier) := by
    rw [Bool.eq_iff_iff, List.any_eq_true, decide_eq_true_eq, List.countP_pos_iff]
  cases hcloses : closes t with
  | true =>
      rw [ofToken?_of_closes hcloses, surplusClosings, surplusClosings, hcloses, hany]
      cases stack.countP isBarrier <;> rfl
  | false =>
      rw [surplusClosings, surplusClosings, hcloses]
      cases hopens : opens t with
      | true =>
          rw [ofToken?_of_opens hopens]
          rfl
      | false =>
          rw [ofToken?_eq_none hopens hcloses]
          cases stack.countP isBarrier <;> rfl

theorem surplusClosings_eq {ts : List Token}
    (hts : ∀ t ∈ ts, t.kind = .operator → isBarrier t = false) (stack : List Token) :
    surplusClosings stack ts =
      Bracket.surplus (stack.countP isBarrier) (ts.filterMap Bracket.ofToken?) := by
  induction ts generalizing stack with
  | nil => cases stack.countP isBarrier <;> rfl
  | cons t ts ih =>
      rw [List.forall_mem_cons] at hts
      have hcons : surplusClosings stack (t :: ts) =
          surplusClosings stack [t] + surplusClosings (absorb stack t) ts := rfl
      rw [hcons, surplusClosings_singleton, ih hts.2, (reads stack t).countP_eq hts.1,
        filterMap_ofToken?_cons, Bracket.surplus_append]

theorem surplusClosings_of_not_closes {t : Token} (h : closes t = false) (stack : List Token) :
    surplusClosings stack [t] = 0 := by
  simp [surplusClosings, h]

theorem surplusClosings_of_any {t : Token} {stack : List Token} (h : stack.any isBarrier = true) :
    surplusClosings stack [t] = 0 := by
  rw [surplusClosings, h]
  simp [surplusClosings]

theorem surplusClosings_of_closes {t : Token} {stack : List Token} (ht : closes t = true)
    (hstack : ∀ v ∈ stack, isBarrier v = false) : surplusClosings stack [t] = 1 := by
  have hany : stack.any isBarrier = false := by simpa using hstack
  rw [surplusClosings, ht, hany]
  rfl

def openings (k : Nat) : List Token :=
  List.replicate k .opening

section Above

variable {k : Nat} {base : List Token} (hbase : k = 0 → base = [])

include hbase

theorem givesWay_head_openings (t : Token) :
    ∀ w ∈ (openings k ++ base).head?, givesWay w t = false := by
  intro w hw
  cases k with
  | zero =>
      rw [hbase rfl] at hw
      contradiction
  | succ k =>
      obtain rfl : Token.opening = w := by simpa [openings, List.replicate_succ] using hw
      rfl

theorem Reads.above_openings {stack out next : List Token} {t : Token}
    (h : Reads stack t out next) :
    Reads (stack ++ (openings (surplusClosings stack [t] + k) ++ base)) t out
      (next ++ (openings k ++ base)) := by
  -- A surplus closing bracket takes the topmost of the open brackets away.
  cases h with
  | opening ht =>
      rw [surplusClosings_of_not_closes (closes_of_opens ht), Nat.zero_add]
      exact .opening ht
  | @closing _ _ w _ ht htop hw =>
      have hany : (out ++ w :: next).any isBarrier = true := by simp [hw]
      rw [surplusClosings_of_any hany, Nat.zero_add, List.append_assoc]
      exact .closing ht htop hw
  | surplus ht hstack =>
      rw [surplusClosings_of_closes ht hstack, Nat.add_comm]
      exact .closing ht hstack rfl
  | @operator _ rest _ ht htop hrest =>
      rw [surplusClosings_of_not_closes (closes_of_operator ht), Nat.zero_add, List.append_assoc]
      refine .operator ht htop ?_
      cases rest with
      | nil => exact givesWay_head_openings hbase t
      | cons v rest => exact hrest
  | other hopens hcloses hkind =>
      rw [surplusClosings_of_not_closes hcloses, Nat.zero_add]
      exact .other hopens hcloses hkind

theorem run_above_openings (stack ts : List Token) :
    stackAfter (stack ++ (openings (surplusClosings stack ts + k) ++ base)) ts =
        stackAfter stack ts ++ (openings k ++ base) ∧
      emitted (stack ++ (openings (surplusClosings stack ts + k) ++ base)) ts =
        emitted stack ts := by
  induction ts generalizing stack with
  | nil =>
      rw [surplusClosings, Nat.zero_add]
      exact ⟨rfl, rfl⟩
  | cons t ts ih =>
      have hcons : surplusClosings stack (t :: ts) + k =
          surplusClosings stack [t] + (surplusClosings (absorb stack t) ts + k) :=
        Nat.add_assoc ..
      have hbelow : surplusClosings (absorb stack t) ts + k = 0 → base = [] :=
        fun h => hbase (Nat.eq_zero_of_add_eq_zero_left h)
      obtain ⟨hout, hnext⟩ := ((reads stack t).above_openings hbelow).eq
      obtain ⟨hafter, hemitted⟩ := ih (absorb stack t)
      rw [hcons]
      constructor
      · rw [stackAfter_cons, stackAfter_cons, hnext, hafter]
      · rw [emitted, emitted, hout, hnext, hemitted]

end Above

section Group

variable {ts : List Token} (hmatched : surplusClosings [] ts = 0)
  (hclosed : ∀ w ∈ stackAfter [] ts, isBarrier w = false)

include hmatched hclosed

/-- A matched text in brackets is converted as it is by itself, if no bracket of its own is left
open. What waits around it stays. -/
theorem run_group (stack : List Token) :
    stackAfter stack (.opening :: ts ++ [.closing]) = stack ∧
      emitted stack (.opening :: ts ++ [.closing]) = postfixOf ts := by
  have hbase : 1 = 0 → stack = [] := by simp
  obtain ⟨hafter, hemitted⟩ := run_above_openings hbase [] ts
  rw [hmatched] at hafter hemitted
  change stackAfter (.opening :: stack) ts = stackAfter [] ts ++ .opening :: stack at hafter
  change emitted (.opening :: stack) ts = emitted [] ts at hemitted
  obtain ⟨hgroup, hout⟩ := run_group_of_waiting hclosed hafter
  exact ⟨hgroup, by rw [hout, hemitted, postfixOf]⟩

theorem converts_group_of_matched (floor : Int) :
    Converts floor (.opening :: ts ++ [.closing]) (postfixOf ts) := by
  intro stack _
  obtain ⟨hgroup, hemitted⟩ := run_group hmatched hclosed stack
  exact ⟨[], by simp [Pending], hgroup, by rw [hemitted, List.append_nil]⟩

end Group

theorem stackAfter_openings (k : Nat) : stackAfter [] (openings k) = openings k := by
  induction k with
  | zero => rfl
  | succ k ih =>
      rw [openings, List.replicate_succ', stackAfter_append]
      change absorb (stackAfter [] (openings k)) .opening = _
      rw [ih, ← List.replicate_succ']
      rfl

theorem emitted_openings (k : Nat) : emitted [] (openings k) = [] := by
  induction k with
  | zero => rfl
  | succ k ih =>
      rw [openings, List.replicate_succ', emitted_append]
      change emitted [] (openings k) ++ [] = []
      rw [ih, List.append_nil]

/-- With a bracket opened at the start for each surplus closing one, the postfix form is the
same. -/
theorem postfixOf_openings_append (ts : List Token) :
    postfixOf (openings (surplusClosings [] ts) ++ ts) = postfixOf ts := by
  have hbase : 0 = 0 → ([] : List Token) = [] := fun _ => rfl
  obtain ⟨hafter, hemitted⟩ := run_above_openings hbase [] ts
  simp only [Nat.add_zero, List.append_nil, List.nil_append] at hafter hemitted
  rw [postfixOf, postfixOf, emitted_append, stackAfter_append, emitted_openings,
    stackAfter_openings, hafter, hemitted, List.nil_append, openings, List.replicate_zero,
    List.append_nil]

end TruthTables.Postfix
