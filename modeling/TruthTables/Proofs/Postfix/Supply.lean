import TruthTables.Proofs.Evaluation.Transfer
import TruthTables.Proofs.Postfix.Readability

/-!
The number of values that wait while a postfix sequence is read. Every token adds its weight to it,
so it is known without a stack. The two machines that put values together stop where a connective
would take more values than there are.
-/

namespace TruthTables

/-- What a token adds to the number of values: a connective takes as many as its arity and puts one
back. -/
def Token.weight (t : Token) : Int :=
  if t.kind = .operator then 1 - t.arity else 1

def totalWeight : List Token → Int
  | [] => 0
  | t :: ts => t.weight + totalWeight ts

/-- Where `size` values wait at first, no connective lacks operands. -/
def Supplied (size : Int) (ts : List Token) : Prop :=
  ∀ as t bs, ts = as ++ t :: bs → t.kind = .operator → t.arity ≤ size + totalWeight as

/-- No bracket, no connective that lacks operands, and one value left. -/
structure Evaluable (ts : List Token) : Prop where
  plain : ∀ t ∈ ts, t.kind ≠ .special
  supplied : Supplied 0 ts
  single : totalWeight ts = 1

theorem Token.weight_of_operator {t : Token} (h : t.kind = .operator) : t.weight = 1 - t.arity :=
  if_pos h

theorem Token.weight_of_kind_ne {t : Token} (h : t.kind ≠ .operator) : t.weight = 1 :=
  if_neg h

theorem supplied_nil (size : Int) : Supplied size [] := by
  intro as t bs h
  simp at h

theorem supplied_cons {size : Int} {t : Token} {ts : List Token} :
    Supplied size (t :: ts) ↔
      (t.kind = .operator → t.arity ≤ size) ∧ Supplied (size + t.weight) ts := by
  constructor
  · intro h
    constructor
    · intro hkind
      simpa [totalWeight] using h [] t ts rfl hkind
    · intro as u bs hts hkind
      have harity := h (t :: as) u bs (congrArg (t :: ·) hts) hkind
      rw [totalWeight] at harity
      omega
  · rintro ⟨hhead, htail⟩ as u bs hts hkind
    cases as with
    | nil =>
        obtain ⟨rfl, rfl⟩ := List.cons.inj hts
        simpa [totalWeight] using hhead hkind
    | cons a as =>
        obtain ⟨rfl, hrest⟩ := List.cons.inj hts
        have harity := htail as u bs hrest hkind
        rw [totalWeight]
        omega

instance Supplied.decidable : (size : Int) → (ts : List Token) → Decidable (Supplied size ts)
  | size, [] => .isTrue (supplied_nil size)
  | size, t :: ts =>
    have := Supplied.decidable (size + t.weight) ts
    decidable_of_iff _ supplied_cons.symm

theorem evaluable_iff {ts : List Token} :
    Evaluable ts ↔ (∀ t ∈ ts, t.kind ≠ .special) ∧ Supplied 0 ts ∧ totalWeight ts = 1 :=
  ⟨fun h => ⟨h.plain, h.supplied, h.single⟩, fun h => ⟨h.1, h.2.1, h.2.2⟩⟩

instance (ts : List Token) : Decidable (Evaluable ts) :=
  decidable_of_iff _ evaluable_iff.symm

theorem Supplied.one_le {size : Int} {ts : List Token} (h : Supplied size ts) (hsize : 0 ≤ size)
    (hne : ts ≠ []) : 1 ≤ size + totalWeight ts := by
  induction ts generalizing size with
  | nil => contradiction
  | cons t ts ih =>
      obtain ⟨hhead, htail⟩ := supplied_cons.mp h
      have hstep : 1 ≤ size + t.weight := by
        by_cases hkind : t.kind = .operator
        · have harity := hhead hkind
          rw [Token.weight_of_operator hkind]
          omega
        · rw [Token.weight_of_kind_ne hkind]
          omega
      rw [totalWeight, ← Int.add_assoc]
      cases ts with
      | nil => simpa [totalWeight] using hstep
      | cons u us => exact ih htail (by omega) (List.cons_ne_nil u us)

theorem Connective.weight_token (c : Connective) : c.token.weight = -1 := by
  cases c <;> rfl

namespace Canonical

theorem step_cases {t : Token} (ht : t.FromText) (stack : List String) :
    ((t.kind = .operator → t.arity ≤ stack.length) ∧
        ∃ next, step stack t = .ok next ∧ (next.length : Int) = stack.length + t.weight) ∨
      (t.kind = .operator ∧ (stack.length : Int) < t.arity ∧
        step stack t = .error .emptyStack) := by
  by_cases hkind : t.kind = .operator
  · rcases ht.of_operator hkind with rfl | ⟨c, rfl⟩
    · have harity : Token.negation.arity = 1 := rfl
      have hweight : Token.negation.weight = 0 := rfl
      rcases stack with _ | ⟨inner, rest⟩
      · exact .inr ⟨rfl, by decide, rfl⟩
      · refine .inl ⟨fun _ => ?_, _, rfl, ?_⟩ <;>
          simp only [harity, hweight, List.length_cons] <;> omega
    · have harity := c.arity_token
      have hweight := c.weight_token
      rcases stack with _ | ⟨right, _ | ⟨left, rest⟩⟩
      · exact .inr ⟨hkind, by simp [harity], by cases c <;> rfl⟩
      · exact .inr ⟨hkind, by simp [harity], by cases c <;> rfl⟩
      · have hstep : step (right :: left :: rest) c.token =
            .ok (("(" ++ left ++ " " ++ c.sign ++ " " ++ right ++ ")") :: rest) := by
          cases c <;> rfl
        refine .inl ⟨fun _ => ?_, _, hstep, ?_⟩ <;>
          simp only [harity, hweight, List.length_cons] <;> omega
  · refine .inl ⟨fun h => absurd h hkind, t.name :: stack, if_neg hkind, ?_⟩
    rw [Token.weight_of_kind_ne hkind, List.length_cons]
    omega

end Canonical

namespace Evaluation

variable {α : Type} {I : Interpretation α} {P : α → Prop} {values : Assignment α}

end Evaluation

end TruthTables
