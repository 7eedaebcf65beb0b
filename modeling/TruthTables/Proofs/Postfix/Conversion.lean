import TruthTables.Formula
import TruthTables.Proofs.Postfix.Step

/-!
The postfix form of an infix formula is its postorder. Read above any stack that its own
connectives leave alone, a derivation lets go of the postorder up to the connectives that still
wait, and these lie on top of the old stack.
-/

namespace TruthTables

open Formula

namespace Postfix

/-- Nothing on top of the stack gives way to a connective that binds as strongly as `floor`. -/
def Below (floor : Int) (stack : List Token) : Prop :=
  ∀ w ∈ stack.head?, isBarrier w = true ∨ w.binding < floor

def Pending (floor : Int) (pending : List Token) : Prop :=
  ∀ w ∈ pending, isBarrier w = false ∧ floor ≤ w.binding

/-- Above a stack that it leaves alone, `ts` lets go of `code` but for what is pending. -/
def Converts (floor : Int) (ts code : List Token) : Prop :=
  ∀ stack, Below floor stack → ∃ pending, Pending floor pending ∧
    stackAfter stack ts = pending ++ stack ∧ emitted stack ts ++ pending = code

theorem Below.mono {floor floor' : Int} {stack : List Token} (h : Below floor stack)
    (hle : floor ≤ floor') : Below floor' stack := by
  intro w hw
  rcases h w hw with hbarrier | hlt
  · exact .inl hbarrier
  · exact .inr (by omega)

theorem Pending.mono {floor floor' : Int} {pending : List Token} (h : Pending floor' pending)
    (hle : floor ≤ floor') : Pending floor pending := by
  intro w hw
  obtain ⟨hbarrier, hbinding⟩ := h w hw
  exact ⟨hbarrier, by omega⟩

theorem Converts.mono {floor floor' : Int} {ts code : List Token} (h : Converts floor' ts code)
    (hle : floor ≤ floor') : Converts floor ts code := by
  intro stack hstack
  obtain ⟨pending, hpending, hafter, hcode⟩ := h stack (hstack.mono hle)
  exact ⟨pending, hpending.mono hle, hafter, hcode⟩

theorem reads_pending {t : Token} (hkind : t.kind = .operator) {pending stack : List Token}
    (hpending : Pending t.binding pending) (hstack : Below t.binding stack) :
    Reads (pending ++ stack) t pending (t :: stack) := by
  -- A connective takes off exactly what is pending at its strength.
  apply Reads.operator hkind
  · intro w hw
    obtain ⟨hbarrier, hbinding⟩ := hpending w hw
    simp [givesWay, hbarrier, hbinding]
  · intro w hw
    rcases hstack w hw with hbarrier | hlt
    · simp [givesWay, hbarrier]
    · simp [givesWay, hlt]

theorem Converts.postfixOf_eq {floor : Int} {ts code : List Token} (h : Converts floor ts code) :
    postfixOf ts = code := by
  obtain ⟨pending, -, hafter, hcode⟩ := h [] (by simp [Below])
  rw [postfixOf, hafter, List.append_nil, hcode]

theorem converts_operand (floor : Int) (name : String) :
    Converts floor [Token.operand name] [Token.operand name] :=
  fun _ _ => ⟨[], by simp [Pending], rfl, rfl⟩

/-- A closing bracket takes off all that waits above its opening one. -/
theorem run_group_of_waiting {stack waiting ts : List Token}
    (hwaiting : ∀ w ∈ waiting, isBarrier w = false)
    (hafter : stackAfter (.opening :: stack) ts = waiting ++ .opening :: stack) :
    stackAfter stack (.opening :: ts ++ [.closing]) = stack ∧
      emitted stack (.opening :: ts ++ [.closing]) =
        emitted (.opening :: stack) ts ++ waiting := by
  have hopening : absorb stack .opening = .opening :: stack := rfl
  have hclosing : Reads (waiting ++ .opening :: stack) .closing waiting stack :=
    .closing rfl hwaiting rfl
  obtain ⟨hout, hnext⟩ := hclosing.eq
  constructor
  · rw [List.cons_append, stackAfter_cons, stackAfter_append, hopening, hafter, stackAfter_cons,
      hnext]
    rfl
  · rw [List.cons_append, emitted, emitted_append, hopening, hafter, emitted, hout]
    simp [released, opens, Token.opening, Token.special, emitted]

theorem converts_group {ts code : List Token} {floor : Int} (h : Converts floor ts code)
    (floor' : Int) : Converts floor' (.opening :: ts ++ [.closing]) code := by
  intro stack _
  have hopening : Below floor (Token.opening :: stack) := by
    intro w hw
    obtain rfl : Token.opening = w := by simpa using hw
    exact .inl rfl
  obtain ⟨pending, hpending, hafter, hcode⟩ := h _ hopening
  obtain ⟨hgroup, hemitted⟩ := run_group_of_waiting (fun w hw => (hpending w hw).1) hafter
  exact ⟨[], by simp [Pending], hgroup, by rw [hemitted, hcode, List.append_nil]⟩

theorem read_operator {t : Token} (hkind : t.kind = .operator) (hbarrier : isBarrier t = false)
    {ts code : List Token} (h : Converts (t.binding + 1) ts code) {pending stack : List Token}
    (hpending : Pending t.binding pending) (hstack : Below t.binding stack) :
    ∃ waiting, Pending t.binding waiting ∧
      stackAfter (pending ++ stack) (t :: ts) = waiting ++ stack ∧
      emitted (pending ++ stack) (t :: ts) ++ waiting = pending ++ (code ++ [t]) := by
  obtain ⟨hreleased, habsorb⟩ := (reads_pending hkind hpending hstack).eq
  -- The right operand is read above the connective, which gives way to no stronger one.
  have hbelow : Below (t.binding + 1) (t :: stack) := by
    intro w hw
    obtain rfl : t = w := by simpa using hw
    exact .inr (by omega)
  obtain ⟨waiting, hwaiting, hafter, hcode⟩ := h _ hbelow
  refine ⟨waiting ++ [t], ?_, ?_, ?_⟩
  · intro w hw
    rcases List.mem_append.mp hw with hw | hw
    · exact hwaiting.mono (by omega) w hw
    · obtain rfl := List.mem_singleton.mp hw
      exact ⟨hbarrier, Int.le_refl _⟩
  · rw [stackAfter_cons, habsorb, hafter, List.append_assoc, List.singleton_append]
  · rw [emitted, hreleased, habsorb, ← hcode]
    simp

theorem converts_negation {ts code : List Token}
    (h : Converts (Token.negation.binding + 1) ts code) :
    Converts Token.negation.binding (.negation :: ts) (code ++ [.negation]) := by
  intro stack hstack
  have hnone : Pending Token.negation.binding [] := by simp [Pending]
  exact read_operator rfl rfl h hnone hstack

theorem converts_join (c : Connective) {as bs left right : List Token}
    (hleft : Converts c.token.binding as left)
    (hright : Converts (c.token.binding + 1) bs right) :
    Converts c.token.binding (as ++ c.token :: bs) (left ++ right ++ [c.token]) := by
  intro stack hstack
  obtain ⟨pending, hpending, hafter, hcode⟩ := hleft stack hstack
  have hbarrier : isBarrier c.token = false := by cases c <;> rfl
  obtain ⟨waiting, hwaiting, hafter', hcode'⟩ :=
    read_operator c.kind_token hbarrier hright hpending hstack
  refine ⟨waiting, hwaiting, ?_, ?_⟩
  · rw [stackAfter_append, hafter, hafter']
  · rw [emitted_append, hafter, List.append_assoc, hcode', ← hcode]
    simp

end Postfix

namespace Formula

/-- The least strength of the connectives at a level of the grammar. -/
def Rank.floor : Rank → Int
  | primary => 5
  | unary => 4
  | conjunction => 3
  | disjunction => 2
  | implication => 1

theorem Derives.converts {rank : Rank} {ts : List Token} {f : Formula} (h : Derives rank ts f) :
    Postfix.Converts rank.floor ts f.code := by
  induction h with
  | name h =>
      rw [code, Token.ofText_of_isIdentifier h]
      exact Postfix.converts_operand _ _
  | group _ ih => exact Postfix.converts_group ih _
  | ofPrimary _ ih => exact ih.mono (by decide)
  | negation _ ih => exact Postfix.converts_negation ih
  | ofUnary _ ih => exact ih.mono (by decide)
  | conjunction _ _ ihf ihg => exact Postfix.converts_join .and ihf ihg
  | ofConjunction _ ih => exact ih.mono (by decide)
  | disjunction _ _ ihf ihg => exact Postfix.converts_join .or ihf ihg
  | ofDisjunction _ ih => exact ih.mono (by decide)
  | implication _ _ ihf ihg => exact Postfix.converts_join .implies ihf ihg

theorem Derives.postfixOf_eq {rank : Rank} {ts : List Token} {f : Formula}
    (h : Derives rank ts f) : postfixOf ts = f.code :=
  h.converts.postfixOf_eq

end Formula

end TruthTables
