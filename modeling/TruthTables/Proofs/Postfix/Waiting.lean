import Mathlib.Data.List.Chain
import Mathlib.Data.List.Perm.Subperm
import TruthTables.Proofs.Postfix.Brackets

namespace TruthTables

theorem Token.binding_of_operator {t : Token} (ht : t.FromText) (hkind : t.kind = .operator) :
    t.binding ∈ ([4, 3, 2, 1] : List Int) := by
  rcases ht.of_operator hkind with rfl | ⟨c, rfl⟩
  · decide
  · cases c <;> decide

namespace Postfix

/-- From bottom to top connectives bind stronger and stronger, and every bracket starts anew. The
top comes first. -/
def Rising (stack : List Token) : Prop :=
  stack.IsChain fun upper lower =>
    isBarrier upper = true ∨ isBarrier lower = true ∨ lower.binding < upper.binding

theorem givesWay_eq_false_iff {w t : Token} :
    givesWay w t = false ↔ isBarrier w = true ∨ w.binding < t.binding := by
  cases h : isBarrier w <;> simp [givesWay, h]

/-- Whatever is read, and whatever kind of token it is, the stack goes on rising. -/
theorem Reads.rising {stack out next : List Token} {t : Token} (h : Reads stack t out next)
    (hstack : Rising stack) : Rising next := by
  cases h with
  | opening ht => exact List.IsChain.cons hstack fun _ _ => .inl (isBarrier_of_opens ht)
  | closing _ _ _ => exact (List.IsChain.right_of_append hstack).tail
  | surplus _ _ => exact .nil
  | operator _ _ hrest =>
      -- What is left on top did not give way, so it is a bracket or binds weaker.
      refine List.IsChain.cons (List.IsChain.right_of_append hstack) fun w hw => .inr ?_
      exact givesWay_eq_false_iff.mp (hrest w hw)
  | other _ _ _ => exact hstack

theorem rising_stackAfter {stack : List Token} (hstack : Rising stack) (ts : List Token) :
    Rising (stackAfter stack ts) := by
  induction ts generalizing stack with
  | nil => exact hstack
  | cons t ts ih => exact ih ((reads stack t).rising hstack)

theorem Rising.pairwise {stack stretch : List Token} (h : Rising stack)
    (hstretch : stretch <:+: stack) (hbarrier : ∀ w ∈ stretch, isBarrier w = false) :
    stretch.Pairwise fun upper lower => lower.binding < upper.binding := by
  have hwithin : Rising stretch := List.IsChain.infix h hstretch
  have hchain : (stretch.map Token.binding).IsChain (· > ·) := by
    refine (List.isChain_map _).mpr (List.IsChain.imp_of_mem_imp ?_ hwithin)
    intro upper lower hupper hlower hrel
    simpa [hbarrier upper hupper, hbarrier lower hlower] using hrel
  exact List.pairwise_map.mp hchain.pairwise

theorem length_le_four {stretch : List Token}
    (hstretch : ∀ w ∈ stretch, w.FromText ∧ w.kind = .operator)
    (hnodup : (stretch.map Token.binding).Nodup) : stretch.length ≤ 4 := by
  have hsubset : stretch.map Token.binding ⊆ [4, 3, 2, 1] := by
    intro strength hstrength
    obtain ⟨w, hw, rfl⟩ := List.mem_map.mp hstrength
    exact Token.binding_of_operator (hstretch w hw).1 (hstretch w hw).2
  have hlength := (List.subperm_of_subset hnodup hsubset).length_le
  rwa [List.length_map] at hlength

end Postfix

theorem opening_or_operator_of_mem_stackAfter {ts : List Token} (hts : ∀ t ∈ ts, t.FromText) :
    ∀ w ∈ Postfix.stackAfter [] ts, w = .opening ∨ w.kind = .operator := by
  intro w hw
  have hoperand := Postfix.kind_ne_of_mem_stackAfter (by simp) ts w hw
  have hcloses := closes_of_mem_postfixOf w (List.mem_append_right _ hw)
  rcases (fromText_of_mem_stackAfter hts w hw).cases with rfl | rfl | rfl | ⟨c, rfl⟩ | hname
  · exact .inl rfl
  · contradiction
  · exact .inr rfl
  · exact .inr c.kind_token
  · rw [hname] at hoperand
    contradiction

theorem operator_of_mem_stretch {ts stretch : List Token} (hts : ∀ t ∈ ts, t.FromText)
    (hstretch : stretch <:+: Postfix.stackAfter [] ts) (hopening : .opening ∉ stretch) :
    ∀ w ∈ stretch, w.FromText ∧ w.kind = .operator := by
  intro w hw
  have hstack := hstretch.subset hw
  refine ⟨fromText_of_mem_stackAfter hts w hstack, ?_⟩
  rcases opening_or_operator_of_mem_stackAfter hts w hstack with rfl | hkind
  · contradiction
  · exact hkind

/-- However many tokens have been read, and whatever they are, only opening brackets and connectives
wait, and as many brackets as no later one has closed. On every stretch without a bracket the
connectives bind stronger and stronger from bottom to top: no two of equal strength, and
four at most. -/
theorem waiting_rises_between_brackets (names : List String) (k : Nat) :
    (∀ w ∈ Postfix.stackAfter [] ((names.map Token.ofText).take k),
      w = .opening ∨ w.kind = .operator) ∧
    (Postfix.stackAfter [] ((names.map Token.ofText).take k)).count .opening =
      Bracket.unclosed (((names.map Token.ofText).take k).filterMap Bracket.ofToken?) ∧
    ∀ above stretch below,
      Postfix.stackAfter [] ((names.map Token.ofText).take k) = above ++ stretch ++ below →
      .opening ∉ stretch →
      (stretch.Pairwise fun upper lower => lower.binding < upper.binding) ∧
      (stretch.map Token.binding).Nodup ∧ stretch.length ≤ 4 := by
  have hread : ∀ t ∈ (names.map Token.ofText).take k, t.FromText :=
    fun t ht => Token.fromText_of_mem_map t (List.mem_of_mem_take ht)
  refine ⟨opening_or_operator_of_mem_stackAfter hread, ?_, ?_⟩
  · rw [count_opening_stackAfter hread, Bracket.depth_zero_eq_unclosed]
  · intro above stretch below hsplit hopening
    have hstretch : stretch <:+: Postfix.stackAfter [] ((names.map Token.ofText).take k) :=
      ⟨above, below, hsplit.symm⟩
    have hoperator := operator_of_mem_stretch hread hstretch hopening
    have hrising := Postfix.rising_stackAfter .nil ((names.map Token.ofText).take k)
    have hpairwise := hrising.pairwise hstretch fun w hw =>
      Postfix.isBarrier_of_operator (hoperator w hw).1 (hoperator w hw).2
    have hnodup : (stretch.map Token.binding).Nodup :=
      List.pairwise_map.mpr (hpairwise.imp fun hlt => Int.ne_of_gt hlt)
    exact ⟨hpairwise, hnodup, Postfix.length_le_four hoperator hnodup⟩

theorem waiting_rises_between_brackets_literal :
    let names := [")", "→", "∧", "p", "∨", "(", "→", "q", "∨", "∧", "∼", "(", ")", "r", "∧"]
    Postfix.stackAfter [] ((names.map Token.ofText).take 13) =
        ["∼", "∧", "∨", "→", "(", "∨", "→"].map Token.ofText ∧
      .opening ∉ ["∼", "∧", "∨", "→"].map Token.ofText ∧
      ((["∼", "∧", "∨", "→"].map Token.ofText).Pairwise fun upper lower =>
        lower.binding < upper.binding) ∧
      (["∼", "∧", "∨", "→"].map Token.ofText).length ≤ 4 ∧
      Bracket.unclosed (((names.map Token.ofText).take 13).filterMap Bracket.ofToken?) = 1 := by
  intro names
  have hstack : Postfix.stackAfter [] ((names.map Token.ofText).take 13) =
      ([] ++ ["∼", "∧", "∨", "→"].map Token.ofText) ++ ["(", "∨", "→"].map Token.ofText := by
    decide
  have hopening : Token.opening ∉ ["∼", "∧", "∨", "→"].map Token.ofText := by decide
  obtain ⟨-, hcount, hstretch⟩ := waiting_rises_between_brackets names 13
  obtain ⟨hpairwise, -, hlength⟩ := hstretch _ _ _ hstack hopening
  refine ⟨hstack, hopening, hpairwise, hlength, ?_⟩
  rw [← hcount, hstack]
  decide

end TruthTables
