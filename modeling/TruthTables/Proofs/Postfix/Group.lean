import Mathlib.Data.List.Basic
import TruthTables.Proofs.Postfix.Frame

namespace TruthTables

namespace Postfix

theorem mem_of_mem_emitted {ts : List Token} {t : Token} (h : t ∈ emitted [] ts) : t ∈ ts := by
  rcases mem_of_mem_run (List.mem_append_left _ h) with hstack | hts
  · contradiction
  · exact hts

/-- What is read after `as`, up to the end. -/
def continued (as bs : List Token) : List Token :=
  emitted (stackAfter [] as) bs ++ stackAfter (stackAfter [] as) bs

theorem mem_of_mem_continued {as bs : List Token} {t : Token} (h : t ∈ continued as bs) :
    t ∈ as ∨ t ∈ bs := by
  rcases mem_of_mem_run h with hstack | hbs
  · rcases mem_of_mem_run (List.mem_append_right _ hstack) with hnil | has
    · contradiction
    · exact .inl has
  · exact .inr hbs

theorem postfixOf_of_run {as ts : List Token} {code : List Token}
    (h : stackAfter (stackAfter [] as) ts = stackAfter [] as ∧
      emitted (stackAfter [] as) ts = code) (bs : List Token) :
    postfixOf (as ++ ts ++ bs) = emitted [] as ++ code ++ continued as bs := by
  obtain ⟨hafter, hcode⟩ := h
  simp only [postfixOf, continued, emitted_append, stackAfter_append, hafter, hcode,
    List.append_assoc]

theorem run_operand {x : Token} (hx : x.kind = .operand) (stack : List Token) :
    stackAfter stack [x] = stack ∧ emitted stack [x] = [x] := by
  have hother : Reads stack x [x] stack :=
    .other (by simp [opens, hx]) (by simp [closes, hx]) (by simp [hx])
  obtain ⟨hout, hnext⟩ := hother.eq
  exact ⟨hnext, by rw [emitted, hout, emitted, List.append_nil]⟩

theorem operator_name_of_fromText {ts : List Token} (hts : ∀ t ∈ ts, t.FromText) :
    ∀ t ∈ ts, t.kind = .operator → t.name ≠ "(" := by
  intro t ht hkind
  have hbarrier := isBarrier_of_operator (hts t ht) hkind
  simpa [isBarrier] using hbarrier

section Balanced

variable {ts : List Token} (hname : ∀ t ∈ ts, t.kind = .operator → t.name ≠ "(")
  (hbalanced : Bracket.Balanced (ts.filterMap Bracket.ofToken?))

include hname in
theorem operator_name_group :
    ∀ t ∈ Token.opening :: ts ++ [Token.closing], t.kind = .operator → t.name ≠ "(" := by
  intro t ht hkind
  rcases List.mem_append.mp ht with ht | ht
  · rcases List.mem_cons.mp ht with rfl | ht
    · contradiction
    · exact hname t ht hkind
  · rw [List.mem_singleton.mp ht] at hkind
    contradiction

include hbalanced in
theorem balanced_group :
    Bracket.Balanced ((Token.opening :: ts ++ [Token.closing]).filterMap Bracket.ofToken?) := by
  rw [List.filterMap_append]
  exact .group hbalanced .nil

include hname hbalanced

theorem run_balanced_group (stack : List Token) :
    stackAfter stack (.opening :: ts ++ [.closing]) = stack ∧
      emitted stack (.opening :: ts ++ [.closing]) = postfixOf ts := by
  have hbarrier : ∀ t ∈ ts, t.kind = .operator → isBarrier t = false := by
    intro t ht hkind
    simpa [isBarrier] using hname t ht hkind
  have hmatched : surplusClosings [] ts = 0 := by
    rw [surplusClosings_eq hbarrier, hbalanced.surplus_eq_zero]
  have hopen : (stackAfter [] ts).countP isBarrier = 0 := by
    rw [countP_stackAfter hbarrier, hbalanced.depth_eq]
    rfl
  rw [List.countP_eq_zero] at hopen
  exact run_group hmatched (fun w hw => by simpa using hopen w hw) stack

theorem postfixOf_balanced_group : postfixOf (.opening :: ts ++ [.closing]) = postfixOf ts := by
  obtain ⟨hafter, hemitted⟩ := run_balanced_group hname hbalanced []
  rw [postfixOf, hafter, hemitted, List.append_nil]

end Balanced

end Postfix

/-- In place of an operand that occurs nowhere else, a group in brackets puts its own postfix form.
Brackets around the brackets of a group change nothing. Any tokens may stand around the group, and
any within it as long as its brackets are balanced and no connective is called like one: on the
stack such a connective counts as an open bracket. -/
theorem group_stands_for_operand (as ts bs : List Token)
    (hname : ∀ t ∈ ts, t.kind = .operator → t.name ≠ "(")
    (hbalanced : Bracket.Balanced (ts.filterMap Bracket.ofToken?)) :
    (∀ x : Token, x.kind = .operand → x ∉ as → x ∉ bs →
      ∃ left right,
        (∀ l r, postfixOf (as ++ [x] ++ bs) = l ++ [x] ++ r ↔ l = left ∧ r = right) ∧
        postfixOf (as ++ (.opening :: ts ++ [.closing]) ++ bs) = left ++ postfixOf ts ++ right) ∧
    postfixOf (as ++ (.opening :: (.opening :: ts ++ [.closing]) ++ [.closing]) ++ bs) =
      postfixOf (as ++ (.opening :: ts ++ [.closing]) ++ bs) := by
  have hout := Postfix.postfixOf_of_run
    (Postfix.run_balanced_group hname hbalanced (Postfix.stackAfter [] as)) bs
  constructor
  · intro x hx has hbs
    have hleft : x ∉ Postfix.emitted [] as := fun h => has (Postfix.mem_of_mem_emitted h)
    have hright : x ∉ Postfix.continued as bs := by
      intro h
      rcases Postfix.mem_of_mem_continued h with h | h
      · exact has h
      · exact hbs h
    refine ⟨Postfix.emitted [] as, Postfix.continued as bs, fun l r => ?_, hout⟩
    rw [Postfix.postfixOf_of_run (Postfix.run_operand hx _), eq_comm, List.append_assoc,
      List.append_assoc, List.singleton_append, List.singleton_append, eq_comm,
      List.append_cons_inj_of_notMem hleft hright]
    simp [eq_comm]
  · have hdouble := Postfix.postfixOf_of_run (Postfix.run_balanced_group
      (Postfix.operator_name_group hname) (Postfix.balanced_group hbalanced)
      (Postfix.stackAfter [] as)) bs
    rw [hdouble, hout, Postfix.postfixOf_balanced_group hname hbalanced]

theorem group_stands_for_operand_literal :
    let as := [")", "p", "→", "(", "∼"].map Token.ofText
    let ts := ["q", "(", ")", "∨", "r", "∧"].map Token.ofText
    let bs := ["∧", "s", "∼"].map Token.ofText
    (∀ t ∈ ts, t.kind = .operator → t.name ≠ "(") ∧
      Bracket.Balanced (ts.filterMap Bracket.ofToken?) ∧
      Token.operand "x" ∉ as ∧ Token.operand "x" ∉ bs ∧
      (∀ l r, postfixOf (as ++ [Token.operand "x"] ++ bs) = l ++ [Token.operand "x"] ++ r ↔
        l = ["p"].map Token.ofText ∧ r = ["∼", "s", "∼", "∧", "(", "→"].map Token.ofText) ∧
      postfixOf (as ++ (.opening :: ts ++ [.closing]) ++ bs) =
        (["p"] ++ ["q", "r", "∧", "∨"] ++ ["∼", "s", "∼", "∧", "(", "→"]).map Token.ofText ∧
      postfixOf (as ++ (.opening :: (.opening :: ts ++ [.closing]) ++ [.closing]) ++ bs) =
        postfixOf (as ++ (.opening :: ts ++ [.closing]) ++ bs) := by
  intro as ts bs
  have hname : ∀ t ∈ ts, t.kind = .operator → t.name ≠ "(" :=
    Postfix.operator_name_of_fromText Token.fromText_of_mem_map
  have hbalanced : Bracket.Balanced (ts.filterMap Bracket.ofToken?) := .group .nil .nil
  have has : Token.operand "x" ∉ as := by decide
  have hbs : Token.operand "x" ∉ bs := by decide
  obtain ⟨hoperand, hdouble⟩ := group_stands_for_operand as ts bs hname hbalanced
  obtain ⟨left, right, hunique, hgroup⟩ := hoperand (.operand "x") rfl has hbs
  have hsplit : postfixOf (as ++ [Token.operand "x"] ++ bs) =
      ["p"].map Token.ofText ++ [Token.operand "x"] ++
        ["∼", "s", "∼", "∧", "(", "→"].map Token.ofText := by decide
  obtain ⟨rfl, rfl⟩ := (hunique _ _).mp hsplit
  have hinner : postfixOf ts = ["q", "r", "∧", "∨"].map Token.ofText := by decide
  exact ⟨hname, hbalanced, has, hbs, hunique, by rw [hgroup, hinner]; simp, hdouble⟩

/-- A connective called like an opening bracket: the closing bracket of the group takes it away, and
the opening one stays behind. -/
theorem group_with_connective_called_bracket :
    let x := Token.operand "x"
    let ts := [Token.operator "(" 2 1]
    Bracket.Balanced (ts.filterMap Bracket.ofToken?) ∧
      postfixOf ([] ++ [x] ++ []) = [] ++ [x] ++ [] ∧
      postfixOf ([] ++ (.opening :: ts ++ [.closing]) ++ []) = [.opening] ∧
      postfixOf ([] ++ (.opening :: ts ++ [.closing]) ++ []) ≠ [] ++ postfixOf ts ++ [] := by
  intro x ts
  exact ⟨.nil, by decide, by decide, by decide⟩

end TruthTables
