import TruthTables.Proofs.InfixGrammar
import TruthTables.Proofs.Postfix.Group

namespace TruthTables

/-- A number of negations in a row. -/
def negations (j : Nat) : List Token :=
  List.replicate j .negation

theorem negations_succ (j : Nat) : negations (j + 1) = .negation :: negations j :=
  rfl

theorem negations_succ' (j : Nat) : negations (j + 1) = negations j ++ [.negation] :=
  List.replicate_succ'

theorem append_negations_succ (as : List Token) (j : Nat) :
    as ++ negations (j + 1) = as ++ [Token.negation] ++ negations j := by
  rw [negations_succ, List.append_assoc, List.singleton_append]

namespace Postfix

theorem reads_negation_again (stack : List Token) :
    Reads (absorb stack .negation) .negation [.negation] (absorb stack .negation) := by
  obtain ⟨top, rest, rfl, htop, hrest⟩ :=
    exists_takeWhile_append (fun w => givesWay w .negation) stack
  have hfirst : Reads (top ++ rest) .negation top (.negation :: rest) := .operator rfl htop hrest
  have hgives : ∀ v ∈ [Token.negation], givesWay v .negation = true := by decide
  have hagain : Reads ([Token.negation] ++ rest) .negation [.negation] (.negation :: rest) :=
    .operator rfl hgives hrest
  rw [hfirst.eq.2]
  exact hagain

theorem run_negations (stack : List Token) (j : Nat) :
    stackAfter (absorb stack .negation) (negations j) = absorb stack .negation ∧
      emitted (absorb stack .negation) (negations j) = negations j := by
  obtain ⟨hout, hnext⟩ := (reads_negation_again stack).eq
  induction j with
  | zero => exact ⟨rfl, rfl⟩
  | succ j ih =>
      obtain ⟨hafter, hemitted⟩ := ih
      rw [negations_succ]
      constructor
      · rw [stackAfter_cons, hnext, hafter]
      · rw [emitted, hout, hnext, hemitted, List.singleton_append]

theorem run_negations_after (as : List Token) (j : Nat) :
    stackAfter (stackAfter [] (as ++ [Token.negation])) (negations j) =
        stackAfter [] (as ++ [Token.negation]) ∧
      emitted (stackAfter [] (as ++ [Token.negation])) (negations j) = negations j := by
  -- Behind a negation, further ones are let go as they are read.
  have hstack : stackAfter [] (as ++ [Token.negation]) = absorb (stackAfter [] as) .negation :=
    stackAfter_append [] as [Token.negation]
  rw [hstack]
  exact run_negations (stackAfter [] as) j

theorem emitted_negations (as : List Token) (j : Nat) :
    emitted [] (as ++ negations (j + 1)) = emitted [] (as ++ [Token.negation]) ++ negations j := by
  rw [append_negations_succ, emitted_append, (run_negations_after as j).2]

theorem postfixOf_negations (as bs : List Token) (j : Nat) :
    postfixOf (as ++ negations (j + 1) ++ bs) =
      emitted [] (as ++ [Token.negation]) ++ negations j ++
        continued (as ++ [Token.negation]) bs := by
  rw [append_negations_succ]
  exact postfixOf_of_run (run_negations_after as j) bs

end Postfix

theorem Evaluation.runFrom_negations {α : Type} (I : Interpretation α) (values : Assignment α)
    (value : α) (rest : List α) (j : Nat) :
    runFrom I values (value :: rest) (negations j) = .ok (I.negate^[j] value :: rest) := by
  induction j generalizing value with
  | zero => rfl
  | succ j ih =>
      rw [negations_succ, runFrom, step_negation]
      exact ih (I.negate value)

section Rejection

theorem isWellFormed_cons_of_kind_ne {t : Token} (ht : t.FromText) (hkind : t.kind ≠ .operand)
    (ts : List Token) : isWellFormed (t :: ts) = false := by
  rcases ht.cases with rfl | rfl | rfl | ⟨c, rfl⟩ | hoperand
  · rfl
  · rfl
  · rfl
  · cases c <;> rfl
  · rw [hoperand] at hkind
    contradiction

variable {as bs : List Token} (has : ∀ t ∈ as, t.FromText ∧ t.kind ≠ .operand)

include has

theorem isWellFormed_of_leading_negations :
    isWellFormed (postfixOf (as ++ negations 2 ++ bs)) = false := by
  have hsigns : ∀ t ∈ Postfix.emitted [] (as ++ [Token.negation]),
      t.FromText ∧ t.kind ≠ .operand := by
    intro t ht
    rcases List.mem_append.mp (Postfix.mem_of_mem_emitted ht) with ht | ht
    · exact has t ht
    · rw [List.mem_singleton.mp ht]
      exact ⟨rfl, by decide⟩
  rw [Postfix.postfixOf_negations]
  -- The first of the two negations is let go before any operand.
  cases hout : Postfix.emitted [] (as ++ [Token.negation]) with
  | nil => exact isWellFormed_cons_of_kind_ne (t := .negation) rfl (by decide) _
  | cons t ts =>
      rw [hout] at hsigns
      obtain ⟨ht, hkind⟩ := hsigns t (List.mem_cons_self ..)
      exact isWellFormed_cons_of_kind_ne ht hkind _

theorem outcome_parse_of_leading_negations {raw : String}
    (h : tokensOf raw = as ++ negations 2 ++ bs) :
    (Expression.parse raw).outcome =
      .error (.rejected raw (Expression.names (postfixOf (tokensOf raw)))) := by
  have hblank : ¬isBlankText raw.toList = true := by
    intro hblank
    rw [tokensOf_of_isBlankText hblank] at h
    simp [negations] at h
  apply Expression.outcome_parse_of_unfit hblank
  rw [h]
  exact isWellFormed_of_leading_negations has

end Rejection

/-- The level of the grammar from which a connective takes its left operand. -/
def Connective.leftRank : Connective → Formula.Rank
  | and => .conjunction
  | or => .disjunction
  | implies => .implication

theorem Connective.floor_leftRank (c : Connective) : c.leftRank.floor = c.token.binding := by
  cases c <;> rfl

namespace Formula

theorem code_iterate_not (f : Formula) (j : Nat) : (not^[j] f).code = f.code ++ negations j := by
  induction j with
  | zero => exact (List.append_nil _).symm
  | succ j ih =>
      rw [Function.iterate_succ_apply', code, ih, negations_succ', List.append_assoc]

theorem isNamed_iterate_not {f : Formula} (hf : f.IsNamed) (j : Nat) : (not^[j] f).IsNamed := by
  induction j with
  | zero => exact hf
  | succ j ih =>
      rw [Function.iterate_succ_apply']
      exact ih

section Joined

variable {c : Connective} {ls qs : List Token} {f g : Formula} (hf : Derives c.leftRank ls f)

include hf

theorem Derives.emitted_left :
    Postfix.emitted [] (ls ++ [c.token] ++ [Token.negation]) = f.code := by
  obtain ⟨pending, hpending, hafter, hcode⟩ := hf.converts [] (by simp [Postfix.Below])
  rw [c.floor_leftRank] at hpending
  have hempty : Postfix.Below c.token.binding [] := by simp [Postfix.Below]
  have hnone : Postfix.Pending Token.negation.binding [] := by simp [Postfix.Pending]
  have hweaker : Postfix.Below Token.negation.binding [c.token] := by
    intro w hw
    obtain rfl : c.token = w := by simpa using hw
    right
    cases c <;> decide
  obtain ⟨hout, hnext⟩ := (Postfix.reads_pending c.kind_token hpending hempty).eq
  obtain ⟨hnothing, -⟩ := (Postfix.reads_pending rfl hnone hweaker).eq
  rw [List.append_nil] at hafter hout hnext
  rw [List.nil_append] at hnothing
  rw [List.append_assoc, Postfix.emitted_append, hafter, ← hcode]
  simp [Postfix.emitted, hout, hnext, hnothing]

variable (hg : Derives .primary qs g)

include hg

theorem Derives.join_not :
    Derives c.leftRank (ls ++ c.token :: .negation :: qs) (join c f (not g)) := by
  cases c with
  | and => exact .conjunction hf (.negation hg)
  | or => exact .disjunction hf (.ofUnary (.negation hg))
  | implies => exact .implication hf (.ofConjunction (.ofUnary (.negation hg)))

theorem Derives.postfixOf_negations (j : Nat) :
    postfixOf (ls ++ c.token :: (negations (j + 1) ++ qs)) =
      (join c (not^[j] f) (not g)).code := by
  have hrun (k : Nat) : postfixOf (ls ++ c.token :: (negations (k + 1) ++ qs)) =
      f.code ++ negations k ++ Postfix.continued (ls ++ [c.token] ++ [Token.negation]) qs := by
    have h := Postfix.postfixOf_negations (ls ++ [c.token]) qs k
    rw [hf.emitted_left, List.append_assoc, List.append_assoc, List.singleton_append] at h
    exact h
  -- One negation belongs to an infix formula, which tells what is read behind it.
  have hone := hrun 0
  change postfixOf (ls ++ c.token :: .negation :: qs) = f.code ++ [] ++ _ at hone
  rw [(hf.join_not hg).postfixOf_eq, code, List.append_assoc, List.append_nil,
    List.append_cancel_left_eq] at hone
  rw [hrun j, ← hone]
  simp only [code, code_iterate_not, List.append_assoc]

end Joined

end Formula

/-- Of a run of negations all but the last are let go as they are read, and negate the value that
was complete before the run. Two of them in front of every operand make a text that is rejected, and
behind a connective all but the last negate its left operand. -/
theorem negations_but_last_apply_before :
    (∀ as bs : List Token, ∃ right,
      postfixOf (as ++ [Token.negation] ++ bs) =
        Postfix.emitted [] (as ++ [Token.negation]) ++ right ∧
      ∀ j : Nat,
        postfixOf (as ++ negations (j + 1) ++ bs) =
          Postfix.emitted [] (as ++ [Token.negation]) ++ negations j ++ right ∧
        Postfix.emitted [] (as ++ negations (j + 1)) =
          Postfix.emitted [] (as ++ [Token.negation]) ++ negations j ∧
        ∀ {α : Type} (I : Interpretation α) (values : Assignment α) (value : α) (rest : List α),
          Evaluation.runFrom I values [] (Postfix.emitted [] (as ++ [Token.negation])) =
            .ok (value :: rest) →
          Evaluation.runFrom I values [] (Postfix.emitted [] (as ++ negations (j + 1))) =
            .ok (I.negate^[j] value :: rest)) ∧
    (∀ (raw : String) (as bs : List Token), tokensOf raw = as ++ negations 2 ++ bs →
      (∀ t ∈ as, t.kind ≠ .operand) →
      (Expression.parse raw).outcome =
        .error (.rejected raw (Expression.names (postfixOf (tokensOf raw))))) ∧
    ∀ (c : Connective) (ls qs : List Token) (f g : Formula), Formula.Derives c.leftRank ls f →
      Formula.Derives .primary qs g → ∀ (j : Nat) (raw : String),
      tokensOf raw = ls ++ c.token :: (negations (j + 1) ++ qs) →
      (Expression.parse raw).outcome =
        .ok (some ⟨(Formula.join c (Formula.not^[j] f) (.not g)).text,
          (Formula.join c (Formula.not^[j] f) (.not g)).code, tokensOf raw⟩) := by
  refine ⟨?_, ?_, ?_⟩
  · intro as bs
    refine ⟨Postfix.continued (as ++ [Token.negation]) bs, ?_, fun j => ?_⟩
    · have hone := Postfix.postfixOf_negations as bs 0
      change postfixOf (as ++ [Token.negation] ++ bs) = _ ++ [] ++ _ at hone
      rw [List.append_nil] at hone
      exact hone
    · have hemitted := Postfix.emitted_negations as j
      refine ⟨Postfix.postfixOf_negations as bs j, hemitted, ?_⟩
      intro α I values value rest hrun
      rw [hemitted, Evaluation.runFrom_append, hrun]
      exact Evaluation.runFrom_negations I values value rest j
  · intro raw as bs htokens has
    have hsigns : ∀ t ∈ as, t.FromText ∧ t.kind ≠ .operand := by
      intro t ht
      have hmem : t ∈ tokensOf raw := by
        rw [htokens, List.append_assoc]
        exact List.mem_append_left _ ht
      exact ⟨fromText_of_mem_tokensOf hmem, has t ht⟩
    exact outcome_parse_of_leading_negations hsigns htokens
  · intro c ls qs f g hf hg j raw htokens
    refine Expression.outcome_parse_eq_some_iff.mpr ⟨_, ?_, ?_, rfl⟩
    · exact ⟨Formula.isNamed_iterate_not hf.isNamed j, hg.isNamed⟩
    · rw [htokens, hf.postfixOf_negations hg j]

theorem negations_but_last_apply_before_literal :
    let as := ["p", "∧"].map Token.ofText
    let values : Assignment Scalar := fun _ => some (some true)
    postfixOf (as ++ negations 4 ++ [Token.ofText "q"]) =
        ["p", "∼", "∼", "∼", "q", "∼", "∧"].map Token.ofText ∧
      Evaluation.runFrom .scalars values [] (Postfix.emitted [] (as ++ [Token.negation])) =
        .ok [some true] ∧
      Evaluation.runFrom .scalars values [] (Postfix.emitted [] (as ++ negations 4)) =
        .ok [some false] ∧
      (Expression.parse "∧(∼ ∼p)").outcome =
        .error (.rejected "∧(∼ ∼p)" ["∼", "p", "∼", "∧"]) ∧
      ∃ e, (Expression.parse "p ∨ q → ∼∼ ∼(r)").outcome = .ok (some e) ∧
        e.canonical = "((∼(∼(p ∨ q))) → (∼r))" := by
  intro as values
  obtain ⟨hruns, hrejected, hjoined⟩ := negations_but_last_apply_before
  obtain ⟨right, hone, hmore⟩ := hruns as [Token.ofText "q"]
  obtain ⟨hcode, -, hvalue⟩ := hmore 3
  have hleft : Postfix.emitted [] (as ++ [Token.negation]) = [Token.ofText "p"] := by decide
  have hwhole : postfixOf (as ++ [Token.negation] ++ [Token.ofText "q"]) =
      Token.ofText "p" :: ["q", "∼", "∧"].map Token.ofText := by decide
  rw [hleft, hwhole] at hone
  obtain rfl := (List.cons.inj hone).2
  rw [hleft] at hcode hvalue
  have hp : Formula.Derives .conjunction [Token.ofText "p"] (.atom "p") :=
    .ofUnary (.ofPrimary (.name (by decide)))
  have hq : Formula.Derives .conjunction [Token.ofText "q"] (.atom "q") :=
    .ofUnary (.ofPrimary (.name (by decide)))
  have hr : Formula.Derives .implication [Token.ofText "r"] (.atom "r") :=
    .ofDisjunction (.ofConjunction (.ofUnary (.ofPrimary (.name (by decide)))))
  have hor := Formula.Derives.ofDisjunction (.disjunction (.ofConjunction hp) hq)
  have hrun : Evaluation.runFrom .scalars values [] [Token.ofText "p"] = .ok [some true] := rfl
  refine ⟨hcode, ?_, hvalue .scalars values (some true) [] hrun, ?_, ?_⟩
  · rw [hleft]
    exact hrun
  · exact hrejected "∧(∼ ∼p)" [.conjunction, .opening] [Token.ofText "p", .closing]
      (by decide) (by decide)
  · exact ⟨_, hjoined .implies _ _ _ _ hor (.group hr) 2 "p ∨ q → ∼∼ ∼(r)" (by decide), rfl⟩

end TruthTables
