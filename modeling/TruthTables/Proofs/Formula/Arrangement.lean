import TruthTables.Formula

namespace TruthTables.Formula

/-- What is due next: an operand, an operand without a negation, or a connective. -/
inductive Place where
  | operand
  | negated
  | connective
  deriving DecidableEq, Repr

/-- A sequence that completes an infix formula, where the given number of brackets is open. -/
inductive Arranged : Place → Nat → List Token → Prop where
  | done : Arranged .connective 0 []
  | name {place : Place} {d : Nat} {name : String} {ts : List Token} (hplace : place ≠ .connective)
      (hname : isIdentifier name = true) (hts : Arranged .connective d ts) :
      Arranged place d (Token.ofText name :: ts)
  | opening {place : Place} {d : Nat} {ts : List Token} (hplace : place ≠ .connective)
      (hts : Arranged .operand (d + 1) ts) : Arranged place d (.opening :: ts)
  | closing {d : Nat} {ts : List Token} (hts : Arranged .connective d ts) :
      Arranged .connective (d + 1) (.closing :: ts)
  | negation {d : Nat} {ts : List Token} (hts : Arranged .negated d ts) :
      Arranged .operand d (.negation :: ts)
  | join {d : Nat} {ts : List Token} (c : Connective) (hts : Arranged .operand d ts) :
      Arranged .connective d (c.token :: ts)

theorem Derives.exists_implication {vs : List Token}
    (hvs : ∀ {ts : List Token} {f : Formula}, Derives .disjunction ts f →
      ∃ f', Derives .disjunction (ts ++ vs) f')
    {ts : List Token} {f : Formula} (h : Derives .implication ts f) :
    ∃ f', Derives .implication (ts ++ vs) f' := by
  cases h with
  | ofDisjunction hf =>
      obtain ⟨f', hf'⟩ := hvs hf
      exact ⟨f', .ofDisjunction hf'⟩
  | implication hleft hright =>
      obtain ⟨f', hf'⟩ := hvs hright
      have hextended := Derives.implication hleft hf'
      rw [← List.cons_append, ← List.append_assoc] at hextended
      exact ⟨_, hextended⟩

section Extension

variable {us : List Token} {g : Formula} (hg : Derives .unary us g)

include hg

theorem Derives.exists_disjunction_and {ts : List Token} {f : Formula}
    (h : Derives .disjunction ts f) :
    ∃ f', Derives .disjunction (ts ++ .conjunction :: us) f' := by
  cases h with
  | ofConjunction hf => exact ⟨_, .ofConjunction (.conjunction hf hg)⟩
  | disjunction hleft hright =>
      have hextended := Derives.disjunction hleft (.conjunction hright hg)
      rw [← List.cons_append, ← List.append_assoc] at hextended
      exact ⟨_, hextended⟩

theorem Derives.exists_disjunction_or {ts : List Token} {f : Formula}
    (h : Derives .disjunction ts f) :
    ∃ f', Derives .disjunction (ts ++ .disjunction :: us) f' :=
  ⟨_, .disjunction h (.ofUnary hg)⟩

theorem Derives.exists_join (c : Connective) {ts : List Token} {f : Formula}
    (h : Derives .implication ts f) : ∃ f', Derives .implication (ts ++ c.token :: us) f' := by
  cases c with
  | and => exact h.exists_implication hg.exists_disjunction_and
  | or => exact h.exists_implication hg.exists_disjunction_or
  | implies => exact ⟨_, .implication h (.ofConjunction (.ofUnary hg))⟩

end Extension

/-- Behind every formula the sequence makes a longer formula. -/
def Extends (ts : List Token) : Prop :=
  ∀ us f, Derives .implication us f → ∃ f', Derives .implication (us ++ ts) f'

/-- Behind a formula the sequence completes one group for each open bracket, the innermost first. -/
def Completes : Nat → List Token → Prop
  | 0, ts => Extends ts
  | d + 1, ts => ∃ us vs, ts = us ++ .closing :: vs ∧ Extends us ∧ Completes d vs

/-- The sequence begins with a derivation and goes on as behind a formula. -/
def Begins (rank : Rank) (d : Nat) (ts : List Token) : Prop :=
  ∃ us vs f, ts = us ++ vs ∧ Derives rank us f ∧ Completes d vs

theorem extends_nil : Extends [] :=
  fun us f h => ⟨f, by rwa [List.append_nil]⟩

theorem Extends.join (c : Connective) {us vs : List Token} {g : Formula}
    (hg : Derives .unary us g) (hvs : Extends vs) : Extends (c.token :: us ++ vs) := by
  intro ts f hf
  obtain ⟨f', hf'⟩ := hg.exists_join c hf
  rw [← List.append_assoc]
  exact hvs _ f' hf'

theorem Completes.join (c : Connective) {d : Nat} {us vs : List Token} {g : Formula}
    (hg : Derives .unary us g) (hvs : Completes d vs) : Completes d (c.token :: us ++ vs) := by
  cases d with
  | zero => exact Extends.join c hg hvs
  | succ d =>
      obtain ⟨ws, rest, rfl, hws, hrest⟩ := hvs
      exact ⟨c.token :: us ++ ws, rest, (List.append_assoc ..).symm, hws.join c hg, hrest⟩

theorem Begins.group {d : Nat} {ts : List Token} (h : Begins .unary (d + 1) ts) :
    Begins .primary d (.opening :: ts) := by
  obtain ⟨us, _, f, rfl, hf, vs, rest, rfl, hvs, hrest⟩ := h
  obtain ⟨g, hg⟩ := hvs us f (.ofDisjunction (.ofConjunction (.ofUnary hf)))
  exact ⟨.opening :: (us ++ vs) ++ [.closing], rest, g, by simp, .group hg, hrest⟩

/-- What a sequence is that has come to a place. -/
def Place.Splits : Place → Nat → List Token → Prop
  | operand, d, ts => Begins .unary d ts
  | negated, d, ts => Begins .primary d ts
  | connective, d, ts => Completes d ts

theorem Begins.splits {place : Place} (hplace : place ≠ .connective) {d : Nat} {ts : List Token}
    (h : Begins .primary d ts) : place.Splits d ts := by
  cases place with
  | operand =>
      obtain ⟨us, vs, f, hts, hf, hvs⟩ := h
      exact ⟨us, vs, f, hts, .ofPrimary hf, hvs⟩
  | negated => exact h
  | connective => contradiction

theorem Arranged.splits {place : Place} {d : Nat} {ts : List Token} (h : Arranged place d ts) :
    place.Splits d ts := by
  induction h with
  | done => exact extends_nil
  | name hplace hname _ ih => exact Begins.splits hplace ⟨[_], _, _, rfl, .name hname, ih⟩
  | opening hplace _ ih => exact (Begins.group ih).splits hplace
  | closing _ ih => exact ⟨[], _, rfl, extends_nil, ih⟩
  | negation _ ih =>
      obtain ⟨us, vs, f, rfl, hf, hvs⟩ := ih
      exact ⟨.negation :: us, vs, f.not, rfl, .negation hf, hvs⟩
  | join c _ ih =>
      obtain ⟨us, vs, f, rfl, hf, hvs⟩ := ih
      exact hvs.join c hf

theorem Arranged.exists_derives {ts : List Token} (h : Arranged .operand 0 ts) :
    ∃ f, Derives .implication ts f := by
  obtain ⟨us, vs, f, rfl, hf, hvs⟩ := h.splits
  exact hvs us f (.ofDisjunction (.ofConjunction (.ofUnary hf)))

end TruthTables.Formula
