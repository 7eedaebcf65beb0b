import Mathlib.Data.List.Chain
import TruthTables.Proofs.Formula.Arrangement
import TruthTables.Proofs.Postfix.Conservation

/-!
Operands side by side. An infix formula has none. In a sequence that has none either, and has as
many operands as its connectives need, everything stands where an infix formula has it.
-/

namespace TruthTables

def startsOperand (t : Token) : Bool :=
  Postfix.opens t || t.kind == .operand || t == .negation

def endsOperand (t : Token) : Bool :=
  Postfix.closes t || t.kind == .operand

/-- No operand begins where another one has just ended. -/
def Separated (ts : List Token) : Prop :=
  ts.IsChain fun t u => ¬(endsOperand t = true ∧ startsOperand u = true)

instance (ts : List Token) : Decidable (Separated ts) :=
  inferInstanceAs (Decidable (ts.IsChain _))

theorem Separated.cons {t : Token} {ts : List Token} (ht : endsOperand t = false)
    (hts : Separated ts) : Separated (t :: ts) :=
  List.isChain_cons.mpr ⟨fun _ _ h => by simp [ht] at h, hts⟩

theorem Separated.append {t : Token} {as bs : List Token} (ht : startsOperand t = false)
    (has : Separated as) (hbs : Separated (t :: bs)) : Separated (as ++ t :: bs) := by
  refine List.isChain_append.mpr ⟨has, hbs, fun u _ v hv h => ?_⟩
  obtain rfl : t = v := by simpa using hv
  simp [ht] at h

namespace Formula

theorem Derives.separated {rank : Rank} {ts : List Token} {f : Formula} (h : Derives rank ts f) :
    Separated ts := by
  have hjoin {c : Connective} {as bs : List Token} (has : Separated as) (hbs : Separated bs) :
      Separated (as ++ c.token :: bs) :=
    has.append (by cases c <;> rfl) (hbs.cons (by cases c <;> rfl))
  induction h with
  | name _ => exact List.isChain_singleton _
  | group _ ih => exact (ih.append (t := .closing) rfl (List.isChain_singleton _)).cons rfl
  | ofPrimary _ ih => exact ih
  | negation _ ih => exact ih.cons rfl
  | ofUnary _ ih => exact ih
  | conjunction _ _ ihf ihg => exact hjoin (c := .and) ihf ihg
  | ofConjunction _ ih => exact ih
  | disjunction _ _ ihf ihg => exact hjoin (c := .or) ihf ihg
  | ofDisjunction _ ih => exact ih
  | implication _ _ ihf ihg => exact hjoin (c := .implies) ihf ihg

namespace Place

/-- What is due behind a token, whatever came before it. -/
def after (t : Token) : Place :=
  if endsOperand t then connective else if t = .negation then negated else operand

/-- The token stands beside no operand that has just ended, and negates no negation. -/
def Admits : Place → Token → Prop
  | operand, _ => True
  | negated, t => t ≠ .negation
  | connective, t => startsOperand t = false

/-- How many operands stand ready for the next connective. -/
def ready : Place → Nat
  | operand => 0
  | negated => 0
  | connective => 1

theorem ne_connective_of_admits {place : Place} {t : Token} (h : place.Admits t)
    (ht : startsOperand t = true) : place ≠ .connective := by
  rintro rfl
  rw [Admits, ht] at h
  contradiction

theorem ready_of_ne_connective {place : Place} (h : place ≠ .connective) : place.ready = 0 := by
  cases place with
  | operand => rfl
  | negated => rfl
  | connective => contradiction

end Place

theorem Place.read_cases {t : Token} (ht : t.FromText)
    (hname : t.kind = .operand → isIdentifier t.name = true) {place : Place}
    (hadmits : place.Admits t) {d : Nat}
    (hsurplus : Bracket.surplus d (Bracket.ofToken? t).toList = 0) :
    (operands [t]).length + place.ready < joins [t] + (after t).ready ∨
      (operands [t]).length + place.ready = joins [t] + (after t).ready ∧
        ∀ ts, Arranged (after t) (Bracket.depth d (Bracket.ofToken? t).toList) ts →
          Arranged place d (t :: ts) := by
  rcases ht.cases with rfl | rfl | rfl | ⟨c, rfl⟩ | hoperand
  · have hplace := ne_connective_of_admits hadmits rfl
    refine .inr ⟨?_, fun ts hts => .opening hplace hts⟩
    rw [ready_of_ne_connective hplace]
    rfl
  · -- Where an operand is due, the group is empty or its last connective lacks one.
    cases place with
    | operand => exact .inl Nat.zero_lt_one
    | negated => exact .inl Nat.zero_lt_one
    | connective =>
        cases d with
        | zero => contradiction
        | succ d => exact .inr ⟨rfl, fun ts hts => .closing hts⟩
  · cases place with
    | operand => exact .inr ⟨rfl, fun ts hts => .negation hts⟩
    | negated => contradiction
    | connective => contradiction
  · have hjoins : joins [c.token] = 1 := by cases c <;> rfl
    have hoperands : operands [c.token] = [] := by cases c <;> rfl
    have hafter : after c.token = .operand := by cases c <;> rfl
    have hbracket : Bracket.ofToken? c.token = none := by cases c <;> rfl
    rw [hjoins, hoperands, hafter, hbracket]
    cases place with
    | operand => exact .inl Nat.zero_lt_one
    | negated => exact .inl Nat.zero_lt_one
    | connective => exact .inr ⟨rfl, fun ts hts => .join c hts⟩
  · obtain ⟨name, rfl⟩ : ∃ name, t = Token.operand name := ⟨_, hoperand⟩
    have hplace := ne_connective_of_admits hadmits rfl
    refine .inr ⟨?_, fun ts hts => ?_⟩
    · rw [ready_of_ne_connective hplace]
      rfl
    · rw [← ht]
      exact .name hplace (hname rfl) hts

theorem lt_joins_or_arranged {ts : List Token}
    (hts : ∀ t ∈ ts, t.FromText ∧ (t.kind = .operand → isIdentifier t.name = true))
    (hchain : ts.IsChain fun t u => (Place.after t).Admits u) {place : Place}
    (hadmits : ∀ t ∈ ts.head?, place.Admits t) {d : Nat}
    (hdepth : Bracket.depth d (ts.filterMap Bracket.ofToken?) = 0)
    (hsurplus : Bracket.surplus d (ts.filterMap Bracket.ofToken?) = 0) :
    (operands ts).length + place.ready < joins ts + 1 ∨
      (operands ts).length + place.ready = joins ts + 1 ∧ Arranged place d ts := by
  -- A sequence that is not in order has too few operands for its connectives.
  induction ts generalizing place d with
  | nil =>
      change d = 0 at hdepth
      subst hdepth
      cases place with
      | operand => exact .inl Nat.zero_lt_one
      | negated => exact .inl Nat.zero_lt_one
      | connective => exact .inr ⟨rfl, .done⟩
  | cons t ts ih =>
      rw [List.forall_mem_cons] at hts
      rw [List.isChain_cons] at hchain
      rw [Postfix.filterMap_ofToken?_cons] at hdepth hsurplus
      rw [Bracket.depth_append] at hdepth
      rw [Bracket.surplus_append, Nat.add_eq_zero_iff] at hsurplus
      have hread := Place.read_cases hts.1.1 hts.1.2 (hadmits t rfl) hsurplus.1
      have hrest := ih hts.2 hchain.2 hchain.1 hdepth hsurplus.2
      have hoperands : (operands (t :: ts)).length =
          (operands [t]).length + (operands ts).length := by
        rw [← List.length_append, ← operands_append]
        rfl
      have hjoins : joins (t :: ts) = joins [t] + joins ts := joins_append [t] ts
      -- Nothing that follows a token out of place brings the missing operand back.
      rcases hread with hlt | ⟨heq, harranged⟩
      · left
        omega
      · rcases hrest with hlt' | ⟨heq', hts'⟩
        · left
          omega
        · exact .inr ⟨by omega, harranged ts hts'⟩

theorem isChain_admits {ts : List Token} (hseparated : Separated ts)
    (hnegation : ¬[.negation, .negation] <:+: ts) :
    ts.IsChain fun t u => (Place.after t).Admits u := by
  rw [Separated, List.isChain_iff_forall_rel_of_append_cons_cons] at hseparated
  rw [List.isChain_iff_forall_rel_of_append_cons_cons]
  intro t u as bs hsplit
  have hapart := hseparated hsplit
  unfold Place.after
  split
  · rename_i hends
    simpa [hends, Place.Admits] using hapart
  split
  · rename_i htoken
    rintro rfl
    exact hnegation ⟨as, bs, by simp [hsplit, htoken]⟩
  · trivial

/-- Brackets that match and as many operands as the connectives need: without operands side by side
and without a negated negation the sequence is an infix formula. -/
theorem exists_derives_of_separated {ts : List Token}
    (hts : ∀ t ∈ ts, t.FromText ∧ (t.kind = .operand → isIdentifier t.name = true))
    (hseparated : Separated ts) (hnegation : ¬[.negation, .negation] <:+: ts)
    (hdepth : Bracket.depth 0 (ts.filterMap Bracket.ofToken?) = 0)
    (hsurplus : Bracket.surplus 0 (ts.filterMap Bracket.ofToken?) = 0)
    (hcount : (operands ts).length = joins ts + 1) : ∃ f, Derives .implication ts f := by
  have hadmits : ∀ t ∈ ts.head?, Place.operand.Admits t := fun _ _ => trivial
  rcases lt_joins_or_arranged hts (isChain_admits hseparated hnegation) hadmits hdepth hsurplus with
    hlt | ⟨-, harranged⟩
  · have hlt : (operands ts).length < joins ts + 1 := hlt
    omega
  · exact harranged.exists_derives

end Formula

end TruthTables
