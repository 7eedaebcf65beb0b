import TruthTables.Postfix

/-!
Brackets, apart from what stands between them. A closing bracket closes the latest open one; `depth`
counts the brackets that are still open, and `surplus` the closing ones that find none open. Where
nothing is open at first, the brackets that are still open are those that no later one closes.
-/

namespace TruthTables

inductive Bracket where
  | opening
  | closing
  deriving DecidableEq, Repr

namespace Bracket

def ofChar? (c : Char) : Option Bracket :=
  if c = '(' then some .opening else if c = ')' then some .closing else none

def ofToken? (t : Token) : Option Bracket :=
  if Postfix.opens t then some .opening else if Postfix.closes t then some .closing else none

inductive Balanced : List Bracket → Prop where
  | nil : Balanced []
  | group {bs cs : List Bracket} (hbs : Balanced bs) (hcs : Balanced cs) :
      Balanced (opening :: bs ++ closing :: cs)

/-- Every opening bracket is closed by a later one. -/
def AllClosed (bs : List Bracket) : Prop :=
  ∀ as cs, bs = as ++ opening :: cs → ∃ ds es, cs = ds ++ closing :: es ∧ Balanced ds

/-- Every closing bracket closes an earlier one. -/
def AllOpened (bs : List Bracket) : Prop :=
  ∀ as cs, bs = as ++ closing :: cs → ∃ ds es, as = ds ++ opening :: es ∧ Balanced es

/-- Where nothing is open a closing bracket changes nothing. -/
def step (d : Nat) : Bracket → Nat
  | opening => d + 1
  | closing => d - 1

def depth (d : Nat) (bs : List Bracket) : Nat :=
  bs.foldl step d

theorem depth_append (d : Nat) (bs cs : List Bracket) :
    depth d (bs ++ cs) = depth (depth d bs) cs := by
  simp [depth]

/-- The number of closing brackets that close nothing, where `d` brackets are open before. -/
def surplus : Nat → List Bracket → Nat
  | _, [] => 0
  | d, opening :: bs => surplus (d + 1) bs
  | 0, closing :: bs => surplus 0 bs + 1
  | d + 1, closing :: bs => surplus d bs

theorem surplus_append (d : Nat) (bs cs : List Bracket) :
    surplus d (bs ++ cs) = surplus d bs + surplus (depth d bs) cs := by
  induction bs generalizing d with
  | nil => simp [surplus, depth]
  | cons b bs ih =>
      cases b with
      | opening => exact ih (d + 1)
      | closing =>
          cases d with
          | zero =>
              have hrest := ih 0
              change surplus 0 (bs ++ cs) + 1 = surplus 0 bs + 1 + surplus (depth 0 bs) cs
              omega
          | succ d => exact ih d

theorem Balanced.depth_eq {bs : List Bracket} (h : Balanced bs) (d : Nat) : depth d bs = d := by
  induction h generalizing d with
  | nil => rfl
  | group _ _ ihbs ihcs =>
      rw [depth_append]
      change depth (step (depth (d + 1) _) closing) _ = d
      rw [ihbs, ihcs]
      rfl

theorem Balanced.surplus_eq_zero {bs : List Bracket} (h : Balanced bs) (d : Nat) :
    surplus d bs = 0 := by
  induction h generalizing d with
  | nil => rfl
  | @group bs cs hbs hcs ihbs ihcs =>
      calc
        surplus d (opening :: bs ++ closing :: cs) = surplus (d + 1) (bs ++ closing :: cs) := rfl
        _ = surplus (d + 1) bs + surplus (d + 1) (closing :: cs) := by
          rw [surplus_append, hbs.depth_eq]
        _ = surplus d cs := by
          rw [ihbs, Nat.zero_add]
          rfl
        _ = 0 := ihcs d

theorem Balanced.append {bs cs : List Bracket} (hbs : Balanced bs) (hcs : Balanced cs) :
    Balanced (bs ++ cs) := by
  induction hbs with
  | nil => exact hcs
  | group hbs _ _ ihcs =>
      rw [List.append_assoc, List.cons_append]
      exact .group hbs ihcs

theorem exists_opening {bs : List Bracket} (h : 0 < depth 0 bs) :
    ∃ ds es, bs = ds ++ opening :: es ∧ Balanced es := by
  induction hlength : bs.length using Nat.strongRecOn generalizing bs with
  | ind length ih =>
      rcases List.eq_nil_or_concat bs with rfl | ⟨rest, b, rfl⟩
      · contradiction
      rw [List.concat_eq_append] at h hlength ⊢
      cases b with
      | opening => exact ⟨rest, [], rfl, .nil⟩
      | closing =>
          -- The group that closes last lies behind the open bracket.
          rw [List.length_append, List.length_singleton] at hlength
          rw [depth_append] at h
          change 0 < depth 0 rest - 1 at h
          obtain ⟨ds, es, rfl, hes⟩ := ih _ (by omega) (Nat.lt_of_lt_of_le h (Nat.sub_le _ _)) rfl
          have hds : 0 < depth 0 ds := by
            rw [depth_append] at h
            change 0 < depth (depth 0 ds + 1) es - 1 at h
            rw [hes.depth_eq] at h
            exact h
          rw [List.length_append, List.length_cons] at hlength
          obtain ⟨ds', es', rfl, hes'⟩ := ih _ (by omega) hds rfl
          exact ⟨ds', es' ++ (opening :: es ++ [closing]), by simp, hes'.append (.group hes .nil)⟩

theorem exists_closing {d : Nat} {bs : List Bracket} (h : depth (d + 1) bs ≤ d) :
    ∃ ds es, bs = ds ++ closing :: es ∧ Balanced ds := by
  induction hlength : bs.length using Nat.strongRecOn generalizing bs d with
  | ind length ih =>
      rcases bs with _ | ⟨_ | _, rest⟩
      · change d + 1 ≤ d at h
        omega
      · -- The group that opens here comes to its end first.
        rw [List.length_cons] at hlength
        have hinner : depth (d + 1 + 1) rest ≤ d + 1 := Nat.le_succ_of_le h
        obtain ⟨ds, es, rfl, hds⟩ := ih _ (by omega) hinner rfl
        have hrest : depth (d + 1) es ≤ d := by
          change depth (d + 1 + 1) (ds ++ closing :: es) ≤ d at h
          rw [depth_append, hds.depth_eq] at h
          exact h
        rw [List.length_append, List.length_cons] at hlength
        obtain ⟨ds', es', rfl, hds'⟩ := ih _ (by omega) hrest rfl
        exact ⟨opening :: ds ++ closing :: ds', es', by simp, .group hds hds'⟩
      · exact ⟨[], rest, rfl, .nil⟩

theorem allClosed_of_depth_eq_zero {bs : List Bracket} (h : depth 0 bs = 0) : AllClosed bs := by
  rintro as cs rfl
  rw [depth_append] at h
  apply exists_closing (d := depth 0 as)
  change depth (depth 0 as + 1) cs = 0 at h
  omega

/-- What comes behind an opening bracket closes it. -/
def ClosedIn (cs : List Bracket) : Prop :=
  ∃ ds es, cs = ds ++ closing :: es ∧ Balanced ds

theorem surplus_eq_sub (d : Nat) (bs : List Bracket) : surplus d bs = surplus 0 bs - d := by
  induction bs generalizing d with
  | nil => cases d <;> simp [surplus]
  | cons b bs ih =>
      cases b with
      | opening =>
          change surplus (d + 1) bs = surplus 1 bs - d
          rw [ih (d + 1), ih 1]
          omega
      | closing =>
          cases d with
          | zero => rfl
          | succ d =>
              change surplus d bs = surplus 0 bs + 1 - (d + 1)
              rw [ih d]
              omega

theorem exists_depth_eq_zero {d : Nat} {bs : List Bracket} (h : 0 < surplus d bs) :
    ∃ as cs, bs = as ++ cs ∧ depth (d + 1) as = 0 := by
  induction bs generalizing d with
  | nil => cases d <;> contradiction
  | cons b bs ih =>
      cases b with
      | opening =>
          obtain ⟨as, cs, rfl, has⟩ := ih (d := d + 1) h
          exact ⟨opening :: as, cs, rfl, has⟩
      | closing =>
          cases d with
          | zero => exact ⟨[closing], bs, rfl, rfl⟩
          | succ d =>
              obtain ⟨as, cs, rfl, has⟩ := ih (d := d) h
              exact ⟨closing :: as, cs, rfl, has⟩

theorem closedIn_iff {cs : List Bracket} : ClosedIn cs ↔ 0 < surplus 0 cs := by
  constructor
  · rintro ⟨ds, es, rfl, hds⟩
    rw [surplus_append, hds.depth_eq]
    exact Nat.lt_of_lt_of_le (Nat.succ_pos (surplus 0 es)) (Nat.le_add_left _ _)
  · intro h
    obtain ⟨as, bs, rfl, has⟩ := exists_depth_eq_zero h
    obtain ⟨ds, es, rfl, hds⟩ := exists_closing (Nat.le_of_eq has)
    exact ⟨ds, es ++ bs, by simp, hds⟩

instance : DecidablePred ClosedIn :=
  fun _ => decidable_of_iff _ closedIn_iff.symm

/-- The number of the opening brackets that no later one closes. -/
def unclosed : List Bracket → Nat
  | [] => 0
  | opening :: bs => (if ClosedIn bs then 0 else 1) + unclosed bs
  | closing :: bs => unclosed bs

theorem depth_eq_add_unclosed (d : Nat) (bs : List Bracket) :
    depth d bs = d - surplus 0 bs + unclosed bs := by
  induction bs generalizing d with
  | nil => rfl
  | cons b bs ih =>
      cases b with
      | opening =>
          have hsurplus : surplus 0 (opening :: bs) = surplus 0 bs - 1 := surplus_eq_sub 1 bs
          change depth (d + 1) bs = _
          rw [ih, hsurplus, unclosed]
          by_cases hclosed : ClosedIn bs
          · rw [if_pos hclosed]
            have hpos := closedIn_iff.mp hclosed
            omega
          · rw [if_neg hclosed]
            rw [closedIn_iff] at hclosed
            omega
      | closing =>
          change depth (d - 1) bs = d - (surplus 0 bs + 1) + unclosed bs
          rw [ih]
          omega

theorem depth_zero_eq_unclosed (bs : List Bracket) : depth 0 bs = unclosed bs := by
  rw [depth_eq_add_unclosed, Nat.zero_sub, Nat.zero_add]

theorem AllOpened.depth_pos {bs as cs : List Bracket} (h : AllOpened bs)
    (hbs : bs = as ++ closing :: cs) : 0 < depth 0 as := by
  obtain ⟨ds, es, rfl, hes⟩ := h as cs hbs
  rw [depth_append]
  change 0 < depth (depth 0 ds + 1) es
  rw [hes.depth_eq]
  omega

theorem AllOpened.surplus_eq_zero {bs : List Bracket} (h : AllOpened bs) : surplus 0 bs = 0 := by
  -- What was read before stays in sight: it holds the brackets that are closed later.
  suffices hrest : ∀ as cs, bs = as ++ cs → surplus (depth 0 as) cs = 0 from hrest [] bs rfl
  intro as cs hsplit
  induction cs generalizing as with
  | nil => cases depth 0 as <;> rfl
  | cons b cs ih =>
      have hnext := ih (as ++ [b]) (by simp [hsplit])
      rw [depth_append] at hnext
      cases b with
      | opening => exact hnext
      | closing =>
          have hopen := h.depth_pos hsplit
          cases hdepth : depth 0 as with
          | zero => omega
          | succ d =>
              rw [hdepth] at hnext
              exact hnext

theorem allOpened_of_surplus_eq_zero {bs : List Bracket} (h : surplus 0 bs = 0) :
    AllOpened bs := by
  rintro as cs rfl
  rw [surplus_append, Nat.add_eq_zero_iff] at h
  apply exists_opening
  cases hdepth : depth 0 as with
  | zero =>
      rw [hdepth] at h
      exact absurd h.2 (Nat.succ_ne_zero _)
  | succ d => exact Nat.succ_pos d

theorem allOpened_iff {bs : List Bracket} : AllOpened bs ↔ surplus 0 bs = 0 :=
  ⟨AllOpened.surplus_eq_zero, allOpened_of_surplus_eq_zero⟩

instance : DecidablePred AllOpened :=
  fun _ => decidable_of_iff _ allOpened_iff.symm

end Bracket

end TruthTables
