import TruthTables.Postfix

namespace TruthTables.Postfix

inductive Reads : List Token → Token → List Token → List Token → Prop where
  | opening {stack : List Token} {t : Token} (ht : opens t = true) : Reads stack t [] (t :: stack)
  | closing {top rest : List Token} {w t : Token} (ht : closes t = true)
      (htop : ∀ v ∈ top, isBarrier v = false) (hw : isBarrier w = true) :
      Reads (top ++ w :: rest) t top rest
  /-- Without a group to end, all that waits is let go. -/
  | surplus {stack : List Token} {t : Token} (ht : closes t = true)
      (hstack : ∀ v ∈ stack, isBarrier v = false) : Reads stack t stack []
  | operator {top rest : List Token} {t : Token} (ht : t.kind = .operator)
      (htop : ∀ v ∈ top, givesWay v t = true) (hrest : ∀ w ∈ rest.head?, givesWay w t = false) :
      Reads (top ++ rest) t top (t :: rest)
  | other {stack : List Token} {t : Token} (hopens : opens t = false) (hcloses : closes t = false)
      (hkind : t.kind ≠ .operator) : Reads stack t [t] stack

theorem opens_of_closes {t : Token} (h : closes t = true) : opens t = false := by
  simp only [closes, Bool.and_eq_true, beq_iff_eq] at h
  simp [opens, h.2]

theorem closes_of_opens {t : Token} (h : opens t = true) : closes t = false := by
  rw [Bool.eq_false_iff]
  intro hcloses
  rw [opens_of_closes hcloses] at h
  contradiction

theorem opens_of_operator {t : Token} (h : t.kind = .operator) : opens t = false := by
  simp [opens, h]

theorem closes_of_operator {t : Token} (h : t.kind = .operator) : closes t = false := by
  simp [closes, h]

theorem isBarrier_of_givesWay {w t : Token} (h : givesWay w t = true) : isBarrier w = false := by
  simp only [givesWay, Bool.and_eq_true, Bool.not_eq_true'] at h
  exact h.1

theorem takeWhile_append_of_head {p : Token → Bool} {top rest : List Token}
    (htop : ∀ v ∈ top, p v = true) (hrest : ∀ w ∈ rest.head?, p w = false) :
    (top ++ rest).takeWhile p = top ∧ (top ++ rest).dropWhile p = rest := by
  rw [List.takeWhile_append_of_pos htop, List.dropWhile_append_of_pos htop]
  cases rest with
  | nil => simp
  | cons w rest => simp [hrest w rfl]

theorem exists_takeWhile_append (p : Token → Bool) (stack : List Token) :
    ∃ top rest, stack = top ++ rest ∧ (∀ v ∈ top, p v = true) ∧
      ∀ w ∈ rest.head?, p w = false := by
  refine ⟨stack.takeWhile p, stack.dropWhile p, List.takeWhile_append_dropWhile.symm,
    List.all_eq_true.mp List.all_takeWhile, fun w hw => ?_⟩
  have hnot := List.head?_dropWhile_not p stack
  rw [Option.mem_def.mp hw] at hnot
  exact hnot

theorem Reads.eq {stack out next : List Token} {t : Token} (h : Reads stack t out next) :
    released stack t = out ∧ absorb stack t = next := by
  cases h with
  | opening ht => simp [released, absorb, ht]
  | @closing _ _ w _ ht htop hw =>
      have hall : ∀ v ∈ out, (!isBarrier v) = true := fun v hv => by simp [htop v hv]
      have hhead : ∀ v ∈ (w :: next).head?, (!isBarrier v) = false := by simp [hw]
      obtain ⟨htake, hdrop⟩ := takeWhile_append_of_head hall hhead
      simp [released, absorb, opens_of_closes ht, ht, htake, hdrop]
  | surplus ht hstack =>
      have hall : ∀ v ∈ stack, (!isBarrier v) = true := fun v hv => by simp [hstack v hv]
      have hhead : ∀ v ∈ ([] : List Token).head?, (!isBarrier v) = false := by simp
      obtain ⟨htake, hdrop⟩ := takeWhile_append_of_head hall hhead
      rw [List.append_nil] at htake hdrop
      simp [released, absorb, opens_of_closes ht, ht, htake, hdrop]
  | operator ht htop hrest =>
      obtain ⟨htake, hdrop⟩ := takeWhile_append_of_head (p := fun v => givesWay v t) htop hrest
      simp [released, absorb, opens_of_operator ht, closes_of_operator ht, ht, htake, hdrop]
  | other hopens hcloses hkind => simp [released, absorb, hopens, hcloses, hkind]

theorem exists_reads (stack : List Token) (t : Token) : ∃ out next, Reads stack t out next := by
  cases hopens : opens t with
  | true => exact ⟨_, _, .opening hopens⟩
  | false =>
      cases hcloses : closes t with
      | true =>
          obtain ⟨top, rest, rfl, htop, hrest⟩ :=
            exists_takeWhile_append (fun v => !isBarrier v) stack
          simp only [Bool.not_eq_true'] at htop
          cases rest with
          | nil => exact ⟨_, _, .surplus hcloses (by simpa using htop)⟩
          | cons w rest => exact ⟨_, _, .closing hcloses htop (by simpa using hrest)⟩
      | false =>
          by_cases hkind : t.kind = .operator
          · obtain ⟨top, rest, rfl, htop, hrest⟩ :=
              exists_takeWhile_append (fun v => givesWay v t) stack
            exact ⟨_, _, .operator hkind htop hrest⟩
          · exact ⟨_, _, .other hopens hcloses hkind⟩

theorem reads (stack : List Token) (t : Token) :
    Reads stack t (released stack t) (absorb stack t) := by
  obtain ⟨out, next, h⟩ := exists_reads stack t
  obtain ⟨hout, hnext⟩ := h.eq
  rw [hout, hnext]
  exact h

end TruthTables.Postfix
