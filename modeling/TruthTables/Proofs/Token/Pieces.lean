import Mathlib.Data.List.Basic
import TruthTables.Proofs.Brackets
import TruthTables.Token

namespace TruthTables

theorem isBlank_of_isSign {c : Char} (h : isSign c = true) : isBlank c = false := by
  simp only [isSign, Bool.or_eq_true, beq_iff_eq] at h
  rcases h with ((((rfl | rfl) | rfl) | rfl) | rfl) | rfl <;> decide

theorem toNat_of_isPart {c : Char} (h : Identifier.isPart c = true) :
    c.toNat = 0x5F ∨ (0x30 ≤ c.toNat ∧ c.toNat ≤ 0x39) ∨
      (0x41 ≤ c.toNat ∧ c.toNat ≤ 0x5A) ∨ (0x61 ≤ c.toNat ∧ c.toNat ≤ 0x7A) := by
  simp only [Identifier.isPart, Char.isAlphanum, Bool.or_eq_true, beq_iff_eq] at h
  rcases h with (halpha | hdigit) | rfl
  · have hcase : c.isUpper = true ∨ c.isLower = true := (Bool.or_eq_true _ _).mp halpha
    rcases hcase with hupper | hlower
    · have hrange : 'A'.val ≤ c.val ∧ c.val ≤ 'Z'.val := of_decide_eq_true hupper
      exact .inr (.inr (.inl hrange))
    · have hrange : decide (c.val ≥ 'a'.val) = true ∧ decide (c.val ≤ 'z'.val) = true :=
        (Bool.and_eq_true _ _).mp hlower
      exact .inr (.inr (.inr (hrange.imp of_decide_eq_true of_decide_eq_true)))
  · have hrange : decide (c.val ≥ '0'.val) = true ∧ decide (c.val ≤ '9'.val) = true :=
      (Bool.and_eq_true _ _).mp hdigit
    exact .inr (.inl (hrange.imp of_decide_eq_true of_decide_eq_true))
  · exact .inl rfl

theorem isWordChar_of_isPart {c : Char} (h : Identifier.isPart c = true) :
    isWordChar c = true := by
  have hrange := toNat_of_isPart h
  have hsign : isSign c = false := by
    rw [Bool.eq_false_iff]
    intro hsign
    simp only [isSign, Bool.or_eq_true, beq_iff_eq] at hsign
    rcases hsign with ((((rfl | rfl) | rfl) | rfl) | rfl) | rfl <;> revert hrange <;> decide
  have hblank : isBlank c = false := by
    simp only [isBlank, Bool.or_eq_false_iff, Bool.and_eq_false_iff, decide_eq_false_iff_not,
      beq_eq_false_iff_ne]
    omega
  simp [isWordChar, hsign, hblank]

theorem isWordChar_iff {c : Char} :
    isWordChar c = true ↔ isSign c = false ∧ isBlank c = false := by
  simp [isWordChar]

theorem isSign_or_isBlank_or_isWordChar (c : Char) :
    isSign c = true ∨ isBlank c = true ∨ isWordChar c = true := by
  unfold isWordChar
  cases isSign c <;> cases isBlank c <;> simp

theorem pieces_sign {c : Char} (hc : isSign c = true) (cs : List Char) :
    pieces (c :: cs) = [c] :: pieces cs := by
  rw [pieces, if_pos hc]

theorem pieces_blank {c : Char} (hc : isBlank c = true) (cs : List Char) :
    pieces (c :: cs) = pieces cs := by
  have hs : ¬isSign c = true := by
    intro hs
    rw [isBlank_of_isSign hs] at hc
    contradiction
  rw [pieces, if_neg hs, if_pos hc]

theorem pieces_joined {c d : Char} (hc : isWordChar c = true) (hd : isWordChar d = true)
    (cs : List Char) : pieces (c :: d :: cs) = extendFirst c (pieces (d :: cs)) := by
  obtain ⟨hs, hb⟩ := isWordChar_iff.mp hc
  rw [pieces.eq_def]
  simp [hs, hb, hd]

theorem pieces_parted {c : Char} {cs : List Char} (hc : isWordChar c = true)
    (hcs : cs.head?.any isWordChar = false) : pieces (c :: cs) = [c] :: pieces cs := by
  obtain ⟨hs, hb⟩ := isWordChar_iff.mp hc
  simp [pieces, hs, hb, hcs]

theorem pieces_ne_nil {c : Char} (hc : isWordChar c = true) (cs : List Char) :
    pieces (c :: cs) ≠ [] := by
  cases cs with
  | nil =>
      rw [pieces_parted hc rfl]
      exact List.cons_ne_nil _ _
  | cons d cs =>
      cases hd : isWordChar d with
      | true =>
          rw [pieces_joined hc hd]
          cases pieces (d :: cs) <;> simp [extendFirst]
      | false => simp [pieces_parted hc, hd]

theorem extendFirst_append {ps : List (List Char)} (hps : ps ≠ []) (c : Char)
    (qs : List (List Char)) : extendFirst c (ps ++ qs) = extendFirst c ps ++ qs := by
  cases ps with
  | nil => contradiction
  | cons p ps => rfl

/-- No word runs across the seam of two texts. -/
def Parted (u v : List Char) : Prop :=
  u.getLast?.any isWordChar = false ∨ v.head?.any isWordChar = false

theorem Parted.tail {c : Char} {u v : List Char} (h : Parted (c :: u) v) : Parted u v := by
  cases u with
  | nil => exact .inl rfl
  | cons d u => simpa [Parted, List.getLast?_cons_cons] using h

theorem pieces_append {u v : List Char} (h : Parted u v) :
    pieces (u ++ v) = pieces u ++ pieces v := by
  induction u with
  | nil => rfl
  | cons c u ih =>
      have hrest := ih h.tail
      rw [List.cons_append]
      rcases isSign_or_isBlank_or_isWordChar c with hs | hb | hc
      · rw [pieces_sign hs, pieces_sign hs, hrest, List.cons_append]
      · rw [pieces_blank hb, pieces_blank hb, hrest]
      · cases u with
        | nil =>
            have hv : v.head?.any isWordChar = false := by simpa [Parted, hc] using h
            rw [List.nil_append, pieces_parted hc hv, pieces_parted hc rfl]
            rfl
        | cons d u =>
            rw [List.cons_append] at hrest ⊢
            cases hd : isWordChar d with
            | true =>
                rw [pieces_joined hc hd, pieces_joined hc hd, hrest,
                  extendFirst_append (pieces_ne_nil hd u)]
            | false =>
                rw [pieces_parted hc (by simpa using hd), pieces_parted hc (by simpa using hd),
                  hrest, List.cons_append]

theorem pieces_word {cs : List Char} (hne : cs ≠ []) (h : ∀ c ∈ cs, isWordChar c = true) :
    pieces cs = [cs] := by
  induction cs with
  | nil => contradiction
  | cons c cs ih =>
      obtain ⟨hc, hcs⟩ := List.forall_mem_cons.mp h
      cases cs with
      | nil => exact pieces_parted hc rfl
      | cons d cs =>
          rw [pieces_joined hc (hcs d (by simp)), ih (by simp) hcs]
          rfl

theorem pieces_eq_nil_iff (cs : List Char) : pieces cs = [] ↔ isBlankText cs = true := by
  induction cs with
  | nil => simp [pieces, isBlankText]
  | cons c cs ih =>
      rcases isSign_or_isBlank_or_isWordChar c with hs | hb | hc
      · simp [pieces_sign hs, isBlankText, isBlank_of_isSign hs]
      · rw [pieces_blank hb, ih]
        simp [isBlankText, hb]
      · simp [pieces_ne_nil hc, isBlankText, (isWordChar_iff.mp hc).2]

theorem exists_pieces_cons {c : Char} (hc : isWordChar c = true) (cs : List Char) :
    ∃ piece rest, pieces (c :: cs) = (c :: piece) :: rest := by
  cases hw : cs.head?.any isWordChar with
  | false => exact ⟨[], pieces cs, pieces_parted hc hw⟩
  | true =>
      rcases cs with _ | ⟨d, cs⟩
      · contradiction
      · rw [pieces_joined hc (by simpa using hw)]
        cases pieces (d :: cs) with
        | nil => exact ⟨[], [], rfl⟩
        | cons piece rest => exact ⟨piece, rest, rfl⟩

theorem sign_or_word_of_mem_pieces {piece cs : List Char} (h : piece ∈ pieces cs) :
    (∃ c, isSign c = true ∧ piece = [c]) ∨ ∀ c ∈ piece, isWordChar c = true := by
  induction cs generalizing piece with
  | nil => contradiction
  | cons c cs ih =>
      rcases isSign_or_isBlank_or_isWordChar c with hs | hb | hc
      · rw [pieces_sign hs] at h
        rcases List.mem_cons.mp h with rfl | h
        · exact .inl ⟨c, hs, rfl⟩
        · exact ih h
      · rw [pieces_blank hb] at h
        exact ih h
      · cases hw : cs.head?.any isWordChar with
        | false =>
            rw [pieces_parted hc hw] at h
            rcases List.mem_cons.mp h with rfl | h
            · exact .inr (by simpa using hc)
            · exact ih h
        | true =>
            rcases cs with _ | ⟨d, cs⟩
            · contradiction
            · have hd : isWordChar d = true := by simpa using hw
              obtain ⟨first, rest, hpieces⟩ := exists_pieces_cons hd cs
              rw [pieces_joined hc hd, hpieces, extendFirst] at h
              rw [hpieces] at ih
              rcases List.mem_cons.mp h with rfl | h
              · refine .inr (List.forall_mem_cons.mpr ⟨hc, ?_⟩)
                rcases ih (List.mem_cons_self ..) with ⟨e, he, hfirst⟩ | hword
                · rw [← (List.cons.inj hfirst).1, (isWordChar_iff.mp hd).1] at he
                  contradiction
                · exact hword
              · exact ih (List.mem_cons_of_mem _ h)

namespace Token

theorem ofText_of_forall_not_isSign {text : String}
    (h : ∀ c ∈ text.toList, isSign c = false) : ofText text = operand text := by
  have hsigns : ∀ t ∈ signs, t.name.toList.any isSign = true := by decide
  have hfind : (signs.find? fun t => t.name == text) = none := by
    rw [List.find?_eq_none]
    intro t ht hname
    obtain ⟨c, hc, hsign⟩ := List.any_eq_true.mp (hsigns t ht)
    rw [beq_iff_eq] at hname
    rw [h c (hname ▸ hc)] at hsign
    exact Bool.false_ne_true hsign
  rw [ofText, hfind, Option.getD_none]

end Token

namespace Bracket

theorem ofChar?_of_not_isSign {c : Char} (h : isSign c = false) : ofChar? c = none := by
  have hopening : c ≠ '(' := by
    rintro rfl
    contradiction
  have hclosing : c ≠ ')' := by
    rintro rfl
    contradiction
  rw [ofChar?, if_neg hopening, if_neg hclosing]

theorem ofToken?_sign {c : Char} (h : isSign c = true) :
    ofToken? (Token.ofText (String.ofList [c])) = ofChar? c := by
  simp only [isSign, Bool.or_eq_true, beq_iff_eq] at h
  rcases h with ((((rfl | rfl) | rfl) | rfl) | rfl) | rfl <;> decide

theorem filterMap_ofChar?_piece {piece cs : List Char} (h : piece ∈ pieces cs) :
    piece.filterMap ofChar? = (ofToken? (Token.ofText (String.ofList piece))).toList := by
  rcases sign_or_word_of_mem_pieces h with ⟨c, hc, rfl⟩ | hword
  · rw [ofToken?_sign hc, List.filterMap_cons]
    cases ofChar? c <;> rfl
  · have hsign : ∀ c ∈ piece, isSign c = false := fun c hc => (isWordChar_iff.mp (hword c hc)).1
    have hnone : piece.filterMap ofChar? = [] :=
      List.filterMap_eq_nil_iff.mpr fun c hc => ofChar?_of_not_isSign (hsign c hc)
    rw [hnone, Token.ofText_of_forall_not_isSign (by simpa using hsign)]
    rfl

theorem filterMap_ofToken?_tokensOf (text : String) :
    (tokensOf text).filterMap ofToken? = text.toList.filterMap ofChar? := by
  have hblank : text.toList.filterMap ofChar? =
      (text.toList.filter fun c => isSign c || !isBlank c).filterMap ofChar? := by
    rw [List.filterMap_filter]
    refine List.filterMap_congr fun c _ => ?_
    cases hs : isSign c with
    | true => rfl
    | false => simp [ofChar?_of_not_isSign hs]
  rw [hblank, ← flatten_pieces, List.filterMap_flatten, ← List.flatMap_def, tokensOf, piecesOf,
    List.map_map, List.filterMap_map, List.filterMap_eq_flatMap_toList]
  exact List.flatMap_congr fun piece hpiece => (filterMap_ofChar?_piece hpiece).symm

end Bracket

end TruthTables
