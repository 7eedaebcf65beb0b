import Mathlib.Data.List.Basic
import TruthTables.Proofs.Token.Pieces

/-!
Where the pieces of a text lie. They are the signs and the longest runs of word characters, each at
its own place and in the order of the places. A split at every sign and every run of blanks leaves
the same pieces, once its empty parts are dropped.
-/

namespace TruthTables

/-- Whether a text has a word character at an index. -/
def hasWordChar (cs : List Char) (i : Nat) : Bool :=
  cs[i]?.any isWordChar

/-- The `n` characters from index `i` on are one sign, or word characters that have no word
character in front of them or behind them. -/
def IsPieceAt (cs : List Char) (i n : Nat) : Prop :=
  (n = 1 ∧ cs[i]?.any isSign = true) ∨
    (0 < n ∧ (∀ k, i ≤ k → k < i + n → hasWordChar cs k = true) ∧
      (∀ k, k + 1 = i → hasWordChar cs k = false) ∧ hasWordChar cs (i + n) = false)

/-- The characters at a place, which is an index and a number of characters. -/
def charsAt (cs : List Char) (place : Nat × Nat) : List Char :=
  (cs.drop place.1).take place.2

theorem lt_length_of_hasWordChar {cs : List Char} {i : Nat} (h : hasWordChar cs i = true) :
    i < cs.length := by
  by_contra hle
  rw [hasWordChar, List.getElem?_eq_none (Nat.not_lt.mp hle)] at h
  contradiction

theorem hasWordChar_length (cs : List Char) : hasWordChar cs cs.length = false := by
  rw [hasWordChar, List.getElem?_length]
  rfl

theorem hasWordChar_append_left {u : List Char} {i : Nat} (h : i < u.length) (v : List Char) :
    hasWordChar (u ++ v) i = hasWordChar u i := by
  rw [hasWordChar, hasWordChar, List.getElem?_append_left h]

theorem hasWordChar_append_right {u : List Char} {i : Nat} (h : u.length ≤ i) (v : List Char) :
    hasWordChar (u ++ v) i = hasWordChar v (i - u.length) := by
  rw [hasWordChar, hasWordChar, List.getElem?_append_right h]

theorem Parted.hasWordChar {u v : List Char} (h : Parted u v) :
    (∀ k, k + 1 = u.length → hasWordChar u k = false) ∨ hasWordChar v 0 = false := by
  refine h.imp (fun hlast k hk => ?_) fun hhead => ?_
  · rw [List.getLast?_eq_getElem?, ← hk, Nat.add_sub_cancel] at hlast
    exact hlast
  · rw [List.head?_eq_getElem?] at hhead
    exact hhead

theorem IsPieceAt.pos {cs : List Char} {i n : Nat} (h : IsPieceAt cs i n) : 0 < n := by
  rcases h with ⟨rfl, -⟩ | ⟨hpos, -⟩
  · exact Nat.one_pos
  · exact hpos

theorem IsPieceAt.le_length {cs : List Char} {i n : Nat} (h : IsPieceAt cs i n) :
    i + n ≤ cs.length := by
  rcases h with ⟨rfl, hsign⟩ | ⟨hpos, hword, -⟩
  · by_contra hlt
    rw [List.getElem?_eq_none (by omega)] at hsign
    contradiction
  · have hlast := lt_length_of_hasWordChar (hword (i + n - 1) (by omega) (by omega))
    omega

section Append

variable {u v : List Char} {i n : Nat}

theorem isPieceAt_append_left (h : Parted u v) (hle : i + n ≤ u.length) :
    IsPieceAt (u ++ v) i n ↔ IsPieceAt u i n := by
  refine or_congr (and_congr_right fun hn => ?_) (and_congr_right fun hpos => ?_)
  · rw [List.getElem?_append_left (by omega)]
  have hinside : (∀ k, i ≤ k → k < i + n → hasWordChar (u ++ v) k = true) ↔
      ∀ k, i ≤ k → k < i + n → hasWordChar u k = true := by
    refine forall_congr' fun k => imp_congr_right fun _ => imp_congr_right fun hk => ?_
    rw [hasWordChar_append_left (by omega)]
  have hbefore : (∀ k, k + 1 = i → hasWordChar (u ++ v) k = false) ↔
      ∀ k, k + 1 = i → hasWordChar u k = false := by
    refine forall_congr' fun k => imp_congr_right fun hk => ?_
    rw [hasWordChar_append_left (by omega)]
  rw [hinside, hbefore]
  refine and_congr_right fun hword => and_congr_right fun _ => ?_
  rcases Nat.lt_or_ge (i + n) u.length with hlt | hge
  · rw [hasWordChar_append_left hlt]
  · -- The run ends at the seam, so that `v` cannot begin with a word character.
    have hend : i + n = u.length := by omega
    have hlast := hword (i + n - 1) (by omega) (by omega)
    have hv : hasWordChar v 0 = false := by
      rcases h.hasWordChar with hu | hv
      · rw [hu (i + n - 1) (by omega)] at hlast
        contradiction
      · exact hv
    rw [hasWordChar_append_right hge, hend, Nat.sub_self, hv, hasWordChar_length]

theorem isPieceAt_append_right (h : Parted u v) (hge : u.length ≤ i) :
    IsPieceAt (u ++ v) i n ↔ IsPieceAt v (i - u.length) n := by
  refine or_congr (and_congr_right fun _ => ?_) (and_congr_right fun hpos => ?_)
  · rw [List.getElem?_append_right hge]
  have hinside : (∀ k, i ≤ k → k < i + n → hasWordChar (u ++ v) k = true) ↔
      ∀ k, i - u.length ≤ k → k < i - u.length + n → hasWordChar v k = true := by
    constructor
    · intro hword k hle hlt
      have hk := hword (k + u.length) (by omega) (by omega)
      rwa [hasWordChar_append_right (by omega), Nat.add_sub_cancel] at hk
    · intro hword k hle hlt
      rw [hasWordChar_append_right (by omega)]
      exact hword _ (by omega) (by omega)
  rw [hinside, hasWordChar_append_right (by omega), Nat.sub_add_comm hge]
  refine and_congr_right fun hword => and_congr_left fun _ => ?_
  constructor
  · intro hbefore k hk
    have hlast := hbefore (k + u.length) (by omega)
    rwa [hasWordChar_append_right (by omega), Nat.add_sub_cancel] at hlast
  · intro hbefore k hk
    rcases Nat.lt_or_ge k u.length with hlt | hle
    · -- The run begins at the seam, so that `u` cannot end with a word character.
      have hfirst := hword (i - u.length) (Nat.le_refl _) (by omega)
      rw [show i - u.length = 0 by omega] at hfirst
      rw [hasWordChar_append_left hlt]
      rcases h.hasWordChar with hu | hv
      · exact hu k (by omega)
      · rw [hv] at hfirst
        contradiction
    · rw [hasWordChar_append_right hle]
      exact hbefore _ (by omega)

theorem isPieceAt_append (h : Parted u v) :
    IsPieceAt (u ++ v) i n ↔
      IsPieceAt u i n ∨ u.length ≤ i ∧ IsPieceAt v (i - u.length) n := by
  -- No run of word characters crosses the seam of parted texts.
  rcases Nat.lt_or_ge i u.length with hlt | hge
  · rcases Nat.lt_or_ge u.length (i + n) with hcross | hle
    · refine iff_of_false ?_ ?_
      · rintro (⟨rfl, -⟩ | ⟨-, hword, -⟩)
        · omega
        · have hlast := hword (u.length - 1) (by omega) (by omega)
          have hfirst := hword u.length (by omega) hcross
          rw [hasWordChar_append_left (by omega)] at hlast
          rw [hasWordChar_append_right (Nat.le_refl _), Nat.sub_self] at hfirst
          rcases h.hasWordChar with hu | hv
          · rw [hu (u.length - 1) (by omega)] at hlast
            contradiction
          · rw [hv] at hfirst
            contradiction
      · rintro (hu | ⟨hle, -⟩)
        · have := hu.le_length
          omega
        · omega
    · rw [isPieceAt_append_left h hle, or_iff_left]
      rintro ⟨hge, -⟩
      omega
  · rw [isPieceAt_append_right h hge, or_iff_right]
    · rw [and_iff_right hge]
    · intro hu
      have := hu.le_length
      have := hu.pos
      omega

end Append

/-- The places of the pieces of a text, from left to right. -/
structure Places (cs : List Char) (places : List (Nat × Nat)) : Prop where
  ordered : places.Pairwise fun p q => p.1 + p.2 ≤ q.1
  mem_iff {i n : Nat} : (i, n) ∈ places ↔ IsPieceAt cs i n

def shifted (k : Nat) (place : Nat × Nat) : Nat × Nat :=
  (k + place.1, place.2)

theorem Places.le_length {cs : List Char} {places : List (Nat × Nat)} (h : Places cs places)
    {place : Nat × Nat} (hplace : place ∈ places) : place.1 + place.2 ≤ cs.length :=
  (h.mem_iff.mp hplace).le_length

theorem Places.append {u v : List Char} {ps qs : List (Nat × Nat)} (hu : Places u ps)
    (hv : Places v qs) (h : Parted u v) : Places (u ++ v) (ps ++ qs.map (shifted u.length)) where
  ordered := by
    rw [List.pairwise_append]
    refine ⟨hu.ordered, ?_, ?_⟩
    · rw [List.pairwise_map]
      refine hv.ordered.imp fun {p q} hpq => ?_
      simp only [shifted]
      omega
    · intro p hp q hq
      obtain ⟨q, -, rfl⟩ := List.mem_map.mp hq
      have := hu.le_length hp
      simp only [shifted]
      omega
  mem_iff {i n} := by
    rw [List.mem_append, hu.mem_iff, isPieceAt_append h]
    refine or_congr_right ?_
    rw [List.mem_map]
    constructor
    · rintro ⟨⟨j, m⟩, hq, heq⟩
      obtain ⟨rfl, rfl⟩ := Prod.mk.inj heq
      rw [Nat.add_sub_cancel_left]
      exact ⟨by omega, hv.mem_iff.mp hq⟩
    · rintro ⟨hle, hpiece⟩
      refine ⟨(i - u.length, n), hv.mem_iff.mpr hpiece, ?_⟩
      simp only [shifted, Prod.mk.injEq, and_true]
      omega

theorem charsAt_append_left {u : List Char} {place : Nat × Nat}
    (h : place.1 + place.2 ≤ u.length) (v : List Char) :
    charsAt (u ++ v) place = charsAt u place := by
  rw [charsAt, charsAt, List.drop_append_of_le_length (by omega),
    List.take_append_of_le_length (by rw [List.length_drop]; omega)]

theorem charsAt_shifted (u v : List Char) (place : Nat × Nat) :
    charsAt (u ++ v) (shifted u.length place) = charsAt v place := by
  rw [charsAt, charsAt, shifted, List.drop_append, List.drop_eq_nil_of_le (by omega),
    Nat.add_sub_cancel_left, List.nil_append]

/-- A text is empty, or begins with a character that is in no word, or with a whole word. -/
theorem word_induction {motive : List Char → Prop} (nil : motive [])
    (single : ∀ c cs, isWordChar c = false → motive cs → motive (c :: cs))
    (word : ∀ w cs, w ≠ [] → (∀ c ∈ w, isWordChar c = true) → Parted w cs → motive cs →
      motive (w ++ cs)) (cs : List Char) : motive cs := by
  induction hlength : cs.length using Nat.strongRecOn generalizing cs with
  | _ length ih =>
      rcases cs with _ | ⟨c, cs⟩
      · exact nil
      cases hc : isWordChar c with
      | false => exact single c cs hc (ih cs.length (by simp [← hlength]) cs rfl)
      | true =>
          have hsplit := List.takeWhile_append_dropWhile (p := isWordChar) (l := c :: cs)
          have hrest : ((c :: cs).dropWhile isWordChar).length < length := by
            rw [List.dropWhile_cons_of_pos hc, ← hlength, List.length_cons]
            exact Nat.lt_succ_of_le (List.dropWhile_suffix isWordChar).length_le
          have hparted : Parted ((c :: cs).takeWhile isWordChar)
              ((c :: cs).dropWhile isWordChar) := by
            have hstop := List.head?_dropWhile_not isWordChar (c :: cs)
            refine .inr ?_
            cases hhead : ((c :: cs).dropWhile isWordChar).head? with
            | none => rfl
            | some d => simpa [hhead] using hstop
          have hword : ∀ d ∈ (c :: cs).takeWhile isWordChar, isWordChar d = true :=
            List.all_eq_true.mp List.all_takeWhile
          have hne : (c :: cs).takeWhile isWordChar ≠ [] := by
            rw [List.takeWhile_cons_of_pos hc]
            exact List.cons_ne_nil _ _
          rw [← hsplit]
          exact word _ _ hne hword hparted (ih _ hrest _ rfl)

theorem places_single {c : Char} (hc : isWordChar c = false) :
    Places [c] (if isSign c then [(0, 1)] else []) := by
  have hpiece : ∀ i n, IsPieceAt [c] i n ↔ isSign c = true ∧ i = 0 ∧ n = 1 := by
    intro i n
    constructor
    · intro h
      have hlength := h.le_length
      have hpos := h.pos
      rw [List.length_singleton] at hlength
      obtain ⟨rfl, rfl⟩ : i = 0 ∧ n = 1 := by omega
      rcases h with ⟨-, hsign⟩ | ⟨-, hword, -⟩
      · exact ⟨hsign, rfl, rfl⟩
      · have hfirst := hword 0 (Nat.le_refl _) (by omega)
        rw [hasWordChar, List.getElem?_cons_zero, Option.any_some, hc] at hfirst
        contradiction
    · rintro ⟨hsign, rfl, rfl⟩
      exact .inl ⟨rfl, hsign⟩
  split
  · rename_i hsign
    exact ⟨List.pairwise_singleton _ _, by simp [hpiece, hsign]⟩
  · rename_i hsign
    exact ⟨List.Pairwise.nil, by simp [hpiece, hsign]⟩

theorem places_word {w : List Char} (hne : w ≠ []) (hw : ∀ c ∈ w, isWordChar c = true) :
    Places w [(0, w.length)] where
  ordered := List.pairwise_singleton _ _
  mem_iff {i n} := by
    have hchar : ∀ k, k < w.length → hasWordChar w k = true := by
      intro k hk
      rw [hasWordChar, List.getElem?_eq_getElem hk]
      exact hw _ (List.getElem_mem hk)
    have hlength := List.length_pos_of_ne_nil hne
    rw [List.mem_singleton, Prod.mk.injEq]
    constructor
    · rintro ⟨rfl, rfl⟩
      refine .inr ⟨hlength, fun k _ hk => hchar k (by omega), fun k hk => by omega, ?_⟩
      rw [Nat.zero_add, hasWordChar_length]
    · intro h
      have hle := h.le_length
      rcases h with ⟨rfl, hsign⟩ | ⟨hpos, hword, hbefore, hbehind⟩
      · have hi : i < w.length := by omega
        rw [List.getElem?_eq_getElem hi, Option.any_some,
          (isWordChar_iff.mp (hw _ (List.getElem_mem hi))).1] at hsign
        contradiction
      · have hstart : i = 0 := by
          by_contra hi
          have := hbefore (i - 1) (by omega)
          rw [hchar (i - 1) (by omega)] at this
          contradiction
        refine ⟨hstart, ?_⟩
        by_contra hend
        rw [hchar (i + n) (by omega)] at hbehind
        contradiction

theorem exists_places_append {u v : List Char} {ps : List (Nat × Nat)} (h : Parted u v)
    (hps : Places u ps) (hu : pieces u = ps.map (charsAt u))
    (hv : ∃ qs, Places v qs ∧ pieces v = qs.map (charsAt v)) :
    ∃ places, Places (u ++ v) places ∧ pieces (u ++ v) = places.map (charsAt (u ++ v)) := by
  obtain ⟨qs, hqs, hv⟩ := hv
  refine ⟨_, hps.append hqs h, ?_⟩
  rw [pieces_append h, hu, hv, List.map_append, List.map_map]
  congr 1
  · exact List.map_congr_left fun p hp => (charsAt_append_left (hps.le_length hp) v).symm
  · exact List.map_congr_left fun q _ => (charsAt_shifted u v q).symm

/-- The pieces of a text are what stands at the places of its signs and of its longest words. -/
theorem exists_places (cs : List Char) :
    ∃ places, Places cs places ∧ pieces cs = places.map (charsAt cs) := by
  induction cs using word_induction with
  | nil =>
      refine ⟨[], ⟨List.Pairwise.nil, fun {i n} => ?_⟩, rfl⟩
      refine iff_of_false List.not_mem_nil fun h => ?_
      have := h.le_length
      have := h.pos
      rw [List.length_nil] at *
      omega
  | single c cs hc ih =>
      have hparted : Parted [c] cs := .inl (by simpa using hc)
      refine exists_places_append hparted (places_single hc) ?_ ih
      rcases isSign_or_isBlank_or_isWordChar c with hs | hb | hw
      · rw [pieces_sign hs, if_pos hs]
        rfl
      · have hs : isSign c = false := by
          rw [Bool.eq_false_iff]
          intro hs
          rw [isBlank_of_isSign hs] at hb
          contradiction
        rw [pieces_blank hb, hs]
        rfl
      · rw [hw] at hc
        contradiction
  | word w cs hne hw hparted ih =>
      refine exists_places_append hparted (places_word hne hw) ?_ ih
      rw [pieces_word hne hw]
      simp [charsAt]

/-- A text cut at every sign and at every run of blanks. A sign is kept between the parts on its two
sides, and nothing is kept of blanks. The first part begins with the given word, latest character
first. -/
def splitParts (word : List Char) : List Char → List (Option (List Char))
  | [] => [some word.reverse]
  | c :: cs =>
    if isSign c then some word.reverse :: some [c] :: splitParts [] cs
    else if isBlank c then some word.reverse :: none :: splitParts [] (cs.dropWhile isBlank)
    else splitParts (c :: word) cs
termination_by cs => cs.length
decreasing_by
  · simp
  · exact Nat.lt_succ_of_le (List.dropWhile_suffix isBlank).length_le
  · simp

/-- A part that holds more than blanks. -/
def filledPart? (part : Option (List Char)) : Option (List Char) :=
  part.filter fun chars => !isBlankText chars

theorem pieces_dropWhile_isBlank (cs : List Char) : pieces (cs.dropWhile isBlank) = pieces cs := by
  induction cs with
  | nil => rfl
  | cons c cs ih =>
      cases hb : isBlank c with
      | true => rw [List.dropWhile_cons_of_pos hb, pieces_blank hb, ih]
      | false => rw [List.dropWhile_cons_of_neg (by simp [hb])]

theorem filledPart?_word {word : List Char} (h : ∀ c ∈ word, isWordChar c = true) :
    (filledPart? (some word)).toList = pieces word := by
  cases word with
  | nil => rfl
  | cons c cs =>
      have hblank : isBlank c = false := (isWordChar_iff.mp (h c (by simp))).2
      rw [pieces_word (List.cons_ne_nil c cs) h]
      simp [filledPart?, isBlankText, hblank]

theorem filledPart?_sign {c : Char} (h : isSign c = true) : filledPart? (some [c]) = some [c] := by
  simp [filledPart?, Option.filter, isBlankText, isBlank_of_isSign h]

theorem filterMap_cons_word {word : List Char} (h : ∀ c ∈ word, isWordChar c = true)
    (parts : List (Option (List Char))) :
    (some word.reverse :: parts).filterMap filledPart? =
      pieces word.reverse ++ parts.filterMap filledPart? := by
  rw [← filledPart?_word (by simpa using h), List.filterMap_cons]
  cases filledPart? (some word.reverse) <;> rfl

theorem filterMap_splitParts {word : List Char} (h : ∀ c ∈ word, isWordChar c = true)
    (cs : List Char) :
    (splitParts word cs).filterMap filledPart? = pieces (word.reverse ++ cs) := by
  induction word, cs using splitParts.induct with
  | case1 word =>
      rw [splitParts, filterMap_cons_word h, List.filterMap_nil, List.append_nil, List.append_nil]
  | case2 word c cs hs ih =>
      have hparted : Parted word.reverse (c :: cs) := .inr (by simp [isWordChar, hs])
      rw [splitParts, if_pos hs, filterMap_cons_word h,
        List.filterMap_cons_some (filledPart?_sign hs), ih (by simp), pieces_append hparted,
        pieces_sign hs]
      rfl
  | case3 word c cs hs hb ih =>
      have hparted : Parted word.reverse (c :: cs) := .inr (by simp [isWordChar, hb])
      have hnone : filledPart? none = none := rfl
      rw [splitParts, if_neg hs, if_pos hb, filterMap_cons_word h,
        List.filterMap_cons_none hnone, ih (by simp), pieces_append hparted, pieces_blank hb,
        List.reverse_nil, List.nil_append, pieces_dropWhile_isBlank]
  | case4 word c cs hs hb ih =>
      have hc : isWordChar c = true := by simp [isWordChar, hs, hb]
      rw [splitParts, if_neg hs, if_neg hb, ih (List.forall_mem_cons.mpr ⟨hc, h⟩)]
      simp

theorem pieces_eq_filterMap_splitParts (cs : List Char) :
    pieces cs = (splitParts [] cs).filterMap filledPart? := by
  rw [filterMap_splitParts (List.forall_mem_nil _), List.reverse_nil, List.nil_append]

end TruthTables
