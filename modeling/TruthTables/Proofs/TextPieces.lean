import TruthTables.Proofs.CanonicalText
import TruthTables.Proofs.Token.MaximalPieces

namespace TruthTables

/-- The text in front is empty or ends with a sign or a blank, or the text behind is empty or begins
with one. -/
def SeamClear (u v : String) : Prop :=
  (∀ c ∈ u.toList.getLast?, isSign c = true ∨ isBlank c = true) ∨
    ∀ c ∈ v.toList.head?, isSign c = true ∨ isBlank c = true

theorem isWordChar_eq_false_iff {c : Char} :
    isWordChar c = false ↔ isSign c = true ∨ isBlank c = true := by
  unfold isWordChar
  cases isSign c <;> cases isBlank c <;> simp

theorem seamClear_iff {u v : String} : SeamClear u v ↔ Parted u.toList v.toList := by
  unfold SeamClear Parted
  simp only [← isWordChar_eq_false_iff, Option.any_eq_false, Option.mem_def]

theorem piecesOf_append {u v : String} (h : Parted u.toList v.toList) :
    piecesOf (u ++ v) = piecesOf u ++ piecesOf v := by
  rw [piecesOf, String.toList_append, pieces_append h, List.map_append]
  rfl

theorem piecesOf_eq_nil_iff {text : String} :
    piecesOf text = [] ↔ isBlankText text.toList = true := by
  rw [piecesOf, List.map_eq_nil_iff, pieces_eq_nil_iff]

theorem ne_nil_of_mem_pieces {piece cs : List Char} (h : piece ∈ pieces cs) : piece ≠ [] := by
  rw [pieces_eq_filterMap_splitParts, List.mem_filterMap] at h
  obtain ⟨part, -, hfilled⟩ := h
  rw [filledPart?, Option.filter_eq_some_iff] at hfilled
  rintro rfl
  simp [isBlankText] at hfilled

theorem pieces_of_mem_pieces {piece cs : List Char} (h : piece ∈ pieces cs) :
    pieces piece = [piece] := by
  rcases sign_or_word_of_mem_pieces h with ⟨c, hc, rfl⟩ | hword
  · exact pieces_sign hc []
  · exact pieces_word (ne_nil_of_mem_pieces h) hword

theorem pieces_intercalate {ps : List (List Char)} (h : ∀ piece ∈ ps, pieces piece = [piece]) :
    pieces ([' '].intercalate ps) = ps := by
  have hblank : isBlank ' ' = true := by decide
  induction ps with
  | nil => rfl
  | cons piece rest ih =>
      obtain ⟨hpiece, hrest⟩ := List.forall_mem_cons.mp h
      cases rest with
      | nil => simpa using hpiece
      | cons next rest =>
          have hparted : Parted piece (' ' :: [' '].intercalate (next :: rest)) := .inr (by
            rw [List.head?_cons]
            decide)
          rw [List.intercalate_cons_cons, List.append_assoc, List.singleton_append,
            pieces_append hparted, hpiece, pieces_blank hblank, ih hrest, List.singleton_append]

theorem piecesOf_insert {u blanks v : String} (h : Parted u.toList v.toList)
    (hblanks : isBlankText blanks.toList = true) :
    piecesOf (u ++ blanks ++ v) = piecesOf (u ++ v) := by
  have hnone : piecesOf blanks = [] := piecesOf_eq_nil_iff.mpr hblanks
  by_cases hempty : blanks = ""
  · rw [hempty, String.append_empty]
  have hnotWord : ∀ c ∈ blanks.toList, isWordChar c = false := fun c hc =>
    isWordChar_eq_false_iff.mpr (.inr (List.all_eq_true.mp hblanks c hc))
  obtain ⟨c, cs, hcs⟩ := List.exists_cons_of_ne_nil (String.toList_eq_nil_iff.not.mpr hempty)
  have hleft : Parted u.toList blanks.toList := by
    refine .inr ?_
    rw [hcs, List.head?_cons]
    exact hnotWord c (by simp [hcs])
  have hright : Parted (u ++ blanks).toList v.toList := by
    refine .inl ?_
    rw [String.toList_append, List.getLast?_append_of_ne_nil _ (by simp [hcs]), Option.any_eq_false]
    exact fun d hd => hnotWord d (List.mem_of_getLast? hd)
  rw [piecesOf_append hright, piecesOf_append hleft, hnone, List.append_nil, piecesOf_append h]

theorem join_piecesOf (text : String) :
    String.join (piecesOf text) = String.ofList (text.toList.filter fun c => !isBlank c) := by
  have hkept : ∀ c, (isSign c || !isBlank c) = !isBlank c := by
    intro c
    cases hs : isSign c with
    | true => simp [isBlank_of_isSign hs]
    | false => rfl
  have hpieces : text.toList.filter (fun c => !isBlank c) = (pieces text.toList).flatten := by
    simp only [flatten_pieces, hkept]
  rw [← String.toList_inj, String.toList_join, String.toList_ofList, hpieces, piecesOf]
  simp [List.flatMap_def]

theorem piecesOf_intercalate (text : String) :
    piecesOf (" ".intercalate (piecesOf text)) = piecesOf text := by
  have htoList : (piecesOf text).map String.toList = pieces text.toList := by
    simp [piecesOf]
  have hspace : " ".toList = [' '] := by decide
  rw [piecesOf, String.toList_intercalate, htoList, hspace,
    pieces_intercalate fun _ h => pieces_of_mem_pieces h]
  rfl

namespace Expression

/-- Two texts are read alike if both hold no expression, or the same one, or are both rejected with
the same postfix form. -/
structure ReadAlike (raw raw' : String) : Prop where
  accepted (result : Option Expression) :
    (parse raw).outcome = .ok result ↔ (parse raw').outcome = .ok result
  rejected (code : List String) :
    (parse raw).outcome = .error (.rejected raw code) ↔
      (parse raw').outcome = .error (.rejected raw' code)

theorem readAlike_of_piecesOf_eq {raw raw' : String} (h : piecesOf raw = piecesOf raw') :
    ReadAlike raw raw' := by
  have htokens : tokensOf raw = tokensOf raw' := by rw [tokensOf, h, tokensOf]
  have hblank : isBlankText raw.toList = isBlankText raw'.toList := by
    rw [Bool.eq_iff_iff, ← piecesOf_eq_nil_iff, h, piecesOf_eq_nil_iff]
  constructor
  · intro result
    rw [outcome_parse, outcome_parse, htokens, hblank]
    split
    · rfl
    split
    · rfl
    · simp
  · intro code
    rw [outcome_parse, outcome_parse, htokens, hblank]
    split
    · simp
    split
    · rename_i hwell
      obtain ⟨f, hf, hcode⟩ := exists_formula_of_text hwell
      rw [hcode, canonicalText_code f hf]
      simp [Except.map]
    · simp

theorem outcome_parse_eq_none_iff {raw : String} :
    (parse raw).outcome = .ok none ↔ piecesOf raw = [] := by
  rw [outcome_parse, piecesOf_eq_nil_iff]
  split
  · simp [*]
  split
  · cases canonicalText (postfixOf (tokensOf raw)) <;> simp [Except.map, *]
  · simp [*]

end Expression

/-- A text is read as its signs and its longest words, in the order of their places: all of it but
the blanks. So a text may be cut where no word runs across, blanks may be put there or taken away
without any effect on what the text is accepted as, single spaces between the pieces keep them, and
only a text without pieces holds no expression. -/
theorem text_read_by_maximal_pieces (raw : String) :
    (∃ places, Places raw.toList places ∧
      piecesOf raw = places.map fun place => String.ofList (charsAt raw.toList place)) ∧
    String.join (piecesOf raw) = String.ofList (raw.toList.filter fun c => !isBlank c) ∧
    (∀ u v : String, SeamClear u v → piecesOf (u ++ v) = piecesOf u ++ piecesOf v) ∧
    (∀ u blanks v : String, SeamClear u v → isBlankText blanks.toList = true →
      Expression.ReadAlike (u ++ blanks ++ v) (u ++ v)) ∧
    piecesOf (" ".intercalate (piecesOf raw)) = piecesOf raw ∧
    ((Expression.parse raw).outcome = .ok none ↔ piecesOf raw = []) := by
  obtain ⟨places, hplaces, hpieces⟩ := exists_places raw.toList
  refine ⟨⟨places, hplaces, ?_⟩, join_piecesOf raw, ?_, ?_, piecesOf_intercalate raw,
    Expression.outcome_parse_eq_none_iff⟩
  · rw [piecesOf, hpieces, List.map_map]
    rfl
  · intro u v hseam
    exact piecesOf_append (seamClear_iff.mp hseam)
  · intro u blanks v hseam hblanks
    exact Expression.readAlike_of_piecesOf_eq (piecesOf_insert (seamClear_iff.mp hseam) hblanks)

theorem text_read_by_maximal_pieces_literal :
    SeamClear "p1∧" "(q" ∧ piecesOf ("p1∧" ++ "(q") = ["p1", "∧"] ++ ["(", "q"] ∧
    isBlankText "\t\u2003\n".toList = true ∧
    Expression.ReadAlike ("p1∧" ++ "\t\u2003\n" ++ "(q") ("p1∧" ++ "(q") := by
  have hseam : SeamClear "p1∧" "(q" := seamClear_iff.mpr (.inl (by decide))
  have hblanks : isBlankText "\t\u2003\n".toList = true := by decide
  obtain ⟨-, -, hcut, hread, -, -⟩ := text_read_by_maximal_pieces "p1∧(q"
  have hleft : piecesOf "p1∧" = ["p1", "∧"] := by decide
  have hright : piecesOf "(q" = ["(", "q"] := by decide
  refine ⟨hseam, ?_, hblanks, hread _ _ _ hseam hblanks⟩
  rw [hcut _ _ hseam, hleft, hright]

end TruthTables
