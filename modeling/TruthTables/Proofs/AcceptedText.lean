import TruthTables.Proofs.CanonicalText
import TruthTables.Proofs.Formula.Tabulation
import TruthTables.Proofs.Token.Pieces

namespace TruthTables

/-- The pieces that are no signs, in their order. -/
def operandPieces (text : String) : List String :=
  (piecesOf text).filter fun piece => (Token.ofText piece).kind == .operand

theorem operandPieces_eq (text : String) :
    operandPieces text = (operands (tokensOf text)).map (·.name) := by
  rw [operands, tokensOf, List.filter_map, List.map_map]
  have hname : (Token.name ∘ Token.ofText) = id := by
    funext piece
    exact Token.name_ofText piece
  rw [hname, List.map_id]
  rfl

theorem count_piecesOf (text piece : String) :
    (piecesOf text).count piece = (tokensOf text).count (Token.ofText piece) := by
  have hinj : Function.Injective Token.ofText := by
    intro a b hab
    rw [← Token.name_ofText a, hab, Token.name_ofText]
  exact (List.count_map_of_injective _ _ hinj _).symm

theorem Identifier.isPart_of_isIdentifier {name : String} (h : isIdentifier name = true) :
    ∀ c ∈ name.toList, isPart c = true := by
  unfold isIdentifier at h
  cases hname : name.toList with
  | nil => simp
  | cons c cs =>
      simp only [hname, Bool.and_eq_true, List.all_eq_true] at h
      exact List.forall_mem_cons.mpr ⟨isPart_of_isStart h.1, h.2⟩

theorem isBarrier_of_mem_tokensOf (text : String) :
    ∀ t ∈ tokensOf text, t.kind = .operator → Postfix.isBarrier t = false :=
  fun _ ht => Postfix.isBarrier_of_operator (fromText_of_mem_tokensOf ht)

section Accepted

variable {raw : String} {f : Formula} (hf : f.IsNamed) (h : postfixOf (tokensOf raw) = f.code)

include hf h

theorem operands_tokensOf : operands (tokensOf raw) = f.names.map Token.operand := by
  rw [← operands_postfixOf, h, Formula.operands_code hf]

theorem isBarrier_of_mem_stackAfter :
    ∀ w ∈ Postfix.stackAfter [] (tokensOf raw), Postfix.isBarrier w = false := by
  intro w hw
  refine Formula.isBarrier_of_mem_code hf w ?_
  rw [← h]
  exact List.mem_append_right _ hw

theorem depth_of_postfixOf : Bracket.depth 0 (raw.toList.filterMap Bracket.ofChar?) = 0 := by
  have hdepth := Postfix.countP_stackAfter (isBarrier_of_mem_tokensOf raw) []
  rw [Bracket.filterMap_ofToken?_tokensOf, List.countP_nil] at hdepth
  rw [← hdepth, List.countP_eq_zero]
  intro w hw
  simp [isBarrier_of_mem_stackAfter hf h w hw]

theorem allClosed_of_postfixOf : Bracket.AllClosed (raw.toList.filterMap Bracket.ofChar?) :=
  Bracket.allClosed_of_depth_eq_zero (depth_of_postfixOf hf h)

theorem exists_name_of_operand {t : Token} (ht : t ∈ tokensOf raw) (hkind : t.kind = .operand) :
    ∃ name ∈ f.names, Token.operand name = t := by
  have hmem : t ∈ operands (tokensOf raw) := List.mem_filter.mpr ⟨ht, by simp [hkind]⟩
  rwa [operands_tokensOf hf h, List.mem_map] at hmem

theorem length_operands_tokensOf :
    (operands (tokensOf raw)).length = joins (tokensOf raw) + 1 := by
  rw [operands_tokensOf hf h, List.length_map, Formula.length_names hf, ← h, joins_postfixOf]

theorem isIdentifier_of_mem_pieces {piece : List Char} (hpiece : piece ∈ pieces raw.toList)
    (hword : ∀ c ∈ piece, isWordChar c = true) : isIdentifier (String.ofList piece) = true := by
  have hsign : ∀ c ∈ (String.ofList piece).toList, isSign c = false := by
    intro c hc
    rw [String.toList_ofList] at hc
    exact (isWordChar_iff.mp (hword c hc)).1
  have htoken : Token.operand (String.ofList piece) ∈ operands (tokensOf raw) := by
    rw [operands, List.mem_filter, ← Token.ofText_of_forall_not_isSign hsign]
    refine ⟨List.mem_map_of_mem (List.mem_map_of_mem hpiece), ?_⟩
    rw [Token.ofText_of_forall_not_isSign hsign]
    rfl
  rw [operands_tokensOf hf h, List.mem_map] at htoken
  obtain ⟨name, hname, heq⟩ := htoken
  have hsame : name = String.ofList piece := congrArg Token.name heq
  rw [← hsame]
  exact Formula.isNamed_iff.mp hf name hname

theorem isBlank_or_isSign_or_isPart :
    ∀ c ∈ raw.toList, isBlank c = true ∨ isSign c = true ∨ Identifier.isPart c = true := by
  intro c hc
  rcases isSign_or_isBlank_or_isWordChar c with hs | hb | hw
  · exact .inr (.inl hs)
  · exact .inl hb
  · have hmem : c ∈ (pieces raw.toList).flatten := by
      rw [flatten_pieces, List.mem_filter]
      exact ⟨hc, by simp [(isWordChar_iff.mp hw).2]⟩
    obtain ⟨piece, hpiece, hcpiece⟩ := List.mem_flatten.mp hmem
    rcases sign_or_word_of_mem_pieces hpiece with ⟨d, hd, rfl⟩ | hword
    · obtain rfl := List.mem_singleton.mp hcpiece
      exact .inr (.inl hd)
    · have hname := isIdentifier_of_mem_pieces hf h hpiece hword
      refine .inr (.inr (Identifier.isPart_of_isIdentifier hname c ?_))
      rwa [String.toList_ofList]

end Accepted

/-- Nothing is dropped from an accepted text, and nothing is added or repaired. -/
theorem accepted_text_conserved (raw : String) (e : Expression)
    (h : (Expression.parse raw).outcome = .ok (some e)) :
    (∀ c ∈ raw.toList, isBlank c = true ∨ c ∈ ['∼', '∧', '∨', '→', '(', ')'] ∨
      c.isAlpha = true ∨ c.isDigit = true ∨ c = '_') ∧
    Bracket.AllClosed (raw.toList.filterMap Bracket.ofChar?) ∧
    (operandPieces raw).length = (piecesOf raw).count "∧" + (piecesOf raw).count "∨" +
      (piecesOf raw).count "→" + 1 ∧
    operandPieces e.canonical = operandPieces raw ∧
    ∀ sign ∈ ["∼", "∧", "∨", "→"],
      (piecesOf e.canonical).count sign = (piecesOf raw).count sign := by
  obtain ⟨f, hf, hcode, rfl⟩ := Expression.outcome_parse_eq_some_iff.mp h
  have hcanonical := Formula.postfixOf_tokensOf_text hf
  refine ⟨?_, allClosed_of_postfixOf hf hcode, ?_, ?_, ?_⟩
  · intro c hc
    rcases isBlank_or_isSign_or_isPart hf hcode c hc with hb | hs | hp
    · exact .inl hb
    · refine .inr (.inl ?_)
      simp only [isSign, Bool.or_eq_true, beq_iff_eq] at hs
      rcases hs with ((((rfl | rfl) | rfl) | rfl) | rfl) | rfl <;> decide
    · simp only [Identifier.isPart, Char.isAlphanum, Bool.or_eq_true, beq_iff_eq] at hp
      exact .inr (.inr (or_assoc.mp hp))
  · simp only [count_piecesOf]
    change _ = joins (tokensOf raw) + 1
    rw [operandPieces_eq, List.length_map, operands_tokensOf hf hcode, List.length_map,
      Formula.length_names hf, ← hcode, joins_postfixOf]
  · rw [operandPieces_eq, operandPieces_eq, operands_tokensOf hf hcode,
      operands_tokensOf hf hcanonical]
  · intro sign hsign
    have hbarrier : Postfix.isBarrier (Token.ofText sign) = false := by
      revert sign
      decide
    have hcloses : Postfix.closes (Token.ofText sign) = false := by
      revert sign
      decide
    rw [count_piecesOf, count_piecesOf, ← count_postfixOf hbarrier hcloses (tokensOf raw),
      hcode, ← hcanonical, count_postfixOf hbarrier hcloses]

theorem accepted_text_conserved_literal :
    ∃ e, (Expression.parse " p∧(∼q1 →(T)) )").outcome = .ok (some e) ∧
      e.canonical = "(p ∧ ((∼q1) → T))" ∧
      Bracket.AllClosed (" p∧(∼q1 →(T)) )".toList.filterMap Bracket.ofChar?) ∧
      operandPieces "(p ∧ ((∼q1) → T))" = operandPieces " p∧(∼q1 →(T)) )" ∧
      (piecesOf "(p ∧ ((∼q1) → T))").count "∼" = (piecesOf " p∧(∼q1 →(T)) )").count "∼" := by
  let f := Formula.join .and (.atom "p") (.join .implies (.not (.atom "q1")) (.atom "T"))
  have hp : isIdentifier "p" = true := by decide
  have hq : isIdentifier "q1" = true := by decide
  have hT : isIdentifier "T" = true := by decide
  have h : (Expression.parse " p∧(∼q1 →(T)) )").outcome =
      .ok (some ⟨f.text, f.code, tokensOf " p∧(∼q1 →(T)) )"⟩) :=
    Expression.outcome_parse_eq_some_iff.mpr ⟨f, ⟨hp, hq, hT⟩, by decide, rfl⟩
  obtain ⟨-, hclosed, -, hoperands, hsigns⟩ := accepted_text_conserved _ _ h
  exact ⟨_, h, rfl, hclosed, hoperands, hsigns "∼" (by decide)⟩

end TruthTables
