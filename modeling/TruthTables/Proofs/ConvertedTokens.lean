import TruthTables.Proofs.Postfix.Brackets
import TruthTables.Proofs.Table.Completeness

namespace TruthTables

theorem freeVariables_eq_operands (ts : List Token) :
    freeVariables ts =
      (((operands ts).filter fun t => !t.isLiteral).map (·.name)).eraseDups := by
  have hfilter : (ts.filter fun t => t.kind == .operand && !t.isLiteral) =
      (operands ts).filter fun t => !t.isLiteral := by
    rw [operands, List.filter_filter]
    exact List.filter_congr fun t _ => Bool.and_comm _ _
  rw [freeVariables, hfilter]

theorem freeVariables_postfixOf (ts : List Token) :
    freeVariables (postfixOf ts) = freeVariables ts := by
  rw [freeVariables_eq_operands, operands_postfixOf, ← freeVariables_eq_operands]

theorem pairwise_idxOf_freeVariables (names : List String) :
    (freeVariables (names.map Token.ofText)).Pairwise fun a b =>
      names.idxOf a < names.idxOf b := by
  have hnames : ((names.map Token.ofText).filter fun t => t.kind == .operand && !t.isLiteral).map
      (·.name) = names.filter fun name =>
        (Token.ofText name).kind == .operand && !(Token.ofText name).isLiteral := by
    rw [List.filter_map, List.map_map]
    exact (List.map_congr_left fun name _ => Token.name_ofText name).trans (List.map_id _)
  rw [freeVariables, hnames, eraseDups_filter]
  exact (pairwise_idxOf_eraseDups names).filter _

theorem mem_freeVariables_map_ofText {names : List String} {name : String} :
    name ∈ freeVariables (names.map Token.ofText) ↔
      name ∈ names ∧ (Token.ofText name).kind = .operand ∧ name ≠ "T" ∧ name ≠ "F" := by
  rw [mem_freeVariables, Token.literal?_eq_none_iff]
  constructor
  · rintro ⟨hname, t, ht, hkind, rfl⟩
    obtain ⟨text, htext, rfl⟩ := List.mem_map.mp ht
    rw [Token.name_ofText] at hname ⊢
    exact ⟨htext, hkind, hname⟩
  · rintro ⟨htext, hkind, hname⟩
    exact ⟨hname, Token.ofText name, List.mem_map_of_mem htext, hkind, Token.name_ofText name⟩

theorem count_postfixOf_operator {ts : List Token} (hts : ∀ t ∈ ts, t.FromText) {u : Token}
    (hu : u.kind = .operator) : (postfixOf ts).count u = ts.count u := by
  cases hbarrier : Postfix.isBarrier u with
  | false => exact count_postfixOf hbarrier (Postfix.closes_of_operator hu) ts
  | true =>
      -- No text makes a connective that is called like a bracket.
      have hnone : u ∉ ts := by
        intro hmem
        rw [Postfix.isBarrier_of_operator (hts u hmem) hu] at hbarrier
        contradiction
      rw [List.count_eq_zero_of_not_mem hnone,
        List.count_eq_zero_of_not_mem fun h => hnone (mem_of_mem_postfixOf h)]

/-- Any sequence of tokens that were made from texts keeps its operands in their order and each
connective as often as it occurs. Of the brackets only the opening ones that are never closed are
left, behind all operands. The variables are the operands that are no literals, each once and in
the order in which they first came. -/
theorem conversion_keeps_tokens (names : List String) :
    operands (postfixOf (names.map Token.ofText)) = operands (names.map Token.ofText) ∧
    (∀ t : Token, t.kind = .operator →
      (postfixOf (names.map Token.ofText)).count t = (names.map Token.ofText).count t) ∧
    .closing ∉ postfixOf (names.map Token.ofText) ∧
    (postfixOf (names.map Token.ofText)).count .opening =
      Bracket.depth 0 ((names.map Token.ofText).filterMap Bracket.ofToken?) ∧
    (∀ as bs, postfixOf (names.map Token.ofText) = as ++ .opening :: bs →
      ∀ t ∈ bs, t.kind ≠ .operand) ∧
    (∀ name, name ∈ freeVariables (postfixOf (names.map Token.ofText)) ↔
      name ∈ names ∧ (Token.ofText name).kind = .operand ∧ name ≠ "T" ∧ name ≠ "F") ∧
    (freeVariables (postfixOf (names.map Token.ofText))).Pairwise fun a b =>
      names.idxOf a < names.idxOf b := by
  have hts : ∀ t ∈ names.map Token.ofText, t.FromText := Token.fromText_of_mem_map
  refine ⟨operands_postfixOf _, fun t => count_postfixOf_operator hts, ?_,
    count_opening_postfixOf hts, fun as bs => kind_ne_of_opening hts, ?_, ?_⟩
  · intro hclosing
    have hcloses := closes_of_mem_postfixOf _ hclosing
    contradiction
  · intro name
    rw [freeVariables_postfixOf]
    exact mem_freeVariables_map_ofText
  · rw [freeVariables_postfixOf]
    exact pairwise_idxOf_freeVariables names

theorem conversion_keeps_tokens_literal :
    let names := [")", "q", "∨", "(", "p", "(", "T", ")", "→", "(", "q", "∧", "r"]
    postfixOf (names.map Token.ofText) =
        ["q", "p", "T", "q", "r", "∧", "(", "→", "(", "∨"].map Token.ofText ∧
      operands (names.map Token.ofText) = ["q", "p", "T", "q", "r"].map Token.ofText ∧
      Bracket.depth 0 ((names.map Token.ofText).filterMap Bracket.ofToken?) = 2 ∧
      (∀ t ∈ ["→", "(", "∨"].map Token.ofText, t.kind ≠ .operand) ∧
      freeVariables (postfixOf (names.map Token.ofText)) = ["q", "p", "r"] := by
  intro names
  have hcode : postfixOf (names.map Token.ofText) =
      ["q", "p", "T", "q", "r", "∧"].map Token.ofText ++
        .opening :: ["→", "(", "∨"].map Token.ofText := by decide
  obtain ⟨hoperands, -, -, hcount, hbehind, -⟩ := conversion_keeps_tokens names
  refine ⟨hcode, ?_, ?_, hbehind _ _ hcode, ?_⟩
  · rw [← hoperands, hcode]
    decide
  · rw [← hcount, hcode]
    decide
  · rw [hcode]
    decide

end TruthTables
