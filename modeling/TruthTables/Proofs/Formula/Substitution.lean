import Mathlib.Data.List.SplitBy
import TruthTables.Proofs.CanonicalText
import TruthTables.Proofs.Formula.Reading

namespace TruthTables

/-- The longest runs of word characters, and every other character by itself. -/
def segments (text : String) : List (List Char) :=
  text.toList.splitBy fun c d => isWordChar c && isWordChar d

/-- Another text in place of every segment that is the given word. -/
def replaceWord (word new text : String) : String :=
  String.ofList ((segments text).flatMap fun segment =>
    if segment = word.toList ∧ segment.all isWordChar = true then new.toList else segment)

theorem segments_append {u v : String} (h : Parted u.toList v.toList) :
    segments (u ++ v) = segments u ++ segments v := by
  unfold segments
  rw [String.toList_append, List.splitBy_append]
  intro c hc d hd
  rw [Option.mem_def] at hc hd
  rcases h with h | h
  · rw [hc, Option.any_some] at h
    simp [h]
  · rw [hd, Option.any_some] at h
    simp [h]

theorem replaceWord_append {u v : String} (h : Parted u.toList v.toList) (word new : String) :
    replaceWord word new (u ++ v) = replaceWord word new u ++ replaceWord word new v := by
  rw [replaceWord, segments_append h, List.flatMap_append, String.ofList_append]
  rfl

theorem replaceWord_of_any_eq_false {text : String} (h : text.toList.any isWordChar = false)
    (word new : String) : replaceWord word new text = text := by
  have hkeep : ∀ segment ∈ segments text,
      (if segment = word.toList ∧ segment.all isWordChar = true then new.toList
        else segment) = segment := by
    intro segment hsegment
    apply if_neg
    rintro ⟨-, hword⟩
    obtain ⟨c, hc⟩ := List.exists_mem_of_ne_nil _ (List.ne_nil_of_mem_splitBy hsegment)
    have htext : c ∈ (segments text).flatten := List.mem_flatten_of_mem hsegment hc
    rw [segments, List.flatten_splitBy] at htext
    have hfalse := List.any_eq_false.mp h c htext
    exact hfalse (List.all_eq_true.mp hword c hc)
  rw [replaceWord, List.flatMap_congr hkeep, List.flatMap_id', segments, List.flatten_splitBy,
    String.ofList_toList]

theorem replaceWord_of_isIdentifier {name : String} (h : isIdentifier name = true)
    (word new : String) : replaceWord word new name = if name = word then new else name := by
  obtain ⟨hne, hword⟩ := isWordChar_of_isIdentifier h
  have hchain : name.toList.IsChain fun c d => (isWordChar c && isWordChar d) = true := by
    apply List.Pairwise.isChain
    apply List.pairwise_of_forall_mem_list
    intro c hc d hd
    rw [hword c hc, hword d hd]
    rfl
  rw [replaceWord, segments, List.splitBy_of_isChain hne hchain, List.flatMap_singleton]
  by_cases hname : name = word
  · have hall : name.toList.all isWordChar = true := List.all_eq_true.mpr hword
    rw [if_pos ⟨congrArg String.toList hname, hall⟩, if_pos hname, String.ofList_toList]
  · have hlist : ¬(name.toList = word.toList ∧ name.toList.all isWordChar = true) :=
      fun heq => hname (String.toList_inj.mp heq.1)
    rw [if_neg hlist, if_neg hname, String.ofList_toList]

/-- A whole sequence in place of every operand of a name. -/
def substitute (name : String) (inserted ts : List Token) : List Token :=
  ts.flatMap fun t => if t.kind = .operand ∧ t.name = name then inserted else [t]

theorem substitute_append (name : String) (inserted as bs : List Token) :
    substitute name inserted (as ++ bs) =
      substitute name inserted as ++ substitute name inserted bs :=
  List.flatMap_append

theorem substitute_of_operator {t : Token} (h : t.kind = .operator) (name : String)
    (inserted : List Token) : substitute name inserted [t] = [t] := by
  rw [substitute, List.flatMap_singleton, if_neg (by simp [h])]

theorem mem_substitute {name : String} {inserted ts : List Token} {t : Token}
    (h : t ∈ substitute name inserted ts) :
    t ∈ inserted ∨ t ∈ ts ∧ ¬(t.kind = .operand ∧ t.name = name) := by
  obtain ⟨u, hu, ht⟩ := List.mem_flatMap.mp h
  split at ht
  · exact .inl ht
  · rename_i hother
    rw [List.mem_singleton.mp ht]
    exact .inr ⟨hu, hother⟩

theorem replaceWord_sign_append (c : Connective) (name new text : String) :
    replaceWord name new (" " ++ c.sign ++ " " ++ text) =
      " " ++ c.sign ++ " " ++ replaceWord name new text := by
  have hsign : (" " ++ c.sign ++ " ").toList.any isWordChar = false := by
    cases c <;> decide
  rw [replaceWord_append (.inl (by cases c <;> decide)),
    replaceWord_of_any_eq_false hsign]

namespace Formula

/-- A formula in place of every atom of a name. -/
def subst : Formula → String → Formula → Formula
  | atom other, name, g => if other = name then g else atom other
  | not inner, name, g => not (inner.subst name g)
  | join c left right, name, g => join c (left.subst name g) (right.subst name g)

variable {name : String} {f g : Formula}

theorem isNamed_subst (hf : f.IsNamed) (hg : g.IsNamed) : (f.subst name g).IsNamed := by
  induction f with
  | atom other =>
      rw [subst]
      split
      · exact hg
      · exact hf
  | not inner ih => exact ih hf
  | join c left right ihLeft ihRight => exact ⟨ihLeft hf.1, ihRight hf.2⟩

theorem code_subst (hf : f.IsNamed) : (f.subst name g).code = substitute name g.code f.code := by
  induction f with
  | atom other =>
      have hcode : (atom other).code = [Token.operand other] := by
        rw [code, Token.ofText_of_isIdentifier hf]
      rw [subst, hcode, substitute, List.flatMap_singleton]
      by_cases hname : other = name
      · rw [if_pos hname, if_pos ⟨rfl, hname⟩]
      · rw [if_neg hname, if_neg fun h => hname h.2, hcode]
  | not inner ih =>
      rw [subst, code, code, ih hf, substitute_append, substitute_of_operator rfl]
  | join c left right ihLeft ihRight =>
      rw [subst, code, code, ihLeft hf.1, ihRight hf.2, substitute_append, substitute_append,
        substitute_of_operator c.kind_token]

theorem text_subst (hf : f.IsNamed) :
    (f.subst name g).text = replaceWord name g.text f.text := by
  have hclosing : replaceWord name g.text ")" = ")" :=
    replaceWord_of_any_eq_false (by decide) name g.text
  induction f with
  | atom other =>
      rw [text, replaceWord_of_isIdentifier hf, subst]
      split <;> rfl
  | not inner ih =>
      have hopening : replaceWord name g.text "(∼" = "(∼" :=
        replaceWord_of_any_eq_false (by decide) name g.text
      rw [subst, text, text, ih hf, replaceWord_append (.inr (by decide)),
        replaceWord_append (.inl (by decide)), hopening, hclosing]
  | join c left right ihLeft ihRight =>
      have hopening : replaceWord name g.text "(" = "(" :=
        replaceWord_of_any_eq_false (by decide) name g.text
      have hblank : (" " ++ c.sign ++ " " ++ (right.text ++ ")")).toList.head? = some ' ' := by
        simp
      have hsplit : (join c left right).text =
          "(" ++ (left.text ++ (" " ++ c.sign ++ " " ++ (right.text ++ ")"))) := by
        simp only [text, String.append_assoc]
      rw [hsplit, replaceWord_append (.inl (by decide)),
        replaceWord_append (.inr (by rw [hblank]; decide)), replaceWord_sign_append,
        replaceWord_append (.inr (by decide)), hopening, hclosing, ← ihLeft hf.1, ← ihRight hf.2]
      simp only [subst, text, String.append_assoc]

theorem truth_subst (hname : Token.literal? name = none) (f g : Formula) (v : String → Bool) :
    (f.subst name g).truth v = f.truth (Function.update v name (g.truth v)) := by
  induction f with
  | atom other =>
      rw [subst]
      by_cases hother : other = name
      · rw [if_pos hother, truth_atom, hother, hname, Function.update_self, Option.getD_none]
      · rw [if_neg hother, truth, truth, Function.update_of_ne hother]
  | not inner ih => exact congrArg _ ih
  | join c left right ihLeft ihRight => rw [subst, truth, truth, ihLeft, ihRight]

end Formula

end TruthTables
