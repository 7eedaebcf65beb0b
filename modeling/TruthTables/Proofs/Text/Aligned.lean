import Mathlib.Data.List.SplitBy
import TruthTables.Text.Aligned

namespace TruthTables.Aligned

/-- Characters without a blank, and at least one. -/
def IsWord (cs : List Char) : Prop :=
  cs ≠ [] ∧ ∀ c ∈ cs, isBlank c = false

theorem splitBy_of_forall_eq {cs : List Char} {b : Bool} (hne : cs ≠ [])
    (h : ∀ c ∈ cs, isBlank c = b) : cs.splitBy (fun c d => isBlank c == isBlank d) = [cs] := by
  apply List.splitBy_of_isChain hne
  apply List.Pairwise.isChain
  apply List.pairwise_of_forall_mem_list
  intro c hc d hd
  rw [h c hc, h d hd]
  exact beq_self_eq_true b

theorem words_of_blanks {cs : List Char} (h : ∀ c ∈ cs, isBlank c = true) : words cs = [] := by
  rcases cs with _ | ⟨c, cs⟩
  · rfl
  · rw [words, splitBy_of_forall_eq (List.cons_ne_nil c cs) h]
    simp [h c (by simp)]

theorem words_of_isWord {cs : List Char} (h : IsWord cs) : words cs = [cs] := by
  have hnone : cs.any isBlank = false := by simpa using h.2
  rw [words, splitBy_of_forall_eq h.1 h.2]
  simp [hnone]

theorem words_append {u v : List Char}
    (h : ∀ c ∈ u.getLast?, ∀ d ∈ v.head?, isBlank c ≠ isBlank d) :
    words (u ++ v) = words u ++ words v := by
  rw [words, List.splitBy_append, List.filter_append]
  · rfl
  · intro c hc d hd
    exact beq_eq_false_iff_ne.mpr (h c hc d hd)

theorem words_blanks_append_dropWhile {blanks : List Char} (h : ∀ c ∈ blanks, isBlank c = true)
    (cs : List Char) :
    words (blanks ++ cs.dropWhile isBlank) = words (cs.dropWhile isBlank) := by
  rw [words_append, words_of_blanks h, List.nil_append]
  intro c hc d hd
  have hstop := List.head?_dropWhile_not isBlank cs
  rw [Option.mem_def] at hd
  rw [hd] at hstop
  rw [h c (List.mem_of_getLast? hc), hstop]
  exact Bool.noConfusion

theorem words_blanks_append {blanks : List Char} (h : ∀ c ∈ blanks, isBlank c = true)
    (cs : List Char) : words (blanks ++ cs) = words cs := by
  have hfront : ∀ c ∈ cs.takeWhile isBlank, isBlank c = true :=
    List.all_eq_true.mp List.all_takeWhile
  calc
    words (blanks ++ cs) =
        words ((blanks ++ cs.takeWhile isBlank) ++ cs.dropWhile isBlank) := by
      rw [List.append_assoc, List.takeWhile_append_dropWhile]
    _ = words (cs.dropWhile isBlank) :=
      words_blanks_append_dropWhile (List.forall_mem_append.mpr ⟨h, hfront⟩) cs
    _ = words (cs.takeWhile isBlank ++ cs.dropWhile isBlank) :=
      (words_blanks_append_dropWhile hfront cs).symm
    _ = words cs := by rw [List.takeWhile_append_dropWhile]

/-- A word behind a number of spaces. -/
def indented (cell : Nat × List Char) : List Char :=
  List.replicate cell.1 ' ' ++ cell.2

theorem words_indented_append {cell : Nat × List Char} (h : IsWord cell.2) {cs : List Char}
    (hcs : ∀ c ∈ cs.head?, isBlank c = true) :
    words (indented cell ++ cs) = cell.2 :: words cs := by
  have hspaces : ∀ c ∈ List.replicate cell.1 ' ', isBlank c = true := by
    intro c hc
    rw [List.eq_of_mem_replicate hc]
    decide
  rw [indented, List.append_assoc, words_blanks_append hspaces, words_append, words_of_isWord h]
  · rfl
  · intro c hc d hd
    rw [h.2 c (List.mem_of_getLast? hc), hcs d hd]
    exact Bool.noConfusion

theorem words_intercalate {cells : List (Nat × List Char)} (h : ∀ cell ∈ cells, IsWord cell.2) :
    words ([' '].intercalate (cells.map indented)) = cells.map (·.2) := by
  induction cells with
  | nil => rfl
  | cons cell cells ih =>
      obtain ⟨hcell, hcells⟩ := List.forall_mem_cons.mp h
      rcases cells with _ | ⟨next, cells⟩
      · rw [List.map_singleton, List.intercalate_singleton,
          ← List.append_nil (indented cell), words_indented_append hcell (by simp)]
        rfl
      · have hspace : ∀ c ∈ [' '], isBlank c = true := by
          intro c hc
          rw [List.mem_singleton.mp hc]
          decide
        have hhead : ∀ c ∈ ([' '] ++ [' '].intercalate ((next :: cells).map indented)).head?,
            isBlank c = true := by
          intro c hc
          exact hspace c (by simpa [eq_comm] using hc)
        rw [List.map_cons] at hhead ih
        rw [List.map_cons, List.map_cons, List.intercalate_cons_cons, List.append_assoc,
          words_indented_append hcell hhead, words_blanks_append hspace, ih hcells]
        rfl

theorem toList_pushn (text : String) (c : Char) (n : Nat) :
    (text.pushn c n).toList = text.toList ++ List.replicate n c := by
  rw [String.pushn_eq_repeat_push]
  induction n with
  | zero => simp [Nat.repeat]
  | succ n ih => rw [Nat.repeat, String.toList_push, ih, List.append_assoc, List.replicate_succ']

theorem toList_padLeft (width : Nat) (entry : String) :
    (padLeft width entry).toList = indented (width - entry.length, entry.toList) := by
  rw [padLeft, String.toList_append, toList_pushn]
  rfl

theorem toList_line (ws : List Nat) (entries : List String) :
    (line ws entries).toList = [' '].intercalate
      (((ws.zip entries).map fun p => (p.1 - p.2.length, p.2.toList)).map indented) := by
  have hspace : " ".toList = [' '] := by decide
  rw [line, String.toList_intercalate, hspace, ← List.map_uncurry_zip_eq_zipWith, List.map_map,
    List.map_map]
  congr 1
  exact List.map_congr_left fun p _ => toList_padLeft p.1 p.2

theorem words_line {ws : List Nat} {entries : List String} (hws : entries.length ≤ ws.length)
    (h : ∀ entry ∈ entries, IsWord entry.toList) :
    words (line ws entries).toList = entries.map String.toList := by
  rw [toList_line, words_intercalate, List.map_map]
  · calc
      (ws.zip entries).map (fun p => p.2.toList) =
          ((ws.zip entries).map Prod.snd).map String.toList := by rw [List.map_map]; rfl
      _ = entries.map String.toList := by rw [List.map_snd_zip hws]
  · rw [List.forall_mem_map]
    exact fun p hp => h p.2 (List.of_mem_zip hp).2

theorem length_widen (as bs : List Nat) : (widen as bs).length = max as.length bs.length := by
  induction as generalizing bs with
  | nil => simp [widen]
  | cons a as ih =>
      cases bs with
      | nil => simp [widen]
      | cons b bs => simp [widen, ih, Nat.add_max_add_right]

theorem length_le_length_foldl_widen (lines : List (List String)) (ws : List Nat) :
    ws.length ≤
        (lines.foldl (fun ws line => widen ws (line.map String.length)) ws).length ∧
      ∀ line ∈ lines, line.length ≤
        (lines.foldl (fun ws line => widen ws (line.map String.length)) ws).length := by
  induction lines generalizing ws with
  | nil => exact ⟨Nat.le_refl _, by simp⟩
  | cons line lines ih =>
      obtain ⟨hws, hlines⟩ := ih (widen ws (line.map String.length))
      rw [length_widen, List.length_map] at hws
      rw [List.foldl_cons, List.forall_mem_cons]
      exact ⟨by omega, by omega, hlines⟩

theorem length_le_length_widths {lines : List (List String)} {line : List String}
    (h : line ∈ lines) : line.length ≤ (widths lines).length :=
  (length_le_length_foldl_widen lines []).2 line h

theorem visible_of_isWord {entry : String} (h : IsWord entry.toList) : visible entry = entry := by
  have hkeep : ∀ c ∈ entry.toList, (if c = '\t' then ['\\', 't']
      else if c = '\n' then ['\\', 'n'] else if c = '\r' then ['\\', 'r'] else [c]) = [c] := by
    intro c hc
    have hblank := h.2 c hc
    have htab : c ≠ '\t' := by
      rintro rfl
      contradiction
    have hfeed : c ≠ '\n' := by
      rintro rfl
      contradiction
    have hreturn : c ≠ '\r' := by
      rintro rfl
      contradiction
    rw [if_neg htab, if_neg hfeed, if_neg hreturn]
  rw [visible, List.flatMap_congr hkeep, List.flatMap_singleton', String.ofList_toList]

theorem not_mem_visible (entry : String) : '\n' ∉ (visible entry).toList := by
  rw [visible, String.toList_ofList, List.mem_flatMap]
  rintro ⟨c, -, hc⟩
  split at hc
  · simp at hc
  split at hc
  · simp at hc
  split at hc
  · simp at hc
  · rename_i hfeed _
    exact hfeed (List.mem_singleton.mp hc).symm

theorem not_mem_dropCommonIndent {entries : List String}
    (h : ∀ entry ∈ entries, '\n' ∉ entry.toList) :
    ∀ entry ∈ dropCommonIndent entries, '\n' ∉ entry.toList := by
  unfold dropCommonIndent
  split
  · simp
  · dsimp only
    split
    · exact h
    · rw [List.forall_mem_map]
      intro entry hentry hmem
      rw [String.toList_ofList] at hmem
      exact h entry hentry (List.mem_of_mem_drop hmem)

theorem mem_of_mem_intercalate {sep : List Char} {ls : List (List Char)} {c : Char}
    (h : c ∈ sep.intercalate ls) : c ∈ sep ∨ ∃ l ∈ ls, c ∈ l := by
  induction ls with
  | nil => contradiction
  | cons l ls ih =>
      rcases ls with _ | ⟨next, ls⟩
      · rw [List.intercalate_singleton] at h
        exact .inr ⟨l, by simp, h⟩
      · rw [List.intercalate_cons_cons, List.mem_append, List.mem_append] at h
        rcases h with (h | h) | h
        · exact .inr ⟨l, by simp, h⟩
        · exact .inl h
        · exact (ih h).imp_right fun ⟨m, hm, hc⟩ => ⟨m, List.mem_cons_of_mem _ hm, hc⟩

theorem not_mem_line {entries : List String} (h : ∀ entry ∈ entries, '\n' ∉ entry.toList)
    (ws : List Nat) : '\n' ∉ (line ws entries).toList := by
  rw [toList_line]
  intro hmem
  rcases mem_of_mem_intercalate hmem with hspace | ⟨cell, hcell, hmem⟩
  · revert hspace
    decide
  · rw [List.map_map, List.mem_map] at hcell
    obtain ⟨⟨width, entry⟩, hentry, rfl⟩ := hcell
    rcases List.mem_append.mp hmem with hspace | hmem
    · exact absurd (List.eq_of_mem_replicate hspace) (by decide)
    · exact h entry (List.of_mem_zip hentry).2 hmem

/-- The lines of a text that ends with a line break. -/
def lines (cs : List Char) : List (List Char) :=
  (cs.splitOn '\n').dropLast

/-- The words of every line behind the heading. -/
def read (text : String) : List (List String) :=
  (lines text.toList).tail.map fun line => (words line).map String.ofList

theorem intercalate_concat_nil (sep l : List Char) (ls : List (List Char)) :
    sep.intercalate (l :: ls ++ [[]]) = sep.intercalate (l :: ls) ++ sep := by
  induction ls generalizing l with
  | nil => simp [List.intercalate_cons_cons, List.intercalate_singleton]
  | cons next ls ih =>
      rw [List.cons_append, List.cons_append, List.intercalate_cons_cons, ← List.cons_append, ih,
        List.intercalate_cons_cons, List.append_assoc, List.append_assoc, List.append_assoc]

theorem lines_intercalate {l : List Char} {ls : List (List Char)} (h : ∀ m ∈ l :: ls, '\n' ∉ m) :
    lines (['\n'].intercalate (l :: ls) ++ ['\n']) = l :: ls := by
  have hlines : ∀ m ∈ l :: ls ++ [[]], '\n' ∉ m :=
    List.forall_mem_append.mpr ⟨h, by simp⟩
  rw [lines, ← intercalate_concat_nil, List.splitOn_intercalate _ hlines (by simp),
    List.dropLast_concat]

theorem read_layout (header : List String) {rows : List (List String)}
    (h : ∀ row ∈ rows, ∀ entry ∈ row, IsWord entry.toList) :
    read (layout header rows ++ "\n") = rows := by
  have hvisible : ∀ row ∈ rows, row.map visible = row := fun row hrow =>
    (List.map_congr_left fun entry hentry => visible_of_isWord (h row hrow entry hentry)).trans
      (List.map_id row)
  have hrows : rows.map (fun row => row.map visible) = rows :=
    (List.map_congr_left hvisible).trans (List.map_id rows)
  have hbreak : "\n".toList = ['\n'] := by decide
  generalize htop : dropCommonIndent (header.map visible) = top
  have htopBreak : ∀ entry ∈ top, '\n' ∉ entry.toList := by
    rw [← htop]
    refine not_mem_dropCommonIndent ?_
    rw [List.forall_mem_map]
    exact fun entry _ => not_mem_visible entry
  have hlines : ∀ m ∈ (top :: rows).map fun entries => (line (widths (top :: rows)) entries).toList,
      '\n' ∉ m := by
    rw [List.forall_mem_map, List.forall_mem_cons]
    refine ⟨not_mem_line htopBreak _, fun row hrow => not_mem_line (fun entry hentry hmem => ?_) _⟩
    exact absurd ((h row hrow entry hentry).2 _ hmem) (by decide)
  have hlayout : (layout header rows ++ "\n").toList =
      ['\n'].intercalate ((top :: rows).map fun entries =>
        (line (widths (top :: rows)) entries).toList) ++ ['\n'] := by
    rw [layout, hrows, htop, String.toList_append, String.toList_intercalate, List.map_map, hbreak]
    rfl
  rw [read, hlayout, List.map_cons, lines_intercalate hlines, List.tail_cons, List.map_map]
  refine (List.map_congr_left fun row hrow => ?_).trans (List.map_id rows)
  rw [Function.comp_apply, words_line (length_le_length_widths (List.mem_cons_of_mem _ hrow))
    (h row hrow), List.map_map]
  simp [Function.comp_def]

end TruthTables.Aligned
