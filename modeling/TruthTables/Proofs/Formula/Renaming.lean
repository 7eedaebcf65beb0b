import Mathlib.Data.Set.Function
import TruthTables.Proofs.CanonicalText
import TruthTables.Proofs.Formula.Tabulation
import TruthTables.Proofs.Postfix.Readability
import TruthTables.Proofs.Table.Composition

namespace TruthTables

namespace Postfix

/-- Nothing that the conversion looks at tells the two tokens apart. -/
structure Alike (t u : Token) : Prop where
  kind : u.kind = t.kind
  binding : u.binding = t.binding
  isBarrier : isBarrier u = isBarrier t
  closes : closes u = closes t

theorem Alike.opens {t u : Token} (h : Alike t u) : opens u = opens t := by
  have hopens (v : Token) : Postfix.opens v = (v.kind == .special && Postfix.isBarrier v) := rfl
  rw [hopens, hopens, h.kind, h.isBarrier]

theorem Alike.givesWay {v w t u : Token} (hw : Alike v w) (hu : Alike t u) :
    givesWay w u = givesWay v t := by
  rw [Postfix.givesWay, Postfix.givesWay, hw.isBarrier, hw.binding, hu.binding]

theorem Reads.map {g : Token → Token} {stack out next : List Token} {t : Token}
    (h : Reads stack t out next) (ht : Alike t (g t)) (hstack : ∀ v ∈ stack, Alike v (g v)) :
    Reads (stack.map g) (g t) (out.map g) (next.map g) := by
  cases h with
  | opening hopens => exact .opening (ht.opens.trans hopens)
  | @closing _ _ w _ hcloses htop hw =>
      rw [List.forall_mem_append, List.forall_mem_cons] at hstack
      obtain ⟨hout, hbarrier, -⟩ := hstack
      rw [List.map_append, List.map_cons]
      refine .closing (ht.closes.trans hcloses) ?_ (hbarrier.isBarrier.trans hw)
      exact List.forall_mem_map.mpr fun v hv => (hout v hv).isBarrier.trans (htop v hv)
  | surplus hcloses hbarrier =>
      refine .surplus (ht.closes.trans hcloses) ?_
      exact List.forall_mem_map.mpr fun v hv => (hstack v hv).isBarrier.trans (hbarrier v hv)
  | @operator _ rest _ hkind htop hrest =>
      rw [List.forall_mem_append] at hstack
      obtain ⟨hout, hbelow⟩ := hstack
      rw [List.map_append]
      refine .operator (ht.kind.trans hkind) ?_ ?_
      · exact List.forall_mem_map.mpr fun v hv => ((hout v hv).givesWay ht).trans (htop v hv)
      · cases rest with
        | nil => simp
        | cons w rest =>
            intro v hv
            obtain rfl : g w = v := by simpa using hv
            exact ((hbelow w (by simp)).givesWay ht).trans (hrest w rfl)
  | other hopens hcloses hkind =>
      exact .other (ht.opens.trans hopens) (ht.closes.trans hcloses) (ht.kind.symm ▸ hkind)

theorem run_map {g : Token → Token} {ts : List Token} (hts : ∀ t ∈ ts, Alike t (g t))
    (stack : List Token) (hstack : ∀ v ∈ stack, Alike v (g v)) :
    stackAfter (stack.map g) (ts.map g) = (stackAfter stack ts).map g ∧
      emitted (stack.map g) (ts.map g) = (emitted stack ts).map g := by
  induction ts generalizing stack with
  | nil => exact ⟨rfl, rfl⟩
  | cons t ts ih =>
      rw [List.forall_mem_cons] at hts
      have hread := reads stack t
      have hnext : ∀ v ∈ absorb stack t, Alike v (g v) := by
        intro v hv
        rcases List.mem_cons.mp (hread.mem (List.mem_append_right _ hv)) with rfl | hv
        · exact hts.1
        · exact hstack v hv
      obtain ⟨hout, habsorb⟩ := (hread.map hts.1 hstack).eq
      obtain ⟨hafter, hemitted⟩ := ih hts.2 _ hnext
      rw [List.map_cons]
      constructor
      · rw [stackAfter_cons, stackAfter_cons, habsorb, hafter]
      · rw [emitted, emitted, hout, habsorb, hemitted, List.map_append]

end Postfix

theorem postfixOf_map {g : Token → Token} {ts : List Token}
    (h : ∀ t ∈ ts, Postfix.Alike t (g t)) : postfixOf (ts.map g) = (postfixOf ts).map g := by
  obtain ⟨hafter, hemitted⟩ := Postfix.run_map h [] (by simp)
  rw [List.map_nil] at hafter hemitted
  rw [postfixOf, postfixOf, hafter, hemitted, List.map_append]

/-- The literals keep their names. -/
def renamed (s : String → String) (name : String) : String :=
  if (Token.literal? name).isSome then name else s name

/-- Operands that are no literals get new names. -/
def Token.rename (s : String → String) (t : Token) : Token :=
  if t.kind = .operand then { t with name := renamed s t.name } else t

theorem Token.rename_of_kind_ne {t : Token} (h : t.kind ≠ .operand) (s : String → String) :
    t.rename s = t :=
  if_neg h

theorem Connective.rename_token (c : Connective) (s : String → String) :
    c.token.rename s = c.token :=
  Token.rename_of_kind_ne (by simp [c.kind_token]) s

/-- Different names for different variables, each of them an identifier and none a literal. -/
structure Renames (s : String → String) (vars : Finset String) : Prop where
  isIdentifier {name : String} (h : name ∈ vars) : isIdentifier (s name) = true
  literal? {name : String} (h : name ∈ vars) : Token.literal? (s name) = none
  injOn : Set.InjOn s vars

theorem Renames.mono {s : String → String} {vars vars' : Finset String} (h : Renames s vars')
    (hsub : vars ⊆ vars') : Renames s vars where
  isIdentifier hname := h.isIdentifier (hsub hname)
  literal? hname := h.literal? (hsub hname)
  injOn := h.injOn.mono (Finset.coe_subset.mpr hsub)

theorem Renames.left {s : String → String} {c : Connective} {f g : Formula}
    (h : Renames s (Formula.join c f g).vars) : Renames s f.vars :=
  h.mono Finset.subset_union_left

theorem Renames.right {s : String → String} {c : Connective} {f g : Formula}
    (h : Renames s (Formula.join c f g).vars) : Renames s g.vars :=
  h.mono Finset.subset_union_right

namespace Formula

def rename (s : String → String) : Formula → Formula
  | atom name => atom (renamed s name)
  | not inner => not (inner.rename s)
  | join c left right => join c (left.rename s) (right.rename s)

variable {s : String → String}

theorem isNamed_rename {f : Formula} (hf : f.IsNamed) (hs : Renames s f.vars) :
    (f.rename s).IsNamed := by
  induction f with
  | atom name =>
      change isIdentifier (renamed s name) = true
      unfold renamed
      split
      · exact hf
      · rename_i hliteral
        exact hs.isIdentifier (mem_vars_atom (Option.not_isSome_iff_eq_none.mp hliteral))
  | not inner ih => exact ih hf hs
  | join c left right ihLeft ihRight =>
      exact ⟨ihLeft hf.1 hs.left, ihRight hf.2 hs.right⟩

theorem names_rename (s : String → String) (f : Formula) :
    (f.rename s).names = f.names.map (renamed s) := by
  induction f with
  | atom name => rfl
  | not inner ih => exact ih
  | join c left right ihLeft ihRight => rw [rename, names, names, ihLeft, ihRight, List.map_append]

theorem isIdentifier_renamed {f : Formula} (hf : f.IsNamed) (hs : Renames s f.vars) {name : String}
    (hname : name ∈ f.names) : isIdentifier (renamed s name) = true := by
  apply isNamed_iff.mp (isNamed_rename hf hs)
  rw [names_rename]
  exact List.mem_map_of_mem hname

theorem code_rename {f : Formula} (hf : f.IsNamed) (hs : Renames s f.vars) :
    (f.rename s).code = f.code.map (Token.rename s) := by
  induction f with
  | atom name =>
      have hrenamed : (atom (renamed s name)).IsNamed := isNamed_rename (f := atom name) hf hs
      rw [rename, code, code, Token.ofText_of_isIdentifier hf,
        Token.ofText_of_isIdentifier hrenamed]
      rfl
  | not inner ih =>
      rw [rename, code, code, ih hf hs, List.map_append]
      rfl
  | join c left right ihLeft ihRight =>
      rw [rename, code, code, ihLeft hf.1 hs.left, ihRight hf.2 hs.right, List.map_append,
        List.map_append, List.map_singleton, c.rename_token]

theorem bracketed_rename {f : Formula} (hf : f.IsNamed) (hs : Renames s f.vars) :
    (f.rename s).bracketed = f.bracketed.map (Token.rename s) := by
  induction f with
  | atom name => exact code_rename (f := atom name) hf hs
  | not inner ih =>
      rw [rename, bracketed, bracketed, ih hf hs, List.map_append]
      rfl
  | join c left right ihLeft ihRight =>
      rw [rename, bracketed, bracketed, ihLeft hf.1 hs.left, ihRight hf.2 hs.right,
        List.map_append, List.map_cons, List.map_append, List.map_cons, c.rename_token]
      rfl

theorem truth_rename {f : Formula} (hs : Renames s f.vars) (v : String → Bool) :
    (f.rename s).truth v = f.truth fun name => v (s name) := by
  induction f with
  | atom name =>
      rw [rename, truth_atom, truth_atom, renamed]
      cases hliteral : Token.literal? name with
      | some b => simp [hliteral]
      | none => simp [hs.literal? (mem_vars_atom hliteral)]
  | not inner ih => exact congrArg _ (ih hs)
  | join c left right ihLeft ihRight =>
      rw [rename, truth, truth, ihLeft hs.left, ihRight hs.right]

theorem freeVariables_operand (name : String) :
    freeVariables [Token.operand name] = if (Token.literal? name).isSome then [] else [name] := by
  cases hliteral : Token.literal? name <;>
    simp [freeVariables, Token.operand, Token.isLiteral, hliteral, List.eraseDups_cons]

theorem freeVariables_rename {f : Formula} (hf : f.IsNamed) (hs : Renames s f.vars) :
    freeVariables (f.rename s).code = (freeVariables f.code).map s := by
  induction f with
  | atom name =>
      have hrenamed : (atom (renamed s name)).IsNamed := isNamed_rename (f := atom name) hf hs
      rw [rename, code, code, Token.ofText_of_isIdentifier hf,
        Token.ofText_of_isIdentifier hrenamed, freeVariables_operand, freeVariables_operand,
        renamed]
      cases hliteral : Token.literal? name with
      | some b => simp [hliteral]
      | none => simp [hs.literal? (mem_vars_atom hliteral)]
  | not inner ih => rw [rename, freeVariables_not, freeVariables_not, ih hf hs]
  | join c left right ihLeft ihRight =>
      have hnew : ∀ name ∈ freeVariables right.code,
          s name ∈ (freeVariables left.code).map s ↔ name ∈ freeVariables left.code := by
        intro name hname
        rw [List.mem_map]
        constructor
        · rintro ⟨other, hother, heq⟩
          have hleft : other ∈ (join c left right).vars :=
            Finset.mem_union_left _ ((mem_freeVariables_code hf.1).mp hother)
          have hright : name ∈ (join c left right).vars :=
            Finset.mem_union_right _ ((mem_freeVariables_code hf.2).mp hname)
          rwa [← hs.injOn hleft hright heq]
        · exact fun h => ⟨name, h, rfl⟩
      rw [rename, freeVariables_join, freeVariables_join, ihLeft hf.1 hs.left,
        ihRight hf.2 hs.right, List.map_append, List.filter_map]
      congr 2
      exact List.filter_congr fun name hname => by simp only [Function.comp_apply, hnew name hname]

theorem idxOf_rename {f : Formula} (hf : f.IsNamed) (hs : Renames s f.vars) {name : String}
    (hname : name ∈ f.vars) :
    (freeVariables (f.rename s).code).idxOf (s name) = (freeVariables f.code).idxOf name := by
  have hnodup := nodup_freeVariables (f.rename s).code
  rw [freeVariables_rename hf hs] at hnodup ⊢
  obtain ⟨j, hj, rfl⟩ := List.getElem_of_mem ((mem_freeVariables_code hf).mpr hname)
  have hmap : j < ((freeVariables f.code).map s).length := by rwa [List.length_map]
  calc
    ((freeVariables f.code).map s).idxOf (s (freeVariables f.code)[j]) =
        ((freeVariables f.code).map s).idxOf ((freeVariables f.code).map s)[j] := by
      rw [List.getElem_map]
    _ = j := hnodup.idxOf_getElem j hmap
    _ = (freeVariables f.code).idxOf (freeVariables f.code)[j] :=
      ((nodup_freeVariables f.code).idxOf_getElem j hj).symm

end Formula

namespace Table

theorem Tabulates.rename {s : String → String} {f : Formula} (hf : f.IsNamed)
    (hs : Renames s f.vars) {table table' : Table} (h : Tabulates f.code table)
    (h' : Tabulates (f.rename s).code table') :
    table'.vars = table.vars.map s ∧ table'.rows = table.rows := by
  have hvars := Formula.freeVariables_rename hf hs
  refine ⟨by rw [h'.vars, hvars, h.vars], ?_⟩
  have hlength : (freeVariables (f.rename s).code).length = (freeVariables f.code).length := by
    rw [hvars, List.length_map]
  apply List.ext_getElem
  · rw [h'.length, h.length, hlength]
  · intro i hi hi'
    rw [h'.getElem_rows (Formula.isNamed_rename hf hs) hi, h.getElem_rows hf hi', hlength,
      Formula.truth_rename hs]
    congr 1
    exact Formula.truth_congr fun name hname => by rw [Formula.idxOf_rename hf hs hname]

end Table

end TruthTables
