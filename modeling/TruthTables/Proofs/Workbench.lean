import TruthTables.Proofs.CanonicalText
import TruthTables.Workbench

/-!
Runs of a workbench. A step that fails has changed nothing, unless it was to read a new text. What
is done to the postfix form of the expression held leaves its canonical text alone, so that after
any run of steps the expression can be had back from that text.
-/

namespace TruthTables.Workbench

namespace Step

variable {α β : Type}

/-- The answer of a step, and the workbench as the step leaves it. -/
def result (x : Step α) (w : Workbench) : Except Stop α × Workbench :=
  (StateT.run (ExceptT.run x) w).value

theorem result_modify (f : Workbench → Workbench) (w : Workbench) :
    result (modify f) w = (.ok ⟨⟩, f w) := rfl

theorem result_bind (x : Step α) (f : α → Step β) (w : Workbench) :
    result (x >>= f) w =
      match result x w with
      | (.ok a, next) => result (f a) next
      | (.error stop, next) => (.error stop, next) := by
  show (StateT.run (ExceptT.bindCont f (result x w).1) (result x w).2).value = _
  rcases result x w with ⟨_ | _, next⟩ <;> rfl

theorem result_attempt (x : Attempt α) (w : Workbench) :
    result (attempt x) w = (x.outcome.mapError .failed, w) := by
  rcases x with ⟨_ | _, records⟩ <;> rfl

/-- The workbench is as before, whatever the answer. -/
def Keeps (x : Step α) : Prop :=
  ∀ w, (result x w).2 = w

/-- A step that fails has not changed the workbench. -/
def Commits (x : Step α) : Prop :=
  ∀ w stop next, result x w = (.error stop, next) → next = w

theorem keeps_pure (a : α) : Keeps (pure a) := fun _ => rfl

theorem keeps_throw (stop : Stop) : Keeps (throw stop : Step α) := fun _ => rfl

theorem keeps_get : Keeps get := fun _ => rfl

theorem keeps_logged (x : Logged α) : Keeps (logged x) := fun _ => rfl

theorem keeps_attempt (x : Attempt α) : Keeps (attempt x) := by
  intro w
  rw [result_attempt]

theorem Keeps.bind {x : Step α} {f : α → Step β} (hx : Keeps x) (hf : ∀ a, Keeps (f a)) :
    Keeps (x >>= f) := by
  intro w
  have hnext := hx w
  rw [result_bind]
  rcases hresult : result x w with ⟨stop | a, next⟩ <;> rw [hresult] at hnext
  · exact hnext
  · exact (hf a next).trans hnext

theorem keeps_mapM {f : α → Step β} (hf : ∀ a, Keeps (f a)) (as : List α) :
    Keeps (as.mapM f) := by
  have hloop (as : List α) : ∀ bs, Keeps (List.mapM.loop f as bs) := by
    induction as with
    | nil => exact fun bs => keeps_pure bs.reverse
    | cons a as ih => exact fun bs => (hf a).bind fun b => ih (b :: bs)
  exact hloop as []

theorem Keeps.commits {x : Step α} (hx : Keeps x) : Commits x := by
  intro w stop next h
  have hnext := hx w
  rwa [h] at hnext

theorem Keeps.bind_commits {x : Step α} {f : α → Step β} (hx : Keeps x)
    (hf : ∀ a, Commits (f a)) : Commits (x >>= f) := by
  intro w stop next h
  have hkept := hx w
  rw [result_bind] at h
  rcases hresult : result x w with ⟨fault | a, kept⟩ <;> rw [hresult] at h hkept
  · exact (Prod.mk.inj h).2.symm.trans hkept
  · exact (hf a kept stop next h).trans hkept

theorem Commits.bind_pure {x : Step α} (hx : Commits x) (f : α → β) :
    Commits (x >>= fun a => pure (f a)) := by
  intro w stop next h
  rw [result_bind] at h
  rcases hresult : result x w with ⟨fault | a, kept⟩ <;> rw [hresult] at h
  · exact hx w fault next (hresult.trans (by rw [(Prod.mk.inj h).2]))
  · cases h

theorem commits_modify (f : Workbench → Workbench) : Commits (modify f) := by
  intro w stop next h
  rw [result_modify] at h
  cases h

/-- The step has nothing to do with the expression. -/
def Spares (x : Step α) : Prop :=
  ∀ w, (result x w).2.expression = w.expression

theorem Keeps.spares {x : Step α} (hx : Keeps x) : Spares x := by
  intro w
  rw [hx w]

theorem Spares.bind {x : Step α} {f : α → Step β} (hx : Spares x) (hf : ∀ a, Spares (f a)) :
    Spares (x >>= f) := by
  intro w
  have hnext := hx w
  rw [result_bind]
  rcases hresult : result x w with ⟨stop | a, next⟩ <;> rw [hresult] at hnext
  · exact hnext
  · exact (hf a next).trans hnext

/-- The step without its answer. -/
def silent (x : Step α) : Step Unit :=
  x >>= fun _ => pure ()

theorem snd_result_silent (x : Step α) (w : Workbench) :
    (result (silent x) w).2 = (result x w).2 := by
  rw [silent, result_bind]
  rcases result x w with ⟨_ | _, next⟩ <;> rfl

end Step

open Step

theorem result_theExpression (w : Workbench) :
    result theExpression w =
      match w.expression with
      | some e => (.ok e, w)
      | none => (.error .missing, w) := by
  rcases w with ⟨settings, _ | e, table⟩ <;> rfl

theorem keeps_theExpression : Keeps theExpression := by
  intro w
  rw [result_theExpression]
  cases w.expression <;> rfl

theorem keeps_theTable : Keeps theTable := by
  apply keeps_get.bind
  intro w
  cases w.table with
  | none => exact keeps_throw .missing
  | some t => exact keeps_pure t

theorem keeps_recheck : Keeps recheck := by
  apply keeps_theExpression.bind
  intro e
  apply keeps_theTable.bind
  intro t
  exact keeps_mapM (fun _ => keeps_attempt _) t.rows

theorem keeps_check : Keeps check :=
  keeps_theExpression.bind fun _ => (keeps_logged _).bind fun _ => keeps_pure _

theorem keeps_of_theTable {α : Type} {f : Table → Workbench → Step α}
    (hf : ∀ t w, Keeps (f t w)) : Keeps (theTable >>= fun t => get >>= f t) :=
  keeps_theTable.bind fun t => keeps_get.bind (hf t)

theorem commits_reparse : Commits reparse := by
  apply keeps_theExpression.bind_commits
  intro e
  apply (keeps_attempt _).bind_commits
  intro expression
  exact (commits_modify _).bind_pure _

theorem commits_pop : Commits pop := by
  apply keeps_theExpression.bind_commits
  intro e
  cases e.code.getLast? with
  | none => exact (keeps_throw _).commits
  | some t => exact ((commits_modify _).bind_pure _).bind_pure _

theorem commits_generate (limits : Limits) (canonical : Bool) (expression : Option String) :
    Commits (generate limits canonical expression) := by
  apply keeps_theExpression.bind_commits
  intro e
  apply keeps_get.bind_commits
  intro w
  apply (keeps_attempt _).bind_commits
  intro table
  exact (commits_modify _).bind_pure _

theorem commits_process (text : Option String) (maxVariables : Option Int) :
    Commits (process text maxVariables) := by
  apply keeps_get.bind_commits
  intro w
  apply (keeps_attempt _).bind_commits
  intro submission
  cases submission.table? with
  | none => exact (keeps_pure _).commits
  | some table => exact (commits_modify _).bind_pure _

theorem spares_generate (limits : Limits) (canonical : Bool) (expression : Option String) :
    Spares (generate limits canonical expression) := by
  apply keeps_theExpression.spares.bind
  intro e
  apply keeps_get.spares.bind
  intro w
  apply (keeps_attempt _).spares.bind
  intro table
  exact fun _ => rfl

theorem spares_process (text : Option String) (maxVariables : Option Int) :
    Spares (process text maxVariables) := by
  apply keeps_get.spares.bind
  intro w
  apply (keeps_attempt _).spares.bind
  intro submission
  cases submission.table? with
  | none => exact fun _ => rfl
  | some table => exact fun _ => rfl

theorem result_parse (text : Option String) (w : Workbench) :
    result (parse text) w =
      match (Expression.read text).outcome with
      | .ok expression => (.ok (expression.map (·.canonical)), { w with expression })
      | .error fault => (.error (.failed fault), { w with expression := none }) := by
  rw [parse, result_bind, result_modify]
  show result (attempt (Expression.read text) >>= _) _ = _
  rw [result_bind, result_attempt]
  cases (Expression.read text).outcome <;> rfl

/-- The expression held, if any, is written as a formula. -/
def IsCanonical (w : Workbench) : Prop :=
  ∀ e, w.expression = some e → ∃ f : Formula, f.IsNamed ∧ e.canonical = f.text

theorem isCanonical_hold {f : Formula} (hf : f.IsNamed) {e : Expression}
    (he : e.canonical = f.text) (w : Workbench) :
    IsCanonical { w with expression := some e } := by
  intro other h
  obtain rfl := Option.some.inj h
  exact ⟨f, hf, he⟩

theorem isCanonical_of_parse {w : Workbench} {expression : Option Expression} {text : String}
    (h : (Expression.parse text).outcome = .ok expression) :
    IsCanonical { w with expression } := by
  rintro e rfl
  obtain ⟨f, hf, -, rfl⟩ := Expression.outcome_parse_eq_some_iff.mp h
  exact ⟨f, hf, rfl⟩

theorem isCanonical_parse (text : Option String) (w : Workbench) :
    IsCanonical (result (parse text) w).2 := by
  have hnone : IsCanonical { w with expression := none } := nofun
  rw [result_parse]
  cases text with
  | none => exact hnone
  | some text =>
      cases h : (Expression.read (some text)).outcome with
      | error fault => exact hnone
      | ok expression => exact isCanonical_of_parse h

theorem result_reparse {w : Workbench} {e : Expression} (h : w.expression = some e) {f : Formula}
    (hf : f.IsNamed) (htext : e.canonical = f.text) :
    result reparse w =
      (.ok (some ⟨f.text, f.code, tokensOf f.text⟩),
        { w with expression := some ⟨f.text, f.code, tokensOf f.text⟩ }) := by
  rw [reparse, result_bind, result_theExpression, h]
  show result (attempt (Expression.parse e.canonical) >>= _) _ = _
  rw [result_bind, result_attempt, htext, Formula.outcome_parse_text hf]
  rfl

theorem isCanonical_reparse {w : Workbench} (h : w.IsCanonical) :
    IsCanonical (result reparse w).2 := by
  cases hexpression : w.expression with
  | none =>
      rw [reparse, result_bind, result_theExpression, hexpression]
      exact h
  | some e =>
      obtain ⟨f, hf, htext⟩ := h e hexpression
      rw [result_reparse hexpression hf htext]
      exact isCanonical_hold hf rfl w

theorem isCanonical_setCode {w : Workbench} (h : w.IsCanonical) {e : Expression}
    (he : w.expression = some e) (code : List Token) :
    IsCanonical { w with expression := some { e with code } } := by
  obtain ⟨f, hf, htext⟩ := h e he
  exact isCanonical_hold (e := { e with code }) hf htext w

theorem isCanonical_push {w : Workbench} (h : w.IsCanonical) (t : Token) :
    IsCanonical (result (push t) w).2 := by
  rw [push, result_bind, result_theExpression]
  cases he : w.expression with
  | none => exact h
  | some e => exact isCanonical_setCode h he (e.code ++ [t])

theorem isCanonical_pop {w : Workbench} (h : w.IsCanonical) :
    IsCanonical (result pop w).2 := by
  rw [pop, result_bind, result_theExpression]
  cases he : w.expression with
  | none => exact h
  | some e =>
      dsimp only
      cases e.code.getLast? with
      | none => exact h
      | some t => exact isCanonical_setCode h he e.code.dropLast

/-- The steps, with what they are given. -/
inductive Command where
  | configure (s : Settings)
  | parse (text : Option String)
  | reparse
  | push (t : Token)
  | pop
  | check
  | render
  | evaluate (values : Assignment Scalar)
  | generate (limits : Limits) (canonical : Bool) (expression : Option String)
  | process (text : Option String) (maxVariables : Option Int)
  | putTable (table : Table)
  | recheck
  | records
  | grid
  | truthGrid

namespace Command

def step : Command → Step Unit
  | configure s => silent (Workbench.configure s)
  | parse text => silent (Workbench.parse text)
  | reparse => silent Workbench.reparse
  | push t => silent (Workbench.push t)
  | pop => silent Workbench.pop
  | check => silent Workbench.check
  | render => silent Workbench.render
  | evaluate values => silent (Workbench.evaluate values)
  | generate limits canonical expression =>
      silent (Workbench.generate limits canonical expression)
  | process text maxVariables => silent (Workbench.process text maxVariables)
  | putTable table => silent (Workbench.putTable table)
  | recheck => silent Workbench.recheck
  | records => silent Workbench.records
  | grid => silent Workbench.grid
  | truthGrid => silent Workbench.truthGrid

/-- A text that is read takes the expression away first. No other step changes anything before it
can fail. -/
theorem commits_step {c : Command} (hc : ∀ text, c ≠ parse text) : Commits c.step := by
  cases c with
  | parse text => exact absurd rfl (hc text)
  | configure s => exact ((commits_modify _).bind_pure _).bind_pure _
  | reparse => exact commits_reparse.bind_pure _
  | push t =>
      apply Commits.bind_pure
      apply keeps_theExpression.bind_commits
      intro e
      exact (commits_modify _).bind_pure _
  | pop => exact commits_pop.bind_pure _
  | check => exact keeps_check.commits.bind_pure _
  | render => exact (keeps_theExpression.bind fun _ => keeps_attempt _).commits.bind_pure _
  | evaluate values =>
      exact (keeps_theExpression.bind fun _ => keeps_attempt _).commits.bind_pure _
  | generate limits canonical expression => exact (commits_generate _ _ _).bind_pure _
  | process text maxVariables => exact (commits_process _ _).bind_pure _
  | putTable table => exact ((commits_modify _).bind_pure _).bind_pure _
  | recheck => exact keeps_recheck.commits.bind_pure _
  | records => exact (keeps_of_theTable fun _ _ => keeps_pure _).commits.bind_pure _
  | grid => exact (keeps_of_theTable fun _ _ => keeps_attempt _).commits.bind_pure _
  | truthGrid => exact (keeps_theTable.bind fun _ => keeps_attempt _).commits.bind_pure _

/-- The workbench behind a step. -/
def after (c : Command) (w : Workbench) : Workbench :=
  (result c.step w).2

theorem isCanonical_after {w : Workbench} (h : w.IsCanonical) (c : Command) :
    IsCanonical (c.after w) := by
  have hspared {α : Type} {x : Step α} (hx : Spares x) : IsCanonical (result x w).2 := by
    intro e he
    rw [hx w] at he
    exact h e he
  cases c <;> rw [after, step, snd_result_silent]
  case configure s => exact hspared fun _ => rfl
  case parse text => exact isCanonical_parse text w
  case reparse => exact isCanonical_reparse h
  case push t => exact isCanonical_push h t
  case pop => exact isCanonical_pop h
  case check => exact hspared keeps_check.spares
  case render => exact hspared (keeps_theExpression.bind fun _ => keeps_attempt _).spares
  case evaluate values => exact hspared (keeps_theExpression.bind fun _ => keeps_attempt _).spares
  case generate limits canonical expression => exact hspared (spares_generate _ _ _)
  case process text maxVariables => exact hspared (spares_process _ _)
  case putTable table => exact hspared fun _ => rfl
  case recheck => exact hspared keeps_recheck.spares
  case records => exact hspared (keeps_of_theTable fun _ _ => keeps_pure _).spares
  case grid => exact hspared (keeps_of_theTable fun _ _ => keeps_attempt _).spares
  case truthGrid => exact hspared (keeps_theTable.bind fun _ => keeps_attempt _).spares

end Command

/-- The workbench behind a run of steps, failed ones included. -/
def run (commands : List Command) (w : Workbench) : Workbench :=
  commands.foldl (fun w c => c.after w) w

/-- A failed step can be left out of a run, unless it was to read a new text. -/
theorem run_of_failed {before : List Command} {c : Command} {w next : Workbench} {stop : Stop}
    (hc : ∀ text, c ≠ .parse text) (h : result c.step (run before w) = (.error stop, next))
    (rest : List Command) : run (before ++ c :: rest) w = run (before ++ rest) w := by
  have hafter : c.after (run before w) = run before w := by
    have hnext := Command.commits_step hc _ _ _ h
    rw [Command.after, h, hnext]
  simp only [run, List.foldl_append, List.foldl_cons] at hafter ⊢
  rw [hafter]

theorem isCanonical_run (commands : List Command) {w : Workbench} (h : w.IsCanonical) :
    IsCanonical (run commands w) := by
  induction commands generalizing w with
  | nil => exact h
  | cons c rest ih => exact ih (Command.isCanonical_after h c)

/-- Whatever was done to an expression since it was read, it can be had back. -/
theorem reparse_after_run (s : Settings) (commands : List Command) {e : Expression}
    (h : (run commands (empty s)).expression = some e) :
    ∃ f : Formula, f.IsNamed ∧ e.canonical = f.text ∧
      result reparse (run commands (empty s)) =
        (.ok (some ⟨f.text, f.code, tokensOf f.text⟩),
          { run commands (empty s) with
            expression := some ⟨f.text, f.code, tokensOf f.text⟩ }) := by
  have hempty : (empty s).IsCanonical := nofun
  obtain ⟨f, hf, htext⟩ := isCanonical_run commands hempty e h
  exact ⟨f, hf, htext, result_reparse h hf htext⟩

end TruthTables.Workbench
