import TruthTables.Postfix.Evaluation

/-!
The stack machine over two interpretations at once. A map that carries the operations of one to
those of the other carries runs to runs, and the refusals and faults are the same.
-/

namespace TruthTables

namespace Interpretation

/-- The operations keep to the values that satisfy `P` and cannot fail on them. -/
structure ClosedUnder {α : Type} (I : Interpretation α) (P : α → Prop) : Prop where
  literal (b : Bool) : P (I.literal b)
  negate {a : α} (ha : P a) : P (I.negate a)
  connect (c : Connective) {a b : α} (ha : P a) (hb : P b) :
    ∃ value, I.connect c a b = .ok value ∧ P value

/-- On the values that satisfy `P`, `f` carries the operations of `I` to those of `J`. -/
structure CarriedTo {α β : Type} (I : Interpretation α) (J : Interpretation β) (P : α → Prop)
    (f : α → β) : Prop where
  literal (b : Bool) : J.literal b = f (I.literal b)
  negate {a : α} (ha : P a) : J.negate (f a) = f (I.negate a)
  connect (c : Connective) {a b : α} (ha : P a) (hb : P b) :
    J.connect c (f a) (f b) = (I.connect c a b).map f

end Interpretation

/-- The faults that the machine raises itself, whatever its values are. -/
def Fault.OfMachine : Fault → Prop
  | unassigned _ | unknownConnective _ | emptyStack => True
  | _ => False

namespace Evaluation

/-- The assignment of the images under `f`. -/
def mapAssignment {α β : Type} (f : α → β) (values : Assignment α) : Assignment β :=
  fun name => (values name).map f

/-- A run that leaves only values that satisfy `P`, or was stopped by the machine. -/
def Sound {α : Type} (P : α → Prop) : Except Stop (List α) → Prop
  | .ok stack => ∀ value ∈ stack, P value
  | .error (.refused _) => True
  | .error (.failed fault) => fault.OfMachine

variable {α β : Type} {I : Interpretation α} {J : Interpretation β} {P : α → Prop} {f : α → β}
  {values : Assignment α}

theorem operandValue_cases (hI : I.ClosedUnder P)
    (hvalues : ∀ name value, values name = some value → P value) (name : String) :
    (∃ value, operandValue I values name = .ok value ∧ P value) ∨
      operandValue I values name = .error (.failed (.unassigned name)) := by
  unfold operandValue
  cases hname : values name with
  | some value => exact .inl ⟨value, rfl, hvalues name value hname⟩
  | none =>
      cases Token.literal? name with
      | some b => exact .inl ⟨I.literal b, rfl, hI.literal b⟩
      | none => exact .inr rfl

theorem applyOperator_sound (hI : I.ClosedUnder P) {stack : List α}
    (hstack : ∀ value ∈ stack, P value) (t : Token) : Sound P (applyOperator I stack t) := by
  unfold applyOperator
  split
  · trivial
  split
  · cases stack with
    | nil => trivial
    | cons value rest =>
        rw [List.forall_mem_cons] at hstack
        dsimp only
        split
        · exact List.forall_mem_cons.mpr ⟨hI.negate hstack.1, hstack.2⟩
        · trivial
  · rcases stack with _ | ⟨right, _ | ⟨left, rest⟩⟩
    · trivial
    · trivial
    · simp only [List.forall_mem_cons] at hstack
      obtain ⟨hright, hleft, hrest⟩ := hstack
      cases hc : Connective.ofSign? t.name with
      | none => trivial
      | some c =>
          obtain ⟨value, hvalue, hP⟩ := hI.connect c hleft hright
          simp only [hvalue]
          exact List.forall_mem_cons.mpr ⟨hP, hrest⟩

theorem step_sound (hI : I.ClosedUnder P)
    (hvalues : ∀ name value, values name = some value → P value) {stack : List α}
    (hstack : ∀ value ∈ stack, P value) (t : Token) : Sound P (step I values stack t) := by
  unfold step
  cases t.kind with
  | operand =>
      rcases operandValue_cases hI hvalues t.name with ⟨value, hvalue, hP⟩ | hmissing
      · rw [hvalue]
        exact List.forall_mem_cons.mpr ⟨hP, hstack⟩
      · rw [hmissing]
        trivial
  | operator => exact applyOperator_sound hI hstack t
  | special => trivial

theorem runFrom_sound (hI : I.ClosedUnder P)
    (hvalues : ∀ name value, values name = some value → P value) (stack : List α)
    (hstack : ∀ value ∈ stack, P value) (ts : List Token) :
    Sound P (runFrom I values stack ts) := by
  induction ts generalizing stack with
  | nil => exact hstack
  | cons t ts ih =>
      have hstep := step_sound hI hvalues hstack t
      rw [runFrom]
      cases h : step I values stack t with
      | ok next =>
          rw [h] at hstep
          exact ih next hstep
      | error stop =>
          rw [h] at hstep
          exact hstep

theorem operandValue_map (hf : I.CarriedTo J P f) (name : String) :
    operandValue J (mapAssignment f values) name = (operandValue I values name).map f := by
  unfold operandValue mapAssignment
  cases values name with
  | some value => rfl
  | none =>
      cases Token.literal? name with
      | some b => exact congrArg Except.ok (hf.literal b)
      | none => rfl

theorem applyOperator_map (hf : I.CarriedTo J P f) {stack : List α}
    (hstack : ∀ value ∈ stack, P value) (t : Token) :
    applyOperator J (stack.map f) t = (applyOperator I stack t).map (List.map f) := by
  unfold applyOperator
  rw [List.length_map]
  split
  · rfl
  split
  · cases stack with
    | nil => rfl
    | cons value rest =>
        have hnegate := hf.negate (hstack value (by simp))
        simp only [List.map_cons, hnegate]
        split <;> rfl
  · rcases stack with _ | ⟨right, _ | ⟨left, rest⟩⟩
    · rfl
    · rfl
    · simp only [List.map_cons]
      cases Connective.ofSign? t.name with
      | none => rfl
      | some c =>
          have hconnect := hf.connect c (hstack left (by simp)) (hstack right (by simp))
          simp only [hconnect]
          cases I.connect c left right <;> rfl

theorem step_map (hf : I.CarriedTo J P f) {stack : List α} (hstack : ∀ value ∈ stack, P value)
    (t : Token) :
    step J (mapAssignment f values) (stack.map f) t =
      (step I values stack t).map (List.map f) := by
  unfold step
  cases t.kind with
  | operand =>
      dsimp only
      rw [operandValue_map hf]
      cases operandValue I values t.name <;> rfl
  | operator => exact applyOperator_map hf hstack t
  | special => rfl

theorem runFrom_map (hI : I.ClosedUnder P) (hf : I.CarriedTo J P f)
    (hvalues : ∀ name value, values name = some value → P value) (stack : List α)
    (hstack : ∀ value ∈ stack, P value) (ts : List Token) :
    runFrom J (mapAssignment f values) (stack.map f) ts =
      (runFrom I values stack ts).map (List.map f) := by
  induction ts generalizing stack with
  | nil => rfl
  | cons t ts ih =>
      have hstep := step_sound hI hvalues hstack t
      rw [runFrom, runFrom, step_map hf hstack]
      cases h : step I values stack t with
      | ok next =>
          rw [h] at hstep
          exact ih next hstep
      | error stop => rfl

theorem result_map (hI : I.ClosedUnder P) (hf : I.CarriedTo J P f)
    (hvalues : ∀ name value, values name = some value → P value) (ts : List Token) :
    result J (mapAssignment f values) ts = (result I values ts).map f := by
  have hrun := runFrom_map hI hf hvalues [] (by simp) ts
  rw [List.map_nil] at hrun
  rw [result, result, hrun]
  rcases runFrom I values [] ts with stop | (_ | ⟨value, _ | ⟨next, rest⟩⟩)
  · rfl
  · rfl
  · rfl
  · simp [Except.map, Except.bind]

theorem result_eq_ok_iff {ts : List Token} {value : α} :
    result I values ts = .ok value ↔ runFrom I values [] ts = .ok [value] := by
  rw [result]
  rcases runFrom I values [] ts with stop | (_ | ⟨only, _ | ⟨next, rest⟩⟩) <;>
    simp [Except.bind]

theorem result_eq_failed_iff {ts : List Token} {fault : Fault} :
    result I values ts = .error (.failed fault) ↔
      runFrom I values [] ts = .error (.failed fault) := by
  rw [result]
  rcases runFrom I values [] ts with stop | (_ | ⟨only, _ | ⟨next, rest⟩⟩) <;>
    simp [Except.bind]

theorem result_mem (hI : I.ClosedUnder P)
    (hvalues : ∀ name value, values name = some value → P value) {ts : List Token} {value : α}
    (h : result I values ts = .ok value) : P value := by
  have hsound := runFrom_sound hI hvalues [] (by simp) ts
  rw [result_eq_ok_iff.mp h] at hsound
  exact hsound value (by simp)

theorem result_fault (hI : I.ClosedUnder P)
    (hvalues : ∀ name value, values name = some value → P value) {ts : List Token} {fault : Fault}
    (h : result I values ts = .error (.failed fault)) : fault.OfMachine := by
  have hsound := runFrom_sound hI hvalues [] (by simp) ts
  rw [result_eq_failed_iff.mp h] at hsound
  exact hsound

theorem runFrom_congr {values' : Assignment α} {ts : List Token}
    (h : ∀ t ∈ ts, t.kind = .operand →
      operandValue I values t.name = operandValue I values' t.name) (stack : List α) :
    runFrom I values stack ts = runFrom I values' stack ts := by
  induction ts generalizing stack with
  | nil => rfl
  | cons t ts ih =>
      rw [List.forall_mem_cons] at h
      have hstep : step I values stack t = step I values' stack t := by
        unfold step
        cases hkind : t.kind with
        | operand => rw [h.1 hkind]
        | operator => rfl
        | special => rfl
      rw [runFrom, runFrom, hstep]
      exact congrArg _ (funext fun next => ih h.2 next)

theorem result_congr {values' : Assignment α} {ts : List Token}
    (h : ∀ t ∈ ts, t.kind = .operand →
      operandValue I values t.name = operandValue I values' t.name) :
    result I values ts = result I values' ts := by
  rw [result, result, runFrom_congr h]

end Evaluation

end TruthTables
