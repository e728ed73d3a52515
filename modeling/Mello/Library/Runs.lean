import Mathlib

/-!
Runs of a deterministic step function that may have no next state. All choice
is in the inputs. A property kept by each step holds along every run, and where
each step keeps it exactly when the step meets a condition, it holds along
exactly the runs whose steps all meet the condition.
-/

namespace Mello.Library.Runs

variable {State Input Output : Type*}

/-- The state after all inputs, when every step has a next state. -/
def run (step : State → Input → Option State) (s : State) (inputs : List Input) : Option State :=
  inputs.foldlM step s

/-- `holds` in every state that the run reaches. -/
def Always (step : State → Input → Option State) (holds : State → Prop) : State → List Input → Prop
  | s, [] => holds s
  | s, input :: rest => holds s ∧ ∀ t, step s input = some t → Always step holds t rest

/-- Each step that the run takes meets `meets`, a condition on the input and
the state before it. -/
def EachStep (step : State → Input → Option State) (meets : State → Input → Prop) :
    State → List Input → Prop
  | _, [] => True
  | s, input :: rest => ∀ t, step s input = some t → meets s input ∧ EachStep step meets t rest

/-- A step function that returns outputs, with all outputs so far beside the state. -/
def logged (step : State → Input → Option (State × List Output)) :
    State × List Output → Input → Option (State × List Output)
  | (s, log), input => (step s input).map fun (t, outputs) => (t, log ++ outputs)

variable {step : State → Input → Option State} {holds : State → Prop}
  {meets : State → Input → Prop}

@[simp] theorem run_nil (s : State) : run step s ([] : List Input) = some s := rfl

theorem run_cons (s : State) (input : Input) (rest : List Input) :
    run step s (input :: rest) = (step s input).bind fun t => run step t rest := rfl

/-- What each step of a run preserves, the run preserves. -/
theorem run_invariant (inv : State → Prop) {s t : State} {inputs : List Input}
    (preserved : ∀ input ∈ inputs, ∀ s t, inv s → step s input = some t → inv t)
    (start : inv s) (ran : run step s inputs = some t) : inv t := by
  induction inputs generalizing s with
  | nil =>
    obtain rfl : s = t := Option.some.inj ran
    exact start
  | cons input rest ih =>
    rw [run_cons] at ran
    obtain ⟨next, stepped, rest⟩ := Option.bind_eq_some_iff.mp ran
    exact ih (fun other member => preserved other (List.mem_cons_of_mem _ member))
      (preserved input List.mem_cons_self s next start stepped) rest

/-- The same, with the log of a run beside the state. -/
theorem run_logged_invariant {step : State → Input → Option (State × List Output)}
    (inv : State → List Output → Prop) {s t : State} {log : List Output} {inputs : List Input}
    (preserved : ∀ input ∈ inputs, ∀ s t log outputs, inv s log → step s input = some (t, outputs) →
      inv t (log ++ outputs))
    (start : inv s []) (ran : run (logged step) (s, []) inputs = some (t, log)) : inv t log := by
  refine run_invariant (fun s => inv s.1 s.2) ?_ start ran
  rintro input member ⟨s, before⟩ ⟨t, after⟩ holds stepped
  obtain ⟨⟨next, outputs⟩, moved, same⟩ := Option.map_eq_some_iff.mp stepped
  obtain ⟨rfl, rfl⟩ := Prod.mk.inj same
  exact preserved input member s next before outputs holds moved

theorem EachStep.cons {s t : State} {input : Input} {rest : List Input} (stepped : step s input = some t)
    (met : meets s input) (later : EachStep step meets t rest) : EachStep step meets s (input :: rest) := by
  intro next same
  obtain rfl := Option.some.inj (stepped.symm.trans same)
  exact ⟨met, later⟩

theorem eachStep_true {s : State} (inputs : List Input) : EachStep step (fun _ _ => True) s inputs := by
  induction inputs generalizing s with
  | nil => trivial
  | cons input rest ih => exact fun _ _ => ⟨trivial, ih⟩

theorem eachStep_cons_iff {s t : State} {input : Input} {rest : List Input} (stepped : step s input = some t) :
    EachStep step meets s (input :: rest) ↔ meets s input ∧ EachStep step meets t rest :=
  ⟨fun all => all t stepped, fun both => .cons stepped both.1 both.2⟩

instance decidableEachStep [∀ s input, Decidable (meets s input)] :
    ∀ (s : State) (inputs : List Input), Decidable (EachStep step meets s inputs)
  | _, [] => .isTrue trivial
  | s, input :: rest =>
    match stepped : step s input with
    | none => .isTrue fun t same => absurd (stepped.symm.trans same) (Option.some_ne_none t).symm
    | some t =>
      have := decidableEachStep t rest
      decidable_of_iff _ (eachStep_cons_iff stepped).symm

theorem Always.head {s : State} {inputs : List Input} (all : Always step holds s inputs) : holds s := by
  cases inputs with
  | nil => exact all
  | cons input rest => exact all.1

/-- The property holds in the state after any front of the run. -/
theorem Always.reached {s t : State} {front back : List Input}
    (all : Always step holds s (front ++ back)) (ran : run step s front = some t) : holds t := by
  induction front generalizing s with
  | nil =>
    obtain rfl : s = t := Option.some.inj ran
    exact all.head
  | cons input rest ih =>
    rw [run_cons] at ran
    obtain ⟨next, stepped, later⟩ := Option.bind_eq_some_iff.mp ran
    exact ih (all.2 next stepped) later

/-- The property holds in the state after the whole run. -/
theorem Always.last {s t : State} {inputs : List Input} (all : Always step holds s inputs)
    (ran : run step s inputs = some t) : holds t := by
  rw [← List.append_nil inputs] at all
  exact all.reached ran

theorem not_always_of_run {s t : State} {inputs : List Input} (ran : run step s inputs = some t) (fails : ¬ holds t) :
    ¬ Always step holds s inputs := fun all => fails (all.last ran)

theorem Always.imp {other : State → Prop} (weaker : ∀ s, holds s → other s) {s : State} {inputs : List Input}
    (all : Always step holds s inputs) : Always step other s inputs := by
  induction inputs generalizing s with
  | nil => exact weaker s all
  | cons input rest ih => exact ⟨weaker s all.1, fun t stepped => ih (all.2 t stepped)⟩

/-- What each step that meets the condition preserves holds along a run whose
steps all meet it. -/
theorem always_of_eachStep (preserved : ∀ s input t, holds s → meets s input → step s input = some t → holds t)
    {s : State} (start : holds s) (inputs : List Input) (all : EachStep step meets s inputs) :
    Always step holds s inputs := by
  induction inputs generalizing s with
  | nil => exact start
  | cons input rest ih =>
    refine ⟨start, fun t stepped => ?_⟩
    obtain ⟨met, later⟩ := all t stepped
    exact ih (preserved s input t start met stepped) later

/-- Another condition that each step of the run meets, from a state that the first one keeps. -/
theorem EachStep.imp {other : State → Input → Prop} (inv : State → Prop)
    (next : ∀ s input t, inv s → meets s input → step s input = some t → other s input ∧ inv t)
    {s : State} (start : inv s) {inputs : List Input} (all : EachStep step meets s inputs) : EachStep step other s inputs := by
  induction inputs generalizing s with
  | nil => trivial
  | cons input rest ih =>
    intro t stepped
    obtain ⟨met, later⟩ := all t stepped
    obtain ⟨also, good⟩ := next s input t start met stepped
    exact ⟨also, ih good later⟩

/-- What the steps of a run meet, those of its back meet from the state it is at. -/
theorem EachStep.back {s t : State} {front back : List Input} (all : EachStep step meets s (front ++ back))
    (ran : run step s front = some t) : EachStep step meets t back := by
  induction front generalizing s with
  | nil =>
    obtain rfl : s = t := Option.some.inj ran
    exact all
  | cons input rest ih =>
    rw [run_cons] at ran
    obtain ⟨next, stepped, later⟩ := Option.bind_eq_some_iff.mp ran
    exact ih (all next stepped).2 later

theorem run_append (s : State) (front back : List Input) :
    run step s (front ++ back) = (run step s front).bind fun t => run step t back := List.foldlM_append

theorem logged_eq_some {step : State → Input → Option (State × List Output)} {s t : State} {log after : List Output}
    {input : Input} :
    logged step (s, log) input = some (t, after) ↔ ∃ outputs, step s input = some (t, outputs) ∧ after = log ++ outputs := by
  constructor
  · intro moved
    obtain ⟨⟨next, outputs⟩, stepped, same⟩ := Option.map_eq_some_iff.mp moved
    cases same
    exact ⟨outputs, stepped, rfl⟩
  · rintro ⟨outputs, stepped, rfl⟩
    rw [logged, stepped]
    rfl

/-- An entry of a log that grew stands in its old part or in its new one. -/
theorem split_append {log outputs before after : List Output} {output : Output}
    (whole : log ++ outputs = before ++ output :: after) :
    (∃ rest, after = rest ++ outputs ∧ log = before ++ output :: rest) ∨
      ∃ front, before = log ++ front ∧ outputs = front ++ output :: after := by
  rcases List.append_eq_append_iff.mp whole with ⟨front, rfl, rfl⟩ | ⟨rest, rfl, same⟩
  · exact .inr ⟨front, rfl, rfl⟩
  · cases rest with
    | nil => exact .inr ⟨[], (List.append_nil _).symm ▸ (List.append_nil _).symm, same.symm⟩
    | cons first rest =>
      cases same
      exact .inl ⟨rest, rfl, rfl⟩

/-- The same where one entry is new. -/
theorem split_concat {log before after : List Output} {output other : Output}
    (whole : log ++ [other] = before ++ output :: after) :
    (∃ rest, after = rest ++ [other] ∧ log = before ++ output :: rest) ∨ (before = log ∧ output = other ∧ after = []) := by
  rcases split_append whole with old | ⟨front, rfl, new⟩
  · exact .inl old
  · right
    cases front with
    | nil =>
      cases new
      exact ⟨List.append_nil log, rfl, rfl⟩
    | cons first front =>
      have empty := (List.cons.inj new).2
      exact absurd empty.symm (List.append_ne_nil_of_right_ne_nil front (List.cons_ne_nil output after))

/-- Where a step from a good state leads to a good state exactly when it meets
the condition, the good runs are the runs whose steps all meet it. -/
theorem always_iff_eachStep_of_good (inv : State → Prop)
    (preserved : ∀ s input t, inv s → holds s → step s input = some t → holds t → inv t)
    (exact : ∀ s input t, inv s → holds s → step s input = some t → (holds t ↔ meets s input))
    {s : State} (start : inv s) (good : holds s) (inputs : List Input) :
    Always step holds s inputs ↔ EachStep step meets s inputs := by
  induction inputs generalizing s with
  | nil => exact ⟨fun _ => trivial, fun _ => good⟩
  | cons input rest ih =>
    constructor
    · rintro ⟨-, later⟩ t stepped
      have next := (later t stepped).head
      exact ⟨(exact s input t start good stepped).mp next,
        (ih (preserved s input t start good stepped next) next).mp (later t stepped)⟩
    · intro all
      refine ⟨good, fun t stepped => ?_⟩
      obtain ⟨met, later⟩ := all t stepped
      have next := (exact s input t start good stepped).mpr met
      exact (ih (preserved s input t start good stepped next) next).mpr later

/-- The same, where every step keeps the invariant. -/
theorem always_iff_eachStep (inv : State → Prop)
    (preserved : ∀ s input t, inv s → step s input = some t → inv t)
    (exact : ∀ s input t, inv s → holds s → step s input = some t → (holds t ↔ meets s input))
    {s : State} (start : inv s) (good : holds s) (inputs : List Input) :
    Always step holds s inputs ↔ EachStep step meets s inputs :=
  always_iff_eachStep_of_good inv (fun s input t holds _ stepped _ => preserved s input t holds stepped) exact start good inputs

/-- Two conditions that agree in each good state, of which the first leads on to
good states, are met by the same runs. -/
theorem eachStep_iff_eachStep (inv : State → Prop) {other : State → Input → Prop}
    (agree : ∀ s input, inv s → (meets s input ↔ other s input))
    (preserved : ∀ s input t, inv s → meets s input → step s input = some t → inv t)
    {s : State} (start : inv s) (inputs : List Input) :
    EachStep step meets s inputs ↔ EachStep step other s inputs := by
  induction inputs generalizing s with
  | nil => exact Iff.rfl
  | cons input rest ih =>
    constructor
    · intro all t stepped
      obtain ⟨met, later⟩ := all t stepped
      exact ⟨(agree s input start).mp met, (ih (preserved s input t start met stepped)).mp later⟩
    · intro all t stepped
      obtain ⟨holds, later⟩ := all t stepped
      have met := (agree s input start).mpr holds
      exact ⟨met, (ih (preserved s input t start met stepped)).mpr later⟩

end Mello.Library.Runs
