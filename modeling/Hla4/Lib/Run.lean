/-
# `Hla4.Lib.Run` — runs of a transition function

A system is a step function `step : S → E → S`; a run is a list of events.
Three notions are all the development needs:

    run step s es             the state after the events `es`
    StepsMeet step ok s es    `ok` holds at every step of that run
    Always step P s es        `P` holds in every state the run passes through

and two rules: an invariant kept by every step that meets `ok` holds always
(`StepsMeet.always`), and what holds of every `ok` step from an invariant
state holds at every step (`StepsMeet.each`).

A statement about what happened earlier in a run needs a history.  `logged`
runs the system together with one: the history is whatever `record` makes of
it at each step, the system does not see it, and the two rules apply to the
pair.
-/
import Mathlib.Data.List.Basic

namespace Lib

variable {S E : Type}

/-- The state after a list of events. -/
def run (step : S → E → S) : S → List E → S
  | s, [] => s
  | s, e :: es => run step (step s e) es

/-- `ok` holds of every step of the run of `es` from `s`. -/
def StepsMeet (step : S → E → S) (ok : S → E → Prop) : S → List E → Prop
  | _, [] => True
  | s, e :: es => ok s e ∧ StepsMeet step ok (step s e) es

instance decidableStepsMeet (step : S → E → S) (ok : S → E → Prop) [∀ s e, Decidable (ok s e)] :
    (s : S) → (es : List E) → Decidable (StepsMeet step ok s es)
  | _, [] => .isTrue trivial
  | s, e :: es =>
    have := decidableStepsMeet step ok (step s e) es
    inferInstanceAs (Decidable (ok s e ∧ StepsMeet step ok (step s e) es))

/-- `P` holds in every state the run of `es` from `s` passes through, the
first and the last included. -/
def Always (step : S → E → S) (P : S → Prop) (s : S) (es : List E) : Prop :=
  ∀ done, done <+: es → P (run step s done)

variable {step : S → E → S} {ok : S → E → Prop} {P : S → Prop} {s : S} {es : List E}

theorem run_append (es es' : List E) :
    run step s (es ++ es') = run step (run step s es) es' := by
  induction es generalizing s with
  | nil => rfl
  | cons e es ih => exact ih

theorem stepsMeet_append {es' : List E} :
    StepsMeet step ok s (es ++ es') ↔
      StepsMeet step ok s es ∧ StepsMeet step ok (run step s es) es' := by
  induction es generalizing s with
  | nil => simp [StepsMeet, run]
  | cons e es ih => simp [StepsMeet, run, ih, and_assoc]

namespace StepsMeet

theorem of_forall (h : ∀ s e, ok s e) : StepsMeet step ok s es := by
  induction es generalizing s with
  | nil => trivial
  | cons e es ih => exact ⟨h s e, ih⟩

/-- What every step of a run meets, every step of a shorter run meets. -/
theorem of_prefix {done : List E} (hd : done <+: es) (h : StepsMeet step ok s es) :
    StepsMeet step ok s done := by
  obtain ⟨rest, rfl⟩ := hd
  exact (stepsMeet_append.mp h).1

/-- **The invariant rule**, at the last state of a run. -/
theorem invariant (keeps : ∀ s e, P s → ok s e → P (step s e)) (h0 : P s)
    (h : StepsMeet step ok s es) : P (run step s es) := by
  induction es generalizing s with
  | nil => exact h0
  | cons e es ih => exact ih (keeps s e h0 h.1) h.2

/-- **The invariant rule**, at every state of a run. -/
theorem always (keeps : ∀ s e, P s → ok s e → P (step s e)) (h0 : P s)
    (h : StepsMeet step ok s es) : Always step P s es :=
  fun _ hd => invariant keeps h0 (h.of_prefix hd)

/-- What holds of every `ok` step out of an invariant state holds at every
step of a run. -/
theorem each {Q : S → E → Prop} (keeps : ∀ s e, P s → ok s e → P (step s e))
    (hQ : ∀ s e, P s → ok s e → Q s e) (h0 : P s) (h : StepsMeet step ok s es) :
    StepsMeet step Q s es := by
  induction es generalizing s with
  | nil => trivial
  | cons e es ih => exact ⟨hQ s e h0 h.1, ih (keeps s e h0 h.1) h.2⟩

theorem mono {ok' : S → E → Prop} (hw : ∀ s e, ok s e → ok' s e) (h : StepsMeet step ok s es) :
    StepsMeet step ok' s es :=
  each (P := fun _ => True) (fun _ _ _ _ => trivial) (fun s e _ => hw s e) trivial h

theorem and {ok' : S → E → Prop} (h : StepsMeet step ok s es) (h' : StepsMeet step ok' s es) :
    StepsMeet step (fun s e => ok s e ∧ ok' s e) s es := by
  induction es generalizing s with
  | nil => trivial
  | cons e es ih => exact ⟨⟨h.1, h'.1⟩, ih h.2 h'.2⟩

end StepsMeet

/-- What always holds holds at the start and after every step. -/
theorem always_iff :
    Always step P s es ↔ P s ∧ StepsMeet step (fun s e => P (step s e)) s es := by
  constructor
  · intro h
    refine ⟨h [] List.nil_prefix, ?_⟩
    induction es generalizing s with
    | nil => trivial
    | cons e es ih =>
      have hlater : Always step P (step s e) es := fun done hd =>
        h (e :: done) (List.cons_prefix_cons.mpr ⟨rfl, hd⟩)
      exact ⟨hlater [] List.nil_prefix, ih hlater⟩
  · rintro ⟨h0, h⟩
    refine h.always ?_ h0
    exact fun _ _ _ hnext => hnext

/-- **The exact rule**: if a step out of a state with `P` keeps `P` exactly when it
meets `ok`, then `P` always holds exactly when all steps meet `ok`. -/
theorem always_iff_stepsMeet (hstep : ∀ s e, P s → (P (step s e) ↔ ok s e)) (h0 : P s) :
    Always step P s es ↔ StepsMeet step ok s es := by
  constructor
  · intro halways
    have h := (always_iff.mp halways).2
    clear halways
    induction es generalizing s with
    | nil => trivial
    | cons e es ih => exact ⟨(hstep s e h0).mp h.1, ih h.1 h.2⟩
  · intro h
    exact h.always (fun s e hs hok => (hstep s e hs).mpr hok) h0

instance [∀ s, Decidable (P s)] (es : List E) : Decidable (Always step P s es) :=
  decidable_of_iff _ always_iff.symm

/-! ## Histories -/

section Logged

variable {G : Type}

/-- The system beside a history of its steps. -/
def logged (step : S → E → S) (record : S → E → G → G) (s : S × G) (e : E) : S × G :=
  (step s.1 e, record s.1 e s.2)

variable {record : S → E → G → G}

theorem run_logged_fst (s : S × G) (es : List E) :
    (run (logged step record) s es).1 = run step s.1 es := by
  induction es generalizing s with
  | nil => rfl
  | cons e es ih => exact ih _

theorem StepsMeet.logged (h : StepsMeet step ok s es) (g : G) :
    StepsMeet (logged step record) (fun sg e => ok sg.1 e) (s, g) es := by
  induction es generalizing s g with
  | nil => trivial
  | cons e es ih => exact ⟨h.1, ih h.2 _⟩

theorem StepsMeet.of_logged {g : G}
    (h : StepsMeet (Lib.logged step record) (fun sg e => ok sg.1 e) (s, g) es) :
    StepsMeet step ok s es := by
  induction es generalizing s g with
  | nil => trivial
  | cons e es ih => exact ⟨h.1, ih h.2⟩

end Logged

end Lib
