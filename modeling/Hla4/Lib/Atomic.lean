/-
# `Hla4.Lib.Atomic` — retry loops on an atomic location

A location is read and exchanged by any number of tasks.  Each of them runs
the loop

    current := load
    loop
      (result, next) := update current
      if compare_exchange_weak current next then return result
      current := the value the exchange saw

and may call it again.  The memory is weak: a load may see any value the
location ever had, and so may an exchange that fails; an exchange may also fail
for no reason.  Only an exchange that succeeds is bound to the latest value.

That is enough: in the order of the successful exchanges the calls return what
calls one after another return (`retry_log`), since whatever a task has seen, it
can only replace a value by that value's `update`.
-/
import Hla4.Lib.Sections
import Mathlib.Logic.Function.Iterate
import Mathlib.Data.List.Range

namespace Lib

/-- An atomic location: its value, and those it had before, the latest first. -/
structure Cell (α : Type) where
  value : α
  earlier : List α

/-- What the memory decides about one access: how old a value is seen, and
whether an exchange fails for no reason. -/
structure Access where
  back : Nat
  fails : Bool

/-- The latest value, and no failure. -/
def Access.strong : Access := ⟨0, false⟩

namespace Cell

variable {α : Type}

def load (c : Cell α) (x : Access) : α := (c.value :: c.earlier).getD x.back c.value

/-- The exchange and the value it saw, if it failed. -/
def compareExchangeWeak [DecidableEq α] (c : Cell α) (current next : α) (x : Access) :
    Option α × Cell α :=
  if c.value = current ∧ x.fails = false then (none, ⟨next, c.value :: c.earlier⟩)
  else (some (c.load x), c)

end Cell

/-- Where a task stands in the loop. -/
inductive Attempt (α ρ : Type)
  | idle
  | loaded (current : α)
  | returned (result : ρ)

section Retry

variable {α ρ : Type} [DecidableEq α]

/-- The loop, one access to the location in each section. -/
def retry (update : α → ρ × α) : Sections (Cell α) (Attempt α ρ) Access Empty where
  sect c
    | .loaded current, x =>
      match c.compareExchangeWeak current (update current).2 x with
      | (none, c') => (c', .returned (update current).1)
      | (some actual, c') => (c', .loaded actual)
    -- a call begins, the first one or another
    | _, x => (c, .loaded (c.load x))
  act _ a := a.elim

/-- The result with which a call ends there. -/
def Attempt.result? : Attempt α ρ → Option ρ
  | .returned result => some result
  | _ => none

variable {I : Type} [DecidableEq I]

/-- The results so far, and that of the section that is executed, if it ends a
call: a successful exchange is the last access of a call. -/
def Sections.logResult (m : Sections (Cell α) (Attempt α ρ) Access Empty)
    (s : Cell α × (I → Attempt α ρ)) : SectionEvent I Access Empty → List ρ → List ρ
  | .go i x, log => log ++ (m.sect s.1 (s.2 i) x).2.result?.toList
  | .act _, log => log

variable {update : α → ρ × α}

/-- A section either replaces the value by its `update` and ends the call with
the result, or leaves the location as it was. -/
theorem retry_sect (c : Cell α) (p : Attempt α ρ) (x : Access) :
    (((retry update).sect c p x).1.value = (update c.value).2 ∧
        ((retry update).sect c p x).2.result? = some (update c.value).1) ∨
      (((retry update).sect c p x).1 = c ∧ ((retry update).sect c p x).2.result? = none) := by
  cases p with
  | idle | returned => exact .inr ⟨rfl, rfl⟩
  | loaded current =>
    by_cases hwins : c.value = current ∧ x.fails = false
    · obtain ⟨rfl, hx⟩ := hwins
      left
      simp [retry, Cell.compareExchangeWeak, hx, Attempt.result?]
    · right
      simp [retry, Cell.compareExchangeWeak, hwins, Attempt.result?]

/-- Left alone on a strong memory, a call returns in two accesses. -/
theorem retry_leads (update : α → ρ × α) (c : Cell α) :
    (retry update).Leads .strong (c, .idle)
      (⟨(update c.value).2, c.value :: c.earlier⟩, .returned (update c.value).1) := by
  refine ⟨2, ?_⟩
  simp [List.replicate, Sections.solo, retry, Cell.load, Cell.compareExchangeWeak, Access.strong]

/-- `n` calls, one after another: their results. -/
def resultsInTurn (update : α → ρ × α) (v : α) (n : Nat) : List ρ :=
  (List.range n).map fun k => (update ((fun a => (update a).2)^[k] v)).1

/-- The location holds what the calls so far make of `v`, and they returned
what calls in turn return. -/
structure InTurn (update : α → ρ × α) (v : α) (c : Cell α) (log : List ρ) : Prop where
  value : c.value = (fun a => (update a).2)^[log.length] v
  results : log = resultsInTurn update v log.length

theorem InTurn.sect {v : α} {c : Cell α} {log : List ρ} (h : InTurn update v c log)
    (p : Attempt α ρ) (x : Access) :
    InTurn update v ((retry update).sect c p x).1
      (log ++ ((retry update).sect c p x).2.result?.toList) := by
  rcases retry_sect c p x with ⟨hvalue, hresult⟩ | ⟨hsame, hnone⟩
  · rw [hresult, Option.toList_some]
    constructor
    · rw [hvalue, List.length_append, List.length_singleton, Function.iterate_succ_apply', ← h.value]
    · rw [List.length_append, List.length_singleton, resultsInTurn, List.range_succ, List.map_append,
        List.map_singleton, ← h.value]
      exact congrArg (· ++ _) h.results
  · rw [hnone, hsame, Option.toList_none, List.append_nil]
    exact h

/-- **Retry loops are atomic.**  Whatever the tasks do and wherever they start,
the results in the order of the successful exchanges are those of calls made one
after another. -/
theorem retry_log (update : α → ρ × α) (s : Cell α × (I → Attempt α ρ))
    (es : List (SectionEvent I Access Empty)) :
    InTurn update s.1.value (run (logged (retry update).step (retry update).logResult) (s, []) es).1.1
      (run (logged (retry update).step (retry update).logResult) (s, []) es).2 := by
  have hmet : StepsMeet (logged (retry update).step (retry update).logResult) (fun _ _ => True)
      (s, []) es := .of_forall fun _ _ => trivial
  refine hmet.invariant (P := fun t => InTurn update s.1.value t.1.1 t.2) ?_ ⟨rfl, rfl⟩
  rintro ⟨s', log⟩ (⟨i, x⟩ | a) h -
  · exact h.sect (s'.2 i) x
  · exact a.elim

end Retry

end Lib
