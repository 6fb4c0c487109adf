/-
# `Hla4.Lib.Poll` — reports of a fixed group

A POLL is taken among members fixed when it is opened; each report says well
(`true`) or badly.  The poll is complete when every member has reported.
Members may report more than once, in any order; nothing said is taken back
(`Failed` is about any report, not the last).

`Poll.after` is how polls are taken: opened where none is open, heard from
members only, closed by the report that completes them.  `Polls` is one such
poll a topic.

Beside it the question whether a poll can still be completed: whether somebody
it waits for is there, and whether all it waits for are (`Awaits`).
-/
import Mathlib.Data.Set.Insert
import Mathlib.Logic.Function.Basic

namespace Lib

variable {A : Type}

structure Poll (A : Type) where
  members : List A
  reports : List (A × Bool)

namespace Poll

variable (p : Poll A)

/-- A poll as it is opened. -/
def ofMembers (members : List A) : Poll A := ⟨members, []⟩

def report (a : A) (well : Bool) : Poll A := { p with reports := p.reports ++ [(a, well)] }

def Reported (a : A) : Prop := ∃ well, (a, well) ∈ p.reports

def Failed (a : A) : Prop := (a, false) ∈ p.reports

def Complete : Prop := ∀ a ∈ p.members, p.Reported a

variable {p}

theorem reported_iff {a : A} : p.Reported a ↔ a ∈ p.reports.map Prod.fst := by
  rw [Reported, List.mem_map]
  constructor
  · rintro ⟨well, h⟩
    exact ⟨_, h, rfl⟩
  · rintro ⟨⟨_, well⟩, h, rfl⟩
    exact ⟨well, h⟩

instance [DecidableEq A] : DecidablePred p.Reported := fun _ => decidable_of_iff _ reported_iff.symm

instance [DecidableEq A] : DecidablePred p.Failed :=
  fun a => inferInstanceAs (Decidable ((a, false) ∈ p.reports))

instance [DecidableEq A] : Decidable p.Complete :=
  inferInstanceAs (Decidable (∀ a ∈ p.members, p.Reported a))

theorem not_reported_ofMembers {members : List A} {a : A} : ¬ (ofMembers members).Reported a :=
  fun ⟨_, h⟩ => by cases h

theorem not_failed_ofMembers {members : List A} {a : A} : ¬ (ofMembers members).Failed a :=
  fun h => by cases h

theorem reported_report {a b : A} {well : Bool} :
    (p.report b well).Reported a ↔ a = b ∨ p.Reported a := by
  simp only [Reported, report, List.mem_append, List.mem_singleton, Prod.mk.injEq]
  constructor
  · rintro ⟨w, h | ⟨rfl, _⟩⟩
    · exact .inr ⟨w, h⟩
    · exact .inl rfl
  · rintro (rfl | ⟨w, h⟩)
    · exact ⟨well, .inr ⟨rfl, rfl⟩⟩
    · exact ⟨w, .inl h⟩

theorem failed_report {a b : A} {well : Bool} :
    (p.report b well).Failed a ↔ (a = b ∧ well = false) ∨ p.Failed a := by
  simp only [Failed, report, List.mem_append, List.mem_singleton, Prod.mk.injEq, eq_comm (a := false)]
  exact or_comm

theorem Failed.reported {a : A} (h : p.Failed a) : p.Reported a := ⟨false, h⟩

/-- What is asked of whoever takes the polls. -/
inductive Ask (A : Type)
  | nothing
  | start (members : List A)
  | report (a : A) (well : Bool)
  | abort

section Asked

variable [DecidableEq A]

/-- The open poll, if one is, after it was asked: a poll is opened where none is
open; only members are heard; and a complete poll is closed. -/
def after (p? : Option (Poll A)) : Ask A → Option (Poll A)
  | .nothing => p?
  | .start members => p?.or (some (.ofMembers members))
  | .report a well => p?.bind fun p =>
    if a ∈ p.members then
      if (p.report a well).Complete then none else some (p.report a well)
    else some p
  | .abort => none

/-- The poll that is completed when asked, its last report included. -/
def completed (p? : Option (Poll A)) : Ask A → Option (Poll A)
  | .report a well => p?.bind fun p =>
    if a ∈ p.members ∧ (p.report a well).Complete then some (p.report a well) else none
  | _ => none

variable {a : A} {well : Bool}

theorem after_outsider (ha : a ∉ p.members) : after (some p) (.report a well) = some p := by
  rw [after, Option.bind_some, if_neg ha]

theorem after_member (ha : a ∈ p.members) : after (some p) (.report a well) =
    if (p.report a well).Complete then none else some (p.report a well) := by
  rw [after, Option.bind_some, if_pos ha]

theorem completed_outsider (ha : a ∉ p.members) : completed (some p) (.report a well) = none := by
  rw [completed, Option.bind_some, if_neg fun hc => ha hc.1]

theorem completed_member (ha : a ∈ p.members) : completed (some p) (.report a well) =
    if (p.report a well).Complete then some (p.report a well) else none := by
  rw [completed, Option.bind_some]
  simp only [ha, true_and]

end Asked

end Poll

/-- Open polls by topic. -/
abbrev Polls (L A : Type) := L → Option (Poll A)

namespace Polls

variable {L : Type} [DecidableEq L]

def closed : Polls L A := fun _ => none

/-- One of them is asked. -/
def ask [DecidableEq A] (g : Polls L A) (l : L) (q : Poll.Ask A) : Polls L A :=
  Function.update g l (Poll.after (g l) q)

theorem ask_eq_self [DecidableEq A] {g : Polls L A} {l : L} {q : Poll.Ask A}
    (h : Poll.after (g l) q = g l) : g.ask l q = g := by
  rw [ask, h, Function.update_eq_self]

end Polls

/-! ## Can a poll still be completed? -/

/-- Somebody is waited for, and everybody waited for is there. -/
def Awaits (present waiting : Set A) : Prop := waiting.Nonempty ∧ waiting ⊆ present

namespace Awaits

variable {present present' waiting waiting' : Set A}

theorem exists_present (h : Awaits present waiting) : ∃ a ∈ waiting, a ∈ present :=
  h.1.imp fun _ ha => ⟨ha, h.2 ha⟩

theorem shrink (h : Awaits present waiting) (hs : waiting' ⊆ waiting) (hne : waiting'.Nonempty) :
    Awaits present waiting' :=
  ⟨hne, hs.trans h.2⟩

theorem change (h : Awaits present waiting) (hp : ∀ a ∈ waiting, a ∈ present → a ∈ present') :
    Awaits present' waiting :=
  ⟨h.1, fun a ha => hp a ha (h.2 ha)⟩

end Awaits

end Lib
