/-
# `Hla4.Rti.Safety.PerIp` — the count of connections per address is exact

A connection from an address is LIVE from the step that counts the address to the
step that counts it out.  `connections_per_ip` is meant to say how many are live.

Every step keeps that, with one exception: the removal of an entry.  The task that
counts an address down to zero lets go of the entry and removes it in a step of its
own.  If the address was counted in between, the entry is not zero any more, and the
removal loses a live connection.  So the count is exact throughout a run exactly if
every removal finds no live connection of its address (`perIp_exact_iff`); and then
`check_limits` admits no peer whose address has `max_per_ip` live connections.

With several accept loops a peer may be admitted and not counted yet when another is
checked.  With one there is none: the peer whose address is checked is the loop's
own.
-/
import Hla4.Rti.Admission

namespace Hla4

open Lib

namespace Admission

variable {Ip : Type} [DecidableEq Ip]

/-- The connections from `ip` that are counted and not counted out. -/
def live (s : Admission Ip) (ip : Ip) : Nat :=
  s.tasks.countP fun k => decide (k.ip = ip) && k.state.live

/-- The peers from `ip` that are admitted and not counted. -/
def pending (s : Admission Ip) (ip : Ip) : Nat :=
  s.loops.countP fun a =>
    match a.state with
    | .admitted ip' => decide (ip' = ip)
    | _ => false

/-- The counts are those of the live connections. -/
def Exact (s : Admission Ip) : Prop := ∀ ip, s.connectionsPerIp.get ip = s.live ip

/-- A removal finds no live connection of its address. -/
def RemovesUnused (s : Admission Ip) (e : AdmissionEvent Ip) : Prop :=
  ∀ ip ∈ s.removal e, s.live ip = 0

/-- A peer is admitted only if its address has fewer live connections than the
limit allows; with one accept loop, fewer than that together with those admitted and
not counted. -/
def AdmitsWithin (s : Admission Ip) : AdmissionEvent Ip → Prop
  | .loop l (.check total) => ∀ a ip limits, s.loops[l]? = some a → a.state = .checking ip limits →
      checkLimits limits total s.connectionsPerIp ip = .ok () → ∀ max ∈ limits.maxPerIp,
        s.live ip < max ∧ (s.loops.length = 1 → s.live ip + s.pending ip < max)
  | _ => True

variable {s : Admission Ip}

/-! ## One step -/

theorem live_setTask {t : Nat} {k : ConnectionTask Ip} (hk : s.tasks[t]? = some k)
    (state : TaskState) (ip : Ip) :
    (s.setTask t k state).live ip + (decide (k.ip = ip) && k.state.live).toNat =
      s.live ip + (decide (k.ip = ip) && state.live).toNat :=
  countP_set_add hk

theorem Exact.spawn (h : s.Exact) (l : Nat) (a : AcceptLoop Ip) (ip : Ip) :
    (s.spawn l a ip).Exact := by
  intro ip'
  have hfirst : a.listener.firstState.live = true := by cases a.listener <;> rfl
  show (s.connectionsPerIp.increment ip).get ip' = (s.tasks ++ [_]).countP _
  rw [Counters.get_increment, List.countP_append, List.countP_singleton, hfirst]
  by_cases hip : ip' = ip
  · subst hip
    simpa [live] using h ip'
  · simpa [hip, Ne.symm hip, live] using h ip'

section Task

variable {t : Nat} {k : ConnectionTask Ip}

theorem Exact.decrement (h : s.Exact) (hk : s.tasks[t]? = some k) (hlive : k.state.live = true)
    {state : TaskState} (hdead : state.live = false) :
    Exact { s.setTask t k state with connectionsPerIp := s.connectionsPerIp.decrement k.ip } := by
  intro ip
  have hset := live_setTask hk state ip
  rw [hlive, hdead] at hset
  show (s.connectionsPerIp.decrement k.ip).get ip = (s.setTask t k state).live ip
  rw [Counters.get_decrement]
  by_cases hip : ip = k.ip
  · subst hip
    rw [if_pos rfl, h k.ip]
    simp at hset
    omega
  · rw [if_neg hip, h ip]
    simp [Ne.symm hip] at hset
    omega

theorem exact_removeEntry_iff (h : s.Exact) (hk : s.tasks[t]? = some k)
    (hstate : k.state = .emptied) : (s.removeEntry t k).Exact ↔ s.live k.ip = 0 := by
  have hlive : ∀ ip, (s.removeEntry t k).live ip = s.live ip := by
    intro ip
    have hset := live_setTask hk .ended ip
    rw [hstate] at hset
    exact Nat.add_right_cancel hset
  have hget : ∀ ip, (s.removeEntry t k).connectionsPerIp.get ip =
      if ip = k.ip then 0 else s.connectionsPerIp.get ip := Counters.get_erase k.ip
  constructor
  · intro hexact
    have hnone := hexact k.ip
    rw [hget, if_pos rfl, hlive] at hnone
    exact hnone.symm
  · intro hzero ip
    rw [hget, hlive]
    split
    · next hip => rw [hip, hzero]
    · exact h ip

end Task

/-- **The count stays exact, unless the removal of an entry finds live
connections.** -/
theorem exact_step_iff (h : s.Exact) (e : AdmissionEvent Ip) :
    (s.step e).Exact ↔ s.RemovesUnused e := by
  have heffect := s.step_effect e
  rw [RemovesUnused]
  generalize s.removal e = removed at heffect ⊢
  generalize s.step e = s' at heffect ⊢
  have hnone : ∀ ip ∈ (none : Option Ip), s.live ip = 0 := fun _ hip => nomatch hip
  cases heffect with
  | quiet tasks counts =>
    refine iff_of_true (fun ip => ?_) hnone
    rw [counts, h ip, live, live, tasks]
  | enters l a ip => exact iff_of_true (h.spawn l a ip) hnone
  | opens t k hk state =>
    refine iff_of_true (fun ip => ?_) hnone
    have hset := live_setTask hk .serving ip
    rw [state] at hset
    exact (h ip).trans (Nat.add_right_cancel hset).symm
  | leaves t k hk live state dead => exact iff_of_true (h.decrement hk live dead) hnone
  | removes t k hk state =>
    rw [exact_removeEntry_iff h hk state]
    constructor
    · rintro hzero _ ⟨⟩
      exact hzero
    · intro hunused
      exact hunused k.ip rfl

/-! ## Admission -/

/-- The loop that checks a peer has none admitted. -/
theorem pending_eq_zero {l : Nat} {a : AcceptLoop Ip} {ip : Ip} {limits : ConnectionLimits}
    (hl : s.loops[l]? = some a) (hstate : a.state = .checking ip limits)
    (hone : s.loops.length = 1) (ip' : Ip) : s.pending ip' = 0 := by
  obtain ⟨b, hb⟩ := List.length_eq_one_iff.mp hone
  rw [hb] at hl
  have hl := List.mem_singleton.mp (List.mem_of_getElem? hl)
  rw [pending, hb, List.countP_singleton, ← hl, hstate]
  rfl

theorem Exact.admitsWithin (h : s.Exact) (e : AdmissionEvent Ip) : s.AdmitsWithin e := by
  unfold AdmitsWithin
  split
  · intro a ip limits hl hstate hcheck max hmax
    obtain ⟨_, _, hcheck⟩ := bind_eq_ok.mp hcheck
    have hlt := require_eq_ok.mp hcheck max hmax
    rw [h ip] at hlt
    refine ⟨hlt, fun hone => ?_⟩
    rw [pending_eq_zero hl hstate hone]
    exact hlt
  · trivial

/-! ## Whole runs -/

theorem exact_new : (new : Admission Ip).Exact := fun _ => rfl

/-- **When the accounting is exact.** -/
theorem perIp_exact_iff (es : List (AdmissionEvent Ip)) :
    (Always step Exact new es ∧ StepsMeet step AdmitsWithin new es) ↔
      StepsMeet step RemovesUnused new es := by
  have hexact : Always step Exact new es ↔ StepsMeet step RemovesUnused new es :=
    always_iff_stepsMeet (fun s e h => exact_step_iff h e) exact_new
  constructor
  · rintro ⟨halways, _⟩
    exact hexact.mp halways
  · intro hunused
    refine ⟨hexact.mpr hunused, ?_⟩
    exact hunused.each (fun s e h hok => (exact_step_iff h e).mpr hok)
      (fun s e h _ => h.admitsWithin e) exact_new

/-- One TCP loop, one connection an address.  A connection is counted out, and the
address is counted again before its entry is removed. -/
def lostConnection : List (AdmissionEvent UInt32) :=
  [.setConnectionLimits ⟨none, some 1⟩, .serve .tcp,
    .loop 0 (.accept 7), .loop 0 (.check 0), .loop 0 .count, .task 0 .close,
    .loop 0 (.accept 7), .loop 0 (.check 0), .loop 0 .count, .task 0 .remove]

/-- **A connection lost.**  One connection is live and none counted; the next peer
from the address is admitted. -/
theorem removal_loses_connection :
    ¬ Always step Exact new lostConnection ∧
      ¬ StepsMeet step AdmitsWithin new
        (lostConnection ++ [.loop 0 (.accept 7), .loop 0 (.check 1)]) := by
  have hcount : (run step new lostConnection).connectionsPerIp.get 7 = 0 := by decide +kernel
  have hlive : (run step new lostConnection).live 7 = 1 := by decide +kernel
  constructor
  · intro h
    have hexact := h lostConnection (List.prefix_refl _) 7
    rw [hcount, hlive] at hexact
    cases hexact
  · intro h
    obtain ⟨_, _, hcheck, _⟩ := stepsMeet_append.mp h
    have hlt := (hcheck ⟨.tcp, .checking 7 ⟨none, some 1⟩⟩ 7 ⟨none, some 1⟩ (by decide +kernel) rfl
      (by decide +kernel) 1 rfl).1
    exact absurd (hlive ▸ hlt) (Nat.lt_irrefl 1)

end Admission

end Hla4
