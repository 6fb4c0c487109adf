/-
# `Hla4.Lib.Conservative` — conservative time coordination

Parties exchange timestamped messages.  A REGULATING party promises not to
send below `currentTime + lookahead`; a CONSTRAINED party may advance to a
requested time only when no promise is below it.  The network is a partial
family of parties, `Net ι T`, over any type of names and any linear order of
times.  How the sum is rounded is left open (`Lookahead`): all that is used of it
is that a later time has no smaller sum.

    Below net t        no regulating party's promise is below `t`
                       (`t` is at most the lower bound on time stamps)
    Grantable net i t  party `i` waits for `t` and may have it
    GrantRun           a sequence of grants, each grantable where it is applied
    grantAll           a round: everybody of a list is granted
    Conservative net   no constrained party is past any promise
    leastGranted net   the least set of waiting parties closed under granting

What is proved is what any implementation of the pattern needs, whatever order
it grants in: a grant only raises promises (`Advances`), so a bound that held
at one grant holds ever after (`GrantRun.below_at`); granting keeps the network
conservative (`GrantRun.conservative`); nobody outside the least closed set is
ever granted (`GrantRun.mem_leastGranted`), and a run that leaves nobody to grant
has granted all of it (`GrantRun.granted_eq`).
-/
import Mathlib.Data.List.Nodup
import Mathlib.Data.Set.Basic
import Mathlib.Order.Bounds.Defs
import Mathlib.Order.WithBot

namespace Lib

/-- One party's time state.  Both invariants are kept by every operation of
the pattern, so they are fields: a party never waits for a time in its past,
and never promises below its own time. -/
structure Party (T : Type) [LE T] [Zero T] where
  isRegulating : Bool
  isConstrained : Bool
  currentTime : T
  lookahead : T
  pendingAdvance : Option T
  lookahead_nonneg : 0 ≤ lookahead
  current_le_pending : ∀ t ∈ pendingAdvance, currentTime ≤ t

/-- The parties, by name; `none` is a name nobody bears. -/
abbrev Net (ι T : Type) [LE T] [Zero T] := ι → Option (Party T)

/-- How a lookahead is added to a time.  The sum may be rounded, and may be
beyond every time. -/
class Lookahead (T : Type) [LE T] where
  sum : T → T → WithTop T
  sum_mono : ∀ {t t' : T} (l : T), t ≤ t' → sum t l ≤ sum t' l

variable {ι T : Type} [LinearOrder T] [Zero T] [Lookahead T]

namespace Party

/-- The least timestamp a regulating party may still send. -/
def promise (p : Party T) : WithTop T := Lookahead.sum p.currentTime p.lookahead

/-- Apply a grant. -/
def grant (p : Party T) (t : T) : Party T :=
  { p with
    currentTime := t
    pendingAdvance := none
    current_le_pending := by simp }

/-- Grant whatever is pending. -/
def grantPending (p : Party T) : Party T :=
  match p.pendingAdvance with
  | some t => p.grant t
  | none => p

omit [Lookahead T] in
@[simp] theorem grantPending_pending (p : Party T) : p.grantPending.pendingAdvance = none := by
  unfold grantPending
  cases h : p.pendingAdvance with
  | none => exact h
  | some => rfl

end Party

namespace Net

variable {net net' : Net ι T} {i : ι} {t : T}

/-- `t` is at most the lower bound on time stamps. -/
def Below (net : Net ι T) (t : T) : Prop :=
  ∀ i p, net i = some p → p.isRegulating = true → (t : WithTop T) ≤ p.promise

/-- Party `i` waits for `t`, and `t` may be granted to it. -/
def Grantable (net : Net ι T) (i : ι) (t : T) : Prop :=
  ∃ p, net i = some p ∧ p.pendingAdvance = some t ∧
    (p.isConstrained = false ∨ net.Below t)

/-- No waiting party may be granted. -/
def Quiescent (net : Net ι T) : Prop := ∀ i t, ¬ net.Grantable i t

/-- No constrained party is past a promise. -/
def Conservative (net : Net ι T) : Prop :=
  ∀ i p, net i = some p → p.isConstrained = true → net.Below p.currentTime

/-- The network after party `i` is granted `t`. -/
def grant [DecidableEq ι] (net : Net ι T) (i : ι) (t : T) : Net ι T :=
  fun j => if j = i then (net i).map (·.grant t) else net j

/-! ## Grants only raise promises -/

/-- `net'` is `net` with some parties further on: nobody joined, left, changed
role or lookahead, or went back in time. -/
def Advances (net net' : Net ι T) : Prop :=
  ∀ i, (net i = none ∧ net' i = none) ∨
    ∃ p p', net i = some p ∧ net' i = some p' ∧ p'.isRegulating = p.isRegulating ∧
      p'.isConstrained = p.isConstrained ∧ p'.lookahead = p.lookahead ∧
      p.currentTime ≤ p'.currentTime

omit [Lookahead T] in
theorem Advances.refl (net : Net ι T) : net.Advances net := by
  intro i
  cases h : net i with
  | none => exact .inl ⟨rfl, rfl⟩
  | some p => exact .inr ⟨p, p, rfl, rfl, rfl, rfl, rfl, le_refl _⟩

omit [Lookahead T] in
theorem Advances.trans {net₁ net₂ net₃ : Net ι T} (h₁ : net₁.Advances net₂)
    (h₂ : net₂.Advances net₃) : net₁.Advances net₃ := by
  intro i
  rcases h₁ i with ⟨a, b⟩ | ⟨p, q, hp, hq, hr, hc, hl, ht⟩
  · rcases h₂ i with ⟨_, c⟩ | ⟨p, _, hp, _⟩
    · exact .inl ⟨a, c⟩
    · rw [b] at hp; cases hp
  · rcases h₂ i with ⟨b, _⟩ | ⟨q', r, hq', hr', hr₂, hc₂, hl₂, ht₂⟩
    · rw [b] at hq; cases hq
    · rw [hq] at hq'
      cases hq'
      exact .inr ⟨p, r, hp, hr', hr₂.trans hr, hc₂.trans hc, hl₂.trans hl, ht.trans ht₂⟩

theorem Below.mono (h : net.Advances net') (hb : net.Below t) :
    net'.Below t := by
  intro i p' hp' hreg
  rcases h i with ⟨_, hn⟩ | ⟨p, q, hp, hq, hr, _, hl, ht⟩
  · rw [hn] at hp'; cases hp'
  · rw [hq] at hp'
    cases hp'
    rw [hr] at hreg
    calc (t : WithTop T) ≤ Lookahead.sum p.currentTime p.lookahead := hb i p hp hreg
      _ ≤ Lookahead.sum p'.currentTime p.lookahead := Lookahead.sum_mono _ ht
      _ = p'.promise := by rw [Party.promise, hl]

/-- `net'` asks for no more than `net`: whoever regulates did so before and
promised no more, and whoever is constrained was so before and was as far. -/
def Relaxes (net net' : Net ι T) : Prop :=
  ∀ i p', net' i = some p' →
    (p'.isRegulating = true →
      ∃ p, net i = some p ∧ p.isRegulating = true ∧ p.promise ≤ p'.promise) ∧
    (p'.isConstrained = true →
      ∃ p, net i = some p ∧ p.isConstrained = true ∧ p'.currentTime ≤ p.currentTime)

theorem Conservative.relax (hr : net.Relaxes net') (hc : net.Conservative) :
    net'.Conservative := by
  intro i p' hp' hcon j q' hq' hreg
  obtain ⟨p, hp, hcon, hle⟩ := (hr i p' hp').2 hcon
  obtain ⟨q, hq, hreg, hpr⟩ := (hr j q' hq').1 hreg
  exact (WithTop.coe_le_coe.mpr hle).trans ((hc i p hp hcon j q hq hreg).trans hpr)

section Grant

variable [DecidableEq ι]

theorem advances_grant (h : net.Grantable i t) :
    net.Advances (net.grant i t) := by
  obtain ⟨p, hp, hpend, _⟩ := h
  intro j
  by_cases hj : j = i
  · subst hj
    refine .inr ⟨p, p.grant t, hp, ?_, rfl, rfl, rfl, p.current_le_pending t hpend⟩
    simp [grant, hp]
  · rcases Advances.refl net j with h | ⟨q, q', hq, hq', rest⟩
    · exact .inl ⟨h.1, by simp [grant, hj, h.1]⟩
    · exact .inr ⟨q, q', hq, by simp [grant, hj, hq'], rest⟩

theorem Grantable.after_grant {j : ι} {u : T} (hi : net.Grantable i t)
    (hj : net.Grantable j u) (hne : j ≠ i) :
    (net.grant i t).Grantable j u := by
  obtain ⟨p, hp, hpend, hok⟩ := hj
  refine ⟨p, ?_, hpend, hok.imp id fun hb => hb.mono (advances_grant hi)⟩
  rw [Net.grant, if_neg hne, hp]

omit [Lookahead T] in
theorem grant_pending {p : Party T} (h : net.grant i t i = some p) : p.pendingAdvance = none := by
  rw [Net.grant, if_pos rfl, Option.map_eq_some_iff] at h
  obtain ⟨q, _, rfl⟩ := h
  rfl

/-- Granting keeps a conservative network conservative: a granted constrained
party was within every promise, and no promise went down. -/
theorem Conservative.grant (h : net.Grantable i t) (hc : net.Conservative) :
    (net.grant i t).Conservative := by
  have hadv := advances_grant h
  obtain ⟨p, hp, hpend, hok⟩ := h
  intro j q hq hcon
  by_cases hj : j = i
  · subst hj
    simp only [Net.grant, if_true, hp, Option.map_some, Option.some.injEq] at hq
    subst hq
    rcases hok with hfree | hb
    · exact absurd hcon (by simp [Party.grant, hfree])
    · exact hb.mono hadv
  · simp only [Net.grant, hj, if_false] at hq
    exact (hc j q hq hcon).mono hadv

/-! ## Runs of grants -/

/-- A grant, with the network it was applied to. -/
structure GrantStep (ι T : Type) [LE T] [Zero T] where
  net : Net ι T
  party : ι
  time : T

/-- A sequence of grants, each grantable in the network it is applied to. -/
inductive GrantRun : Net ι T → List (GrantStep ι T) → Net ι T → Prop
  | done (net : Net ι T) : GrantRun net [] net
  | grant {net net' : Net ι T} {i : ι} {t : T} {steps : List (GrantStep ι T)} :
      net.Grantable i t → GrantRun (net.grant i t) steps net' →
      GrantRun net (⟨net, i, t⟩ :: steps) net'

namespace GrantRun

variable {net net' net'' : Net ι T} {steps steps' : List (GrantStep ι T)}

theorem append (h : GrantRun net steps net') (h' : GrantRun net' steps' net'') :
    GrantRun net (steps ++ steps') net'' := by
  induction h with
  | done => exact h'
  | grant hg _ ih => exact .grant hg (ih h')

theorem advances (h : GrantRun net steps net') : net.Advances net' := by
  induction h with
  | done => exact Advances.refl _
  | grant hg _ ih => exact (advances_grant hg).trans ih

theorem conservative (h : GrantRun net steps net')
    (hc : net.Conservative) : net'.Conservative := by
  induction h with
  | done => exact hc
  | grant hg _ ih => exact ih (hc.grant hg)

/-- Every grant of a run was grantable where it was applied, and the run only
advanced the network from there. -/
theorem step_mem (h : GrantRun net steps net') {g : GrantStep ι T} (hg : g ∈ steps) :
    g.net.Grantable g.party g.time ∧ g.net.Advances net' := by
  induction h with
  | done => cases hg
  | grant hgr hrest ih =>
    rcases List.mem_cons.mp hg with rfl | hg
    · exact ⟨hgr, (advances_grant hgr).trans hrest.advances⟩
    · exact ih hg

/-- **Safety of a run of grants.**  A grant to a constrained party is below
every promise when it is applied and when the run ends. -/
theorem below_at (h : GrantRun net steps net') {g : GrantStep ι T}
    (hg : g ∈ steps) {p : Party T} (hp : g.net g.party = some p) (hcon : p.isConstrained = true) :
    g.net.Below g.time ∧ net'.Below g.time := by
  obtain ⟨⟨q, hq, _, hok⟩, hadv⟩ := h.step_mem hg
  rw [hp] at hq
  cases hq
  rcases hok with hfree | hb
  · rw [hcon] at hfree; cases hfree
  · exact ⟨hb, hb.mono hadv⟩

end GrantRun

/-- The times granted to one party, in order. -/
def timesOf (i : ι) (steps : List (GrantStep ι T)) : List T :=
  (steps.filter fun g => g.party = i).map (·.time)

omit [Lookahead T] in
theorem timesOf_append (i : ι) (steps steps' : List (GrantStep ι T)) :
    timesOf i (steps ++ steps') = timesOf i steps ++ timesOf i steps' := by
  rw [timesOf, List.filter_append, List.map_append]
  rfl

omit [Lookahead T] in
theorem timesOf_cons (i : ι) (g : GrantStep ι T) (steps : List (GrantStep ι T)) :
    timesOf i (g :: steps) = (if g.party = i then [g.time] else []) ++ timesOf i steps := by
  rw [timesOf, List.filter_cons]
  by_cases h : g.party = i
  · simp [h, timesOf]
  · simp [h, timesOf]

/-- What a party of the network waits for. -/
def wait (net : Net ι T) (i : ι) : Option T := (net i).bind (·.pendingAdvance)

/-- **Nothing is lost in a run of grants**: what a party waited for it was
granted, or waits for still. -/
theorem GrantRun.wait_eq {steps : List (GrantStep ι T)} (h : GrantRun net steps net') (i : ι) :
    (net.wait i).toList = timesOf i steps ++ (net'.wait i).toList := by
  induction h with
  | done => rfl
  | @grant net net' j t steps hg _ ih =>
    obtain ⟨p, hp, hpend, _⟩ := hg
    rw [timesOf_cons]
    by_cases hij : j = i
    · -- from here on the party waits for nothing
      subst hij
      have hbefore : net.wait j = some t := by rw [wait, hp, Option.bind_some, hpend]
      have hafter : (net.grant j t).wait j = none := by
        rw [wait, Net.grant, if_pos rfl, hp]
        rfl
      rw [hafter] at ih
      rw [hbefore, if_pos rfl, List.append_assoc, ← ih]
      rfl
    · have hsame : (net.grant j t).wait i = net.wait i := by
        rw [wait, Net.grant, if_neg (Ne.symm hij), wait]
      rw [hsame] at ih
      rw [if_neg hij, List.nil_append, ih]

/-- Granting a list of requests one after the other. -/
def grantAll (net : Net ι T) : List (ι × T) → Net ι T
  | [] => net
  | (i, t) :: rest => (net.grant i t).grantAll rest

/-- The grants of `grantAll`, each with the network it was applied to. -/
def grantSteps (net : Net ι T) : List (ι × T) → List (GrantStep ι T)
  | [] => []
  | (i, t) :: rest => ⟨net, i, t⟩ :: (net.grant i t).grantSteps rest

omit [Lookahead T] in
theorem timesOf_grantSteps (net : Net ι T) (i : ι) (batch : List (ι × T)) :
    timesOf i (net.grantSteps batch) = (batch.filter fun e => e.1 = i).map Prod.snd := by
  induction batch generalizing net with
  | nil => rfl
  | cons e rest ih =>
    rw [grantSteps, timesOf_cons, ih, List.filter_cons]
    by_cases h : e.1 = i
    · simp [h]
    · simp [h]

omit [Lookahead T] in
theorem grantSteps_map (net : Net ι T) (batch : List (ι × T)) :
    (net.grantSteps batch).map (fun g => (g.party, g.time)) = batch := by
  induction batch generalizing net with
  | nil => rfl
  | cons e rest ih => exact congrArg (e :: ·) (ih _)

/-- A batch chosen against ONE bound is a run of grants: the grants before a
member of the batch leave it waiting and do not lower the bound. -/
theorem GrantRun.batch {batch : List (ι × T)}
    (hd : (batch.map Prod.fst).Nodup) (hg : ∀ e ∈ batch, net.Grantable e.1 e.2) :
    GrantRun net (net.grantSteps batch) (net.grantAll batch) := by
  induction batch generalizing net with
  | nil => exact .done net
  | cons e rest ih =>
    obtain ⟨i, t⟩ := e
    rw [List.map_cons, List.nodup_cons] at hd
    have hi : net.Grantable i t := hg (i, t) (List.mem_cons_self ..)
    refine .grant hi (ih hd.2 ?_)
    intro e he
    have hne : e.1 ≠ i := fun h => hd.1 (List.mem_map.mpr ⟨e, he, h⟩)
    exact hi.after_grant (hg e (List.mem_cons_of_mem _ he)) hne

/-! ## Rounds of grants -/

omit [Lookahead T] in
theorem grantAll_of_notMem {batch : List (ι × T)} (h : i ∉ batch.map Prod.fst) :
    net.grantAll batch i = net i := by
  induction batch generalizing net with
  | nil => rfl
  | cons e rest ih =>
    rw [List.map_cons, List.mem_cons, not_or] at h
    show (net.grant e.1 e.2).grantAll rest i = net i
    rw [ih h.2, Net.grant, if_neg h.1]

omit [Lookahead T] in
theorem grantAll_pending {batch : List (ι × T)} (h : i ∈ batch.map Prod.fst) {p : Party T}
    (hp : net.grantAll batch i = some p) :
    p.pendingAdvance = none := by
  induction batch generalizing net with
  | nil => cases h
  | cons e rest ih =>
    have hp' : (net.grant e.1 e.2).grantAll rest i = some p := hp
    by_cases hr : i ∈ rest.map Prod.fst
    · exact ih hr hp'
    · have hi : i = e.1 := (List.mem_cons.mp h).resolve_right hr
      rw [grantAll_of_notMem hr, Net.grant, if_pos hi, Option.map_eq_some_iff] at hp'
      obtain ⟨q, _, rfl⟩ := hp'
      rfl

/-- **One round is enough unless the bound rises.**  Grant everybody who may be
granted; if no time became grantable by that, nobody is left to grant. -/
theorem quiescent_grantAll {batch : List (ι × T)}
    (hall : ∀ i t, net.Grantable i t → i ∈ batch.map Prod.fst)
    (hbound : ∀ t, (net.grantAll batch).Below t → net.Below t) :
    (net.grantAll batch).Quiescent := by
  rintro i t ⟨p, hp, hpend, hok⟩
  by_cases hi : i ∈ batch.map Prod.fst
  · rw [grantAll_pending hi hp] at hpend
    cases hpend
  · rw [grantAll_of_notMem hi] at hp
    exact hi (hall i t ⟨p, hp, hpend, hok.imp id (hbound t)⟩)

/-- How many of the listed parties wait. -/
def waiting (net : Net ι T) (names : List ι) : Nat :=
  names.countP fun i => ((net i).bind (·.pendingAdvance)).isSome

theorem waiting_grantAll_lt {batch : List (ι × T)} {names : List ι} (hi : i ∈ batch.map Prod.fst)
    (hg : net.Grantable i t) (hn : i ∈ names) :
    (net.grantAll batch).waiting names < net.waiting names := by
  -- the waiting ones are among those that waited, and `i` is not any more
  have hmono : ∀ j, (((net.grantAll batch) j).bind (·.pendingAdvance)).isSome = true →
      ((net j).bind (·.pendingAdvance)).isSome = true := by
    intro j hj
    by_cases hb : j ∈ batch.map Prod.fst
    · cases hp : net.grantAll batch j with
      | none => simp [hp] at hj
      | some => simp [hp, grantAll_pending hb hp] at hj
    · rwa [grantAll_of_notMem hb] at hj
  have hafter : (((net.grantAll batch) i).bind (·.pendingAdvance)).isSome = false := by
    cases hp : net.grantAll batch i with
    | none => rfl
    | some => simp [grantAll_pending hi hp]
  have hbefore : ((net i).bind (·.pendingAdvance)).isSome = true := by
    obtain ⟨p, hp, hpend, _⟩ := hg
    simp [hp, hpend]
  obtain ⟨l₁, l₂, rfl⟩ := List.append_of_mem hn
  have h₁ := List.countP_mono_left (l := l₁) fun j _ => hmono j
  have h₂ := List.countP_mono_left (l := l₂) fun j _ => hmono j
  simp only [waiting, List.countP_append, List.countP_cons, hafter, hbefore, if_true]
  simp only [Bool.false_eq_true, if_false]
  omega

end Grant

/-! ## The least granted set -/

section Least

open Classical in
/-- The network with every waiting party of `G` granted what it waits for. -/
noncomputable def advanceSet (net : Net ι T) (G : Set ι) : Net ι T :=
  fun i => if i ∈ G then (net i).map Party.grantPending else net i

/-- `G` holds every waiting party that may be granted once all of `G` is. -/
def GrantClosed (net : Net ι T) (G : Set ι) : Prop :=
  ∀ i p t, net i = some p → p.pendingAdvance = some t →
    (p.isConstrained = false ∨ (net.advanceSet G).Below t) → i ∈ G

/-- The least closed set. -/
def leastGranted (net : Net ι T) : Set ι := {i | ∀ G, net.GrantClosed G → i ∈ G}

/-- `mid` is on the way from `net` to the network with all of `G` granted. -/
def OnTheWay (net : Net ι T) (G : Set ι) (mid : Net ι T) : Prop :=
  ∀ i, mid i = net i ∨ (i ∈ G ∧ mid i = (net i).map Party.grantPending)

omit [Lookahead T] in
theorem OnTheWay.advances {mid : Net ι T} {G : Set ι} (h : net.OnTheWay G mid) :
    mid.Advances (net.advanceSet G) := by
  have hgrant : ∀ p : Party T, p.currentTime ≤ p.grantPending.currentTime ∧
      p.grantPending.isRegulating = p.isRegulating ∧
      p.grantPending.isConstrained = p.isConstrained ∧
      p.grantPending.lookahead = p.lookahead := by
    intro p
    unfold Party.grantPending
    cases hp : p.pendingAdvance with
    | none => exact ⟨le_refl _, rfl, rfl, rfl⟩
    | some t => exact ⟨p.current_le_pending t hp, rfl, rfl, rfl⟩
  intro i
  rcases h i with he | ⟨hG, he⟩
  · -- not yet granted: either it stays, or `G` grants it
    cases hn : net i with
    | none =>
      left
      refine ⟨he.trans hn, ?_⟩
      simp [advanceSet, hn]
    | some p =>
      right
      by_cases hG : i ∈ G
      · obtain ⟨ht, hr, hc, hl⟩ := hgrant p
        exact ⟨p, p.grantPending, he.trans hn, by simp [advanceSet, hG, hn], hr, hc, hl, ht⟩
      · exact ⟨p, p, he.trans hn, by simp [advanceSet, hG, hn], rfl, rfl, rfl, le_refl _⟩
  · -- granted already: it is where `G` puts it
    have : net.advanceSet G i = mid i := by simp [advanceSet, hG, he]
    rcases Advances.refl mid i with ⟨h, _⟩ | ⟨p, q, hp, hq, rest⟩
    · exact .inl ⟨h, this.trans h⟩
    · exact .inr ⟨p, q, hp, this.trans hq, rest⟩

variable [DecidableEq ι] {steps : List (GrantStep ι T)} {g : GrantStep ι T}

/-- **Nobody outside the least closed set is granted**, and what is granted is
what the party was waiting for when the run started. -/
theorem GrantRun.mem_leastGranted (h : GrantRun net steps net')
    (hg : g ∈ steps) :
    g.party ∈ net.leastGranted ∧
      ∃ p, net g.party = some p ∧ p.pendingAdvance = some g.time ∧
        g.net g.party = some p := by
  -- every closed set `G` is followed separately; the run stays on the way to it
  have key : ∀ {mid net' : Net ι T} {steps : List (GrantStep ι T)}, GrantRun mid steps net' →
      ∀ {G : Set ι}, net.GrantClosed G → net.OnTheWay G mid → ∀ g ∈ steps,
        g.party ∈ G ∧ ∃ p, net g.party = some p ∧ p.pendingAdvance = some g.time ∧
          g.net g.party = some p := by
    intro mid net' steps hrun
    induction hrun with
    | done => intro G _ _ g hg; cases hg
    | @grant mid net' i t steps hgr _ ih =>
      intro G hG hway g hg
      obtain ⟨p, hp, hpend, hok⟩ := hgr
      -- `i` still waits, so the run has not granted it before
      have hsame : net i = some p := by
        rcases hway i with he | ⟨_, he⟩
        · exact he.symm.trans hp
        · rw [he] at hp
          cases hn : net i with
          | none => simp [hn] at hp
          | some =>
            simp only [hn, Option.map_some, Option.some.injEq] at hp
            rw [← hp, Party.grantPending_pending] at hpend
            cases hpend
      have hiG : i ∈ G := hG i p t hsame hpend (hok.imp id fun hb => hb.mono hway.advances)
      rcases List.mem_cons.mp hg with rfl | hg
      · exact ⟨hiG, p, hsame, hpend, hp⟩
      · refine ih hG ?_ g hg
        intro j
        by_cases hj : j = i
        · subst hj
          refine .inr ⟨hiG, ?_⟩
          simp [Net.grant, hp, hsame, Party.grantPending, hpend]
        · simpa [Net.grant, hj] using hway j
  have hstart : ∀ G : Set ι, net.OnTheWay G net := fun _ _ => .inl rfl
  refine ⟨fun G hG => (key h hG (hstart G) g hg).1, ?_⟩
  have huniv : net.GrantClosed Set.univ := fun _ _ _ _ _ _ => Set.mem_univ _
  exact (key h huniv (hstart _) g hg).2

theorem Grantable.mem_leastGranted {i : ι} {t : T} (h : net.Grantable i t) :
    i ∈ net.leastGranted :=
  ((GrantRun.grant h (.done _)).mem_leastGranted List.mem_cons_self).1

/-- Whoever may be granted after another grant is in the set too. -/
theorem Grantable.mem_leastGranted_after {i j : ι} {t u : T} (h : net.Grantable i t)
    (h' : (net.grant i t).Grantable j u) : j ∈ net.leastGranted :=
  ((GrantRun.grant h (.grant h' (.done _))).mem_leastGranted
    (List.mem_cons_of_mem _ List.mem_cons_self)).1

theorem GrantRun.not_granted (h : GrantRun net steps net')
    (hn : ∀ p, net g.party = some p → p.pendingAdvance = none) : g ∉ steps := by
  intro hg
  obtain ⟨_, p, hp, hpend, _⟩ := h.mem_leastGranted hg
  rw [hn p hp] at hpend
  cases hpend

/-- A party ends where it started, or with the one grant it got. -/
theorem GrantRun.eq_or_granted (h : GrantRun net steps net') (i : ι) :
    net' i = net i ∨ ∃ g ∈ steps, g.party = i ∧ net' i = (net i).map (·.grant g.time) := by
  induction h with
  | done => exact .inl rfl
  | @grant net net' j t steps hgr hrest ih =>
    by_cases hij : i = j
    · subst hij
      right
      refine ⟨_, List.mem_cons_self, rfl, ?_⟩
      rcases ih with he | ⟨g, hg, rfl, _⟩
      · rw [he, Net.grant, if_pos rfl]
      · -- granted now, so it is not granted again
        exact absurd hg (hrest.not_granted fun _ => grant_pending)
    · rw [Net.grant, if_neg hij] at ih
      rcases ih with he | ⟨g, hg, hgi, he⟩
      · exact .inl he
      · exact .inr ⟨g, List.mem_cons_of_mem _ hg, hgi, he⟩

/-- The parties a run granted. -/
def granted (steps : List (GrantStep ι T)) : Set ι := {i | ∃ g ∈ steps, g.party = i}

omit [DecidableEq ι] [Lookahead T] in
theorem onTheWay_advanceSet (net : Net ι T) {G G' : Set ι} (h : G ⊆ G') :
    net.OnTheWay G' (net.advanceSet G) := by
  intro i
  by_cases hi : i ∈ G
  · exact .inr ⟨h hi, if_pos hi⟩
  · exact .inl (if_neg hi)

omit [DecidableEq ι] in
/-- **The least closed set is closed.**  It is below every other. -/
theorem isLeast_leastGranted (net : Net ι T) :
    IsLeast {G | net.GrantClosed G} net.leastGranted := by
  refine ⟨?_, fun G hG i hi => hi G hG⟩
  intro i p t hp hpend hok G hG
  have hsub : net.leastGranted ⊆ G := fun j hj => hj G hG
  refine hG i p t hp hpend (hok.imp id fun hb => ?_)
  exact hb.mono (onTheWay_advanceSet net hsub).advances

omit [DecidableEq ι] in
/-- Everybody in the least closed set waits: the waiting parties are a closed
set. -/
theorem wait_of_mem_leastGranted (h : i ∈ net.leastGranted) :
    ∃ p t, net i = some p ∧ p.pendingAdvance = some t :=
  h {i | ∃ p t, net i = some p ∧ p.pendingAdvance = some t}
    fun _ p t hp hpend _ => ⟨p, t, hp, hpend⟩

/-- A run of grants advances the parties it grants, and nobody else. -/
theorem GrantRun.eq_advanceSet (h : GrantRun net steps net') :
    net' = net.advanceSet (granted steps) := by
  funext i
  by_cases hi : i ∈ granted steps
  · rw [advanceSet, if_pos hi]
    obtain ⟨g, hg, rfl⟩ := hi
    obtain ⟨-, p, hp, hpend, -⟩ := h.mem_leastGranted hg
    rcases h.eq_or_granted g.party with he | ⟨g', hg', hparty, he⟩
    · -- it would still wait, and then it was not granted
      have hwait := h.wait_eq g.party
      have hmem : g.time ∈ timesOf g.party steps :=
        List.mem_map.mpr ⟨g, List.mem_filter.mpr ⟨hg, by simp⟩, rfl⟩
      have hsame : net'.wait g.party = net.wait g.party := by rw [wait, wait, he]
      rw [hsame] at hwait
      have hnil := List.append_left_eq_self.mp hwait.symm
      rw [hnil] at hmem
      cases hmem
    · obtain ⟨-, p', hp', hpend', -⟩ := h.mem_leastGranted hg'
      rw [hparty, hp] at hp'
      cases hp'
      rw [he, hp, Option.map_some, Option.map_some, Party.grantPending, hpend']
  · rw [advanceSet, if_neg hi]
    rcases h.eq_or_granted i with he | ⟨g, hg, hparty, -⟩
    · exact he
    · exact absurd ⟨g, hg, hparty⟩ hi

/-- **A run that leaves nobody to grant has granted the least closed set.** -/
theorem GrantRun.granted_eq (h : GrantRun net steps net')
    (hq : net'.Quiescent) :
    granted steps = net.leastGranted := by
  refine Set.Subset.antisymm ?_ ((isLeast_leastGranted net).2 ?_)
  · rintro i ⟨g, hg, rfl⟩
    exact (h.mem_leastGranted hg).1
  · -- what the run left waiting is not grantable where the run ended
    intro i p t hp hpend hok
    by_contra hi
    refine hq i t ⟨p, ?_, hpend, hok.imp id fun hb => ?_⟩
    · rw [h.eq_advanceSet, advanceSet, if_neg hi, hp]
    · rw [h.eq_advanceSet]
      exact hb

end Least

end Net

end Lib
