/-
# `Hla4.Rti.Time` — LBTS and the granting of pending advances

`lbts` is the least promise of the regulating federates, `+∞` when there are
none.  `tryGrantPendingAdvances` grants whoever may be granted and starts over
as long as that raises the bound.

The federation's times are a `Lib.Net`, and the pass is a run of grants there
(`tryGrantPendingAdvances_run`) that ends with nobody left to grant
(`tryGrantPendingAdvances_quiescent`).  The recursion is on fuel; one more than
the number of federates is enough on every federation
(`tryGrantPendingAdvances_unroll`).
-/
import Hla4.Rti.Routing

namespace Hla4

open Lib

namespace Federation

/-- Lower Bound on Time Stamp. -/
def lbts (fed : Federation) : Timestamp :=
  ((fed.federates.values.filter (·.time.isRegulating)).map (·.time.promise)).foldl min ⊤

/-- The first pass: who can be granted, and what. -/
def toGrant (fed : Federation) (o : IterOrder FederateHandle) : List (FederateHandle × ℚ) :=
  (fed.sessions o).filterMap fun e =>
    e.2.time.pendingAdvance.bind fun pending =>
      if e.2.time.isConstrained = false ∨ (pending : Timestamp) ≤ fed.lbts then
        some (e.1, pending)
      else none

/-- Set a federate's time and clear its request. -/
def grant (fed : Federation) (h : FederateHandle) (t : ℚ) : Federation :=
  fed.modifyFederate h fun fs => { fs with time := fs.time.grant t }

/-- `federates.get(h)` is waiting for exactly `t`. -/
def Waits (fed : Federation) (h : FederateHandle) (t : ℚ) : Prop :=
  ((fed.federates.lookup h).bind (·.time.pendingAdvance)) = some t

instance (fed : Federation) (h : FederateHandle) (t : ℚ) : Decidable (fed.Waits h t) :=
  inferInstanceAs (Decidable (_ = _))

/-- The second pass: apply the grants still asked for; they are returned. -/
def applyGrants : Federation → List (FederateHandle × ℚ) → Federation × List (FederateHandle × ℚ)
  | fed, [] => (fed, [])
  | fed, (h, t) :: rest =>
    if fed.Waits h t then
      let done := applyGrants (fed.grant h t) rest
      (done.1, (h, t) :: done.2)
    else applyGrants fed rest

end Federation

/-- What a pass of grants produces. -/
structure GrantPass where
  federation : Federation
  callbacks : List OutboundCallback
  grants : List (Net.GrantStep FederateHandle ℚ)

/-- One pass, then another. -/
def GrantPass.andThen (a b : GrantPass) : GrantPass :=
  ⟨b.federation, a.callbacks ++ b.callbacks, a.grants ++ b.grants⟩

namespace Federation

/-- Both passes and the callbacks, without the recursion. -/
def grantRound (c : Caller) (fed : Federation) : GrantPass :=
  let done := fed.applyGrants (fed.toGrant c.env.federates)
  { federation := done.1
    callbacks := done.2.flatMap fun g => fanOut (done.1.ownConnection c g.1) (.timeAdvanceGrant g.2)
    grants := fed.net.grantSteps done.2 }

/-- The recursion, `fuel` rounds at most. -/
def grantRounds (c : Caller) : Nat → Federation → GrantPass
  | 0, fed => ⟨fed, [], []⟩
  | fuel + 1, fed =>
    if (fed.toGrant c.env.federates).isEmpty then ⟨fed, [], []⟩
    else if fed.lbts < (fed.grantRound c).federation.lbts then
      (fed.grantRound c).andThen (grantRounds c fuel (fed.grantRound c).federation)
    else fed.grantRound c

def tryGrantPendingAdvances (c : Caller) (fed : Federation) : GrantPass :=
  grantRounds c (fed.federates.keys.length + 1) fed

/-! ## LBTS -/

variable {fed : Federation} {c : Caller} {h : FederateHandle} {t : ℚ} {cb : OutboundCallback}
  {names : List FederateHandle}

theorem net_eq_some {p : TimeState} :
    fed.net h = some p ↔ ∃ fs, fed.federates.lookup h = some fs ∧ fs.time = p := by
  rw [net, Option.map_eq_some_iff]

private theorem le_foldl_min {l : List Timestamp} {b t : Timestamp} :
    t ≤ l.foldl min b ↔ t ≤ b ∧ ∀ x ∈ l, t ≤ x := by
  induction l generalizing b with
  | nil => simp
  | cons a l ih => simp [ih, and_assoc]

/-- A time is within LBTS when no promise is below it. -/
theorem coe_le_lbts : (t : Timestamp) ≤ fed.lbts ↔ fed.net.Below t := by
  rw [lbts, le_foldl_min]
  constructor
  · rintro ⟨_, hall⟩ h p hp hreg
    obtain ⟨fs, hfs, rfl⟩ := net_eq_some.mp hp
    exact hall _
      (List.mem_map.mpr ⟨fs, List.mem_filter.mpr ⟨HashMap.mem_values.mpr ⟨h, hfs⟩, hreg⟩, rfl⟩)
  · intro hb
    refine ⟨le_top, ?_⟩
    intro x hx
    obtain ⟨fs, hfs, rfl⟩ := List.mem_map.mp hx
    obtain ⟨hv, hreg⟩ := List.mem_filter.mp hfs
    obtain ⟨h, hfs⟩ := HashMap.mem_values.mp hv
    exact hb h fs.time (net_eq_some.mpr ⟨fs, hfs, rfl⟩) hreg

/-! ## The first pass -/

theorem grantable_iff : fed.net.Grantable h t ↔ ∃ fs, fed.federates.lookup h = some fs ∧
    fs.time.pendingAdvance = some t ∧
    (fs.time.isConstrained = false ∨ (t : Timestamp) ≤ fed.lbts) := by
  constructor
  · rintro ⟨p, hp, hpend, hok⟩
    obtain ⟨fs, hfs, rfl⟩ := net_eq_some.mp hp
    exact ⟨fs, hfs, hpend, hok.imp id coe_le_lbts.mpr⟩
  · rintro ⟨fs, hfs, hpend, hok⟩
    exact ⟨fs.time, net_eq_some.mpr ⟨fs, hfs, rfl⟩, hpend, hok.imp id coe_le_lbts.mp⟩

theorem mem_toGrant {o : IterOrder FederateHandle} :
    (h, t) ∈ fed.toGrant o ↔ fed.net.Grantable h t := by
  simp only [grantable_iff, toGrant, List.mem_filterMap, Option.bind_eq_some_iff,
    Option.ite_none_right_eq_some]
  constructor
  · rintro ⟨⟨h', fs⟩, he, t', ht', hok, hpair⟩
    cases hpair
    exact ⟨fs, mem_sessions.mp he, ht', hok⟩
  · rintro ⟨fs, hfs, hpend, hok⟩
    exact ⟨(h, fs), mem_sessions.mpr hfs, t, hpend, hok, rfl⟩

theorem nodup_toGrant {o : IterOrder FederateHandle} : ((fed.toGrant o).map Prod.fst).Nodup := by
  refine nodup_sessions.sublist (filterMap_keys_sublist Prod.fst Prod.fst ?_ (fed.sessions o))
  intro e g hg
  obtain ⟨t, _, hif⟩ := Option.bind_eq_some_iff.mp hg
  split at hif
  · cases hif; rfl
  · cases hif

/-! ## The second pass -/

theorem net_grant (h : FederateHandle) (t : ℚ) : (fed.grant h t).net = fed.net.grant h t := by
  funext k
  show ((fed.federates.modify h _).lookup k).map (·.time) = _
  rw [HashMap.lookup_modify, Net.grant]
  split
  · show ((fed.federates.lookup h).map _).map _ = ((fed.federates.lookup h).map _).map _
    rw [Option.map_map, Option.map_map]
    rfl
  · rfl

theorem touches_grant (h : FederateHandle) (t : ℚ) :
    Touches [.federate .time] fed (fed.grant h t) := by
  refine touches_modifyFederate [.time] ?_
  intro fs q hq
  cases q <;> first | rfl | exact absurd (List.mem_singleton_self _) hq

theorem touches_applyGrants (batch : List (FederateHandle × ℚ)) :
    Touches [.federate .time] fed (fed.applyGrants batch).1 := by
  induction batch generalizing fed with
  | nil => exact .refl
  | cons e rest ih =>
    rw [applyGrants]
    split
    · exact (touches_grant e.1 e.2).trans ih
    · exact ih

theorem waits_iff :
    fed.Waits h t ↔ ∃ p, fed.net h = some p ∧ p.pendingAdvance = some t := by
  simp only [Waits, Option.bind_eq_some_iff, net, Option.map_eq_some_iff]
  constructor
  · rintro ⟨fs, hfs, hp⟩
    exact ⟨fs.time, ⟨fs, hfs, rfl⟩, hp⟩
  · rintro ⟨_, ⟨fs, hfs, rfl⟩, hp⟩
    exact ⟨fs, hfs, hp⟩

theorem wait_eq_some : fed.net.wait h = some t ↔ fed.Waits h t := by
  rw [Net.wait, waits_iff, Option.bind_eq_some_iff]

/-- Nothing intervenes between the two passes, so everything asked for is
granted: no entry of the batch disturbs a later one. -/
theorem applyGrants_eq {batch : List (FederateHandle × ℚ)} (hd : (batch.map Prod.fst).Nodup)
    (hw : ∀ e ∈ batch, fed.Waits e.1 e.2) :
    (fed.applyGrants batch).2 = batch ∧
      (fed.applyGrants batch).1.net = fed.net.grantAll batch := by
  induction batch generalizing fed with
  | nil => exact ⟨rfl, rfl⟩
  | cons e rest ih =>
    rw [List.map_cons, List.nodup_cons] at hd
    have hrest : ∀ e' ∈ rest, (fed.grant e.1 e.2).Waits e'.1 e'.2 := by
      intro e' he'
      have hne : e'.1 ≠ e.1 := fun h => hd.1 (List.mem_map.mpr ⟨e', he', h⟩)
      obtain ⟨p, hp, hpend⟩ := waits_iff.mp (hw e' (List.mem_cons_of_mem _ he'))
      refine waits_iff.mpr ⟨p, ?_, hpend⟩
      rw [net_grant, Net.grant, if_neg hne, hp]
    obtain ⟨hl, hn⟩ := ih hd.2 hrest
    rw [applyGrants, if_pos (hw e List.mem_cons_self)]
    refine ⟨congrArg (e :: ·) hl, ?_⟩
    show (applyGrants (fed.grant e.1 e.2) rest).1.net = (fed.net.grant e.1 e.2).grantAll rest
    rw [hn, net_grant]

/-! ## One round -/

theorem applyGrants_toGrant (o : IterOrder FederateHandle) :
    (fed.applyGrants (fed.toGrant o)).2 = fed.toGrant o ∧
      (fed.applyGrants (fed.toGrant o)).1.net = fed.net.grantAll (fed.toGrant o) := by
  refine applyGrants_eq nodup_toGrant ?_
  rintro ⟨h, t⟩ he
  obtain ⟨p, hp, hpend, _⟩ := mem_toGrant.mp he
  exact waits_iff.mpr ⟨p, hp, hpend⟩

theorem grantRound_net : (fed.grantRound c).federation.net =
    fed.net.grantAll (fed.toGrant c.env.federates) :=
  (applyGrants_toGrant _).2

theorem grantRound_grants : (fed.grantRound c).grants =
    fed.net.grantSteps (fed.toGrant c.env.federates) :=
  congrArg fed.net.grantSteps (applyGrants_toGrant _).1

theorem grantRound_run :
    Net.GrantRun fed.net (fed.grantRound c).grants (fed.grantRound c).federation.net := by
  rw [grantRound_net, grantRound_grants]
  exact Net.GrantRun.batch nodup_toGrant fun e he => mem_toGrant.mp he

theorem grantRound_touches : Touches [.federate .time] fed (fed.grantRound c).federation :=
  touches_applyGrants _

theorem grantRound_callbacks (hcb : cb ∈ (fed.grantRound c).callbacks) :
    ∃ g ∈ (fed.grantRound c).grants,
      cb.body = .timeAdvanceGrant g.time ∧ cb.federate = some g.party ∧
        ∃ r, fed.recipient c g.party = some r := by
  obtain ⟨⟨h, t⟩, hg, hcb⟩ := List.mem_flatMap.mp hcb
  obtain ⟨hbody, hfed, r, hr⟩ := mem_fanOut_own hcb
  rw [(applyGrants_toGrant _).1, ← fed.net.grantSteps_map (fed.toGrant _), ← grantRound_grants]
    at hg
  obtain ⟨g, hmem, he⟩ := List.mem_map.mp hg
  cases he
  exact ⟨g, hmem, hbody, hfed, grantRound_touches.reaches (by decide) hr⟩

/-- A round that does not raise LBTS leaves nobody to grant. -/
theorem grantRound_quiescent (h : ¬ fed.lbts < (fed.grantRound c).federation.lbts) :
    (fed.grantRound c).federation.net.Quiescent := by
  rw [grantRound_net]
  refine Net.quiescent_grantAll ?_ ?_
  · intro i t hg
    exact List.mem_map.mpr ⟨(i, t), mem_toGrant.mpr hg, rfl⟩
  · intro t hb
    rw [← grantRound_net, ← coe_le_lbts] at hb
    exact coe_le_lbts.mp (hb.trans (not_lt.mp h))

/-- Nobody to grant is what an empty first pass means. -/
theorem quiescent_of_isEmpty (h : (fed.toGrant c.env.federates).isEmpty = true) :
    fed.net.Quiescent := by
  intro i t hg
  have hm := mem_toGrant (o := c.env.federates).mpr hg
  rw [List.isEmpty_iff.mp h] at hm
  cases hm

/-! ## The recursion -/

theorem grantRounds_run (fuel : Nat) :
    Net.GrantRun fed.net (grantRounds c fuel fed).grants (grantRounds c fuel fed).federation.net := by
  induction fuel generalizing fed with
  | zero => exact .done _
  | succ fuel ih =>
    rw [grantRounds]
    split
    · exact .done _
    · split
      · exact grantRound_run.append ih
      · exact grantRound_run

theorem grantRounds_touches (fuel : Nat) :
    Touches [.federate .time] fed (grantRounds c fuel fed).federation := by
  induction fuel generalizing fed with
  | zero => exact .refl
  | succ fuel ih =>
    rw [grantRounds]
    split
    · exact .refl
    · split
      · exact grantRound_touches.trans ih
      · exact grantRound_touches

theorem grantRounds_callbacks (fuel : Nat) (hcb : cb ∈ (grantRounds c fuel fed).callbacks) :
    ∃ g ∈ (grantRounds c fuel fed).grants,
      cb.body = .timeAdvanceGrant g.time ∧ cb.federate = some g.party ∧
        ∃ r, fed.recipient c g.party = some r := by
  induction fuel generalizing fed with
  | zero => cases hcb
  | succ fuel ih =>
    rw [grantRounds] at hcb ⊢
    split at hcb
    · cases hcb
    · next hne =>
        rw [if_neg hne]
        split at hcb
        · next hlt =>
            rw [if_pos hlt]
            rcases List.mem_append.mp hcb with hcb | hcb
            · obtain ⟨g, hg, rest⟩ := grantRound_callbacks hcb
              exact ⟨g, List.mem_append_left _ hg, rest⟩
            · obtain ⟨g, hg, hbody, hfed, r, hr⟩ := ih hcb
              exact ⟨g, List.mem_append_right _ hg, hbody, hfed,
                grantRound_touches.reaches (by decide) hr⟩
        · next hnlt =>
            rw [if_neg hnlt]
            exact grantRound_callbacks hcb

/-- A round takes at least one federate off the waiting ones.  `names` is any
list that holds every joined federate. -/
theorem waiting_grantRound_lt (hnames : ∀ h ∈ fed.federates, h ∈ names)
    (hne : ¬ (fed.toGrant c.env.federates).isEmpty = true) :
    (fed.grantRound c).federation.net.waiting names < fed.net.waiting names := by
  obtain ⟨⟨h, t⟩, he⟩ := List.exists_mem_of_ne_nil _ fun hnil => hne (List.isEmpty_iff.mpr hnil)
  have hg := mem_toGrant.mp he
  rw [grantRound_net]
  refine Net.waiting_grantAll_lt (List.mem_map.mpr ⟨_, he, rfl⟩) hg ?_
  obtain ⟨p, hp, _⟩ := hg
  obtain ⟨fs, hfs, _⟩ := net_eq_some.mp hp
  exact hnames h (HashMap.mem_of_lookup hfs)

theorem grantRound_joined (hnames : ∀ h ∈ fed.federates, h ∈ names) :
    ∀ h ∈ (fed.grantRound c).federation.federates, h ∈ names := fun h hh =>
  hnames h ((grantRound_touches.mem_federates (by decide) h).mp hh)

theorem grantRounds_quiescent (fuel : Nat) (hnames : ∀ h ∈ fed.federates, h ∈ names)
    (hfuel : fed.net.waiting names < fuel) :
    (grantRounds c fuel fed).federation.net.Quiescent := by
  induction fuel generalizing fed with
  | zero => exact absurd hfuel (Nat.not_lt_zero _)
  | succ fuel ih =>
    rw [grantRounds]
    split
    · next hempty => exact quiescent_of_isEmpty hempty
    · next hne =>
        split
        · have hlt := waiting_grantRound_lt hnames hne
          exact ih (grantRound_joined hnames) (Nat.lt_of_lt_of_le hlt (Nat.le_of_lt_succ hfuel))
        · next hnlt => exact grantRound_quiescent hnlt

/-- Fuel beyond the number of waiting federates changes nothing. -/
theorem grantRounds_fuel {fuel fuel' : Nat} (hnames : ∀ h ∈ fed.federates, h ∈ names)
    (hfuel : fed.net.waiting names < fuel) (hfuel' : fed.net.waiting names < fuel') :
    grantRounds c fuel fed = grantRounds c fuel' fed := by
  induction fuel generalizing fed fuel' with
  | zero => exact absurd hfuel (Nat.not_lt_zero _)
  | succ fuel ih =>
    cases fuel' with
    | zero => exact absurd hfuel' (Nat.not_lt_zero _)
    | succ =>
      rw [grantRounds, grantRounds]
      split
      · rfl
      · next hne =>
          have hlt := waiting_grantRound_lt (c := c) hnames hne
          rw [ih (grantRound_joined hnames) (Nat.lt_of_lt_of_le hlt (Nat.le_of_lt_succ hfuel))
            (Nat.lt_of_lt_of_le hlt (Nat.le_of_lt_succ hfuel'))]

private theorem waiting_keys_lt : fed.net.waiting fed.federates.keys < fed.federates.keys.length + 1 :=
  Nat.lt_succ_of_le List.countP_le_length

/-- The source's recursion, without fuel. -/
theorem tryGrantPendingAdvances_unroll :
    fed.tryGrantPendingAdvances c =
      if (fed.toGrant c.env.federates).isEmpty then ⟨fed, [], []⟩
      else if fed.lbts < (fed.grantRound c).federation.lbts then
        (fed.grantRound c).andThen ((fed.grantRound c).federation.tryGrantPendingAdvances c)
      else fed.grantRound c := by
  rw [tryGrantPendingAdvances, grantRounds]
  split
  · rfl
  · next hne =>
      have hnames : ∀ h ∈ fed.federates, h ∈ fed.federates.keys := fun h hh => AList.mem_keys.mp hh
      have hlt := waiting_grantRound_lt (c := c) hnames hne
      have hfuel := Nat.lt_of_lt_of_le hlt (Nat.le_of_lt_succ waiting_keys_lt)
      -- the fuel left here and the fuel the callee starts with are both enough
      have hkeys : (fed.grantRound c).federation.federates.keys.length = fed.federates.keys.length := by
        refine List.Perm.length_eq ((List.perm_ext_iff_of_nodup ?_ ?_).mpr ?_)
        · exact AList.keys_nodup _
        · exact AList.keys_nodup _
        · intro h
          rw [← AList.mem_keys, ← AList.mem_keys]
          exact grantRound_touches.mem_federates (by decide) h
      rw [tryGrantPendingAdvances, hkeys,
        grantRounds_fuel (grantRound_joined hnames) hfuel (Nat.lt_succ_of_lt hfuel)]

theorem tryGrantPendingAdvances_run :
    Net.GrantRun fed.net (fed.tryGrantPendingAdvances c).grants
      (fed.tryGrantPendingAdvances c).federation.net :=
  grantRounds_run _

theorem tryGrantPendingAdvances_touches :
    Touches [.federate .time] fed (fed.tryGrantPendingAdvances c).federation :=
  grantRounds_touches _

theorem tryGrantPendingAdvances_callbacks (hcb : cb ∈ (fed.tryGrantPendingAdvances c).callbacks) :
    ∃ g ∈ (fed.tryGrantPendingAdvances c).grants,
      cb.body = .timeAdvanceGrant g.time ∧ cb.federate = some g.party ∧
        ∃ r, fed.recipient c g.party = some r :=
  grantRounds_callbacks _ hcb

theorem tryGrantPendingAdvances_quiescent :
    (fed.tryGrantPendingAdvances c).federation.net.Quiescent :=
  grantRounds_quiescent _ (fun _ hh => AList.mem_keys.mp hh) waiting_keys_lt

end Federation

end Hla4
