/-
# `Hla4.Rti.Safety.LeastGrants` — a pass of grants grants the least closed set

Which federates should a pass grant?  Granting some moves LBTS, and that lets
others be granted.  A set of pending federates is CLOSED when nobody outside it
could be granted once all of it has been: it holds every pending federate that is
unconstrained, or asks for a time within the LBTS of the federation with the
whole set advanced.  `tryGrantPendingAdvances` grants the least closed set
(`advances_least_fixpoint`), from every federation and in every order of
iteration, and does nothing else.

The set is not computed anywhere.  The rounds of the pass are a run of grants
(`tryGrantPendingAdvances_run`), so they stay within every closed set; and they
end with nobody left to grant, so what they granted is closed.  Both are facts of
`Lib.Conservative` about the times alone; here they are carried over to the
federation and its callbacks.
-/
import Hla4.Rti.Safety.Requests

namespace Hla4

open Lib

namespace Federation

section Closed

variable (fed : Federation)

open Classical in
/-- The federation with every waiting federate of `G` at the time it asked
for. -/
noncomputable def advanceAll (G : Set FederateHandle) : Federation :=
  fed.modifyFederates fun h fs =>
    if h ∈ G then { fs with time := fs.time.grantPending } else fs

/-- The federates with a pending advance. -/
def pendingFederates : Set FederateHandle := {h | ∃ t, fed.Waits h t}

/-- `G` holds every pending federate that is unconstrained or asks for a time
within the LBTS after all of `G` has been advanced. -/
def GrantClosed (G : Set FederateHandle) : Prop :=
  ∀ h fs t, fed.federates.lookup h = some fs → fs.time.pendingAdvance = some t →
    (fs.time.isConstrained = false ∨ (t : Timestamp) ≤ (fed.advanceAll G).lbts) → h ∈ G

end Closed

variable {fed : Federation} {c : Caller} {G : Set FederateHandle}

theorem net_advanceAll : (fed.advanceAll G).net = fed.net.advanceSet G := by
  funext h
  show ((fed.federates.mapValues _).lookup h).map _ = _
  rw [HashMap.lookup_mapValues, Net.advanceSet, net]
  cases fed.federates.lookup h with
  | none => simp
  | some =>
    by_cases hG : h ∈ G
    · simp [hG]
    · simp [hG]

theorem grantClosed_iff : fed.GrantClosed G ↔ fed.net.GrantClosed G := by
  have hbound : ∀ t : ℚ,
      (t : Timestamp) ≤ (fed.advanceAll G).lbts ↔ (fed.net.advanceSet G).Below t := by
    intro t
    rw [coe_le_lbts, net_advanceAll]
  constructor
  · intro h i p t hp hpend hok
    obtain ⟨fs, hfs, rfl⟩ := net_eq_some.mp hp
    exact h i fs t hfs hpend (hok.imp id (hbound t).mpr)
  · intro h i fs t hfs hpend hok
    exact h i fs.time t (net_eq_some.mpr ⟨fs, hfs, rfl⟩) hpend (hok.imp id (hbound t).mp)

/-- The least closed set of the times is the least one of the federation. -/
theorem isLeast_leastGranted (fed : Federation) :
    IsLeast {G | G ⊆ fed.pendingFederates ∧ fed.GrantClosed G} fed.net.leastGranted := by
  have hleast := Net.isLeast_leastGranted fed.net
  refine ⟨⟨fun h hh => ?_, grantClosed_iff.mpr hleast.1⟩,
    fun G hG => hleast.2 (grantClosed_iff.mp hG.2)⟩
  obtain ⟨p, t, hp, hpend⟩ := Net.wait_of_mem_leastGranted hh
  exact ⟨t, waits_iff.mpr ⟨p, hp, hpend⟩⟩

end Federation

theorem FederateSession.eq_of_parts {fs fs' : FederateSession}
    (h : ∀ p : FederatePart, p.get fs = p.get fs') : fs = fs' := by
  obtain ⟨_, _, _, _, ⟨_, _, _, _, _, _, _, _⟩, _, _, _⟩ := fs
  obtain ⟨_, _, _, _, ⟨_, _, _, _, _, _, _, _⟩, _, _, _⟩ := fs'
  have hidentity := h .identity
  have hpublished := h .published
  have hsubscribed := h .subscribed
  have hdirected := h .directed
  simp only [FederatePart.get] at hidentity hpublished hsubscribed hdirected
  obtain ⟨rfl, rfl, rfl, rfl⟩ := hidentity
  obtain ⟨rfl, rfl⟩ := hpublished
  obtain ⟨rfl, rfl⟩ := hsubscribed
  obtain ⟨rfl, rfl⟩ := hdirected
  cases (h .discovered :)
  cases (h .subscribedRegions :)
  cases (h .time :)
  cases (h .switches :)
  cases (h .queue :)
  rfl

namespace Federation

variable {fed : Federation} {c : Caller} {G : Set FederateHandle}

theorem touches_advanceAll : Touches [.federate .time] fed (fed.advanceAll G) := by
  refine touches_modifyFederates [.time] ?_
  intro h fs q hq
  split
  · cases q <;> first | rfl | exact absurd (List.mem_singleton_self _) hq
  · rfl

/-- A federation that differs in its times only has the records its times say. -/
theorem lookup_of_net {fed' : Federation} (htouch : Touches [.federate .time] fed fed')
    (hnet : fed'.net = fed.net.advanceSet G) (h : FederateHandle) :
    fed'.federates.lookup h = (fed.advanceAll G).federates.lookup h := by
  have hpart : ∀ p : FederatePart, (fed'.federates.lookup h).map p.get =
      ((fed.advanceAll G).federates.lookup h).map p.get := by
    intro p
    by_cases hp : p = .time
    · subst hp
      exact congrFun (hnet.trans net_advanceAll.symm) h
    · have hout : Part.federate p ∉ [Part.federate .time] := by simpa using hp
      rw [htouch.federate hout h, touches_advanceAll.federate hout h]
  cases hl : fed'.federates.lookup h with
  | none =>
    have hnone := hpart .identity
    rw [hl, Option.map_none, eq_comm, Option.map_eq_none_iff] at hnone
    rw [hnone]
  | some =>
    have hsome := hpart .identity
    rw [hl, Option.map_some, eq_comm, Option.map_eq_some_iff] at hsome
    obtain ⟨fs', hl', -⟩ := hsome
    rw [hl']
    refine congrArg some (FederateSession.eq_of_parts fun p => ?_)
    simpa [hl, hl'] using hpart p

end Federation

/-! ## Callbacks -/

variable {c : Caller} {fed : Federation}

/-- Where all callbacks tell of grants, they are the grants told. -/
theorem bodiesFor_eq_grants {h : FederateHandle} {l : List OutboundCallback}
    (hall : ∀ cb ∈ l, ∃ t, cb.body = .timeAdvanceGrant t) :
    bodiesFor h l = (grantsTo h l).map .timeAdvanceGrant := by
  have hbodies : ∀ body ∈ bodiesFor h l, ∃ t, body = .timeAdvanceGrant t := by
    intro body hbody
    obtain ⟨cb, hcb, rfl⟩ := List.mem_map.mp hbody
    exact hall cb (List.mem_filter.mp hcb).1
  rw [grantsTo]
  generalize bodiesFor h l = bodies at hbodies
  induction bodies with
  | nil => rfl
  | cons body bodies ih =>
    obtain ⟨⟨t, rfl⟩, hrest⟩ := List.forall_mem_cons.mp hbodies
    have hone : CallbackRequest.grantTime? (.timeAdvanceGrant t) = some t := rfl
    rw [List.filterMap_cons_some hone, List.map_cons, ← ih hrest]

/-- Whoever is granted was granted once, what it waited for. -/
theorem timesOf_granted {h : FederateHandle} {t : ℚ}
    (hG : h ∈ Net.granted (fed.tryGrantPendingAdvances c).grants) (hw : fed.Waits h t) :
    Net.timesOf h (fed.tryGrantPendingAdvances c).grants = [t] := by
  have hrun : Net.GrantRun fed.net (fed.tryGrantPendingAdvances c).grants _ :=
    Federation.tryGrantPendingAdvances_run
  obtain ⟨p, hp, hpend⟩ := Federation.waits_iff.mp hw
  have hbefore : fed.net.wait h = some t := by rw [Net.wait, hp, Option.bind_some, hpend]
  have hafter : (fed.tryGrantPendingAdvances c).federation.net.wait h = none := by
    rw [Net.wait, hrun.eq_advanceSet, Net.advanceSet, if_pos hG, hp, Option.map_some,
      Option.bind_some, Party.grantPending_pending]
  have hwait := hrun.wait_eq h
  rw [hbefore, hafter] at hwait
  simpa using hwait.symm

/-! ## The pass -/

/-- A pass that grants the least closed set `G` and does nothing else. -/
structure GrantPass.Least (c : Caller) (fed : Federation) (G : Set FederateHandle)
    (pass : GrantPass) : Prop where
  least : IsLeast {G | G ⊆ fed.pendingFederates ∧ fed.GrantClosed G} G
  federates : ∀ h, pass.federation.federates.lookup h = (fed.advanceAll G).federates.lookup h
  others : fed.Touches [.federate .time] pass.federation
  told : ∀ h ∈ G, ∀ t, fed.Waits h t → (fed.recipient c h).isSome = true →
    bodiesFor h pass.callbacks = [.timeAdvanceGrant t]
  only : ∀ cb ∈ pass.callbacks, ∃ h ∈ G, cb.federate = some h
  rest : ∀ h fs t, pass.federation.federates.lookup h = some fs →
    fs.time.pendingAdvance = some t → fs.time.isConstrained = true ∧ pass.federation.lbts < t

/-- **A pass of grants grants the least closed set**: from every federation, in
every order of iteration, and with any amount of fuel beyond the number of
federates.  Its members are at the times they asked for and are told so once;
everybody else is as before, and nobody is left to grant. -/
theorem advances_least_fixpoint (c : Caller) (fed : Federation) :
    ∃ G, (∀ fuel, fed.federates.keys.length < fuel →
        Federation.grantRounds c fuel fed = fed.tryGrantPendingAdvances c) ∧
      (fed.tryGrantPendingAdvances c).Least c fed G := by
  have hrun : Net.GrantRun fed.net (fed.tryGrantPendingAdvances c).grants _ :=
    Federation.tryGrantPendingAdvances_run
  have hquiet : (fed.tryGrantPendingAdvances c).federation.net.Quiescent :=
    Federation.tryGrantPendingAdvances_quiescent
  have hgranted := hrun.granted_eq hquiet
  refine ⟨fed.net.leastGranted, fun fuel hfuel => ?_, ?_⟩
  · have hwaiting : fed.net.waiting fed.federates.keys ≤ fed.federates.keys.length :=
      List.countP_le_length
    exact Federation.grantRounds_fuel (fun h hh => AList.mem_keys.mp hh) (by omega) (by omega)
  · refine ⟨fed.isLeast_leastGranted, ?_, Federation.tryGrantPendingAdvances_touches, ?_, ?_, ?_⟩
    · exact Federation.lookup_of_net Federation.tryGrantPendingAdvances_touches
        (hgranted ▸ hrun.eq_advanceSet)
    · intro h hG t hw hconn
      have htells : (fed.tryGrantPendingAdvances c).TellsAll c fed := grantRounds_tellsAll _
      rw [bodiesFor_eq_grants fun cb hcb => ?_, htells h hconn, timesOf_granted (hgranted ▸ hG) hw]
      · rfl
      · obtain ⟨g, -, hbody, -⟩ := Federation.tryGrantPendingAdvances_callbacks hcb
        exact ⟨g.time, hbody⟩
    · intro cb hcb
      obtain ⟨g, hg, -, hfed, -⟩ := Federation.tryGrantPendingAdvances_callbacks hcb
      exact ⟨g.party, hgranted ▸ ⟨g, hg, rfl⟩, hfed⟩
    · intro h fs t hfs hpend
      have hnot := hquiet h t
      simp only [Net.Grantable, ← Federation.coe_le_lbts, not_exists, not_and, not_or,
        not_le] at hnot
      have hrest := hnot fs.time (Federation.net_eq_some.mpr ⟨fs, hfs, rfl⟩) hpend
      exact ⟨Bool.eq_true_of_not_eq_false hrest.1, hrest.2⟩

end Hla4
