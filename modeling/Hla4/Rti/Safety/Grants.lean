/-
# `Hla4.Rti.Safety.Grants` — what is granted, and what is left waiting

**Safety.**  The grants of a call are a run of grants of the network the call's
own change left (`serve_run`).  Conservative coordination does the rest: a
grant to a constrained federate is below every promise when it is applied and
when the call returns.

-/
import Hla4.Rti.Node

namespace Hla4

open Lib

variable {c : Caller} {fed : Federation}

/-- The federation the grants of a request start from: for a time request that
passes its checks, with the caller's new time state. -/
def grantsStart (c : Caller) (fed : Federation) : ServiceRequest → Federation
  | .time r =>
    match timeSection c fed r with
    | .ok s => s.federation
    | .error _ => fed
  | _ => fed

theorem serve_run (req : ServiceRequest) :
    Net.GrantRun (grantsStart c fed req).net (serve c fed req).grants
      (serve c fed req).federation.net := by
  by_cases hr : ∃ r, req = .time r
  · obtain ⟨r, rfl⟩ := hr
    rw [grantsStart, serve]
    rcases serveTime_cases c fed r with ⟨e, hs, he⟩ | ⟨s, resp, own, hs, _, hcase⟩
    · rw [hs, he]
      exact .done _
    · rcases hcase with ⟨_, he⟩ | ⟨_, pass, hpass, he⟩
      · rw [hs, he]
        exact .done _
      · rw [hs, he]
        exact hpass.run
  · have hconf : (serve c fed req).Confined untimedParts CallbackRequest.NotGrant fed :=
      serve_confined (not_exists.mp hr)
    have hstart : grantsStart c fed req = fed := by
      cases req with
      | time r => exact absurd ⟨r, rfl⟩ hr
      | _ => rfl
    rw [hstart, hconf.grants, hconf.touches.net (by decide)]
    exact .done _

theorem serve_tells (req : ServiceRequest) :
    ∀ cb ∈ (serve c fed req).callbacks, cb.Tells (serve c fed req).grants ∨ cb.body.NotGrant := by
  by_cases hr : ∃ r, req = .time r
  · obtain ⟨r, rfl⟩ := hr
    rw [serve]
    rcases serveTime_cases c fed r with ⟨e, hs, he⟩ | ⟨s, resp, own, hs, hown, hcase⟩
    · rw [he]
      exact fun _ h => nomatch h
    · rcases hcase with ⟨_, he⟩ | ⟨_, pass, hpass, he⟩
      · rw [he]
        exact fun cb hcb => .inr (hown cb hcb).1.notGrant
      · rw [he]
        intro cb hcb
        rcases List.mem_append.mp hcb with hcb | hcb
        · exact .inr (hown cb hcb).1.notGrant
        · exact (hpass.callbacks cb hcb).imp id fun h => h.notGrant
  · exact fun cb hcb => .inr ((serve_confined (not_exists.mp hr)).bodies cb hcb)

/-- A section that takes no role on and lowers no promise asks for no more. -/
theorem TimeSection.Changes.relaxes {s : TimeSection} {t : TimeState} (h : s.Changes c fed t)
    (hreg : t.isRegulating = true →
      s.caller.time.isRegulating = true ∧ s.caller.time.promise ≤ t.promise)
    (hcon : t.isConstrained = true →
      s.caller.time.isConstrained = true ∧ t.currentTime ≤ s.caller.time.currentTime) :
    fed.net.Relaxes s.federation.net := by
  intro i p' hp'
  rw [h.federation, net_setTime h.caller] at hp'
  split at hp'
  · next hi =>
      have hp : fed.net i = some s.caller.time :=
        Federation.net_eq_some.mpr ⟨s.caller, hi ▸ h.caller, rfl⟩
      cases hp'
      exact ⟨fun h => ⟨_, hp, hreg h⟩, fun h => ⟨_, hp, hcon h⟩⟩
  · exact ⟨fun h => ⟨p', hp', h, le_refl _⟩, fun h => ⟨p', hp', h, le_refl _⟩⟩

theorem advance_relaxes {service : AdvanceService} {time : WireField} {s : TimeSection}
    (h : timeSection c fed (.advance service time) = .ok s) :
    fed.net.Relaxes s.federation.net := by
  obtain ⟨t, ht, hch⟩ := timeSection_eq_ok.mp h
  obtain ⟨_, _, _, _, _, rfl⟩ := TimeRequest.change_eq_some.mp ht
  exact hch.relaxes (fun h => ⟨h, le_refl _⟩) (fun h => ⟨h, le_refl _⟩)

/-- **Conservative grant safety.**  Whatever the state of the node and whatever
the call, a grant callback tells of a grant of the call; the grants are a run,
from the state the call's own change left to the state it returns in; a grant
to a constrained federate is below every promise where it is applied and where
the call returns.  An advance request keeps a conservative federation
conservative. -/
theorem Node.grants_conservative {n : Node} {t : Transport} {env : CallEnv} {request : CallRequest}
    {o : CallOutcome} (ho : n.outcome t env request = some o) :
    (∀ cb ∈ o.callbacks, ∀ T, cb.body = .timeAdvanceGrant T →
      ∃ g ∈ o.grants, g.time = T ∧ cb.federate = some g.party) ∧
    (o.grants ≠ [] → ∃ r c req, n.action (.call t env request) = some (r, .serve c req)) ∧
    ∀ r c req, n.action (.call t env request) = some (r, .serve c req) →
      Net.GrantRun (grantsStart c (n.heap r) req).net o.grants (o.node.heap r).net ∧
      (∀ g ∈ o.grants, ∀ p, g.net g.party = some p → p.isConstrained = true →
        g.net.Below g.time ∧ (o.node.heap r).net.Below g.time) ∧
      (∀ service time, req = .time (.advance service time) → (n.heap r).net.Conservative →
        (o.node.heap r).net.Conservative) := by
  by_cases ha : ∃ r c req, n.action (.call t env request) = some (r, .serve c req)
  · obtain ⟨r, c, req, ha⟩ := ha
    obtain ⟨hcb, hg, hheap⟩ := Node.outcome_serve ho ha
    have hrun : Net.GrantRun (grantsStart c (n.heap r) req).net o.grants (o.node.heap r).net := by
      rw [hg, hheap]
      exact serve_run req
    refine ⟨?_, fun _ => ⟨r, c, req, ha⟩, ?_⟩
    · intro cb hmem T hbody
      rw [hcb] at hmem
      rcases serve_tells req cb hmem with ⟨g, hgm, hg', hfed⟩ | hnot
      · refine ⟨g, hg ▸ hgm, ?_, hfed⟩
        exact (CallbackRequest.timeAdvanceGrant.inj (hbody.symm.trans hg')).symm
      · exact absurd hbody (hnot T)
    · intro r' c' req' ha'
      cases ha.symm.trans ha'
      refine ⟨hrun, fun g hgm p hp hcon => hrun.below_at hgm hp hcon, ?_⟩
      rintro service time rfl hcons
      refine hrun.conservative ?_
      rw [grantsStart]
      cases hs : timeSection c (n.heap r) (.advance service time) with
      | error => exact hcons
      | ok => exact hcons.relax (advance_relaxes hs)
  · have hnot : ∀ r c req, n.action (.call t env request) ≠ some (r, .serve c req) :=
      fun r c req h => ha ⟨r, c, req, h⟩
    obtain ⟨hg, hcb⟩ := (Node.outcome_reports ho hnot).quiet
    refine ⟨?_, fun h => absurd hg h, fun r c req h => absurd h (hnot r c req)⟩
    intro cb hmem T hbody
    exact absurd hbody ((hcb cb hmem).notGrant T)

/-- Federate 1 goes to time 5 at once, and federate 2, which waits for 5, after
it. -/
theorem Node.grants_conservative_cascade :
    ∃ o, (run Node.step Node.new pairWaiting).outcome 0 .plain
        (.service (.time (.advance .timeAdvanceRequest wireFive))) = some o ∧
      o.grants.map (fun g => (g.party, g.time)) = [(⟨1⟩, 5), (⟨2⟩, 5)] ∧
      ∃ r, ∀ g ∈ o.grants, ∀ p, g.net g.party = some p → p.isConstrained = true →
        g.net.Below g.time ∧ (o.node.heap r).net.Below g.time := by
  have hrun : ((run Node.step Node.new pairWaiting).outcome 0 .plain
      (.service (.time (.advance .timeAdvanceRequest wireFive)))).map
      (fun o => o.grants.map fun g => (g.party, g.time)) = some [(⟨1⟩, 5), (⟨2⟩, 5)] := by
    decide +kernel
  obtain ⟨o, ho, hg⟩ := Option.map_eq_some_iff.mp hrun
  have hne : o.grants ≠ [] := fun h => by rw [h] at hg; cases hg
  obtain ⟨_, hserve, hsafe⟩ := Node.grants_conservative ho
  obtain ⟨r, c, req, ha⟩ := hserve hne
  exact ⟨o, ho, hg, r, (hsafe r c req ha).2.1⟩

/-! ## Nobody is left waiting for a time it may have -/

/-- Whoever waits is constrained, and waits for a time beyond the bound. -/
def Federation.NoneOverdue (fed : Federation) : Prop :=
  ∀ h fs t, fed.federates.lookup h = some fs → fs.time.pendingAdvance = some t →
    fs.time.isConstrained = true ∧ fed.lbts < t

theorem Federation.noneOverdue_iff : fed.NoneOverdue ↔ fed.net.Quiescent := by
  constructor
  · rintro hn h t ⟨p, hp, hpend, hok⟩
    obtain ⟨fs, hfs, rfl⟩ := Federation.net_eq_some.mp hp
    obtain ⟨hcon, hlt⟩ := hn h fs t hfs hpend
    rcases hok with hfree | hbelow
    · rw [hcon] at hfree
      cases hfree
    · exact absurd (Federation.coe_le_lbts.mpr hbelow) (not_le.mpr hlt)
  · intro hq h fs t hfs hpend
    have hp : fed.net h = some fs.time := Federation.net_eq_some.mpr ⟨fs, hfs, rfl⟩
    constructor
    · by_contra hfree
      exact hq h t ⟨_, hp, hpend, .inl (Bool.eq_false_iff.mpr hfree)⟩
    · by_contra hle
      exact hq h t ⟨_, hp, hpend, .inr (Federation.coe_le_lbts.mp (not_lt.mp hle))⟩

/-- In a quiescent federation whoever waits is constrained. -/
theorem constrained_of_waits (hq : fed.net.Quiescent) {h : FederateHandle} {p : TimeState} {t : ℚ}
    (hp : fed.net h = some p) (hpend : p.pendingAdvance = some t) : p.isConstrained = true := by
  by_contra hfree
  exact hq h t ⟨p, hp, hpend, .inl (Bool.eq_false_iff.mpr hfree)⟩

/-- Somebody other than `h` regulates, and promises less than `t`. -/
def Federation.OtherPromises (fed : Federation) (h : FederateHandle) (t : ℚ) : Prop :=
  ∃ k ∈ fed.federates.keys, k ≠ h ∧
    ∃ p ∈ fed.net k, p.isRegulating = true ∧ p.promise < (t : Timestamp)

instance (fed : Federation) (h : FederateHandle) (t : ℚ) : Decidable (fed.OtherPromises h t) :=
  inferInstanceAs (Decidable (∃ k ∈ _, _ ∧ ∃ p ∈ fed.net k, _))

/-- A time service after which the server does not look for federates to grant
lets nobody go: the constraint is not lifted from a federate that waits, and
whoever waits behind a lookahead that is changed waits behind the new one, or
behind somebody else. -/
def TimeRequest.ReleasesNobody (c : Caller) (fed : Federation) : TimeRequest → Prop
  | disableTimeConstrained => fed.net.wait c.federate = none
  | modifyLookahead lookahead =>
    ∀ l ∈ (lookahead.bind decodeF64).bind (·.atLeast? 0), ∀ p ∈ fed.net c.federate,
      p.isRegulating = true → ∀ k ∈ fed.federates.keys, ∀ t ∈ fed.net.wait k,
        fed.OtherPromises c.federate t ∨ Timestamp.ofSum p.currentTime l < ((t : ℚ) : Timestamp)
  | _ => True

/-- Nor does a departure: whoever waits behind the one that leaves waits behind
somebody else.  And no join overwrites a federate. -/
def FedAction.ReleasesNobody (fed : Federation) : FedAction → Prop
  | create _ _ => True
  | join _ _ => fed.nextHandle ∉ fed.federates
  | leave h => ∀ k ∈ fed.federates.keys, k ≠ h → ∀ t ∈ fed.net.wait k, fed.OtherPromises h t
  | serve c r => ∀ t ∈ r.timeRequest?, t.ReleasesNobody c fed

instance (c : Caller) (fed : Federation) : (r : TimeRequest) → Decidable (r.ReleasesNobody c fed)
  | .enableTimeRegulation .. | .disableTimeRegulation | .enableTimeConstrained => .isTrue trivial
  | .disableTimeConstrained => inferInstanceAs (Decidable (_ = none))
  | .advance .. => .isTrue trivial
  | .modifyLookahead _ =>
    inferInstanceAs (Decidable (∀ l ∈ Option.bind _ _, ∀ p ∈ fed.net c.federate,
      _ → ∀ k ∈ _, ∀ t ∈ fed.net.wait k, _ ∨ _ < _))

instance (fed : Federation) : (a : FedAction) → Decidable (a.ReleasesNobody fed)
  | .create .. => .isTrue trivial
  | .join .. => inferInstanceAs (Decidable (¬ _))
  | .leave h => inferInstanceAs (Decidable (∀ k ∈ _, k ≠ h → ∀ t ∈ fed.net.wait k, _))
  | .serve c r => inferInstanceAs (Decidable (∀ t ∈ r.timeRequest?, t.ReleasesNobody c fed))

theorem Federation.mem_keys_of_net {k : FederateHandle} {p : TimeState} (hp : fed.net k = some p) :
    k ∈ fed.federates.keys := by
  obtain ⟨fs, hfs, _⟩ := Federation.net_eq_some.mp hp
  exact AList.mem_keys.mp (HashMap.mem_of_lookup hfs)

/-- A promise of somebody else outlasts what happens to `h`. -/
theorem Federation.OtherPromises.not_below {h : FederateHandle} {t : ℚ}
    {net : Net FederateHandle ℚ} (ho : fed.OtherPromises h t)
    (hsame : ∀ k, k ≠ h → net k = fed.net k) : ¬ net.Below t := by
  obtain ⟨k, _, hk, p, hp, hreg, hlt⟩ := ho
  exact fun hb => absurd (hb k p ((hsame k hk).trans hp) hreg) (not_le.mpr hlt)

theorem quiescent_enter (hnew : fed.nextHandle ∉ fed.federates) (hq : fed.net.Quiescent)
    (name : String) (sessionId : UInt64) : (fed.enter name sessionId).net.Quiescent := by
  rintro h t ⟨p, hp, hpend, hok⟩
  rw [Federation.net_enter] at hp
  split at hp
  · cases hp
    cases hpend
  · refine hq h t ⟨p, hp, hpend, hok.imp id ?_⟩
    intro hbelow k q hk hreg
    refine hbelow k q ?_ hreg
    obtain ⟨fs, hfs, _⟩ := Federation.net_eq_some.mp hk
    rw [Federation.net_enter, if_neg, hk]
    rintro rfl
    exact hnew (HashMap.mem_of_lookup hfs)

theorem quiescent_leave {h : FederateHandle} (hq : fed.net.Quiescent)
    (hrest : (FedAction.leave h).ReleasesNobody fed) : (fed.leave h).net.Quiescent := by
  rintro k t ⟨p, hp, hpend, hok⟩
  rw [Federation.net_leave] at hp
  split at hp
  · cases hp
  · next hk =>
      rcases hok with hfree | hbelow
      · exact hq k t ⟨p, hp, hpend, .inl hfree⟩
      · have hwait := Federation.wait_eq_some.mpr (Federation.waits_iff.mpr ⟨p, hp, hpend⟩)
        refine (hrest k (Federation.mem_keys_of_net hp) hk t hwait).not_below ?_ hbelow
        intro j hj
        rw [Federation.net_leave, if_neg hj]

theorem not_below_of_waits (hq : fed.net.Quiescent) {h : FederateHandle} {t : ℚ}
    (hw : fed.Waits h t) : ¬ fed.net.Below t := by
  intro hbelow
  obtain ⟨p, hp, hpend⟩ := Federation.waits_iff.mp hw
  exact hq h t ⟨p, hp, hpend, .inr hbelow⟩

namespace TimeSection.Changes

variable {s : TimeSection} {t : TimeState}

theorem net_caller (h : s.Changes c fed t) : fed.net c.federate = some s.caller.time :=
  Federation.net_eq_some.mpr ⟨s.caller, h.caller, rfl⟩

/-- The bound is no further when the caller goes on promising as much or
less. -/
theorem below (h : s.Changes c fed t)
    (hreg : s.caller.time.isRegulating = true →
      t.isRegulating = true ∧ t.promise ≤ s.caller.time.promise)
    {u : ℚ} (hb : s.federation.net.Below u) : fed.net.Below u := by
  intro k q hq hreg'
  have hnet := net_setTime h.caller t
  rw [← h.federation] at hnet
  by_cases hk : k = c.federate
  · subst hk
    cases h.net_caller.symm.trans hq
    obtain ⟨ht, hle⟩ := hreg hreg'
    exact (hb c.federate t (by rw [hnet, if_pos rfl]) ht).trans hle
  · exact hb k q (by rw [hnet, if_neg hk, hq]) hreg'

/-- A section that leaves the waits alone leaves nobody overdue, if the caller
is constrained in case it waits and every wait stays beyond some promise. -/
theorem quiescent (h : s.Changes c fed t) (hq : fed.net.Quiescent)
    (hpend : t.pendingAdvance = s.caller.time.pendingAdvance)
    (hwait : ∀ u, fed.Waits c.federate u → t.isConstrained = true)
    (hbound : ∀ k u, fed.Waits k u → ¬ s.federation.net.Below u) :
    s.federation.net.Quiescent := by
  rintro k u ⟨p, hp, hu, hok⟩
  have hold : fed.Waits k u ∧ p.isConstrained = true := by
    rw [h.federation, net_setTime h.caller] at hp
    split at hp
    · next hk =>
        cases hp
        have hw : fed.Waits c.federate u :=
          Federation.waits_iff.mpr ⟨_, h.net_caller, hpend ▸ hu⟩
        exact ⟨hk ▸ hw, hwait u hw⟩
    · exact ⟨Federation.waits_iff.mpr ⟨p, hp, hu⟩, constrained_of_waits hq hp hu⟩
  rcases hok with hfree | hbelow
  · rw [hold.2] at hfree
    cases hfree
  · exact hbound k u hold.1 hbelow

end TimeSection.Changes

/-- The services that only change the caller's role or lookahead. -/
theorem quiescent_role {r : TimeRequest} (hkind : r.kind = .role) {s : TimeSection}
    (hs : timeSection c fed r = .ok s)
    (hok : r.ReleasesNobody c fed) (hq : fed.net.Quiescent) :
    s.federation.net.Quiescent := by
  obtain ⟨t, ht, hch⟩ := timeSection_eq_ok.mp hs
  rw [TimeRequest.change_eq_some] at ht
  cases r with
  | enableTimeRegulation => cases hkind
  | disableTimeRegulation => cases hkind
  | advance => cases hkind
  | enableTimeConstrained =>
    obtain ⟨_, rfl⟩ := ht
    refine hch.quiescent hq rfl (fun _ _ => rfl) fun k u hw hb => ?_
    exact not_below_of_waits hq hw (hch.below (fun h => ⟨h, le_refl _⟩) hb)
  | disableTimeConstrained =>
    obtain ⟨_, rfl⟩ := ht
    have hnot : ∀ u, ¬ fed.Waits c.federate u :=
      fun u hw => nomatch hok.symm.trans (Federation.wait_eq_some.mpr hw)
    refine hch.quiescent hq rfl (fun u hw => absurd hw (hnot u)) fun k u hw hb => ?_
    exact not_below_of_waits hq hw (hch.below (fun h => ⟨h, le_refl _⟩) hb)
  | modifyLookahead =>
    obtain ⟨l, hl, hreg, rfl⟩ := ht
    have hnet := net_setTime hch.caller (s.caller.time.withLookahead l)
    rw [← hch.federation] at hnet
    refine hch.quiescent hq rfl (fun u hw => ?_) fun k u hw hb => ?_
    · obtain ⟨p, hp, hpend⟩ := Federation.waits_iff.mp hw
      cases hch.net_caller.symm.trans hp
      exact show s.caller.time.isConstrained = true from constrained_of_waits hq hp hpend
    · obtain ⟨p, hp, _⟩ := Federation.waits_iff.mp hw
      rcases hok l hl _ hch.net_caller hreg k (Federation.mem_keys_of_net hp) u
        (Federation.wait_eq_some.mpr hw) with hother | hown
      · exact hother.not_below (fun j hj => by rw [hnet, if_neg hj]) hb
      · have hcaller := (hnet c.federate).trans (if_pos rfl)
        exact absurd (hb c.federate _ hcaller hreg) (not_le.mpr hown)

theorem quiescent_serve {req : ServiceRequest}
    (hok : ∀ t ∈ req.timeRequest?, t.ReleasesNobody c fed) (hq : fed.net.Quiescent) :
    (serve c fed req).federation.net.Quiescent := by
  by_cases hr : ∃ r, req = .time r
  · obtain ⟨r, rfl⟩ := hr
    rw [serve]
    rcases serveTime_cases c fed r with ⟨e, _, he⟩ | ⟨s, resp, own, hs, _, hcase⟩
    · rw [he]
      exact hq
    · rcases hcase with ⟨hkind, he⟩ | ⟨_, pass, hpass, he⟩
      · rw [he]
        exact quiescent_role hkind hs (hok r rfl) hq
      · rw [he]
        exact hpass.quiescent
  · rw [(serve_confined (not_exists.mp hr)).touches.net (by decide)]
    exact hq

theorem noneOverdue_apply (fed : Federation) (a : FedAction) (h : fed.NoneOverdue)
    (hok : a.ReleasesNobody fed) : (a.apply fed).NoneOverdue := by
  rw [Federation.noneOverdue_iff] at h ⊢
  cases a with
  | create =>
    rintro k t ⟨p, hp, _⟩
    cases hp
  | join requested sessionId =>
    exact Federation.join_keeps (P := fun fed => fed.net.Quiescent) h fun name =>
      quiescent_enter hok h name sessionId
  | leave => exact quiescent_leave h hok
  | serve => exact quiescent_serve hok h

/-- **Nobody is left waiting**, in a run whose steps release nobody behind the
server's back. -/
theorem Node.noneOverdue_always {es : List NodeEvent}
    (h : StepsMeet Node.step (Node.Meets fun fed a => a.ReleasesNobody fed) Node.new es) :
    Always Node.step (fun n => ∀ r, (n.heap r).NoneOverdue) Node.new es :=
  Node.heap_always (fun _ _ _ _ _ hfs => nomatch hfs) noneOverdue_apply h

/-- Federate 2 waits for time 5, and goes on waiting when federate 1 raises its
lookahead to 3. -/
theorem Node.noneOverdue_always_pair :
    let es := pairWaiting ++ [.serves 0 (.time (.modifyLookahead wireThree))]
    StepsMeet Node.step (Node.Meets fun fed a => a.ReleasesNobody fed) Node.new es ∧
      Always Node.step (fun n => ∀ r, (n.heap r).NoneOverdue) Node.new es := by
  have h : StepsMeet Node.step (Node.Meets fun fed a => a.ReleasesNobody fed) Node.new
      (pairWaiting ++ [.serves 0 (.time (.modifyLookahead wireThree))]) := by decide +kernel
  exact ⟨h, Node.noneOverdue_always h⟩

/-- Federate 2 waits for time 5 behind the promise of federate 1.  Five ways to
free it without granting it: it lifts its own constraint; federate 1 raises its
lookahead, resigns, is disconnected, or is removed by the janitor. -/
def releasingRuns : List (List NodeEvent) :=
  [pairWaiting ++ [.serves 1 (.time .disableTimeConstrained)],
    pairWaiting ++ [.serves 0 (.time (.modifyLookahead wireFive))],
    pairWaiting ++ [.manages 0 .resignFederationExecution],
    pairWaiting ++ [.close 0],
    .setReconnectWindow 1 :: pairWaiting ++ [.close 0, .elapse 1, .janitorScan, .janitorRemove]]

/-- **Left waiting.**  After each of these runs federate 2 goes on waiting for a
time it may have. -/
theorem Node.releasingRuns_overdue :
    releasingRuns.Forall fun es => ¬ ((run Node.step Node.new es).heap 0).NoneOverdue := by
  have hwaits : ∀ es ∈ releasingRuns,
      ((run Node.step Node.new es).heap 0).Waits ⟨2⟩ 5 := by decide +kernel
  have hfree : ∀ es ∈ releasingRuns,
      (((run Node.step Node.new es).heap 0).federates.lookup ⟨2⟩).map (·.time.isConstrained) =
        some false ∨ (5 : Timestamp) ≤ ((run Node.step Node.new es).heap 0).lbts := by
    decide +kernel
  rw [List.forall_iff_forall_mem]
  intro es hes hnone
  obtain ⟨fs, hfs, hpend⟩ := Option.bind_eq_some_iff.mp (hwaits es hes)
  obtain ⟨hcon, hlt⟩ := hnone ⟨2⟩ fs 5 hfs hpend
  rcases hfree es hes with hfree | hle
  · rw [hfs, Option.map_some, hcon] at hfree
    cases hfree
  · exact absurd hle (not_le.mpr hlt)

end Hla4
