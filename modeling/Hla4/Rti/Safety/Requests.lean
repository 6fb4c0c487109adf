/-
# `Hla4.Rti.Safety.Requests` — grants match requests

The advances of one federate, as it sees them: the times of its accepted
requests, and the times it is told of, each in order (`AdvanceLog`).  The log
starts anew when a federate enters under the handle.  As long as the federate
is reached by every call on its federation,

    requests  =  grants ++ what it waits for

after every step (`AdvanceLog.Matches`).  Three facts carry the step:

  * a request adds to what is waited for what it adds to the requests
    (`wait_grantsStart`);
  * a run of grants loses nothing (`GrantRun.wait_eq`);
  * every grant is told, once and in order (`serve_tellsAll`).
-/
import Hla4.Rti.Safety.Grants

namespace Hla4

open Lib

variable {c : Caller} {fed : Federation} {h : FederateHandle}

/-! ## Every grant is told -/

/-- The grants told to one federate, in order. -/
def grantsTo (h : FederateHandle) (callbacks : List OutboundCallback) : List ℚ :=
  (bodiesFor h callbacks).filterMap CallbackRequest.grantTime?

theorem grantsTo_append (l l' : List OutboundCallback) :
    grantsTo h (l ++ l') = grantsTo h l ++ grantsTo h l' := by
  rw [grantsTo, bodiesFor_append, List.filterMap_append]
  rfl

theorem grantsTo_eq_nil {l : List OutboundCallback}
    (hl : ∀ cb ∈ l, cb.federate = some h → cb.body.NotGrant) : grantsTo h l = [] := by
  rw [grantsTo, List.filterMap_eq_nil_iff]
  intro body hbody
  obtain ⟨cb, hcb, rfl⟩ := List.mem_map.mp hbody
  obtain ⟨hmem, hfed⟩ := List.mem_filter.mp hcb
  cases hg : cb.body.grantTime? with
  | none => rfl
  | some t =>
    exact absurd (CallbackRequest.eq_of_grantTime? hg) (hl cb hmem (of_decide_eq_true hfed) t)

theorem grantsTo_batch (hconn : (fed.recipient c h).isSome = true)
    (batch : List (FederateHandle × ℚ)) :
    grantsTo h (batch.flatMap fun g => fanOut (fed.ownConnection c g.1) (.timeAdvanceGrant g.2)) =
      (batch.filter fun e => e.1 = h).map Prod.snd := by
  induction batch with
  | nil => rfl
  | cons g batch ih =>
    have hone : grantsTo h (fanOut (fed.ownConnection c g.1) (.timeAdvanceGrant g.2)) =
        if g.1 = h then [g.2] else [] := by
      rw [grantsTo, Federation.ownConnection, Federation.bodiesFor_live]
      by_cases hg : g.1 = h
      · simp [HashSet.mem_ofList, hconn, hg, CallbackRequest.grantTime?]
      · simp [HashSet.mem_ofList, hg, Ne.symm hg]
    rw [List.flatMap_cons, grantsTo_append, ih, hone, List.filter_cons]
    by_cases hg : g.1 = h
    · simp [hg]
    · simp [hg]

/-- Whoever is connected at the start is told of each of its grants. -/
def GrantPass.TellsAll (c : Caller) (start : Federation) (pass : GrantPass) : Prop :=
  ∀ h, (start.recipient c h).isSome = true → grantsTo h pass.callbacks = Net.timesOf h pass.grants

namespace GrantPass.TellsAll

theorem andThen {ps : List Part} {start mid : Federation} {a b : GrantPass}
    (ht : start.Touches ps mid) (hi : Part.federate .identity ∉ ps) (ha : a.TellsAll c start)
    (hb : b.TellsAll c mid) : (a.andThen b).TellsAll c start := by
  intro h hconn
  show grantsTo h (a.callbacks ++ b.callbacks) = Net.timesOf h (a.grants ++ b.grants)
  rw [grantsTo_append, Net.timesOf_append, ha h hconn,
    hb h ((ht.isSome_recipient hi h).trans hconn)]

theorem after_drain {ps : List Part} {start mid : Federation} {pass : GrantPass}
    {drained : List OutboundCallback} (ht : start.Touches ps mid)
    (hi : Part.federate .identity ∉ ps) (hd : ∀ cb ∈ drained, cb.body.NotGrant)
    (hp : pass.TellsAll c mid) :
    GrantPass.TellsAll c start ⟨pass.federation, drained ++ pass.callbacks, pass.grants⟩ := by
  intro h hconn
  rw [grantsTo_append, grantsTo_eq_nil fun cb hcb _ => hd cb hcb, List.nil_append]
  exact hp h ((ht.isSome_recipient hi h).trans hconn)

end GrantPass.TellsAll

theorem grantRound_tellsAll : (fed.grantRound c).TellsAll c fed := by
  intro h hconn
  have hround : fed.Touches _ (fed.applyGrants (fed.toGrant c.env.federates)).1 :=
    Federation.touches_applyGrants _
  have hsame := hround.isSome_recipient (c := c) (by decide) h
  exact (grantsTo_batch (hsame.trans hconn) _).trans (Net.timesOf_grantSteps ..).symm

theorem grantRounds_tellsAll (fuel : Nat) : (Federation.grantRounds c fuel fed).TellsAll c fed := by
  induction fuel generalizing fed with
  | zero => exact fun _ _ => rfl
  | succ fuel ih =>
    rw [Federation.grantRounds]
    split
    · exact fun _ _ => rfl
    · split
      · exact .andThen Federation.grantRound_touches (by decide) grantRound_tellsAll ih
      · exact grantRound_tellsAll

theorem tryGrantPendingAdvancesWithTso_tellsAll :
    (tryGrantPendingAdvancesWithTso c fed).TellsAll c fed :=
  .after_drain (touches_drainAll _) (by decide) (fun _ hcb => (drainAll_fromQueue hcb).notGrant)
    (grantRounds_tellsAll _)

theorem grantAtOnce_tellsAll (t : ℚ) : (grantAtOnce c fed t).TellsAll c fed := by
  have hgrant : fed.Touches [.federate .time, .federate .queue] (fed.grant c.federate t) :=
    (Federation.touches_grant _ _).mono (by decide)
  have hdrain : fed.Touches [.federate .time, .federate .queue]
      (drainTsoUpTo c (fed.grant c.federate t) c.federate t).1 :=
    hgrant.trans (touches_drain.mono (by decide))
  intro h hconn
  have hconn' := (hdrain.isSome_recipient (by decide) h).trans hconn
  show grantsTo h ((_ ++ _) ++ _) = Net.timesOf h (_ :: _)
  rw [grantsTo_append, grantsTo_append,
    grantsTo_eq_nil fun cb hcb _ => (drainTsoUpTo_fromQueue hcb).1.notGrant, List.nil_append,
    Net.timesOf_cons, tryGrantPendingAdvancesWithTso_tellsAll h hconn']
  have hown := grantsTo_batch hconn' [(c.federate, t)]
  rw [List.flatMap_cons, List.flatMap_nil, List.append_nil] at hown
  rw [hown, List.filter_cons]
  by_cases hh : c.federate = h
  · simp [hh]
  · simp [hh]

theorem serveTime_tellsAll (r : TimeRequest) (hconn : (fed.recipient c h).isSome = true) :
    grantsTo h (serveTime c fed r).callbacks = Net.timesOf h (serveTime c fed r).grants := by
  have hown : ∀ {fed' : Federation} {own : List OutboundCallback}, RoleNotice c fed' own →
      grantsTo h own = [] := by
    intro fed' own hown
    cases hown with
    | nothing => rfl
    | regulates | constrains =>
      exact grantsTo_eq_nil fun cb hcb _ =>
        (Federation.mem_fanOut_own hcb).1 ▸ fun _ => CallbackRequest.noConfusion
  -- a section leaves the connections alone
  have hsec : ∀ {s : TimeSection}, timeSection c fed r = .ok s →
      (s.federation.recipient c h).isSome = true :=
    fun hs => ((touches_section hs).isSome_recipient (by decide) h).trans hconn
  have heff := @serveTime_effect c fed r
  generalize serveTime c fed r = o at heff ⊢
  cases heff with
  | rejects => rfl
  | changes _ hs hn => exact hown hn
  | passes _ hs hn =>
    rw [grantsTo_append, hown hn]
    exact grantRounds_tellsAll _ h (hsec hs)
  | @advances s t _ _ _ hs _ =>
    rw [advancePass]
    split
    · exact grantAtOnce_tellsAll _ h (hsec hs)
    · exact tryGrantPendingAdvancesWithTso_tellsAll h (hsec hs)

theorem serve_net_none (req : ServiceRequest) :
    (serve c fed req).federation.net h = none ↔ fed.net h = none := by
  rw [Federation.net, Federation.net, Option.map_eq_none_iff, Option.map_eq_none_iff,
    AList.lookup_eq_none, AList.lookup_eq_none, serve_mem_federates]

/-- Nobody is granted under a handle that nobody bears: the run of grants ends
without it. -/
theorem serve_not_granted (req : ServiceRequest) (hnet : fed.net h = none) :
    ∀ g ∈ (serve c fed req).grants, g.party ≠ h := by
  rintro g hg rfl
  obtain ⟨⟨p, hp, _⟩, hadv⟩ := (serve_run req).step_mem hg
  rcases hadv g.party with ⟨hn, _⟩ | ⟨_, p', _, hp', _⟩
  · rw [hn] at hp
    cases hp
  · rw [(serve_net_none req).mpr hnet] at hp'
    cases hp'

theorem serve_timesOf_absent (req : ServiceRequest) (hnet : fed.net h = none) :
    Net.timesOf h (serve c fed req).grants = [] := by
  rw [Net.timesOf, List.map_eq_nil_iff, List.filter_eq_nil_iff]
  intro g hg
  simpa using serve_not_granted req hnet g hg

/-- **Every grant is told**: a call tells whoever is joined and connected of
each of its grants, and nobody else of any. -/
theorem serve_tellsAll (req : ServiceRequest)
    (hconn : ∀ fs, fed.federates.lookup h = some fs → (fed.recipient c h).isSome = true) :
    grantsTo h (serve c fed req).callbacks = Net.timesOf h (serve c fed req).grants := by
  cases hfs : fed.federates.lookup h with
  | none =>
    have hnet : fed.net h = none := by rw [Federation.net, hfs]; rfl
    rw [serve_timesOf_absent req hnet]
    refine grantsTo_eq_nil ?_
    intro cb hcb hfed
    rcases serve_tells req cb hcb with ⟨g, hg, _, hparty⟩ | hnot
    · exact absurd (Option.some.inj (hparty.symm.trans hfed)) (serve_not_granted req hnet g hg)
    · exact hnot
  | some fs =>
    by_cases hr : ∃ r, req = .time r
    · obtain ⟨r, rfl⟩ := hr
      exact serveTime_tellsAll r (hconn fs hfs)
    · have hconf : (serve c fed req).Confined untimedParts CallbackRequest.NotGrant fed :=
        serve_confined (not_exists.mp hr)
      rw [hconf.grants, grantsTo_eq_nil fun cb hcb _ => hconf.bodies cb hcb]
      rfl

/-! ## The log of one federate -/

/-- The times asked for and accepted, and the times told of. -/
structure AdvanceLog where
  requests : List F64
  grants : List ℚ

namespace FedAction

/-- The time of the federate's request, if the action is one and it is
accepted. -/
def requested (fed : Federation) (h : FederateHandle) : FedAction → List F64
  | serve c (.time (.advance service time)) =>
    if c.federate = h ∧
        (Hla4.serve c fed (.time (.advance service time))).response.accepted = true then
      (decodeLogicalTime time "missing").toOption.toList
    else []
  | _ => []

/-- The times the federate is told of. -/
def granted (fed : Federation) (h : FederateHandle) : FedAction → List ℚ
  | serve c req => grantsTo h (Hla4.serve c fed req).callbacks
  | _ => []

end FedAction

namespace AdvanceLog

def empty : AdvanceLog := ⟨[], []⟩

/-- The log after an action on the federation. -/
def record (h : FederateHandle) (fed : Federation) (a : FedAction) (log : AdvanceLog) : AdvanceLog :=
  if a.enters fed h then empty
  else ⟨log.requests ++ a.requested fed h, log.grants ++ a.granted fed h⟩

/-- The requests are the grants, and what is still waited for by a federate
that is still joined. -/
def Matches (h : FederateHandle) (fed : Federation) (log : AdvanceLog) : Prop :=
  ∃ rest : Option ℚ, log.requests = (log.grants ++ rest.toList).map .fin ∧
    ∀ p, fed.net h = some p → rest = p.pendingAdvance

theorem matches_empty (hnet : ∀ p, fed.net h = some p → p.pendingAdvance = none) :
    empty.Matches h fed :=
  ⟨none, rfl, fun p hp => (hnet p hp).symm⟩

/-- An action that asks and tells nothing, after which the federate has left or
is as it was. -/
theorem Matches.frame {log : AdvanceLog} {a : FedAction} (hm : log.Matches h fed)
    (hent : a.enters fed h = false) (hreq : a.requested fed h = []) (hgr : a.granted fed h = [])
    (hnet : ∀ p, (a.apply fed).net h = some p → fed.net h = some p) :
    (record h fed a log).Matches h (a.apply fed) := by
  obtain ⟨rest, hreqs, hrest⟩ := hm
  refine ⟨rest, ?_, fun p hp => hrest p (hnet p hp)⟩
  rw [record, hent, if_neg Bool.false_ne_true, hreq, hgr, List.append_nil, List.append_nil]
  exact hreqs

end AdvanceLog

/-! ## One step -/

theorem F64.finite?_eq_some {v : F64} {q : ℚ} : v.finite? = some q ↔ v = .fin q := by
  cases v <;> simp [F64.finite?]

theorem F64.atLeast?_fin {q bound : ℚ} {x : { q : ℚ // bound ≤ q }}
    (h : (F64.fin q).atLeast? bound = some x) : x.1 = q := by
  rw [F64.atLeast?] at h
  split at h
  · cases h
    rfl
  · cases h

theorem advanceSection_time {time : WireField} {s : TimeSection} {t : ℚ}
    (hs : advanceSection c fed time = .ok (s, t)) :
    decodeLogicalTime time "missing" = .ok (.fin t) := by
  simp only [advanceSection, requestedTimeArg, bind_eq_ok, getOr_eq_ok] at hs
  obtain ⟨q, ⟨v, hv, hq⟩, fs, _, _, _, ahead, hahead, he⟩ := hs
  cases he
  rw [F64.finite?_eq_some] at hq
  rw [hv, hq, F64.atLeast?_fin hahead]

theorem wait_setTime {fs : FederateSession} (hfs : fed.federates.lookup c.federate = some fs)
    (t : TimeState) (h : FederateHandle) :
    (fed.setTime c.federate t).net.wait h =
      if h = c.federate then t.pendingAdvance else fed.net.wait h := by
  rw [Net.wait, net_setTime hfs]
  split <;> rfl

/-- A section other than that of an advance request leaves the waits alone. -/
theorem wait_section {r : TimeRequest} (hr : ∀ service time, r ≠ .advance service time)
    {s : TimeSection} (hs : timeSection c fed r = .ok s) : s.federation.net.wait h = fed.net.wait h := by
  have hkind : r.kind ≠ .advance := by
    cases r with
    | advance service time => exact absurd rfl (hr service time)
    | _ => exact TimeKind.noConfusion
  obtain ⟨t, ht, hch⟩ := timeSection_eq_ok.mp hs
  rw [hch.federation, wait_setTime hch.caller]
  split
  · next hh => rw [hh, Net.wait, hch.net_caller, (TimeRequest.change_keeps ht).2 hkind]; rfl
  · rfl

/-- What a request adds to the requests, it adds to what is waited for. -/
theorem wait_grantsStart (req : ServiceRequest) :
    (fed.net.wait h).toList.map F64.fin ++ (FedAction.serve c req).requested fed h =
      ((grantsStart c fed req).net.wait h).toList.map F64.fin := by
  by_cases hr : ∃ service time, req = .time (.advance service time)
  · obtain ⟨service, time, rfl⟩ := hr
    rw [FedAction.requested, grantsStart, serve, serveTime, timeAdvanceRequest, timeSection]
    cases hs : advanceSection c fed time with
    | error =>
      rw [if_neg fun hacc => Bool.false_ne_true hacc.2, List.append_nil]
      rfl
    | ok s =>
      obtain ⟨hpend, ht, hch⟩ := advanceSection_ok hs
      show _ = (s.1.federation.net.wait h).toList.map F64.fin
      rw [advanceSection_time hs, hch.federation, wait_setTime hch.caller]
      by_cases hh : h = c.federate
      · subst hh
        rw [if_pos rfl, if_pos ⟨rfl, rfl⟩, Net.wait, hch.net_caller, Option.bind_some, hpend]
        rfl
      · rw [if_neg hh, if_neg fun hacc => hh hacc.1.symm, List.append_nil]
  · have hreq : (FedAction.serve c req).requested fed h = [] := by
      rw [FedAction.requested]
      intro _ service time he
      cases he
      exact hr ⟨service, time, rfl⟩
    rw [hreq, List.append_nil]
    cases req with
    | time r =>
      rw [grantsStart]
      cases hs : timeSection c fed r with
      | error => rfl
      | ok =>
        have hne : ∀ service time, r ≠ .advance service time := by
          rintro service time rfl
          exact hr ⟨service, time, rfl⟩
        rw [wait_section hne hs]
    | _ => rfl

/-- A call: what was waited for and what is asked is granted or waited for. -/
theorem serve_waits (req : ServiceRequest)
    (hconn : ∀ fs, fed.federates.lookup h = some fs → (fed.recipient c h).isSome = true) :
    (fed.net.wait h).toList.map F64.fin ++ (FedAction.serve c req).requested fed h =
      ((FedAction.serve c req).granted fed h ++
        ((serve c fed req).federation.net.wait h).toList).map F64.fin := by
  rw [wait_grantsStart, (serve_run req).wait_eq h, FedAction.granted, serve_tellsAll req hconn]

theorem wait_eq_of_net {p : TimeState} (hp : fed.net h = some p) :
    fed.net.wait h = p.pendingAdvance := by
  rw [Net.wait, hp]
  rfl

theorem AdvanceLog.Matches.serve {log : AdvanceLog} (hm : log.Matches h fed) (req : ServiceRequest)
    (hreach : (FedAction.serve c req).Reaches h fed) :
    (record h fed (.serve c req) log).Matches h (Hla4.serve c fed req).federation := by
  have hconn : ∀ fs, fed.federates.lookup h = some fs → (fed.recipient c h).isSome = true := by
    intro fs hfs
    obtain ⟨target, ht⟩ := Option.isSome_iff_exists.mp (AList.lookup_isSome.mpr (hreach fs hfs))
    exact Option.isSome_iff_exists.mpr ⟨⟨target, h, fs.time⟩,
      Federation.recipient_eq_some.mpr ⟨rfl, fs, hfs, ht, rfl⟩⟩
  have hwaits := serve_waits req hconn
  obtain ⟨rest, hreqs, hrest⟩ := hm
  show ∃ rest' : Option ℚ, log.requests ++ (FedAction.serve c req).requested fed h =
    ((log.grants ++ (FedAction.serve c req).granted fed h) ++ rest'.toList).map .fin ∧ _
  cases hnet : fed.net h with
  | none =>
    -- nobody bears the handle: nothing is asked for and nothing told
    have hafter := (serve_net_none (c := c) req).mpr hnet
    have htold : (FedAction.serve c req).granted fed h = [] :=
      (serve_tellsAll req hconn).trans (serve_timesOf_absent req hnet)
    rw [Net.wait, hnet, Net.wait, hafter, htold] at hwaits
    have hasked : (FedAction.serve c req).requested fed h = [] := hwaits
    refine ⟨rest, ?_, fun p hp => absurd (hafter.symm.trans hp) (Option.some_ne_none p).symm⟩
    rw [hasked, htold, List.append_nil, List.append_nil, hreqs]
  | some p =>
    obtain ⟨p', hp'⟩ : ∃ p', (Hla4.serve c fed req).federation.net h = some p' :=
      Option.ne_none_iff_exists'.mp fun hn =>
        absurd (((serve_net_none req).mp hn).symm.trans hnet) (Option.some_ne_none p).symm
    refine ⟨p'.pendingAdvance, ?_, fun q hq => by rw [hp'] at hq; cases hq; rfl⟩
    rw [wait_eq_of_net hnet, wait_eq_of_net hp', ← hrest p hnet] at hwaits
    rw [hreqs, List.map_append, List.append_assoc, hwaits, ← List.map_append, List.append_assoc]

/-- Where nobody enters under the handle, its time state is what it was, or it
is gone. -/
theorem net_apply_of_membership {a : FedAction} (ha : ∀ c req, a ≠ .serve c req)
    (hent : a.enters fed h = false) {p : TimeState} (hp : (a.apply fed).net h = some p) :
    fed.net h = some p := by
  obtain ⟨fs, hfs, rfl⟩ := Federation.net_eq_some.mp hp
  exact Federation.net_eq_some.mpr ⟨fs, FedAction.lookup_of_membership ha hent hfs, rfl⟩

theorem AdvanceLog.matches_apply (fed : Federation) (log : AdvanceLog) (a : FedAction)
    (hm : log.Matches h fed) (hreach : a.Reaches h fed) :
    (record h fed a log).Matches h (a.apply fed) := by
  cases hent : a.enters fed h with
  | true =>
    rw [record, hent, if_pos rfl]
    refine matches_empty ?_
    intro p hp
    obtain ⟨fs, hfs, rfl⟩ := Federation.net_eq_some.mp hp
    obtain ⟨name, sessionId, rfl⟩ := FedAction.lookup_of_enters hent hfs
    rfl
  | false =>
    cases a with
    | serve c req => exact hm.serve req hreach
    | create => cases hent
    | join | leave =>
      exact hm.frame hent rfl rfl fun p hp =>
        net_apply_of_membership (fun _ _ => FedAction.noConfusion) hent hp

/-! ## Nobody goes back in time -/

theorem serve_currentTime_le {p p' : TimeState} (req : ServiceRequest) (hp : fed.net h = some p)
    (hp' : (serve c fed req).federation.net h = some p') : p.currentTime ≤ p'.currentTime := by
  -- a section moves nobody, and a grant only forward
  have hstart : ∃ q, (grantsStart c fed req).net h = some q ∧ q.currentTime = p.currentTime := by
    cases req with
    | time r =>
      rw [grantsStart]
      cases hs : timeSection c fed r with
      | error => exact ⟨p, hp, rfl⟩
      | ok =>
        obtain ⟨t, ht, hch⟩ := timeSection_eq_ok.mp hs
        dsimp only
        rw [hch.federation, net_setTime hch.caller]
        split
        · next hh =>
            subst hh
            cases hch.net_caller.symm.trans hp
            exact ⟨t, rfl, (TimeRequest.change_keeps ht).1⟩
        · exact ⟨p, hp, rfl⟩
    | _ => exact ⟨p, hp, rfl⟩
  obtain ⟨q, hq, htime⟩ := hstart
  rcases (serve_run req).advances h with ⟨hn, _⟩ | ⟨q₁, q₂, hq₁, hq₂, _, _, _, hle⟩
  · rw [hn] at hq
    cases hq
  · cases hq.symm.trans hq₁
    cases hp'.symm.trans hq₂
    exact htime ▸ hle

theorem apply_currentTime_le {a : FedAction} (hent : a.enters fed h = false) {p p' : TimeState}
    (hp : fed.net h = some p) (hp' : (a.apply fed).net h = some p') :
    p.currentTime ≤ p'.currentTime := by
  by_cases ha : ∃ c req, a = .serve c req
  · obtain ⟨c, req, rfl⟩ := ha
    exact serve_currentTime_le req hp hp'
  · have hsame := net_apply_of_membership (fun c req he => ha ⟨c, req, he⟩) hent hp'
    cases hp.symm.trans hsame
    exact le_refl _

/-- **Grants match requests.**  In every run in which the calls on federation
`r` find federate `h` connected whenever it is joined, after every step: the
grants told to it are a prefix of its accepted requests; at most one request is
without its grant; and while the federate is joined, that is the one it waits
for, at a time not before its own.  No step takes a federate back in time. -/
theorem Node.grants_match_requests (r : FedRef) (h : FederateHandle) {es : List NodeEvent}
    (hlive : StepsMeet Node.step (Node.MeetsAt r fun fed a => a.Reaches h fed) Node.new es) :
    Always (logged Node.step (Node.track r (AdvanceLog.record h)))
      (fun s =>
        s.2.grants.map F64.fin <+: s.2.requests ∧
        s.2.requests.length ≤ s.2.grants.length + 1 ∧
        ∀ fs, (s.1.heap r).federates.lookup h = some fs →
          s.2.requests = (s.2.grants ++ fs.time.pendingAdvance.toList).map F64.fin ∧
          ∀ T, fs.time.pendingAdvance = some T → fs.time.currentTime ≤ T)
      (Node.new, .empty) es ∧
    ∀ (n : Node) (e : NodeEvent) (fs fs' : FederateSession),
      (n.heap r).federates.lookup h = some fs →
      ((n.step e).heap r).federates.lookup h = some fs' →
      (∀ a, n.action e = some (r, a) → a.enters (n.heap r) h = false) →
      fs.time.currentTime ≤ fs'.time.currentTime := by
  constructor
  · have hmatch := Node.track_always (I := fun fed log => log.Matches h fed) (r := r)
      (AdvanceLog.matches_empty fun p hp => by cases hp)
      (fun fed log a hm hok => AdvanceLog.matches_apply fed log a hm hok) hlive
    intro done hd
    obtain ⟨rest, hreqs, hrest⟩ := hmatch done hd
    refine ⟨?_, ?_, ?_⟩
    · rw [hreqs, List.map_append]
      exact List.prefix_append _ _
    · rw [hreqs, List.length_map, List.length_append]
      cases rest with
      | none => simp
      | some => simp
    · intro fs hfs
      rw [← hrest fs.time (Federation.net_eq_some.mpr ⟨fs, hfs, rfl⟩)]
      refine ⟨hreqs, ?_⟩
      intro T hT
      refine fs.time.current_le_pending T ?_
      rw [← hrest fs.time (Federation.net_eq_some.mpr ⟨fs, hfs, rfl⟩), hT]
      rfl
  · intro n e fs fs' hfs hfs' hent
    have hp : (n.heap r).net h = some fs.time := Federation.net_eq_some.mpr ⟨fs, hfs, rfl⟩
    have hp' : ((n.step e).heap r).net h = some fs'.time :=
      Federation.net_eq_some.mpr ⟨fs', hfs', rfl⟩
    rcases n.heap_cases e r with hsame | ⟨a, ha, hact⟩
    · rw [hsame, hp] at hp'
      exact (congrArg Party.currentTime (Option.some.inj hp')).le
    · rw [hact] at hp'
      exact apply_currentTime_le (hent a ha) hp hp'

/-- Federate 2 waits for time 5 until federate 1 goes there, and then asks
again. -/
def pairGranted : List NodeEvent := pairWaiting ++
  [.serves 0 (.time (.advance .timeAdvanceRequest wireFive)),
    .serves 1 (.time (.advance .timeAdvanceRequest wireFive)),
    .serves 1 (.time (.advance .timeAdvanceRequest wireFive))]

theorem Node.grants_match_requests_pair :
    (run (logged Node.step (Node.track 0 (AdvanceLog.record ⟨2⟩))) (Node.new, .empty)
      pairGranted).2.grants = [5, 5, 5] ∧
    Always (logged Node.step (Node.track 0 (AdvanceLog.record ⟨2⟩)))
      (fun s => s.2.grants.map F64.fin <+: s.2.requests) (Node.new, .empty) pairGranted :=
  ⟨by decide +kernel, fun done hd =>
    ((Node.grants_match_requests 0 ⟨2⟩ (by decide +kernel)).1 done hd).1⟩

end Hla4
