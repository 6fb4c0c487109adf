/-
# `Hla4.Rti.Safety.Granting` — time advances, section by section

An advance request is recorded in one section under the write lock of the
federates and granted in another, and a pass of grants is a sequence of
sections; other calls run in between.  In the order of the source:

    advance      check and record the request; of an unconstrained caller:
                 grant it · its queue · its TimeAdvanceGrant; then the pass
                 with queues
    regulation   check and change the role · on enabling, tell the caller;
                 then the pass
    queues       who waits · the bound · for each, whether it may be granted ·
                 for each, its queue; then the pass
    a queue      take the messages · resolve the connection
    the pass     the bound · who may be granted · apply the grants · for each,
                 its TimeAdvanceGrant · the bound again, and from the start if
                 it was raised

A call that runs undisturbed does what the handler does in one step
(`solo_serves_time`).

**History.**  The accepted requests of a federate are numbered.  A section that
applies a grant notes the number of the request it grants, and a callback
carries it to where it is pushed.

The second section of an unconstrained caller looks whether its request still
stands, and the grant is announced either way: by then a pass of another call
may have granted the request and told of it.  Where no pass grants the request
of a call between these two sections, no request is granted twice
(`advance_granted_once`).
-/
import Hla4.Lib.Sections
import Hla4.Rti.Safety.Requests

namespace Hla4

open Lib

/-! ## The model -/

/-- The `n`-th accepted advance request of a federate (history). -/
abbrev AdvanceId := FederateHandle × Nat

/-- A callback to push.  Those that tell of a grant carry the request granted
(history). -/
structure Notice where
  callback : OutboundCallback
  grants : Option AdvanceId
  tagged : callback.body.grantTime?.isSome = grants.isSome

/-- `fan_out`. -/
def notices (conns : List Recipient) (body : CallbackRequest) (grants : Option AdvanceId)
    (tagged : body.grantTime?.isSome = grants.isSome) : List Notice :=
  conns.map fun r => ⟨⟨r.target, body, some (r.federate, r.time)⟩, grants, tagged⟩

/-- The requests that callbacks tell of. -/
def noticed (out : List Notice) : List AdvanceId := out.filterMap Notice.grants

/-- What the calls share. -/
structure TimeShared where
  fed : Federation
  /-- history: the accepted requests, federate by federate -/
  asked : FederateHandle → Nat
  /-- history: responses and callbacks, call by call -/
  sent : List (Resp × List Notice)

/-- What a call has in hand: its federate, the response it will give, and the
callbacks so far. -/
structure TimeJob where
  federate : FederateHandle
  ack : Ack
  out : List Notice

/-- A call, before its next section. -/
inductive TimeCall
  | idle
  /-- the request of an unconstrained caller is recorded -/
  | claiming (j : TimeJob) (t : ℚ) (n : Nat)
  | announcing (j : TimeJob) (t : ℚ) (n : Nat)
  | regulating (j : TimeJob) (now : ℚ)
  | listing (j : TimeJob)
  | bounding (j : TimeJob) (pending : List (FederateHandle × ℚ))
  | choosing (j : TimeJob) (bound : Timestamp) (pending chosen : List (FederateHandle × ℚ))
  /-- queues to empty, and the caller's own grant if it is announced then -/
  | draining (j : TimeJob) (queues : List (FederateHandle × ℚ)) (own : Option (ℚ × Nat))
  | delivering (j : TimeJob) (h : FederateHandle) (messages : List TsoMessage)
      (queues : List (FederateHandle × ℚ)) (own : Option (ℚ × Nat))
  | looking (j : TimeJob)
  | collecting (j : TimeJob) (bound : Timestamp)
  | applying (j : TimeJob) (bound : Timestamp) (batch : List (FederateHandle × ℚ))
  | telling (j : TimeJob) (bound : Timestamp) (granted : List ((FederateHandle × ℚ) × Nat))
  | returning (response : Resp) (out : List Notice)

/-- What the environment decides: the call an idle session makes next, and what
the section finds besides the federation. -/
structure TimeInput where
  call : Option TimeRequest
  caller : Caller

/-- The caller as its call goes on. -/
def TimeInput.at (x : TimeInput) (h : FederateHandle) : Caller := { x.caller with federate := h }

namespace Federation

variable (fed : Federation)

/-- The messages up to a time in a federate's queue. -/
def tsoUpTo (h : FederateHandle) (t : ℚ) : List TsoMessage :=
  (fed.federates.lookup h).elim [] fun fs => fs.tsoQueue.upTo t

/-- The same, taken out. -/
def dropTso (h : FederateHandle) (t : ℚ) : Federation :=
  fed.modifyFederate h fun fs => { fs with tsoQueue := fs.tsoQueue.drain t }

/-- Who waits, and for what. -/
def pendingAdvances (o : IterOrder FederateHandle) : List (FederateHandle × ℚ) :=
  (fed.sessions o).filterMap fun e => e.2.time.pendingAdvance.map (e.1, ·)

/-- A pending advance that is unconstrained or within a bound. -/
def mayGrant (bound : Timestamp) (g : FederateHandle × ℚ) : Bool :=
  (fed.federates.lookup g.1).any fun fs =>
    decide (fs.time.isConstrained = false ∨ (g.2 : Timestamp) ≤ bound)

/-- `to_grant`, for a bound read before. -/
def grantable (bound : Timestamp) (o : IterOrder FederateHandle) : List (FederateHandle × ℚ) :=
  (fed.sessions o).filterMap fun e =>
    e.2.time.pendingAdvance.bind fun pending =>
      if e.2.time.isConstrained = false ∨ (pending : Timestamp) ≤ bound then some (e.1, pending)
      else none

end Federation

theorem CallbackRequest.grant_tagged (t : ℚ) (u : AdvanceId) :
    (timeAdvanceGrant t).grantTime?.isSome = (some u).isSome := rfl

theorem CallbackRequest.regulation_untagged (now : ℚ) :
    (timeRegulationEnabled now).grantTime?.isSome = (none : Option AdvanceId).isSome := rfl

theorem TsoMessage.untagged (m : TsoMessage) :
    m.callback.grantTime?.isSome = (none : Option AdvanceId).isSome := by
  cases h : m.callback.grantTime? with
  | none => rfl
  | some =>
    have hs := m.stamped
    rw [CallbackRequest.eq_of_grantTime? h] at hs
    cases hs

namespace TimeJob

variable (j : TimeJob)

def start (h : FederateHandle) (ack : Ack) : TimeJob := ⟨h, ack, []⟩

def push (more : List Notice) : TimeJob := { j with out := j.out ++ more }

def returning : TimeCall := .returning (.ack j.ack) j.out

end TimeJob

namespace TimeShared

variable (s : TimeShared)

def setFed (fed : Federation) : TimeShared := { s with fed }

/-- A request is recorded. -/
def accept (h : FederateHandle) (fed : Federation) : TimeShared :=
  { s with fed, asked := Function.update s.asked h (s.asked h + 1) }

/-- A section that may refuse the call. -/
def check {α : Type} (ok : α → TimeShared × TimeCall) : Except ExceptionData α → TimeShared × TimeCall
  | .error e => (s, .returning (.exceptionData e) [])
  | .ok a => ok a

/-- A dispatched call, up to the end of its first section. -/
def start (c : Caller) : TimeRequest → TimeShared × TimeCall
  | .advance _ time => s.check (fun a =>
    let j := TimeJob.start c.federate .timeAdvanceRequest
    (s.accept c.federate a.1.federation,
      if a.1.caller.time.isConstrained = false then .claiming j a.2 (s.asked c.federate + 1)
      else .listing j)) (advanceSection c s.fed time)
  | .enableTimeRegulation lookahead => s.check (fun a =>
    (s.setFed a.federation, .regulating (.start c.federate .enableTimeRegulation)
      a.caller.time.currentTime)) (enableRegulationSection c s.fed lookahead)
  | .disableTimeRegulation => s.check (fun a =>
    (s.setFed a.federation, .looking (.start c.federate .disableTimeRegulation)))
    (disableRegulationSection c s.fed)
  | _ => (s, .idle)

/-- Tell a federate of a grant. -/
def tell (x : TimeInput) (j : TimeJob) (h : FederateHandle) (t : ℚ) (n : Nat) : TimeJob :=
  j.push (notices (s.fed.ownConnection (x.at j.federate) h) (.timeAdvanceGrant t) (some (h, n))
    (CallbackRequest.grant_tagged t _))

/-- The next section of a call. -/
def sect (x : TimeInput) : TimeCall → TimeShared × TimeCall
  | .idle => x.call.elim (s, .idle) (s.start x.caller)
  | .claiming j t n =>
    -- whether or not the request still stands, the grant is announced
    (if s.fed.Waits j.federate t then s.setFed (s.fed.grant j.federate t) else s,
      .draining j [(j.federate, t)] (some (t, n)))
  | .announcing j t n => (s, .listing (s.tell x j j.federate t n))
  | .regulating j now =>
    (s, .looking (j.push (notices (s.fed.ownConnection (x.at j.federate) j.federate)
      (.timeRegulationEnabled now) none (CallbackRequest.regulation_untagged now))))
  | .listing j => (s, .bounding j (s.fed.pendingAdvances x.caller.env.federates))
  | .bounding j pending => (s, .choosing j s.fed.lbts pending [])
  | .choosing j _ [] chosen => (s, .draining j chosen none)
  | .choosing j bound (g :: pending) chosen =>
    (s, .choosing j bound pending (if s.fed.mayGrant bound g then chosen ++ [g] else chosen))
  | .draining j [] own => (s, own.elim (.looking j) fun g => .announcing j g.1 g.2)
  | .draining j (g :: queues) own =>
    let messages := s.fed.tsoUpTo g.1 g.2
    (s.setFed (s.fed.dropTso g.1 g.2),
      if messages.isEmpty then .draining j queues own
      else .delivering j g.1 messages queues own)
  | .delivering j h messages queues own =>
    (s, .draining (j.push (messages.flatMap fun m =>
      notices (s.fed.ownConnection (x.at j.federate) h) m.callback none m.untagged)) queues own)
  | .looking j => (s, .collecting j s.fed.lbts)
  | .collecting j bound =>
    let batch := s.fed.grantable bound x.caller.env.federates
    (s, if batch.isEmpty then j.returning else .applying j bound batch)
  | .applying j bound batch =>
    let done := s.fed.applyGrants batch
    (s.setFed done.1, .telling j bound (done.2.map fun g => (g, s.asked g.1)))
  | .telling j bound (g :: granted) =>
    (s, .telling (s.tell x j g.1.1 g.1.2 g.2) bound granted)
  | .telling j bound [] => (s, if bound < s.fed.lbts then .looking j else j.returning)
  | .returning response out => ({ s with sent := s.sent ++ [(response, out)] }, .idle)

end TimeShared

/-- The action is none of these calls, and not a new federation. -/
def FedAction.outsidePasses : FedAction → Bool
  | create _ _ => false
  | serve _ (.time r) => r.kind == .role
  | _ => true

def granting : Sections TimeShared TimeCall TimeInput FedAction where
  sect s p x := s.sect x p
  act s a := if a.outsidePasses then s.setFed (a.apply s.fed) else s

/-- A new federation, no call under way. -/
def TimeShared.new (name : String) (fom : Omt.MergedFom) : TimeShared := ⟨.new name fom, fun _ => 0, []⟩

/-! ## One call by itself -/

/-- A call has come as far as callbacks `cbs`. -/
structure TimeJob.Gains (j : TimeJob) (cbs : List OutboundCallback) (j' : TimeJob) : Prop where
  federate : j'.federate = j.federate
  ack : j'.ack = j.ack
  out : j'.out.map Notice.callback = j.out.map Notice.callback ++ cbs

theorem notices_callback (conns : List Recipient) (body : CallbackRequest) (grants : Option AdvanceId)
    (tagged : body.grantTime?.isSome = grants.isSome) :
    (notices conns body grants tagged).map Notice.callback = fanOut conns body := by
  rw [notices, List.map_map]
  rfl

namespace TimeJob.Gains

variable {j j' j'' : TimeJob} {cbs cbs' : List OutboundCallback}

theorem refl : j.Gains [] j := ⟨rfl, rfl, (List.append_nil _).symm⟩

theorem trans (h : j.Gains cbs j') (h' : j'.Gains cbs' j'') : j.Gains (cbs ++ cbs') j'' :=
  ⟨h'.federate.trans h.federate, h'.ack.trans h.ack, by rw [h'.out, h.out, List.append_assoc]⟩

theorem push {more : List Notice} (h : more.map Notice.callback = cbs) : j.Gains cbs (j.push more) :=
  ⟨rfl, rfl, by rw [TimeJob.push, List.map_append, h]⟩

end TimeJob.Gains

/-- Left to itself with caller `c`, a call comes from `p` to `q`, having changed
the federation into `fed` and added callbacks `cbs`. -/
def TimeShared.Comes (c : Caller) (s : TimeShared) (j : TimeJob) (p : TimeCall) (fed : Federation)
    (cbs : List OutboundCallback) (q : TimeJob → TimeCall) : Prop :=
  ∃ s' j', granting.Leads ⟨none, c⟩ (s, p) (s', q j') ∧ s'.fed = fed ∧ s'.sent = s.sent ∧
    j.Gains cbs j'

section Solo

variable {c : Caller} {s s' : TimeShared} {j j' : TimeJob} {p : TimeCall} {fed fed' : Federation}
  {cbs cbs' : List OutboundCallback} {q q' : TimeJob → TimeCall} {bound : Timestamp}

namespace TimeShared.Comes

theorem here (q : TimeJob → TimeCall) (j : TimeJob) : s.Comes c j (q j) s.fed [] q :=
  ⟨s, j, .refl, rfl, rfl, .refl⟩

theorem head (h : (granting.sect s p ⟨none, c⟩).1.Comes c j (granting.sect s p ⟨none, c⟩).2 fed cbs q)
    (hsent : (granting.sect s p ⟨none, c⟩).1.sent = s.sent) : s.Comes c j p fed cbs q := by
  obtain ⟨s', j', hlead, hfed, hs', hout⟩ := h
  exact ⟨s', j', .head hlead, hfed, hs'.trans hsent, hout⟩

theorem gain (hj : j.Gains cbs j') (h : s.Comes c j' p fed cbs' q) :
    s.Comes c j p fed (cbs ++ cbs') q := by
  obtain ⟨s', j'', hlead, hfed, hs', hout⟩ := h
  exact ⟨s', j'', hlead, hfed, hs', hj.trans hout⟩

theorem trans (h : s.Comes c j p fed cbs q)
    (h' : ∀ (s' : TimeShared) (j' : TimeJob), s'.fed = fed → j'.federate = j.federate →
      s'.Comes c j' (q j') fed' cbs' q') :
    s.Comes c j p fed' (cbs ++ cbs') q' := by
  obtain ⟨s₁, j₁, hlead, hfed, hs₁, hout⟩ := h
  obtain ⟨s₂, j₂, hlead₂, hfed₂, hs₂, hout₂⟩ := h' s₁ j₁ hfed hout.federate
  exact ⟨s₂, j₂, hlead.trans hlead₂, hfed₂, hs₂.trans hs₁, hout.trans hout₂⟩

end TimeShared.Comes

theorem TimeInput.at_self {r : Option TimeRequest} (hj : j.federate = c.federate) :
    TimeInput.at ⟨r, c⟩ j.federate = c := by
  rw [hj]
  rfl

theorem gains_tell (hj : j.federate = c.federate) (h : FederateHandle) (t : ℚ) (n : Nat) :
    j.Gains (fanOut (s.fed.ownConnection c h) (.timeAdvanceGrant t)) (s.tell ⟨none, c⟩ j h t n) := by
  refine .push ((notices_callback ..).trans ?_)
  rw [TimeInput.at_self hj]

variable (bound) in
theorem comes_telling (hj : j.federate = c.federate) (granted : List ((FederateHandle × ℚ) × Nat)) :
    s.Comes c j (.telling j bound granted) s.fed
      (granted.flatMap fun g => fanOut (s.fed.ownConnection c g.1.1) (.timeAdvanceGrant g.1.2))
      (.telling · bound []) := by
  induction granted generalizing j with
  | nil => exact .here (.telling · bound []) j
  | cons g granted ih => exact .gain (gains_tell hj g.1.1 g.1.2 g.2) (.head (ih hj) rfl)

theorem drainTsoUpTo_eq (c : Caller) (fed : Federation) (h : FederateHandle) (t : ℚ) :
    drainTsoUpTo c fed h t = (fed.dropTso h t, (fed.tsoUpTo h t).flatMap fun m =>
      fanOut ((fed.dropTso h t).ownConnection c h) m.callback) := by
  rw [drainTsoUpTo, Federation.tsoUpTo]
  cases hfs : fed.federates.lookup h with
  | none =>
    have hsame : fed.dropTso h t = fed := by
      show ({ fed with federates := fed.federates.modify h _ } : Federation) = fed
      rw [HashMap.modify, hfs]
    rw [hsame]
    rfl
  | some => rfl

theorem comes_draining (hj : j.federate = c.federate) (queues : List (FederateHandle × ℚ))
    (own : Option (ℚ × Nat)) :
    s.Comes c j (.draining j queues own) (drainAll c s.fed queues).1 (drainAll c s.fed queues).2
      (.draining · [] own) := by
  induction queues generalizing s j with
  | nil => exact .here (.draining · [] own) j
  | cons g queues ih =>
    rw [drainAll, drainTsoUpTo_eq]
    refine .head ?_ rfl
    show (s.setFed (s.fed.dropTso g.1 g.2)).Comes c j
      (if (s.fed.tsoUpTo g.1 g.2).isEmpty then _ else _) _ _ _
    split
    · next hempty =>
        rw [List.isEmpty_iff.mp hempty]
        exact ih hj
    · refine .gain (.push ?_) (.head (ih hj) rfl)
      rw [List.map_flatMap]
      refine List.flatMap_congr fun m _ => ?_
      rw [notices_callback, TimeInput.at_self hj]
      rfl

theorem comes_choosing (pending chosen : List (FederateHandle × ℚ)) :
    s.Comes c j (.choosing j bound pending chosen) s.fed []
      (.choosing · bound [] (chosen ++ pending.filter (s.fed.mayGrant bound))) := by
  induction pending generalizing chosen with
  | nil =>
    rw [List.filter_nil, List.append_nil]
    exact .here (.choosing · bound [] chosen) j
  | cons g pending ih =>
    refine .head ?_ rfl
    show s.Comes c j (.choosing j bound pending (if s.fed.mayGrant bound g then _ else _)) _ _ _
    rw [List.filter_cons]
    split
    · have h := ih (chosen ++ [g])
      rw [← List.append_cons] at h
      exact h
    · exact ih _

/-- The pass, by the number of federates that wait. -/
private theorem comes_looking_of {names : List FederateHandle} (n : Nat)
    (hnames : ∀ h ∈ s.fed.federates, h ∈ names) (hn : s.fed.net.waiting names < n)
    (hj : j.federate = c.federate) :
    s.Comes c j (.looking j) (s.fed.tryGrantPendingAdvances c).federation
      (s.fed.tryGrantPendingAdvances c).callbacks TimeJob.returning := by
  induction n generalizing s j with
  | zero => exact absurd hn (Nat.not_lt_zero _)
  | succ n ih =>
    rw [Federation.tryGrantPendingAdvances_unroll]
    refine .head (.head ?_ rfl) rfl
    show s.Comes c j (if (s.fed.toGrant c.env.federates).isEmpty then _ else _) _ _ _
    split
    · exact .here TimeJob.returning j
    · next hne =>
        have hround : (s.setFed (s.fed.grantRound c).federation).Comes c j
            (.telling j s.fed.lbts
              ((s.fed.applyGrants (s.fed.toGrant c.env.federates)).2.map fun g => (g, s.asked g.1)))
            (s.fed.grantRound c).federation (s.fed.grantRound c).callbacks
            (.telling · s.fed.lbts []) := by
          have h := comes_telling (s := s.setFed (s.fed.grantRound c).federation)
            s.fed.lbts hj ((s.fed.applyGrants (s.fed.toGrant c.env.federates)).2.map
              fun g => (g, s.asked g.1))
          rw [List.flatMap_map] at h
          exact h
        refine .head ?_ rfl
        have hlt := Federation.waiting_grantRound_lt hnames hne
        split
        · next hraised =>
            refine hround.trans fun s' j' hfed hfd => ?_
            refine .head ?_ rfl
            show s'.Comes c j' (if s.fed.lbts < s'.fed.lbts then _ else _) _ _ _
            rw [hfed, if_pos hraised, ← hfed]
            exact ih (by rw [hfed]; exact Federation.grantRound_joined hnames)
              (by rw [hfed]; exact Nat.lt_of_lt_of_le hlt (Nat.le_of_lt_succ hn)) (hfd.trans hj)
        · next hsame =>
            have hend : ∀ (s' : TimeShared) (j' : TimeJob),
                s'.fed = (s.fed.grantRound c).federation → j'.federate = j.federate →
                  s'.Comes c j' (.telling j' s.fed.lbts []) (s.fed.grantRound c).federation []
                    TimeJob.returning := by
              intro s' j' hfed _
              refine .head ?_ rfl
              show s'.Comes c j' (if s.fed.lbts < s'.fed.lbts then _ else _) _ _ _
              rw [hfed, if_neg hsame, ← hfed]
              exact .here TimeJob.returning j'
            have h := hround.trans hend
            rw [List.append_nil] at h
            exact h

theorem comes_looking (hj : j.federate = c.federate) :
    s.Comes c j (.looking j) (s.fed.tryGrantPendingAdvances c).federation
      (s.fed.tryGrantPendingAdvances c).callbacks TimeJob.returning :=
  comes_looking_of _ (fun _ hh => AList.mem_keys.mp hh) (Nat.lt_succ_self _) hj

theorem aboutToBeGranted_eq (c : Caller) (fed : Federation) :
    aboutToBeGranted c fed =
      (fed.pendingAdvances c.env.federates).filter (fed.mayGrant fed.lbts) := by
  refine List.filter_congr fun g _ => ?_
  rw [Federation.mayGrant]
  cases fed.federates.lookup g.1 <;> rfl

theorem comes_listing (hj : j.federate = c.federate) :
    s.Comes c j (.listing j) (tryGrantPendingAdvancesWithTso c s.fed).federation
      (tryGrantPendingAdvancesWithTso c s.fed).callbacks TimeJob.returning := by
  have hchoose : s.Comes c j (.choosing j s.fed.lbts (s.fed.pendingAdvances c.env.federates) [])
      s.fed [] (.choosing · s.fed.lbts [] (aboutToBeGranted c s.fed)) := by
    rw [aboutToBeGranted_eq]
    exact comes_choosing _ []
  have hdrain : ∀ (s' : TimeShared) (j' : TimeJob), s'.fed = s.fed → j'.federate = j.federate →
      s'.Comes c j' (.choosing j' s.fed.lbts [] (aboutToBeGranted c s.fed))
        (drainAll c s.fed (aboutToBeGranted c s.fed)).1
        (drainAll c s.fed (aboutToBeGranted c s.fed)).2 (.draining · [] none) := by
    intro s' j' hfed hj'
    refine .head ?_ rfl
    rw [← hfed]
    exact comes_draining (hj'.trans hj) _ none
  refine .head (.head ?_ rfl) rfl
  refine (hchoose.trans hdrain).trans fun s' j' hfed hj' => ?_
  have hpass := comes_looking (s := s') (hj'.trans hj)
  rw [hfed] at hpass
  exact .head hpass rfl

theorem comes_announcing {t : ℚ} {n : Nat} (hj : j.federate = c.federate) :
    s.Comes c j (.announcing j t n) (tryGrantPendingAdvancesWithTso c s.fed).federation
      (fanOut (s.fed.ownConnection c c.federate) (.timeAdvanceGrant t) ++
        (tryGrantPendingAdvancesWithTso c s.fed).callbacks) TimeJob.returning := by
  have htell := gains_tell (s := s) hj j.federate t n
  rw [hj] at htell
  refine .gain htell (.head ?_ rfl)
  rw [← hj]
  exact comes_listing hj

theorem comes_claiming {t : ℚ} {n : Nat} (hj : j.federate = c.federate)
    (hw : s.fed.Waits c.federate t) :
    s.Comes c j (.claiming j t n) (grantAtOnce c s.fed t).federation
      (grantAtOnce c s.fed t).callbacks TimeJob.returning := by
  refine .head ?_ ?_
  · show (if s.fed.Waits j.federate t then s.setFed (s.fed.grant j.federate t) else s).Comes c j
      (.draining j [(j.federate, t)] (some (t, n))) _ _ _
    rw [hj, if_pos hw]
    have hdrain := comes_draining (s := s.setFed (s.fed.grant c.federate t)) hj [(c.federate, t)]
      (some (t, n))
    rw [drainAll, drainAll, List.append_nil] at hdrain
    show TimeShared.Comes c _ j _ _ ((_ ++ _) ++ _) _
    rw [List.append_assoc]
    refine hdrain.trans fun s' j' hfed hj' => ?_
    have hrest := comes_announcing (s := s') (t := t) (n := n) (hj'.trans hj)
    rw [hfed] at hrest
    exact .head hrest rfl
  · show (if s.fed.Waits j.federate t then s.setFed (s.fed.grant j.federate t) else s).sent = _
    split <;> rfl

/-- The responses and the callbacks pushed, call by call. -/
def TimeShared.log (s : TimeShared) : List (Resp × List OutboundCallback) :=
  s.sent.map fun e => (e.1, e.2.map Notice.callback)

/-- The shared state after a call is what the handler makes of it in one
step. -/
structure TimeShared.Serves (s s' : TimeShared) (o : Outcome) : Prop where
  fed : s'.fed = o.federation
  log : s'.log = s.log ++ [(o.response, o.callbacks)]

theorem TimeShared.Comes.serves {s₀ : TimeShared} {o : Outcome}
    (h : s.Comes c j p fed cbs TimeJob.returning) (hs : s.sent = s₀.sent) (hfed : fed = o.federation)
    (hresp : Resp.ack j.ack = o.response) (hcbs : j.out.map Notice.callback ++ cbs = o.callbacks) :
    ∃ s', granting.Leads ⟨none, c⟩ (s, p) (s', .idle) ∧ s₀.Serves s' o := by
  obtain ⟨s', j', hlead, hfed', hsent, hout⟩ := h
  refine ⟨_, hlead.trans (.head .refl), hfed'.trans hfed, ?_⟩
  show (s'.sent ++ [_]).map _ = _
  rw [List.map_append, hsent, hs, ← hcbs, ← hout.out, ← hresp, ← hout.ack]
  rfl

theorem leads_refused (e : ExceptionData) :
    ∃ s', granting.Leads ⟨none, c⟩ (s, .returning (.exceptionData e) []) (s', .idle) ∧
      s.Serves s' (.reject s.fed e) := by
  refine ⟨_, .head .refl, rfl, ?_⟩
  show (s.sent ++ [_]).map _ = _
  rw [List.map_append]
  rfl

theorem leads_start (s : TimeShared) (c : Caller) {r : TimeRequest} (hr : r.kind ≠ .role) :
    ∃ s', granting.Leads ⟨none, c⟩ (s.start c r) (s', .idle) ∧ s.Serves s' (serveTime c s.fed r) := by
  cases r with
  | enableTimeRegulation lookahead =>
    rw [TimeShared.start, serveTime, enableTimeRegulation]
    cases hsec : enableRegulationSection c s.fed lookahead with
    | error e => exact leads_refused e
    | ok =>
      refine (TimeShared.Comes.head (.gain (.push ((notices_callback ..).trans ?_))
        (comes_looking rfl)) rfl).serves rfl rfl rfl rfl
      rfl
  | disableTimeRegulation =>
    rw [TimeShared.start, serveTime, disableTimeRegulation]
    cases hsec : disableRegulationSection c s.fed with
    | error e => exact leads_refused e
    | ok => exact (comes_looking rfl).serves rfl rfl rfl rfl
  | advance service time =>
    rw [TimeShared.start, serveTime, timeAdvanceRequest]
    cases hsec : advanceSection c s.fed time with
    | error e => exact leads_refused e
    | ok a =>
      obtain ⟨sec, t⟩ := a
      show ∃ s', granting.Leads _ (s.accept c.federate sec.federation,
        if sec.caller.time.isConstrained = false then _ else _) _ ∧
        s.Serves s' ⟨(advancePass c sec t).federation, _, (advancePass c sec t).callbacks, _, none⟩
      rw [advancePass]
      split
      · obtain ⟨_, ht, hch⟩ := advanceSection_ok hsec
        have hw : sec.federation.Waits c.federate t := by
          rw [Federation.waits_iff]
          refine ⟨sec.caller.time.request ⟨t, ht⟩, ?_, rfl⟩
          rw [hch.federation, net_setTime hch.caller, if_pos rfl]
        exact (comes_claiming (s := s.accept c.federate sec.federation) rfl hw).serves
          rfl rfl rfl rfl
      · exact (comes_listing (s := s.accept c.federate sec.federation) rfl).serves rfl rfl rfl rfl
  | enableTimeConstrained | disableTimeConstrained | modifyLookahead => exact absurd rfl hr

/-- **A call that runs undisturbed** does what its handler does in one step,
whatever the other sessions are about. -/
theorem solo_serves_time {I : Type} [DecidableEq I] (s : TimeShared) (c : Caller) {calls : I → TimeCall}
    {i : I} (hidle : calls i = .idle) {r : TimeRequest} (hr : r.kind ≠ .role) :
    ∃ s' k, run granting.step (s, calls)
        ((⟨some r, c⟩ :: List.replicate k ⟨none, c⟩ : List TimeInput).map (.go i)) = (s', calls) ∧
      s.Serves s' (serveTime c s.fed r) := by
  obtain ⟨s', ⟨k, hsolo⟩, hserves⟩ := leads_start s c hr
  refine ⟨s', k, ?_, hserves⟩
  have hcall : granting.solo (⟨some r, c⟩ :: List.replicate k ⟨none, c⟩) s (calls i) =
      (s', .idle) := by
    rw [hidle]
    exact hsolo
  rw [Sections.run_solo]
  rw [hcall, ← hidle, Function.update_eq_self]

end Solo

/-! Two sessions, of federates 1 and 2. -/

abbrev TimeRun := List (SectionEvent Two TimeInput FedAction)

def timeCaller : Two → Caller
  | .one => ⟨⟨1⟩, AList.insert 1 ⟨1, 0⟩ (AList.insert 2 ⟨2, 1⟩ ∅), .plain, fun _ _ => none⟩
  | .two => ⟨⟨2⟩, AList.insert 1 ⟨1, 0⟩ (AList.insert 2 ⟨2, 1⟩ ∅), .plain, fun _ _ => none⟩

/-- The first section of an advance request of a session. -/
def advances (i : Two) : SectionEvent Two TimeInput FedAction :=
  .go i ⟨some (.advance .timeAdvanceRequest wireFive), timeCaller i⟩

/-- The next `k` sections of a session's call. -/
def advanceGoesOn (i : Two) (k : Nat) : TimeRun := List.replicate k (.go i ⟨none, timeCaller i⟩)

/-- Both federates join. -/
def bothJoined : TimeRun := [.act (.join none 1), .act (.join none 2)]

/-- The first is regulating; the second is constrained, and its call has recorded
a request. -/
def requestRecorded : TimeShared × (Two → TimeCall) :=
  run granting.step (TimeShared.new "f" .new, fun _ => TimeCall.idle) (bothJoined ++
    [.act (.serve (timeCaller .two) (.time .enableTimeConstrained)),
      .go .one ⟨some (.enableTimeRegulation wireOne), timeCaller .one⟩] ++ advanceGoesOn .one 20 ++
    [advances .two])

theorem solo_serves_time_grants :
    let s := requestRecorded
    let o := serveTime (timeCaller .one) s.1.fed (.advance .timeAdvanceRequest wireFive)
    (∃ j, s.2 .two = .listing j) ∧ s.1.fed.Waits ⟨2⟩ 5 ∧
    o.callbacks.map (fun cb => (cb.target.sessionId, cb.body.grantTime?)) = [(1, some 5), (2, some 5)] ∧
    ∃ s' k, run granting.step s (advances .one :: advanceGoesOn .one k) = (s', s.2) ∧
      s.1.Serves s' o := by
  obtain ⟨s', k, hrun, hserves⟩ := @solo_serves_time Two _ requestRecorded.1 (timeCaller .one)
    requestRecorded.2 .one rfl (.advance .timeAdvanceRequest wireFive) (by decide)
  refine ⟨⟨_, rfl⟩, by decide +kernel, by decide +kernel, s', k, ?_, hserves⟩
  rw [List.map_cons, List.map_replicate] at hrun
  exact hrun

/-! ## Granted once -/

/-- The requests told of in what was pushed. -/
def TimeShared.granted (s : TimeShared) : List AdvanceId := s.sent.flatMap fun e => noticed e.2

namespace TimeCall

/-- The requests that a call is going to tell of. -/
def owed : TimeCall → List AdvanceId
  | .idle => []
  | .claiming j _ n => noticed j.out ++ [(j.federate, n)]
  | .announcing j _ n => noticed j.out ++ [(j.federate, n)]
  | .regulating j _ => noticed j.out
  | .listing j => noticed j.out
  | .bounding j _ => noticed j.out
  | .choosing j _ _ _ => noticed j.out
  | .draining j _ own => noticed j.out ++ (own.map fun g => (j.federate, g.2)).toList
  | .delivering j _ _ _ own => noticed j.out ++ (own.map fun g => (j.federate, g.2)).toList
  | .looking j => noticed j.out
  | .collecting j _ => noticed j.out
  | .applying j _ _ => noticed j.out
  | .telling j _ granted => noticed j.out ++ granted.map fun g => (g.1.1, g.2)
  | .returning _ out => noticed out

/-- The request of a call between its two sections. -/
def claim? : TimeCall → Option (AdvanceId × ℚ)
  | .claiming j t n => some ((j.federate, n), t)
  | _ => none

/-- The grants that the next section applies, where they still stand. -/
def batch : TimeCall → List (FederateHandle × ℚ)
  | .applying _ _ batch => batch
  | _ => []

end TimeCall

section Notices

variable {s : TimeShared} {x : TimeInput}

theorem noticed_append (out more : List Notice) : noticed (out ++ more) = noticed out ++ noticed more :=
  List.filterMap_append

theorem noticed_untagged (conns : List Recipient) (body : CallbackRequest)
    (tagged : body.grantTime?.isSome = (none : Option AdvanceId).isSome) :
    noticed (notices conns body none tagged) = [] := by
  rw [noticed, notices, List.filterMap_map]
  exact List.filterMap_eq_nil_iff.mpr fun _ _ => rfl

theorem noticed_tell (j : TimeJob) (h : FederateHandle) (t : ℚ) (n : Nat) :
    (noticed (s.tell x j h t n).out).Sublist (noticed j.out ++ [(h, n)]) := by
  show (noticed (j.out ++ _)).Sublist _
  rw [noticed_append, Federation.ownConnection_eq]
  refine List.Sublist.append_left ?_ _
  cases s.fed.recipient (x.at j.federate) h with
  | none => exact List.nil_sublist _
  | some => exact List.Sublist.refl _

theorem noticed_messages (j : TimeJob) (conns : List Recipient) (messages : List TsoMessage) :
    noticed (j.push (messages.flatMap fun m => notices conns m.callback none m.untagged)).out =
      noticed j.out := by
  have hnone : noticed (messages.flatMap fun m => notices conns m.callback none m.untagged) = [] := by
    rw [noticed, List.filterMap_flatMap, List.flatMap_eq_nil_iff]
    exact fun m _ => noticed_untagged ..
  show noticed (j.out ++ _) = _
  rw [noticed_append, hnone, List.append_nil]

end Notices

namespace TimeShared

/-- An accepted request that does not stand any more. -/
structure Settled (s : TimeShared) (u : AdvanceId) : Prop where
  accepted : u.2 ≤ s.asked u.1
  gone : u.2 = s.asked u.1 → s.fed.net.wait u.1 = none

/-- An accepted request, for `t`, that may still stand. -/
structure Claimed (s : TimeShared) (u : AdvanceId) (t : ℚ) : Prop where
  accepted : u.2 ≤ s.asked u.1
  stands : u.2 = s.asked u.1 → s.fed.net.wait u.1 = some t ∨ s.fed.net.wait u.1 = none

/-- What happens to the requests of a federate: they stay, the last one stands
no more, or there is a new one. -/
def Goes (s s' : TimeShared) : Prop :=
  ∀ h, (s'.asked h = s.asked h ∧
      (s'.fed.net.wait h = s.fed.net.wait h ∨ s'.fed.net.wait h = none)) ∨
    s'.asked h = s.asked h + 1

variable {s s' : TimeShared} {u : AdvanceId} {t : ℚ}

theorem Goes.setFed {fed : Federation}
    (h : ∀ k, fed.net.wait k = s.fed.net.wait k ∨ fed.net.wait k = none) : s.Goes (s.setFed fed) :=
  fun k => .inl ⟨rfl, h k⟩

theorem Goes.refl : s.Goes s := .setFed fun _ => .inl rfl

theorem Settled.goes (h : s.Settled u) (hg : s.Goes s') : s'.Settled u := by
  rcases hg u.1 with ⟨hask, hwait⟩ | hask
  · refine ⟨hask ▸ h.accepted, fun heq => ?_⟩
    rcases hwait with hwait | hwait
    · rw [hwait, h.gone (heq.trans hask)]
    · exact hwait
  · have hle := h.accepted
    exact ⟨by omega, fun heq => by omega⟩

theorem Claimed.goes (h : s.Claimed u t) (hg : s.Goes s') : s'.Claimed u t := by
  rcases hg u.1 with ⟨hask, hwait⟩ | hask
  · refine ⟨hask ▸ h.accepted, fun heq => ?_⟩
    rcases hwait with hwait | hwait
    · rw [hwait]
      exact h.stands (heq.trans hask)
    · exact .inr hwait
  · have hle := h.accepted
    exact ⟨by omega, fun heq => by omega⟩

end TimeShared

section Waits

variable {fed : Federation}

theorem wait_grant (h : FederateHandle) (t : ℚ) (k : FederateHandle) :
    (fed.grant h t).net.wait k = if k = h then none else fed.net.wait k := by
  rw [Net.wait, Federation.net_grant, Net.grant]
  split
  · next hk => subst hk; cases fed.net k <;> rfl
  · rfl

theorem waits_iff_wait {h : FederateHandle} {t : ℚ} :
    fed.Waits h t ↔ fed.net.wait h = some t := by
  rw [Federation.waits_iff, Net.wait, Option.bind_eq_some_iff]

/-- Grants that are applied were asked for, each once, and stand no more. -/
structure Federation.Applies (fed : Federation) (batch : List (FederateHandle × ℚ))
    (done : Federation × List (FederateHandle × ℚ)) : Prop where
  wait : ∀ h, done.1.net.wait h = fed.net.wait h ∨ done.1.net.wait h = none
  nodup : (done.2.map Prod.fst).Nodup
  asked : ∀ g ∈ done.2, g ∈ batch ∧ fed.Waits g.1 g.2
  gone : ∀ g ∈ done.2, done.1.net.wait g.1 = none

theorem applyGrants_applies (fed : Federation) (batch : List (FederateHandle × ℚ)) :
    fed.Applies batch (fed.applyGrants batch) := by
  induction batch generalizing fed with
  | nil => exact ⟨fun _ => .inl rfl, List.nodup_nil, nofun, nofun⟩
  | cons g batch ih =>
    obtain ⟨h, t⟩ := g
    rw [Federation.applyGrants]
    split
    · next hw =>
        have hrest := ih (fed.grant h t)
        -- the federate granted first waits for nothing, so it is not granted again
        have hne : ∀ g ∈ ((fed.grant h t).applyGrants batch).2, g.1 ≠ h := by
          rintro g hg rfl
          have hwait := waits_iff_wait.mp (hrest.asked g hg).2
          rw [wait_grant, if_pos rfl] at hwait
          cases hwait
        have hself : ((fed.grant h t).applyGrants batch).1.net.wait h = none := by
          rcases hrest.wait h with hw' | hw'
          · rw [hw', wait_grant, if_pos rfl]
          · exact hw'
        refine ⟨fun k => ?_, ?_, ?_, ?_⟩
        · by_cases hk : k = h
          · subst hk
            exact .inr hself
          · have := hrest.wait k
            rw [wait_grant, if_neg hk] at this
            exact this
        · refine List.nodup_cons.mpr ⟨fun hmem => ?_, hrest.nodup⟩
          obtain ⟨g, hg, hgh⟩ := List.mem_map.mp hmem
          exact hne g hg hgh
        · intro g hg
          rcases List.mem_cons.mp hg with rfl | hg
          · exact ⟨List.mem_cons_self, hw⟩
          · obtain ⟨hmem, hwait⟩ := hrest.asked g hg
            rw [waits_iff_wait, wait_grant, if_neg (hne g hg)] at hwait
            exact ⟨List.mem_cons_of_mem _ hmem, waits_iff_wait.mpr hwait⟩
        · intro g hg
          rcases List.mem_cons.mp hg with rfl | hg
          · exact hself
          · exact hrest.gone g hg
    · have hrest := ih fed
      exact ⟨hrest.wait, hrest.nodup, fun g hg => ⟨List.mem_cons_of_mem _ (hrest.asked g hg).1,
        (hrest.asked g hg).2⟩, hrest.gone⟩

theorem wait_dropTso (h : FederateHandle) (t : ℚ) (k : FederateHandle) :
    (fed.dropTso h t).net.wait k = fed.net.wait k := by
  have ht : fed.Touches ([FederatePart.queue].map .federate) (fed.dropTso h t) := by
    refine Federation.touches_modifyFederate [.queue] ?_
    intro fs q hq
    cases q <;> first | rfl | exact absurd (List.mem_singleton_self _) hq
  rw [ht.net (by decide)]

/-- The other actions: a federate waits as before, or not. -/
theorem wait_apply {a : FedAction} (ha : a.outsidePasses = true) (h : FederateHandle) :
    (a.apply fed).net.wait h = fed.net.wait h ∨ (a.apply fed).net.wait h = none := by
  have membership : (∀ c req, a ≠ .serve c req) → (a.apply fed).net.wait h = fed.net.wait h ∨
      (a.apply fed).net.wait h = none := by
    intro hserve
    cases hp : (a.apply fed).net h with
    | none => exact .inr (by rw [Net.wait, hp]; rfl)
    | some =>
      cases hent : a.enters fed h with
      | true =>
        obtain ⟨fs, hfs, rfl⟩ := Federation.net_eq_some.mp hp
        obtain ⟨name, sessionId, rfl⟩ := FedAction.lookup_of_enters hent hfs
        exact .inr (wait_eq_of_net hp)
      | false =>
        have hold := net_apply_of_membership hserve hent hp
        exact .inl ((wait_eq_of_net hp).trans (wait_eq_of_net hold).symm)
  cases a with
  | create => cases ha
  | join | leave => exact membership fun _ _ h => by cases h
  | serve c req =>
    refine .inl ?_
    show (serve c fed req).federation.net.wait h = _
    cases req with
    | time r =>
      rcases serveTime_cases c fed r with ⟨e, _, he⟩ | ⟨s, resp, own, hs, _, hcase⟩
      · show (serveTime c fed r).federation.net.wait h = _
        rw [he]
        rfl
      · rcases hcase with ⟨_, he⟩ | ⟨hkind, pass, hpass, he⟩
        · show (serveTime c fed r).federation.net.wait h = _
          rw [he]
          refine wait_section ?_ hs
          rintro service time rfl
          cases ha
        · exact absurd (eq_of_beq ha) hkind
    | _ => rw [(serve_footprint _).net (by simp [ServiceRequest.parts])]

end Waits

section Sections

variable {s : TimeShared} {x : TimeInput} {p : TimeCall} {u : AdvanceId} {h : FederateHandle}
  {a : TimeShared × TimeCall}

/-- A first section: no request, or a new one, which the call may have to grant
itself. -/
inductive TimeShared.Starts (s : TimeShared) (h : FederateHandle) : TimeShared × TimeCall → Prop
  | quiet {fed : Federation} {p : TimeCall} (hwait : ∀ k, fed.net.wait k = s.fed.net.wait k)
      (howed : p.owed = []) (hclaim : p.claim? = none) : Starts s h (s.setFed fed, p)
  | accepted {fed : Federation} {t : ℚ} {j : TimeJob} {p : TimeCall} (hout : j.out = [])
      (hwait : ∀ k, k ≠ h → fed.net.wait k = s.fed.net.wait k) (hself : fed.net.wait h = some t)
      (hj : j.federate = h) (hp : p = .claiming j t (s.asked h + 1) ∨ p = .listing j) :
      Starts s h (s.accept h fed, p)

theorem starts_start (s : TimeShared) (c : Caller) (r : TimeRequest) :
    s.Starts c.federate (s.start c r) := by
  have quiet : ∀ p : TimeCall, p.owed = [] → p.claim? = none → s.Starts c.federate (s, p) :=
    fun p => .quiet fun _ => rfl
  cases r with
  | advance service time =>
    rw [TimeShared.start]
    cases hsec : advanceSection c s.fed time with
    | error => exact quiet _ rfl rfl
    | ok a =>
      obtain ⟨sec, t⟩ := a
      obtain ⟨_, ht, hch⟩ := advanceSection_ok hsec
      refine .accepted (t := t) (j := .start c.federate .timeAdvanceRequest) rfl (fun k hk => ?_) ?_
        rfl ?_
      · rw [hch.federation, wait_setTime hch.caller, if_neg hk]
      · rw [hch.federation, wait_setTime hch.caller, if_pos rfl]
        rfl
      · by_cases hfree : sec.caller.time.isConstrained = false
        · exact .inl (if_pos hfree)
        · exact .inr (if_neg hfree)
  | enableTimeRegulation lookahead =>
    rw [TimeShared.start]
    cases hsec : enableRegulationSection c s.fed lookahead with
    | error => exact quiet _ rfl rfl
    | ok =>
      refine .quiet (fun k => ?_) rfl rfl
      exact wait_section (r := .enableTimeRegulation lookahead) nofun hsec
  | disableTimeRegulation =>
    rw [TimeShared.start]
    cases hsec : disableRegulationSection c s.fed with
    | error => exact quiet _ rfl rfl
    | ok => exact .quiet (fun k => wait_section (r := .disableTimeRegulation) nofun hsec) rfl rfl
  | enableTimeConstrained | disableTimeConstrained | modifyLookahead => exact quiet _ rfl rfl

theorem starts_sect (s : TimeShared) (x : TimeInput) :
    s.Starts x.caller.federate (s.sect x .idle) := by
  rw [TimeShared.sect]
  cases x.call with
  | none => exact TimeShared.Starts.quiet (fun _ => rfl) rfl rfl
  | some r => exact starts_start s x.caller r

theorem TimeShared.Starts.goes (ha : s.Starts h a) :
    s.Goes a.1 := by
  cases ha with
  | quiet hwait => exact .setFed fun k => .inl (hwait k)
  | accepted _ hwait =>
    intro k
    by_cases hk : k = h
    · subst hk
      exact .inr (Function.update_self ..)
    · exact .inl ⟨Function.update_of_ne hk .., .inl (hwait k hk)⟩

theorem TimeShared.Starts.granted_eq (ha : s.Starts h a) : a.1.granted = s.granted := by
  cases ha <;> rfl

/-- The one request that a call may owe after its first section is its own. -/
theorem TimeShared.Starts.owed (ha : s.Starts h a) :
    (a.2.owed = [] ∧ a.2.claim? = none) ∨
    ∃ t, a.2.owed = [(h, s.asked h + 1)] ∧ a.2.claim? = some ((h, s.asked h + 1), t) ∧
      a.1.Claimed (h, s.asked h + 1) t := by
  cases ha with
  | quiet _ howed hclaim => exact .inl ⟨howed, hclaim⟩
  | @accepted fed t j p hout _ hself hj hp =>
    have hnone : noticed j.out = [] := by rw [hout]; rfl
    rcases hp with rfl | rfl
    · have hask : (s.accept h fed).asked h = s.asked h + 1 := Function.update_self ..
      refine .inr ⟨t, ?_, ?_, ⟨hask.ge, fun _ => .inl hself⟩⟩
      · rw [TimeCall.owed, hnone, hj]
        rfl
      · rw [TimeCall.claim?, hj]
    · exact .inl ⟨hnone, rfl⟩

theorem goes_sect (s : TimeShared) (x : TimeInput) (p : TimeCall) : s.Goes (s.sect x p).1 := by
  cases p with
  | idle => exact (starts_sect s x).goes
  | claiming j t =>
    show s.Goes (if s.fed.Waits j.federate t then s.setFed (s.fed.grant j.federate t) else s)
    split
    · refine .setFed fun k => ?_
      rw [wait_grant]
      split
      · exact .inr rfl
      · exact .inl rfl
    · exact .refl
  | draining j queues =>
    cases queues with
    | nil => exact .refl
    | cons g => exact .setFed fun k => .inl (wait_dropTso g.1 g.2 k)
  | applying j bound batch => exact .setFed (applyGrants_applies s.fed batch).wait
  | choosing j bound pending => cases pending <;> exact .refl
  | telling j bound granted => cases granted <;> exact .refl
  | returning => exact fun k => .inl ⟨rfl, .inl rfl⟩
  | announcing | regulating | listing | bounding | delivering | looking | collecting => exact .refl

/-- The requests that a section takes upon itself to tell of. -/
def TimeShared.taken (s : TimeShared) (x : TimeInput) : TimeCall → List AdvanceId
  | .idle => (s.sect x .idle).2.owed
  | .applying _ _ batch => (s.fed.applyGrants batch).2.map fun g => (g.1, s.asked g.1)
  | _ => []

/-- **Nothing is told of from nowhere**: what was told of or is owed after a
section was so before, or the section took it upon itself. -/
theorem sect_owed (s : TimeShared) (x : TimeInput) (p : TimeCall) :
    ((s.sect x p).1.granted ++ (s.sect x p).2.owed).Sublist
      (s.granted ++ (p.owed ++ s.taken x p)) := by
  have same : ∀ p' : TimeCall, p'.owed.Sublist p.owed →
      (s.granted ++ p'.owed).Sublist (s.granted ++ (p.owed ++ s.taken x p)) := fun p' h =>
    (h.trans (List.sublist_append_left ..)).append_left _
  cases p with
  | idle =>
    rw [(starts_sect s x).granted_eq]
    exact .refl _
  | claiming j t n =>
    have hsent : (s.sect x (.claiming j t n)).1.granted = s.granted := by
      show (if s.fed.Waits j.federate t then s.setFed (s.fed.grant j.federate t) else s).granted = _
      split <;> rfl
    rw [hsent]
    exact same _ (.refl _)
  | announcing => exact same _ (noticed_tell ..)
  | regulating j =>
    refine same (.looking (j.push _)) ?_
    show (noticed (j.out ++ _)).Sublist (noticed j.out)
    rw [noticed_append, noticed_untagged, List.append_nil]
  | choosing j bound pending =>
    cases pending with
    | nil =>
      refine same _ ?_
      show (noticed j.out ++ []).Sublist (noticed j.out)
      rw [List.append_nil]
    | cons => exact same _ (.refl _)
  | draining j queues own =>
    cases queues with
    | nil =>
      cases own with
      | none => exact same _ (List.sublist_append_left ..)
      | some => exact same _ (.refl _)
    | cons g =>
      refine same (if (s.fed.tsoUpTo g.1 g.2).isEmpty then _ else _) ?_
      split <;> exact .refl _
  | delivering j =>
    refine same _ ?_
    show (noticed _ ++ _).Sublist (noticed j.out ++ _)
    rw [noticed_messages]
    exact .refl _
  | collecting j bound =>
    refine same (if (s.fed.grantable bound x.caller.env.federates).isEmpty then _ else _) ?_
    split <;> exact .refl _
  | applying j =>
    show (s.granted ++ (noticed j.out ++ _)).Sublist _
    rw [List.map_map]
    exact .refl _
  | telling j bound granted =>
    cases granted with
    | nil =>
      refine same (if bound < s.fed.lbts then _ else _) ?_
      split <;> exact List.sublist_append_left ..
    | cons g =>
      refine same _ ?_
      show (noticed (s.tell x j g.1.1 g.1.2 g.2).out ++ _).Sublist (noticed j.out ++ (g.1.1, g.2) :: _)
      rw [List.append_cons]
      exact (noticed_tell ..).append_right _
  | returning response out =>
    show ((s.sent ++ [(response, out)]).flatMap _ ++ []).Sublist (s.granted ++ (noticed out ++ []))
    rw [List.append_nil, List.append_nil, List.flatMap_append, List.flatMap_singleton]
    exact .refl _
  | listing | bounding | looking => exact same _ (.refl _)

/-- What a section takes upon itself is a new request, or one that stands. -/
theorem taken_stands (hu : u ∈ s.taken x p) :
    p.claim? = none ∧ (u.2 = s.asked u.1 + 1 ∨
      (u.2 = s.asked u.1 ∧ ∃ g ∈ p.batch, s.fed.Waits g.1 g.2 ∧ g.1 = u.1)) := by
  cases p with
  | idle =>
    refine ⟨rfl, .inl ?_⟩
    change u ∈ (s.sect x .idle).2.owed at hu
    rcases (starts_sect s x).owed with ⟨howed, _⟩ | ⟨t, howed, _⟩
    · rw [howed] at hu
      cases hu
    · rw [howed, List.mem_singleton] at hu
      rw [hu]
  | applying j bound batch =>
    obtain ⟨g, hg, rfl⟩ := List.mem_map.mp hu
    obtain ⟨hmem, hw⟩ := (applyGrants_applies s.fed batch).asked g hg
    exact ⟨rfl, .inr ⟨rfl, g, hmem, hw, rfl⟩⟩
  | _ => cases hu

theorem taken_nodup (s : TimeShared) (x : TimeInput) (p : TimeCall) : (s.taken x p).Nodup := by
  cases p with
  | idle =>
    show (s.sect x .idle).2.owed.Nodup
    rcases (starts_sect s x).owed with ⟨howed, _⟩ | ⟨t, howed, _⟩
    · rw [howed]
      exact List.nodup_nil
    · rw [howed]
      exact List.nodup_singleton _
  | applying j bound batch =>
    have hkeys := (applyGrants_applies s.fed batch).nodup
    refine .of_map Prod.fst ?_
    show (List.map _ (List.map _ _)).Nodup
    rw [List.map_map]
    exact hkeys
  | _ => exact List.nodup_nil

/-- No request was told of twice, and those told of stand no more. -/
structure TimeShared.Told (s : TimeShared) : Prop where
  nodup : s.granted.Nodup
  settled : ∀ u ∈ s.granted, s.Settled u

/-- What a call is going to tell of was not told of before; it stands no more,
except for the request of a call between its two sections. -/
structure TimeCall.Owes (s : TimeShared) (p : TimeCall) : Prop where
  fresh : (s.granted ++ p.owed).Nodup
  settled : ∀ u ∈ p.owed, (∀ t, p.claim? ≠ some (u, t)) → s.Settled u
  claim : ∀ u t, p.claim? = some (u, t) → s.Claimed u t

theorem not_settled_of_taken (hu : u ∈ s.taken x p) : ¬ s.Settled u := by
  intro hset
  rcases (taken_stands hu).2 with hnew | ⟨hask, g, _, hw, hgu⟩
  · have := hset.accepted
    omega
  · have hwait := waits_iff_wait.mp hw
    rw [hgu, hset.gone hask] at hwait
    cases hwait

/-- Nothing that a section takes upon itself is owed or told of. -/
theorem nodup_taken (hs : s.Told) (hp : p.Owes s) :
    (s.granted ++ (p.owed ++ s.taken x p)).Nodup := by
  rw [← List.append_assoc, List.nodup_append]
  refine ⟨hp.fresh, taken_nodup s x p, ?_⟩
  rintro u hu _ htaken rfl
  refine not_settled_of_taken htaken ?_
  rcases List.mem_append.mp hu with hu | hu
  · exact hs.settled u hu
  · exact hp.settled u hu fun t => by rw [(taken_stands htaken).1]; nofun

/-- What a section leaves owed stands no more, unless it has just been
accepted. -/
theorem settled_sect (hs : s.Told) (hp : p.Owes s) (hu : u ∈ (s.sect x p).2.owed)
    (hclaim : ∀ t, (s.sect x p).2.claim? ≠ some (u, t)) : (s.sect x p).1.Settled u := by
  have hfrom := (sect_owed s x p).subset (List.mem_append_right _ hu)
  have other : p.claim? = none → u ∉ s.taken x p → (s.sect x p).1.Settled u := by
    intro hnone htaken
    refine TimeShared.Settled.goes ?_ (goes_sect s x p)
    rcases List.mem_append.mp hfrom with hold | hfrom
    · exact hs.settled u hold
    · rcases List.mem_append.mp hfrom with howed | hnew
      · exact hp.settled u howed fun t => by rw [hnone]; nofun
      · exact absurd hnew htaken
  cases p with
  | idle =>
    rcases (starts_sect s x).owed with ⟨howed, _⟩ | ⟨t, howed, hclaimed, _⟩
    · rw [howed] at hu
      cases hu
    · rw [howed, List.mem_singleton] at hu
      exact absurd (by rw [hclaimed, hu]) (hclaim t)
  | claiming j t n =>
    by_cases hself : u = (j.federate, n)
    · -- the section grants the request if it stands
      have hc := hp.claim (j.federate, n) t rfl
      subst hself
      show TimeShared.Settled
        (if s.fed.Waits j.federate t then s.setFed (s.fed.grant j.federate t) else s) _
      split
      · refine ⟨hc.accepted, fun _ => ?_⟩
        show (s.fed.grant j.federate t).net.wait j.federate = none
        rw [wait_grant, if_pos rfl]
      · next hw =>
          refine ⟨hc.accepted, fun hask => ?_⟩
          rcases hc.stands hask with hstands | hnone
          · exact absurd (waits_iff_wait.mpr hstands) hw
          · exact hnone
    · refine TimeShared.Settled.goes ?_ (goes_sect s x _)
      rcases List.mem_append.mp hfrom with hold | hfrom
      · exact hs.settled u hold
      · rcases List.mem_append.mp hfrom with howed | hnew
        · exact hp.settled u howed fun t' he => hself (by cases he; rfl)
        · cases hnew
  | applying j bound batch =>
    by_cases htaken : u ∈ s.taken x (.applying j bound batch)
    · obtain ⟨g, hg, rfl⟩ := List.mem_map.mp htaken
      exact ⟨Nat.le_refl _, fun _ => (applyGrants_applies s.fed batch).gone g hg⟩
    · exact other rfl htaken
  | _ => exact other rfl List.not_mem_nil

theorem TimeCall.claim_sect {t : ℚ} (hclaim : (s.sect x p).2.claim? = some (u, t)) :
    (s.sect x p).1.Claimed u t := by
  cases p with
  | idle =>
    rcases (starts_sect s x).owed with ⟨_, hnone⟩ | ⟨t', _, hclaimed, hstands⟩
    · rw [hnone] at hclaim
      cases hclaim
    · rw [hclaimed] at hclaim
      cases hclaim
      exact hstands
  | choosing j bound pending => cases pending <;> cases hclaim
  | draining j queues own =>
    cases queues with
    | nil => cases own <;> cases hclaim
    | cons g queues =>
      change (if (s.fed.tsoUpTo g.1 g.2).isEmpty then TimeCall.draining j queues own
        else .delivering j g.1 _ queues own).claim? = _ at hclaim
      split at hclaim <;> cases hclaim
  | collecting j bound =>
    change (if (s.fed.grantable bound x.caller.env.federates).isEmpty then j.returning
      else .applying j bound _).claim? = _ at hclaim
    split at hclaim <;> cases hclaim
  | telling j bound granted =>
    cases granted with
    | nil =>
      change (if bound < s.fed.lbts then TimeCall.looking j else j.returning).claim? = _ at hclaim
      split at hclaim <;> cases hclaim
    | cons => cases hclaim
  | _ => cases hclaim

/-- A call pushes what it owes when it returns. -/
theorem granted_sect (s : TimeShared) (x : TimeInput) (p : TimeCall) :
    (s.sect x p).1.granted = s.granted ∨
      (p.claim? = none ∧ (s.sect x p).1.granted = s.granted ++ p.owed) := by
  cases p with
  | idle => exact .inl (starts_sect s x).granted_eq
  | claiming j t =>
    refine .inl ?_
    show (if s.fed.Waits j.federate t then s.setFed (s.fed.grant j.federate t) else s).granted = _
    split <;> rfl
  | returning response out =>
    refine .inr ⟨rfl, ?_⟩
    show (s.sent ++ [(response, out)]).flatMap _ = _
    rw [List.flatMap_append, List.flatMap_singleton]
    rfl
  | choosing j bound pending => cases pending <;> exact .inl rfl
  | draining j queues => cases queues <;> exact .inl rfl
  | telling j bound granted => cases granted <;> exact .inl rfl
  | _ => exact .inl rfl

theorem TimeShared.Told.sect (hs : s.Told) (hp : p.Owes s) : (s.sect x p).1.Told := by
  refine ⟨((nodup_taken hs hp).sublist (sect_owed s x p)).of_append_left, fun u hu => ?_⟩
  refine TimeShared.Settled.goes ?_ (goes_sect s x p)
  rcases granted_sect s x p with h | ⟨hnone, h⟩
  · exact hs.settled u (h ▸ hu)
  · rw [h] at hu
    rcases List.mem_append.mp hu with hu | hu
    · exact hs.settled u hu
    · exact hp.settled u hu fun t => by rw [hnone]; nofun

theorem TimeCall.Owes.sect (hs : s.Told) (hp : p.Owes s) : (s.sect x p).2.Owes (s.sect x p).1 :=
  ⟨(nodup_taken hs hp).sublist (sect_owed s x p), fun _ hu hclaim => settled_sect hs hp hu hclaim,
    fun _ _ hclaim => TimeCall.claim_sect hclaim⟩

theorem TimeCall.Owes.other {q : TimeCall} (hq : q.Owes s) (hp : p.Owes s)
    (hpq : p.owed.Disjoint q.owed) : q.Owes (s.sect x p).1 := by
  refine ⟨?_, fun u hu hclaim => (hq.settled u hu hclaim).goes (goes_sect s x p),
    fun u t hclaim => (hq.claim u t hclaim).goes (goes_sect s x p)⟩
  rcases granted_sect s x p with h | ⟨_, h⟩
  · rw [h]
    exact hq.fresh
  · have hdisj := List.nodup_append.mp hq.fresh
    rw [h, List.nodup_append]
    refine ⟨hp.fresh, hdisj.2.1, ?_⟩
    rintro u hu _ hv rfl
    rcases List.mem_append.mp hu with hu | hu
    · exact hdisj.2.2 u hu u hv rfl
    · exact hpq hu hv

end Sections

section Runs

variable {I : Type}

/-- No grant is applied to a federate whose own call has recorded its request
and not yet come to grant it. -/
def GrantsUnclaimed (s : TimeShared × (I → TimeCall)) : SectionEvent I TimeInput FedAction → Prop
  | .go i _ => ∀ g ∈ (s.2 i).batch, s.1.fed.Waits g.1 g.2 →
      ∀ k, (s.2 k).claim?.map (·.1.1) ≠ some g.1
  | .act _ => True

instance [Fintype I] (s : TimeShared × (I → TimeCall)) :
    (e : SectionEvent I TimeInput FedAction) → Decidable (GrantsUnclaimed s e)
  | .go i _ => inferInstanceAs (Decidable (∀ g ∈ (s.2 i).batch, _ → ∀ _, _))
  | .act _ => inferInstanceAs (Decidable True)

theorem taken_unowed {s : TimeShared × (I → TimeCall)} {i k : I} {x : TimeInput} {u : AdvanceId}
    (hok : GrantsUnclaimed s (.go i x)) (hk : (s.2 k).Owes s.1) (hu : u ∈ s.1.taken x (s.2 i)) :
    u ∉ (s.2 k).owed := by
  intro howed
  refine not_settled_of_taken hu (hk.settled u howed fun t hclaim => ?_)
  rcases (taken_stands hu).2 with hnew | ⟨_, g, hg, hw, hgu⟩
  · have := (hk.claim u t hclaim).accepted
    omega
  · refine hok g hg hw k ?_
    rw [hclaim, hgu]
    rfl

/-- **Granted once.**  In every interleaving of calls in which no pass grants
the request of a call between its two sections, no accepted request is told of
twice. -/
theorem advance_granted_once [DecidableEq I] (name : String) (fom : Omt.MergedFom)
    {es : List (SectionEvent I TimeInput FedAction)}
    (hok : StepsMeet granting.step GrantsUnclaimed (.new name fom, fun _ => .idle) es) :
    Always granting.step (fun s => ∀ u : AdvanceId, s.1.granted.count u ≤ 1)
      (.new name fom, fun _ => .idle) es := by
  have hinv := Sections.always_apart (m := granting) (J := TimeShared.Told)
    (K := fun s p => p.Owes s) (R := fun p q => p.owed.Disjoint q.owed)
    (fun p q hpq => hpq.symm)
    (fun s i x hs (hgo : GrantsUnclaimed s (.go i x)) =>
      ⟨hs.shared.sect (hs.call i), .sect hs.shared (hs.call i)⟩)
    (fun s i x k hs (hgo : GrantsUnclaimed s (.go i x)) hk =>
      ⟨(hs.call k).other (hs.call i) (hs.pair i k (Ne.symm hk)), ?_⟩)
    (fun s a hs => ?_) hok ⟨?_, ?_, ?_⟩
  · intro done hd u
    exact List.nodup_iff_count_le_one.mp (hinv done hd).shared.nodup u
  · intro u hu howed
    rcases List.mem_append.mp ((sect_owed s.1 x (s.2 i)).subset (List.mem_append_right _ hu))
      with hold | hfrom
    · exact (List.nodup_append.mp (hs.call k).fresh).2.2 u hold u howed rfl
    · rcases List.mem_append.mp hfrom with hmine | htaken
      · exact hs.pair i k (Ne.symm hk) hmine howed
      · exact taken_unowed hgo (hs.call k) htaken howed
  · have hgoes : s.Goes (granting.act s a) := by
      show s.Goes (if a.outsidePasses then s.setFed (a.apply s.fed) else s)
      split
      · next ha => exact .setFed (wait_apply ha)
      · exact .refl
    have hsame : (granting.act s a).granted = s.granted := by
      show (if a.outsidePasses then s.setFed (a.apply s.fed) else s).granted = _
      split <;> rfl
    refine ⟨⟨hsame ▸ hs.nodup, fun u hu => (hs.settled u (hsame ▸ hu)).goes hgoes⟩, fun q hq => ?_⟩
    exact ⟨by rw [hsame]; exact hq.fresh, fun u hu hclaim => (hq.settled u hu hclaim).goes hgoes,
      fun u t hclaim => (hq.claim u t hclaim).goes hgoes⟩
  · exact ⟨List.nodup_nil, nofun⟩
  · exact fun _ => ⟨List.nodup_nil, nofun, nofun⟩
  · exact fun _ _ _ => List.disjoint_nil_left _

end Runs

def grantedBy (es : TimeRun) : List AdvanceId :=
  (run granting.step (TimeShared.new "f" .new, fun _ => TimeCall.idle) es).1.granted

def advancedInTurn : TimeRun :=
  bothJoined ++ advances .one :: advanceGoesOn .one 20 ++ advances .two :: advanceGoesOn .two 20

theorem advance_granted_once_inTurn :
    grantedBy advancedInTurn = [(⟨1⟩, 1), (⟨2⟩, 1)] ∧
    Always granting.step (fun s => ∀ u : AdvanceId, s.1.granted.count u ≤ 1)
      (TimeShared.new "f" .new, fun _ : Two => TimeCall.idle) advancedInTurn :=
  ⟨by decide +kernel, advance_granted_once "f" .new (by decide +kernel)⟩

/-- **Granted twice.**  With the request of the first recorded and not yet
granted, the second makes its own; its pass grants both. -/
theorem advance_granted_twice :
    (grantedBy (bothJoined ++ advances .one :: advances .two :: advanceGoesOn .two 20 ++
      advanceGoesOn .one 20)).count (⟨1⟩, 1) = 2 := by
  decide +kernel

end Hla4
