/-
# `Hla4.Rti.Safety.TsoQueue` — the queues of timestamped messages

The server keeps a queue as a vector of messages with `f64` times and finds
places in it by binary search.  That vector is the queue of the model without
its proofs (`Federation.tsoQueue`), and every action does to it what the source
does (`FedAction.tsoQueue_apply`):

    put     a message routed to a federate that must wait for it
    take    the drain of an advance
    drop    the federate leaves, or another enters under its handle

With tickets (`Lib.Tickets`) the queue of a federate stays sorted, equal times in
the order they came, none of them NaN, and every message has left it at most
once.  A message routed to a connected subscriber is sent or put, and not both.

Two things happen that should not.  A drain takes the messages of a federate that
is suspended, and nobody is sent them.  A join that draws the handle of a joined
federate replaces its record, and its queue.  `tso_queue_stable_iff` says that
there is nothing else.
-/
import Hla4.Lib.TicketQueue
import Hla4.Rti.Safety.HandOver

namespace Hla4

open Lib

/-! ## The queue of the source -/

/-- A message in a queue, with any float for its time. -/
structure QueuedMessage where
  time : F64
  callback : CallbackRequest

abbrev TsoOp := QueueOp QueuedMessage F64

abbrev TsoTickets := Tickets QueuedMessage

def TsoMessage.raw (m : TsoMessage) : QueuedMessage := ⟨m.time.toF64, m.callback⟩

def TimedCallback.raw (cb : TimedCallback) : QueuedMessage := ⟨cb.time, cb.body⟩

/-- The `tso_queue` of a federate; empty if the federate is not joined. -/
def Federation.tsoQueue (fed : Federation) (h : FederateHandle) : List QueuedMessage :=
  (fed.queue h).elim [] fun q => q.messages.map TsoMessage.raw

/-- IEEE `<=` is an order on what is not NaN. -/
theorem F64.totalOn_le : TotalOn (· ≠ F64.nan) F64.le where
  total := by
    intro a b ha hb
    cases a <;> cases b <;> simp_all [F64.le, le_total]
  trans := by
    intro a b c ha hb hc hab hbc
    cases a <;> cases b <;> cases c <;> simp_all [F64.le]
    exact hab.trans hbc

theorem Timestamp.le_toF64 (a b : Timestamp) : F64.le a.toF64 b.toF64 = decide (a ≤ b) := by
  induction a using WithTop.recTopCoe with
  | top | coe =>
    induction b using WithTop.recTopCoe with
    | top | coe => simp [toF64, F64.le]

theorem TsoMessage.time_raw (m : TsoMessage) : m.raw.time = m.time.toF64 := rfl

theorem TsoQueue.put_raw (q : TsoQueue) (m : TsoMessage) :
    (QueueOp.put m.raw).on QueuedMessage.time F64.le (q.messages.map TsoMessage.raw) =
      ((q.insert m).messages.map TsoMessage.raw, []) := by
  have h := QueueOp.on_map TsoMessage.time_raw Timestamp.le_toF64 (.put m) q.messages
  rw [q.on_put m] at h
  exact h

theorem TsoQueue.take_raw (q : TsoQueue) (t : ℚ) :
    (QueueOp.take (.fin t)).on QueuedMessage.time F64.le (q.messages.map TsoMessage.raw) =
      ((q.drain t).messages.map TsoMessage.raw, (q.upTo t).map TsoMessage.raw) := by
  have h := QueueOp.on_map TsoMessage.time_raw Timestamp.le_toF64 (.take (t : Timestamp)) q.messages
  rw [q.on_take t] at h
  exact h

/-! ## What a service does with timestamped messages -/

/-- `is_constrained && time > current_time`. -/
def TimeState.mustWait (p : TimeState) (time : F64) : Bool :=
  p.isConstrained && decide (F64.fin p.currentTime < time)

theorem TimeState.mustWait_iff {p : TimeState} {time : F64} :
    p.mustWait time = true ↔ p.isConstrained = true ∧ F64.fin p.currentTime < time := by
  rw [mustWait, Bool.and_eq_true, decide_eq_true_eq]

/-- The message of a timestamped update. -/
def timedReflection (inst : ObjectInstanceHandle) (values : HashMap AttributeHandle Bytes)
    (tag : Bytes) (producer : FederateHandle) (time : F64) : TimedCallback :=
  ⟨time, .reflectAttributeValuesWithTime inst values tag producer time, rfl⟩

/-- The message of a timestamped interaction. -/
def timedInteraction (cls : InteractionClassHandle) (params : HashMap ParameterHandle Bytes)
    (tag : Bytes) (producer : FederateHandle) (time : F64) : TimedCallback :=
  ⟨time, .receiveInteractionWithTime cls params tag producer time, rfl⟩

/-- The message a service routes, if it gets that far, and the set it routes it
to. -/
def ServiceRequest.routes (c : Caller) (fed : Federation) :
    ServiceRequest → Option (HashSet FederateHandle × TimedCallback)
  | .object (.updateAttributeValuesWithTime inst values tag stamp) => Except.toOption do
      let inst ← getOr (inst.bind decodeObjectInstance) HlaException.objectInstanceNotKnown.bare
      let values ← decodeAttributeValueMap values
      let stamp ← decodeLogicalTime stamp ""
      let i ← ownedInstance c fed inst values.keys
      checkPromise c fed stamp
      pure (fed.subscribersForAttributes i.cls values.keys (some c.federate),
        timedReflection inst values tag c.federate stamp)
  | .object (.sendInteractionWithTime _ cls params tag stamp) => Except.toOption do
      let args ← interactionArgs c fed cls params
      let stamp ← decodeLogicalTime stamp ""
      pure (fed.subscribersForInteraction args.1 (some c.federate),
        timedInteraction args.1 args.2 tag c.federate stamp)
  | .object (.deleteObjectInstanceWithTime inst tag stamp) => Except.toOption do
      let inst ← getOr (inst.bind decodeObjectInstance) HlaException.objectInstanceNotKnown.bare
      let stamp ← decodeLogicalTime stamp ""
      checkDeletable c fed inst
      pure (fed.discoverers inst c.federate, timedRemoval inst tag c.federate stamp)
  | _ => none

/-- The drains of an advance, in order: of the caller, if it is granted at once, and
of the federates about to be granted. -/
def TimeSection.drains (s : TimeSection) (c : Caller) (t : ℚ) : List (FederateHandle × ℚ) :=
  if s.caller.time.isConstrained = false then
    (c.federate, t) ::
      aboutToBeGranted c (drainTsoUpTo c (s.federation.grant c.federate t) c.federate t).1
  else aboutToBeGranted c s.federation

/-- Up to which time a service drains the queue of a federate. -/
def ServiceRequest.drainsUpTo (c : Caller) (fed : Federation) (h : FederateHandle) :
    ServiceRequest → Option ℚ
  | .time (.advance _ upTo) =>
    (advanceSection c fed upTo).toOption.bind fun st => (st.1.drains c st.2).lookup h
  | _ => none

/-- What becomes of timestamped messages for one federate in a service. -/
inductive TsoEvent
  | nothing
  | send (cb : TimedCallback)
  | hold (cb : TimedCallback)
  | drain (t : ℚ)

def routed (fed : Federation) (h : FederateHandle) (s : HashSet FederateHandle) (cb : TimedCallback) :
    TsoEvent :=
  match fed.net h with
  | none => .nothing
  | some p =>
    if h ∈ s then (if TimeState.mustWait p cb.time then .hold cb else .send cb) else .nothing

def ServiceRequest.tsoEvent (c : Caller) (fed : Federation) (h : FederateHandle)
    (req : ServiceRequest) : TsoEvent :=
  match req.routes c fed with
  | some (s, cb) => routed fed h s cb
  | none => (req.drainsUpTo c fed h).elim .nothing .drain

/-- A queue after an operation, if there is one. -/
def tsoAfter (q : List QueuedMessage) (op? : Option TsoOp) : List QueuedMessage :=
  op?.elim q fun op => (op.on QueuedMessage.time F64.le q).1

namespace TsoEvent

def op? : TsoEvent → Option TsoOp
  | nothing => none
  | send _ => none
  | hold cb => some (.put cb.raw)
  | drain t => some (.take (.fin t))

/-- The queue afterwards. -/
def queue (q : List QueuedMessage) (e : TsoEvent) : List QueuedMessage := tsoAfter q e.op?

/-- What a connected federate is sent. -/
def sent (q : List QueuedMessage) : TsoEvent → List CallbackRequest
  | nothing => []
  | send cb => [cb.body]
  | hold _ => []
  | drain t =>
    ((QueueOp.take (.fin t)).on QueuedMessage.time F64.le q).2.map QueuedMessage.callback

end TsoEvent

/-- The timestamped bodies of the callbacks for one federate, in order. -/
def stampedFor (h : FederateHandle) (callbacks : List OutboundCallback) : List CallbackRequest :=
  (bodiesFor h callbacks).filter fun body => body.timestamp.isSome

/-- From `fed` to `fed'`, with `callbacks`: the queue of the federate becomes what the
event makes of it, and the federate is sent what the event says if it is
connected. -/
structure TsoEvent.Happens (c : Caller) (fed : Federation) (h : FederateHandle) (fed' : Federation)
    (callbacks : List OutboundCallback) (e : TsoEvent) : Prop where
  queue : fed'.tsoQueue h = e.queue (fed.tsoQueue h)
  sent : stampedFor h callbacks =
    if (fed.recipient c h).isSome = true then e.sent (fed.tsoQueue h) else []

section Services

variable {c : Caller} {fed fed' fed'' : Federation} {h : FederateHandle} {l : List OutboundCallback}

theorem stampedFor_append (l l' : List OutboundCallback) :
    stampedFor h (l ++ l') = stampedFor h l ++ stampedFor h l' := by
  rw [stampedFor, bodiesFor_append, List.filter_append]
  rfl

theorem stampedFor_eq_nil (hl : ∀ cb ∈ l, cb.body.timestamp = none) : stampedFor h l = [] := by
  refine List.filter_eq_nil_iff.mpr ?_
  intro body hbody
  obtain ⟨cb, hcb, rfl⟩ := List.mem_map.mp hbody
  simp [hl cb (List.mem_filter.mp hcb).1]

theorem stampedFor_untimed (hl : ∀ cb ∈ l, cb.body.Untimed) :
    stampedFor h l = [] :=
  stampedFor_eq_nil fun cb hcb => (hl cb hcb).timestamp

theorem stampedFor_eq_bodiesFor (hl : ∀ cb ∈ l, cb.body.timestamp.isSome = true) :
    stampedFor h l = bodiesFor h l := by
  refine List.filter_eq_self.mpr ?_
  intro body hbody
  obtain ⟨cb, hcb, rfl⟩ := List.mem_map.mp hbody
  exact hl cb (List.mem_filter.mp hcb).1

theorem stampedFor_other (hl : ∀ cb ∈ l, cb.federate ≠ some h) :
    stampedFor h l = [] := by
  refine List.filter_eq_nil_iff.mpr ?_
  intro body hbody
  obtain ⟨cb, hcb, _⟩ := List.mem_map.mp hbody
  obtain ⟨hcb, hf⟩ := List.mem_filter.mp hcb
  exact absurd (of_decide_eq_true hf) (hl cb hcb)

theorem Federation.tsoQueue_congr (hq : fed'.queue h = fed.queue h) :
    fed'.tsoQueue h = fed.tsoQueue h := by
  rw [tsoQueue, tsoQueue, hq]

namespace TsoEvent.Happens

variable {e : TsoEvent} {callbacks callbacks' : List OutboundCallback}

theorem nothing (hq : fed'.queue h = fed.queue h) (hs : stampedFor h callbacks = []) :
    TsoEvent.nothing.Happens c fed h fed' callbacks := by
  refine ⟨Federation.tsoQueue_congr hq, ?_⟩
  rw [hs]
  exact (ite_self _).symm

theorem silent (ha : TsoEvent.nothing.Happens c fed h fed' callbacks) :
    stampedFor h callbacks = [] :=
  ha.sent.trans (ite_self _)

theorem before (ha : e.Happens c fed h fed' callbacks)
    (hb : TsoEvent.nothing.Happens c fed' h fed'' callbacks') :
    e.Happens c fed h fed'' (callbacks ++ callbacks') := by
  refine ⟨hb.queue.trans ha.queue, ?_⟩
  rw [stampedFor_append, hb.silent, List.append_nil, ha.sent]

theorem after (ha : TsoEvent.nothing.Happens c fed h fed' callbacks)
    (hrec : (fed'.recipient c h).isSome = (fed.recipient c h).isSome)
    (hb : e.Happens c fed' h fed'' callbacks') :
    e.Happens c fed h fed'' (callbacks ++ callbacks') := by
  have hqueue : fed'.tsoQueue h = fed.tsoQueue h := ha.queue
  refine ⟨hb.queue.trans (by rw [hqueue]), ?_⟩
  rw [stampedFor_append, ha.silent, List.nil_append, hb.sent, hqueue, hrec]

theorem of_touches {ps : List Part} (ht : fed.Touches ps fed') (hq : Part.federate .queue ∉ ps)
    (hi : Part.federate .identity ∉ ps) (ha : e.Happens c fed' h fed'' callbacks) :
    e.Happens c fed h fed'' callbacks :=
  .after (.nothing (congrFun (ht.queue hq) h) (show stampedFor h [] = [] from rfl))
    (ht.isSome_recipient hi h) ha

end TsoEvent.Happens

/-! ## Routing -/

/-- The model holds back what the source queues. -/
theorem isSome_holdsBack (fs : FederateSession) (cb : TimedCallback) :
    (fs.holdsBack cb).isSome = TimeState.mustWait fs.time cb.time := by
  rw [Bool.eq_iff_iff, TimeState.mustWait_iff, Option.isSome_iff_ne_none, ne_eq, holdsBack_eq_none,
    Classical.not_imp, not_not]

/-- A message is held back under the time it has. -/
theorem raw_of_holdsBack {fs : FederateSession} {cb : TimedCallback} {msg : TsoMessage}
    (hb : fs.holdsBack cb = some msg) : msg.raw = cb.raw := by
  obtain ⟨_, _, hbody⟩ := holdsBack_eq_some.mp hb
  have hstamp := msg.stamped
  rw [hbody, cb.stamped] at hstamp
  rw [TsoMessage.raw, TimedCallback.raw, hbody, Option.some.inj hstamp]

theorem routed_eq {fs : FederateSession} (hfs : fed.federates.lookup h = some fs)
    (s : HashSet FederateHandle) (cb : TimedCallback) :
    routed fed h s cb =
      if h ∈ s then (if (fs.holdsBack cb).isSome then .hold cb else .send cb) else .nothing := by
  rw [routed, Federation.net_eq_some.mpr ⟨fs, hfs, rfl⟩, isSome_holdsBack]

theorem tsoQueue_route (s : HashSet FederateHandle) (cb : TimedCallback) :
    (routeTsoOrImmediate c fed s cb).1.tsoQueue h =
      (routed fed h s cb).queue (fed.tsoQueue h) := by
  rw [Federation.tsoQueue, queue_route, Federation.tsoQueue, Federation.queue]
  cases hfs : fed.federates.lookup h with
  | none =>
    rw [routed, Federation.net, hfs]
    rfl
  | some fs =>
    rw [routed_eq hfs]
    dsimp only [Option.map_some, Option.elim_some]
    cases hb : fs.holdsBack cb with
    | none => split <;> rfl
    | some =>
      rw [Option.elim_some]
      split
      · show _ = ((QueueOp.put cb.raw).on QueuedMessage.time F64.le _).1
        rw [← raw_of_holdsBack hb, TsoQueue.put_raw]
      · rfl

theorem stampedFor_route (s : HashSet FederateHandle) (cb : TimedCallback) :
    stampedFor h (routeTsoOrImmediate c fed s cb).2 =
      if (fed.recipient c h).isSome = true then (routed fed h s cb).sent (fed.tsoQueue h) else [] := by
  have hstamped : ∀ m ∈ (routeTsoOrImmediate c fed s cb).2, m.body.timestamp.isSome = true :=
    @forall_fanOut (fun body => body.timestamp.isSome = true) _ _ (by rw [cb.stamped]; rfl)
  rw [stampedFor_eq_bodiesFor hstamped, bodiesFor_route]
  split
  · next hgo =>
      obtain ⟨⟨hs, fs, hfs, hb⟩, hconn⟩ := hgo
      rw [if_pos hconn, routed_eq hfs, if_pos hs, hb]
      rfl
  · next hstay =>
      split
      · next hconn =>
          obtain ⟨r, hr⟩ := Option.isSome_iff_exists.mp hconn
          obtain ⟨_, fs, hfs, _⟩ := Federation.recipient_eq_some.mp hr
          rw [routed_eq hfs]
          split
          · next hs =>
              cases hb : fs.holdsBack cb with
              | none => exact absurd ⟨⟨hs, fs, hfs, hb⟩, hconn⟩ hstay
              | some => rfl
          · rfl
      · rfl

/-- Routing, after a change to the instances and what is discovered, with callbacks
without a timestamp. -/
theorem happens_route {ps : List Part} (ht : fed.Touches ps fed') (hps : ps ⊆ objectParts)
    {first : List OutboundCallback} (hfirst : ∀ cb ∈ first, cb.body.Untimed)
    (s : HashSet FederateHandle) (cb : TimedCallback) :
    (routed fed h s cb).Happens c fed h (routeTsoOrImmediate c fed' s cb).1
      (first ++ (routeTsoOrImmediate c fed' s cb).2) := by
  have hnet : fed'.net = fed.net := ht.net fun hp => absurd (hps hp) (by decide)
  have hevent : routed fed h s cb = routed fed' h s cb := by rw [routed, routed, hnet]
  refine .of_touches ht (fun hp => absurd (hps hp) (by decide))
    (fun hp => absurd (hps hp) (by decide)) ?_
  rw [hevent]
  refine ⟨tsoQueue_route s cb, ?_⟩
  rw [stampedFor_append, stampedFor_untimed hfirst, List.nil_append, stampedFor_route]

theorem happens_checked {x : Except ExceptionData Outcome}
    {y : Except ExceptionData (HashSet FederateHandle × TimedCallback)}
    (hxy : Alike (fun o m => (routed fed h m.1 m.2).Happens c fed h o.federation o.callbacks) x y) :
    TsoEvent.Happens c fed h (Outcome.ofExcept fed x).federation (Outcome.ofExcept fed x).callbacks
      (match y.toOption with
        | some (s, cb) => routed fed h s cb
        | none => .nothing) := by
  rcases hxy with ⟨e, e', rfl, rfl⟩ | ⟨o, m, rfl, rfl, hdoes⟩
  · exact .nothing rfl rfl
  · exact hdoes

theorem serveObject_tso (r : ObjectRequest) :
    ((ServiceRequest.object r).tsoEvent c fed h).Happens c fed h (serveObject c fed r).federation
      (serveObject c fed r).callbacks := by
  cases hr : r.timed with
  | false =>
    have hun : (serveObject c fed r).Confined objectParts (CallbackRequest.UntimedOn r.topic) fed :=
      serveObject_untimed hr
    have hevent : (ServiceRequest.object r).tsoEvent c fed h = .nothing := by
      cases r <;> first | rfl | cases hr
    rw [hevent]
    exact .nothing (congrFun (hun.touches.queue (by decide)) h)
      (stampedFor_untimed fun cb hcb => (hun.bodies cb hcb).1)
  | true =>
    cases r with
    | updateAttributeValuesWithTime inst values =>
      refine happens_checked (.bind fun inst _ => .bind fun values _ => .bind fun stamp _ =>
        .bind fun i _ => .bind fun _ _ => .pure ?_)
      exact happens_route touches_notifySubset (by decide)
        (forall_notifySubset fun _ => trivial) _ _
    | sendInteractionWithTime =>
      refine happens_checked (.bind fun args _ => .bind fun stamp _ => .pure ?_)
      exact happens_route (show fed.Touches [] fed from .refl) (by decide)
        (List.forall_mem_nil _) _ _
    | deleteObjectInstanceWithTime inst =>
      refine happens_checked (.bind fun inst _ => .bind fun stamp _ => .bind fun _ _ => .pure ?_)
      exact happens_route touches_removeInstance (by decide) (List.forall_mem_nil _) _ _
    | _ => cases hr

/-! ## Draining -/

theorem timestamp_drain {k : FederateHandle} {t : ℚ} :
    ∀ cb ∈ (drainTsoUpTo c fed k t).2, cb.body.timestamp.isSome = true := by
  intro cb hcb
  obtain ⟨⟨_, _, m, _, _, _, hbody, _⟩, _⟩ := drainTsoUpTo_fromQueue hcb
  rw [hbody, m.stamped]
  rfl

theorem happens_drain (t : ℚ) :
    (TsoEvent.drain t).Happens c fed h (drainTsoUpTo c fed h t).1 (drainTsoUpTo c fed h t).2 := by
  constructor
  · show (drainTsoUpTo c fed h t).1.tsoQueue h =
      ((QueueOp.take (.fin t)).on QueuedMessage.time F64.le (fed.tsoQueue h)).1
    rw [Federation.tsoQueue, Federation.tsoQueue, queue_drain, if_pos rfl]
    cases fed.queue h with
    | none => rfl
    | some =>
      rw [Option.map_some, Option.elim_some, Option.elim_some, TsoQueue.take_raw]
  · rw [stampedFor_eq_bodiesFor timestamp_drain]
    cases hr : fed.recipient c h with
    | none =>
      rw [drainTsoUpTo_callbacks, hr]
      cases fed.federates.lookup h with
      | none => rfl
      | some => simp [fanOut, bodiesFor]
    | some =>
      obtain ⟨_, fs, hfs, _⟩ := Federation.recipient_eq_some.mp hr
      have hq : fed.queue h = some fs.tsoQueue := by rw [Federation.queue, hfs, Option.map_some]
      rw [bodiesFor_drain hq hr, if_pos (by rfl)]
      show _ = ((QueueOp.take (.fin t)).on QueuedMessage.time F64.le (fed.tsoQueue h)).2.map _
      rw [Federation.tsoQueue, hq, Option.elim_some, TsoQueue.take_raw, List.map_map]
      rfl

theorem happens_drain_other {k : FederateHandle} (hk : h ≠ k) (t : ℚ) :
    TsoEvent.nothing.Happens c fed h (drainTsoUpTo c fed k t).1 (drainTsoUpTo c fed k t).2 := by
  refine .nothing ?_ ?_
  · rw [queue_drain, if_neg hk]
  · refine stampedFor_other fun cb hcb hf => ?_
    obtain ⟨_, fs, _, hrecv⟩ := drainTsoUpTo_fromQueue hcb
    rw [OutboundCallback.federate, hrecv] at hf
    exact hk (Option.some.inj hf).symm

/-- In a list of drains, the one of the federate counts. -/
theorem happens_drainAll {l : List (FederateHandle × ℚ)} (hd : (l.map Prod.fst).Nodup) :
    TsoEvent.Happens c fed h (drainAll c fed l).1 (drainAll c fed l).2
      ((l.lookup h).elim .nothing .drain) := by
  induction l generalizing fed with
  | nil => exact .nothing rfl rfl
  | cons e l ih =>
    obtain ⟨k, t⟩ := e
    obtain ⟨hk, hl⟩ := List.nodup_cons.mp hd
    have hrest := @ih (drainTsoUpTo c fed k t).1 hl
    rw [drainAll, List.lookup_cons]
    by_cases hhk : h = k
    · subst hhk
      have hnone : l.lookup h = none := by
        refine List.lookup_eq_none_iff.mpr fun e he => ?_
        exact bne_iff_ne.mpr fun heq => hk (List.mem_map.mpr ⟨e, he, heq.symm⟩)
      rw [hnone] at hrest
      rw [beq_self_eq_true]
      exact (happens_drain t).before hrest
    · rw [beq_false_of_ne hhk]
      exact .after (happens_drain_other hhk t) (touches_drain.isSome_recipient (by decide) h) hrest

theorem happens_grants :
    TsoEvent.nothing.Happens c fed h (fed.tryGrantPendingAdvances c).federation
      (fed.tryGrantPendingAdvances c).callbacks := by
  refine .nothing (congrFun (Federation.tryGrantPendingAdvances_touches.queue (by decide)) h) ?_
  refine stampedFor_eq_nil fun cb hcb => ?_
  obtain ⟨g, _, hbody, _⟩ := Federation.tryGrantPendingAdvances_callbacks hcb
  rw [hbody]
  rfl

theorem nodup_drains (s : TimeSection) (c : Caller) (t : ℚ) :
    ((s.drains c t).map Prod.fst).Nodup := by
  rw [TimeSection.drains]
  split
  · refine List.nodup_cons.mpr ⟨?_, nodup_aboutToBeGranted⟩
    -- the caller has its grant, and waits for nothing
    intro hmem
    obtain ⟨⟨k, u⟩, hk, rfl⟩ := List.mem_map.mp hmem
    obtain ⟨p, hp, hpend, _⟩ := mem_aboutToBeGranted.mp hk
    rw [touches_drain.net (by decide), Federation.net_grant] at hp
    rw [Net.grant_pending hp] at hpend
    cases hpend
  · exact nodup_aboutToBeGranted

theorem advancePass_tso (s : TimeSection) (t : ℚ) :
    TsoEvent.Happens c s.federation h (advancePass c s t).federation (advancePass c s t).callbacks
      (((s.drains c t).lookup h).elim .nothing .drain) := by
  have hnodup := nodup_drains s c t
  rw [TimeSection.drains] at hnodup ⊢
  rw [advancePass]
  split at hnodup
  · next hfree =>
      rw [if_pos hfree, if_pos hfree]
      have hall : TsoEvent.Happens c (s.federation.grant c.federate t) h _ _ _ :=
        (happens_drainAll hnodup).before happens_grants
      refine .of_touches (Federation.touches_grant c.federate t) (by decide) (by decide)
        ⟨hall.queue, Eq.trans ?_ hall.sent⟩
      -- the caller is told of its grant between the drains
      have hown : ∀ recipients, stampedFor h (fanOut recipients (.timeAdvanceGrant t)) = [] :=
        fun recipients => stampedFor_eq_nil
          (@forall_fanOut (fun body => body.timestamp = none) recipients _ rfl)
      rw [drainAll]
      simp only [grantAtOnce, tryGrantPendingAdvancesWithTso, stampedFor_append, hown,
        List.nil_append, List.append_assoc]
  · next hcon =>
      rw [if_neg hcon, if_neg hcon]
      exact (happens_drainAll hnodup).before happens_grants

theorem serveTime_nothing {r : TimeRequest} (hk : r.kind ≠ .advance) :
    TsoEvent.nothing.Happens c fed h (serveTime c fed r).federation (serveTime c fed r).callbacks := by
  have hnotice : ∀ {fed' : Federation} {own : List OutboundCallback}, RoleNotice c fed' own →
      stampedFor h own = [] :=
    fun hown => stampedFor_untimed fun cb hcb => (hown.untimed cb hcb).1
  have heff := @serveTime_effect c fed r
  generalize serveTime c fed r = o at heff ⊢
  cases heff with
  | rejects => exact .nothing rfl rfl
  | changes _ hs hown =>
    exact .nothing (congrFun ((touches_section hs).queue (by decide)) h) (hnotice hown)
  | passes _ hs hown =>
    exact .after (.nothing (congrFun ((touches_section hs).queue (by decide)) h) (hnotice hown))
      ((touches_section hs).isSome_recipient (by decide) h) happens_grants
  | advances hadv => exact absurd hadv hk

theorem serveTime_tso (r : TimeRequest) :
    ((ServiceRequest.time r).tsoEvent c fed h).Happens c fed h (serveTime c fed r).federation
      (serveTime c fed r).callbacks := by
  cases r with
  | advance service upTo =>
    rw [serveTime, timeAdvanceRequest]
    show TsoEvent.Happens c fed h _ _ (((advanceSection c fed upTo).toOption.bind _).elim _ _)
    cases ha : advanceSection c fed upTo with
    | error => exact .nothing rfl rfl
    | ok st =>
      have hsec : timeSection c fed (.advance service upTo) = .ok st.1 := by
        rw [timeSection, ha]
        rfl
      exact .of_touches (touches_section hsec) (by decide) (by decide) (advancePass_tso st.1 st.2)
  | enableTimeRegulation | disableTimeRegulation | enableTimeConstrained
  | disableTimeConstrained | modifyLookahead => exact serveTime_nothing TimeKind.noConfusion

/-- **What a service does with timestamped messages.** -/
theorem serve_tso (req : ServiceRequest) :
    (req.tsoEvent c fed h).Happens c fed h (serve c fed req).federation
      (serve c fed req).callbacks := by
  have other : Part.federate .queue ∉ req.parts → (∀ t ∈ req.topics, t ∉ [.object, .interaction, .time]) →
      TsoEvent.nothing.Happens c fed h (serve c fed req).federation (serve c fed req).callbacks := by
    intro hq ht
    refine .nothing (congrFun ((serve_footprint req).queue hq) h) (stampedFor_untimed fun cb hcb => ?_)
    exact CallbackRequest.On.untimed rfl (ht _ (serve_topics req cb hcb))
  cases req with
  | object r => exact serveObject_tso r
  | time r => exact serveTime_tso r
  | _ => exact other (by simp [ServiceRequest.parts]) (by simp [ServiceRequest.topics])

end Services

/-! ## Every action -/

/-- What an action does to the queue of a federate. -/
def FedAction.tsoOp? (fed : Federation) (h : FederateHandle) : FedAction → Option TsoOp
  | create _ _ => some .drop
  | join requested sessionId =>
    if (join requested sessionId).enters fed h = true then some .drop else none
  | leave k => if k = h then some .drop else none
  | serve c req => (req.tsoEvent c fed h).op?

section Actions

variable {fed : Federation} {h : FederateHandle} {g : TsoTickets} {a : FedAction}

/-- **What an action does to a queue.** -/
theorem FedAction.tsoQueue_apply :
    (a.apply fed).tsoQueue h = tsoAfter (fed.tsoQueue h) (a.tsoOp? fed h) := by
  cases a with
  | create => rfl
  | join requested sessionId =>
    rw [tsoOp?, enters, apply]
    rcases fed.join_cases requested sessionId with ⟨e, he⟩ | ⟨name, he⟩
    · rw [he]
      rfl
    · rw [he, Federation.tsoQueue, Federation.queue, Federation.lookup_enter]
      by_cases hh : h = fed.nextHandle
      · subst hh
        rw [if_pos rfl, if_pos (decide_eq_true rfl)]
        rfl
      · rw [if_neg hh, if_neg fun hd => hh (of_decide_eq_true hd).symm]
        rfl
  | leave k =>
    rw [tsoOp?, apply, Federation.tsoQueue, Federation.queue, Federation.lookup_leave]
    by_cases hh : h = k
    · subst hh
      rw [if_pos rfl, if_pos rfl]
      rfl
    · rw [if_neg hh, if_neg (Ne.symm hh)]
      rfl
  | serve c req => exact (serve_tso req).queue

/-- Nothing without a place in the order is put. -/
theorem tsoEvent_hold {c : Caller} {req : ServiceRequest} {cb : TimedCallback}
    (he : req.tsoEvent c fed h = .hold cb) : cb.time ≠ .nan := by
  have hrouted : ∀ {s : HashSet FederateHandle} {cb' : TimedCallback},
      routed fed h s cb' = .hold cb → cb.time ≠ .nan := by
    intro s cb' he
    rw [routed] at he
    cases hp : fed.net h with
    | none =>
      rw [hp] at he
      cases he
    | some =>
      rw [hp] at he
      dsimp only at he
      split_ifs at he with hs hwait
      cases he
      intro hnan
      have hlt := (TimeState.mustWait_iff.mp hwait).2
      rw [hnan] at hlt
      cases hlt
  rw [ServiceRequest.tsoEvent] at he
  cases hr : req.routes c fed with
  | some =>
    rw [hr] at he
    exact hrouted he
  | none =>
    rw [hr] at he
    cases hd : req.drainsUpTo c fed h with
    | none | some =>
      rw [hd] at he
      cases he

/-- The tickets of a queue after an action; a new federation starts anew. -/
def recordTso (h : FederateHandle) (fed : Federation) (a : FedAction) (g : TsoTickets) : TsoTickets :=
  match a with
  | .create _ _ => {}
  | a => (a.tsoOp? fed h).elim g (g.step QueuedMessage.time F64.le)

/-- The queue of a federate, and its tickets. -/
structure Federation.Ticketed (h : FederateHandle) (fed : Federation) (g : TsoTickets) : Prop where
  queue : g.queue.map Prod.fst = fed.tsoQueue h
  /-- sorted by time, and by ticket where times are equal; no NaN; every ticket once -/
  kept : g.Kept QueuedMessage.time F64.le (· ≠ F64.nan)

theorem Federation.Ticketed.apply (hg : fed.Ticketed h g) (a : FedAction) :
    (a.apply fed).Ticketed h (recordTso h fed a g) := by
  have hqueue : ((a.tsoOp? fed h).elim g (g.step QueuedMessage.time F64.le)).queue.map Prod.fst =
      (a.apply fed).tsoQueue h := by
    rw [FedAction.tsoQueue_apply, ← hg.queue]
    cases a.tsoOp? fed h with
    | none => rfl
    | some op => exact Tickets.queue_step op
  have hkept : (∀ m, a.tsoOp? fed h = some (.put m) → m.time ≠ .nan) →
      ((a.tsoOp? fed h).elim g (g.step QueuedMessage.time F64.le)).Kept
        QueuedMessage.time F64.le (· ≠ F64.nan) := by
    intro hput
    cases hop : a.tsoOp? fed h with
    | none => exact hg.kept
    | some => exact hg.kept.step F64.totalOn_le fun m hm => hput m (hop.trans (congrArg some hm))
  cases a with
  | create => exact ⟨rfl, Tickets.kept_empty⟩
  | join | leave =>
    refine ⟨hqueue, hkept fun m hm => ?_⟩
    rw [FedAction.tsoOp?] at hm
    split at hm <;> cases hm
  | serve c req =>
    refine ⟨hqueue, hkept fun m hm => ?_⟩
    rw [FedAction.tsoOp?] at hm
    cases he : req.tsoEvent c fed h with
    | hold =>
      rw [he] at hm
      cases hm
      exact tsoEvent_hold he
    | _ =>
      rw [he] at hm
      cases hm

end Actions

/-! ## The queue as it should be -/

/-- The messages up to a time, in order. -/
def TsoTickets.due (g : TsoTickets) (t : ℚ) : List (QueuedMessage × Nat) :=
  g.queue.filter fun e => F64.le e.1.time (.fin t)

/-- What a service does with the messages for a federate, in view of the tickets before
and after it. -/
structure ServesTso (h : FederateHandle) (c : Caller) (fed : Federation) (req : ServiceRequest)
    (g g' : TsoTickets) : Prop where
  /-- what leaves the queue is drained -/
  lost : g'.lost = g.lost
  /-- a message routed to a connected subscriber is sent at once or put, and not both -/
  routed : ∀ s cb, req.routes c fed = some (s, cb) → h ∈ s → (fed.recipient c h).isSome = true →
    (stampedFor h (serve c fed req).callbacks = [cb.body] ∧ g'.issued = g.issued) ∨
    (stampedFor h (serve c fed req).callbacks = [] ∧ g'.issued = g.issued ++ [cb.raw])
  /-- a drain removes what is due, and sends it, in order -/
  drained : ∀ t, req.drainsUpTo c fed h = some t →
    (g'.queue = g.queue.filter fun e => !F64.le e.1.time (.fin t)) ∧
    g'.drained = g.drained ++ g.due t ∧
    stampedFor h (serve c fed req).callbacks = (g.due t).map fun e => e.1.callback
  /-- without a route or a drain nothing changes -/
  only : (∀ s cb, req.routes c fed = some (s, cb) → h ∉ s) → req.drainsUpTo c fed h = none →
    stampedFor h (serve c fed req).callbacks = [] ∧ g' = g

namespace FedAction

/-- The action does with the messages for a federate what it should: they leave the
queue by a drain, or with the federate. -/
def KeepsTso (h : FederateHandle) (fed : Federation) (g : TsoTickets) : FedAction → Prop
  | create _ _ => True
  | join requested sessionId => (recordTso h fed (join requested sessionId) g).lost = g.lost
  | leave k => k = h ∨ recordTso h fed (leave k) g = g
  | serve c req => ServesTso h c fed req g (recordTso h fed (serve c req) g)

/-- Nobody enters under the handle while there are messages in the queue, and a drain
that finds messages finds the federate connected. -/
def SparesTso (h : FederateHandle) (fed : Federation) : FedAction → Prop
  | join requested sessionId =>
    (join requested sessionId).enters fed h = true → fed.tsoQueue h = []
  | serve c req => ∀ t, req.drainsUpTo c fed h = some t →
      (∃ m ∈ fed.tsoQueue h, F64.le m.time (.fin t) = true) → (fed.recipient c h).isSome = true
  | _ => True

end FedAction

section Exact

variable {fed : Federation} {h : FederateHandle} {g : TsoTickets} {c : Caller} {req : ServiceRequest}
  {s : HashSet FederateHandle} {cb : TimedCallback}

theorem tsoEvent_of_drains {t : ℚ} (hd : req.drainsUpTo c fed h = some t) :
    req.tsoEvent c fed h = .drain t := by
  have hr : req.routes c fed = none := by
    cases req with
    | time => rfl
    | _ => cases hd
  rw [ServiceRequest.tsoEvent, hr, hd]
  rfl

theorem tsoEvent_of_routes (hr : req.routes c fed = some (s, cb)) :
    req.tsoEvent c fed h = routed fed h s cb := by
  rw [ServiceRequest.tsoEvent, hr]

theorem Federation.Ticketed.taken (hg : fed.Ticketed h g) (t : ℚ) :
    ((QueueOp.take (.fin t)).on QueuedMessage.time F64.le (fed.tsoQueue h)).2 =
      (g.due t).map Prod.fst := by
  have hdrained : (g.step QueuedMessage.time F64.le (.take (.fin t))).drained.map Prod.fst = _ :=
    Tickets.drained_step _
  rw [(hg.kept.take_eq F64.totalOn_le F64.noConfusion).2, List.map_append, hg.queue] at hdrained
  exact (List.append_cancel_left hdrained).symm

/-- Something is due with a ticket if it is due without. -/
theorem Federation.Ticketed.due_ne_nil (hg : fed.Ticketed h g) {t : ℚ} :
    g.due t ≠ [] ↔ ∃ m ∈ fed.tsoQueue h, F64.le m.time (.fin t) = true := by
  rw [← hg.queue]
  constructor
  · intro hne
    obtain ⟨e, he⟩ := List.exists_mem_of_ne_nil _ hne
    obtain ⟨hmem, hle⟩ := List.mem_filter.mp he
    exact ⟨e.1, List.mem_map_of_mem hmem, hle⟩
  · rintro ⟨m, hm, hle⟩
    obtain ⟨e, hmem, rfl⟩ := List.mem_map.mp hm
    exact List.ne_nil_of_mem (List.mem_filter.mpr ⟨hmem, hle⟩)

/-- What the federate is sent by a drain, if it is connected. -/
theorem Federation.Ticketed.sent_drain (hg : fed.Ticketed h g) (t : ℚ) :
    (TsoEvent.drain t).sent (fed.tsoQueue h) = (g.due t).map fun e => e.1.callback := by
  show ((QueueOp.take (.fin t)).on QueuedMessage.time F64.le (fed.tsoQueue h)).2.map _ = _
  rw [hg.taken, List.map_map]
  rfl

theorem recordTso_serve :
    recordTso h fed (.serve c req) g =
      (req.tsoEvent c fed h).op?.elim g (g.step QueuedMessage.time F64.le) := rfl

theorem sent_or_put (hr : req.routes c fed = some (s, cb)) (hs : h ∈ s)
    (hconn : (fed.recipient c h).isSome = true) :
    let g' := recordTso h fed (.serve c req) g
    (stampedFor h (serve c fed req).callbacks = [cb.body] ∧ g'.issued = g.issued) ∨
    (stampedFor h (serve c fed req).callbacks = [] ∧ g'.issued = g.issued ++ [cb.raw]) := by
  obtain ⟨r, hrec⟩ := Option.isSome_iff_exists.mp hconn
  obtain ⟨_, fs, hfs, _⟩ := Federation.recipient_eq_some.mp hrec
  rw [(serve_tso req).sent, if_pos hconn, recordTso_serve, tsoEvent_of_routes hr, routed_eq hfs,
    if_pos hs]
  cases (fs.holdsBack cb).isSome with
  | false => exact .inl ⟨rfl, rfl⟩
  | true => exact .inr ⟨rfl, rfl⟩

/-- A drain sends what is due exactly if there is nothing due or the federate is
connected. -/
theorem sent_due_iff (hg : fed.Ticketed h g) {t : ℚ} (hd : req.drainsUpTo c fed h = some t) :
    stampedFor h (serve c fed req).callbacks = ((g.due t).map fun e => e.1.callback) ↔
      (g.due t ≠ [] → (fed.recipient c h).isSome = true) := by
  rw [(serve_tso req).sent, tsoEvent_of_drains hd]
  split
  · next hconn => exact iff_of_true (hg.sent_drain t) fun _ => hconn
  · next hconn =>
      rw [eq_comm, List.map_eq_nil_iff]
      exact ⟨fun hnil hne => absurd hnil hne, fun himp => not_not.mp fun hne => hconn (himp hne)⟩

theorem tsoEvent_nothing (hr : ∀ s cb, req.routes c fed = some (s, cb) → h ∉ s)
    (hd : req.drainsUpTo c fed h = none) : req.tsoEvent c fed h = .nothing := by
  cases hm : req.routes c fed with
  | none =>
    rw [ServiceRequest.tsoEvent, hm, hd]
    rfl
  | some m =>
    rw [tsoEvent_of_routes hm, routed]
    split
    · rfl
    · rw [if_neg (hr m.1 m.2 hm)]

theorem servesTso_iff (hg : fed.Ticketed h g) :
    ServesTso h c fed req g (recordTso h fed (.serve c req) g) ↔
      (FedAction.serve c req).SparesTso h fed := by
  constructor
  · intro hs t hd hdue
    exact (sent_due_iff hg hd).mp (hs.drained t hd).2.2 (hg.due_ne_nil.mpr hdue)
  · intro hspare
    refine ⟨?_, fun s cb hr hs hconn => sent_or_put hr hs hconn, ?_, ?_⟩
    · rw [recordTso_serve]
      cases req.tsoEvent c fed h <;> rfl
    · intro t hd
      obtain ⟨hqueue, hdrained⟩ := hg.kept.take_eq F64.totalOn_le (F64.noConfusion : F64.fin t ≠ .nan)
      have hsent := (sent_due_iff hg hd).mpr fun hne => hspare t hd (hg.due_ne_nil.mp hne)
      rw [recordTso_serve, tsoEvent_of_drains hd]
      exact ⟨hqueue, hdrained, hsent⟩
    · intro hr hd
      have hevent := tsoEvent_nothing hr hd
      rw [(serve_tso req).sent, recordTso_serve, hevent]
      exact ⟨ite_self _, rfl⟩

theorem keepsTso_iff (hg : fed.Ticketed h g) {a : FedAction} :
    a.KeepsTso h fed g ↔ a.SparesTso h fed := by
  cases a with
  | create => exact Iff.rfl
  | join =>
    rw [FedAction.KeepsTso, FedAction.SparesTso]
    show ((if _ then some QueueOp.drop else none).elim g _).lost = g.lost ↔ _
    split
    · next hent =>
        show g.lost ++ g.queue = g.lost ↔ _
        rw [List.append_right_eq_self, ← hg.queue, List.map_eq_nil_iff]
        exact ⟨fun hnil _ => hnil, fun himp => himp hent⟩
    · next hent => exact iff_of_true rfl fun h' => absurd h' hent
  | leave k =>
    refine iff_of_true ?_ trivial
    by_cases hk : k = h
    · exact .inl hk
    · right
      show (if k = h then some QueueOp.drop else none).elim g _ = g
      rw [if_neg hk]
      rfl
  | serve => exact servesTso_iff hg

end Exact

/-- **The timestamp queue is a stable priority queue**, and every message is sent
once: exactly in the runs in which nobody enters under the handle of a federate with
messages, and no drain finds messages for a federate that is not connected. -/
theorem tso_queue_stable_iff (r : FedRef) (h : FederateHandle) (es : List NodeEvent) :
    (Always (logged Node.step (Node.track r (recordTso h))) (fun s => (s.1.heap r).Ticketed h s.2)
        (Node.new, {}) es ∧
      StepsMeet (logged Node.step (Node.track r (recordTso h)))
        (Node.MeetsWith r fun fed g a => a.KeepsTso h fed g) (Node.new, {}) es) ↔
      StepsMeet Node.step (Node.MeetsAt r fun fed a => a.SparesTso h fed) Node.new es := by
  have hnew : (Federation.new "" .new).Ticketed h {} := ⟨rfl, Tickets.kept_empty⟩
  have hany : StepsMeet Node.step (Node.MeetsAt r fun _ _ => True) Node.new es :=
    .of_forall fun _ _ _ _ _ => trivial
  have halways : Always (logged Node.step (Node.track r (recordTso h)))
      (fun s => (s.1.heap r).Ticketed h s.2) (Node.new, {}) es :=
    Node.track_always hnew (fun fed g a hg _ => hg.apply a) hany
  rw [and_iff_right halways]
  exact Node.track_iff hnew (fun fed g a hg _ => hg.apply a) (fun fed g a hg _ => keepsTso_iff hg) hany

/-- **Messages are drained and sent to nobody.**  Federate 2 has a message of time 3,
waits for time 5 and is suspended; it is still joined when federate 1 advances, and its
queue is empty afterwards. -/
theorem drained_unsent :
    let n := run Node.step Node.new pairSuspended
    let advance : ServiceRequest := advanceTo wireFive
    ((n.heap 0).tsoQueue ⟨2⟩).map QueuedMessage.time = [.fin 3] ∧
      (((n.step (.serves 0 advance)).heap 0).tsoQueue ⟨2⟩).map QueuedMessage.time = [] ∧
      ⟨2⟩ ∈ ((n.step (.serves 0 advance)).heap 0).federates ∧
      (n.outcome 0 .plain (.service advance)).map
        (fun o => (stampedFor ⟨2⟩ o.callbacks).length) = some 0 := by
  decide +kernel

end Hla4
