/-
# `Hla4.Rti.Safety.Past` — no update in the receiver's past

A timestamped update reaches a constrained federate at once, when it is not
ahead of it, or from its queue.

  * From the queue: what is queued is ahead (`QueuesAhead`).
  * At once: the sender's promise is at most the timestamp, by the check on
    sending, and at least the receiver's time, if the federation is
    conservative.

Grants keep a federation conservative; so does everything else, except the
three services that take on a duty without looking back: `enableTimeRegulation`
and `modifyLookahead` may promise a time that constrained federates have
passed, and `enableTimeConstrained` may come too late for the promises made.
And the check on sending lets a NaN through.
-/
import Hla4.Rti.Safety.TsoOrder

namespace Hla4

open Lib

variable {c : Caller} {fed fed' : Federation} {cb : OutboundCallback} {time : F64}
  {h : FederateHandle} {p : TimeState}

/-! ## The condition -/

/-- No constrained federate is past `t`. -/
def Federation.NonePast (fed : Federation) (t : Timestamp) : Prop :=
  ∀ h ∈ fed.federates.keys, ∀ p ∈ fed.net h, p.isConstrained = true →
    (p.currentTime : Timestamp) ≤ t

instance (fed : Federation) (t : Timestamp) : Decidable (fed.NonePast t) :=
  inferInstanceAs (Decidable (∀ h ∈ _, ∀ p ∈ fed.net h, _ → _ ≤ _))

/-- A federate takes on a duty only in time: who starts to regulate or changes its
lookahead promises nothing that a constrained federate has passed, and who starts to
be constrained is within the bound. -/
def TimeRequest.KeepsWithin (c : Caller) (fed : Federation) : TimeRequest → Prop
  | enableTimeRegulation lookahead =>
    ∀ l ∈ (lookaheadArg lookahead).toOption, ∀ p ∈ fed.net c.federate,
      p.isRegulating = false → fed.NonePast (.ofSum p.currentTime l)
  | modifyLookahead lookahead =>
    ∀ l ∈ (lookahead.bind decodeF64).bind (·.atLeast? 0), ∀ p ∈ fed.net c.federate,
      p.isRegulating = true → fed.NonePast (.ofSum p.currentTime l)
  | enableTimeConstrained =>
    ∀ p ∈ fed.net c.federate, p.isConstrained = false → (p.currentTime : Timestamp) ≤ fed.lbts
  | _ => True

instance (c : Caller) (fed : Federation) : (r : TimeRequest) → Decidable (r.KeepsWithin c fed)
  | .enableTimeRegulation _ =>
    inferInstanceAs (Decidable (∀ l ∈ Except.toOption _, ∀ p ∈ fed.net c.federate, _ → _))
  | .modifyLookahead _ =>
    inferInstanceAs (Decidable (∀ l ∈ Option.bind _ _, ∀ p ∈ fed.net c.federate, _ → _))
  | .enableTimeConstrained =>
    inferInstanceAs (Decidable (∀ p ∈ fed.net c.federate, _ → _ ≤ _))
  | .disableTimeRegulation | .disableTimeConstrained | .advance .. => .isTrue trivial

/-- The timestamp of an update request, if it has one. -/
def ServiceRequest.updateTime? : ServiceRequest → Option F64
  | .object (.updateAttributeValuesWithTime _ _ _ stamp) => (decodeLogicalTime stamp "").toOption
  | _ => none

/-- Whoever is granted is drained; nobody takes on a duty too late; and no
update is stamped with a NaN. -/
def FedAction.KeepsAhead (fed : Federation) (a : FedAction) : Prop :=
  a.DrainsGranted fed ∧
    match a with
    | serve c r => (∀ t ∈ r.timeRequest?, t.KeepsWithin c fed) ∧ r.updateTime? ≠ some .nan
    | _ => True

instance (fed : Federation) : (a : FedAction) → Decidable (a.KeepsAhead fed)
  | .create .. => inferInstanceAs (Decidable (_ ∧ True))
  | .join .. => inferInstanceAs (Decidable (_ ∧ True))
  | .leave .. => inferInstanceAs (Decidable (_ ∧ True))
  | .serve c r => inferInstanceAs (Decidable (_ ∧ (∀ t ∈ r.timeRequest?, t.KeepsWithin c fed) ∧ _))

/-! ## Staying within the bound -/

namespace TimeSection.Changes

variable {s : TimeSection} {t : TimeState}

theorem conservative_promise (h : s.Changes c fed t) (hc : fed.net.Conservative)
    (htime : t.currentTime = s.caller.time.currentTime)
    (hcon : t.isConstrained = s.caller.time.isConstrained) (hpast : fed.NonePast t.promise) :
    s.federation.net.Conservative := by
  intro i p' hp' hcon' j q' hq' hreg
  rw [h.federation, net_setTime h.caller] at hp' hq'
  -- whoever is constrained was so before, at the same time
  obtain ⟨p, hp, hpcon, hsame⟩ : ∃ p, fed.net i = some p ∧ p.isConstrained = true ∧
      p'.currentTime = p.currentTime := by
    split at hp'
    · next hi =>
        cases hp'
        exact ⟨_, hi ▸ h.net_caller, hcon ▸ hcon', htime⟩
    · exact ⟨p', hp', hcon', rfl⟩
  rw [hsame]
  split at hq'
  · cases hq'
    exact hpast i (Federation.mem_keys_of_net hp) p hp hpcon
  · exact hc i p hp hpcon j q' hq' hreg

theorem conservative_constrain (h : s.Changes c fed s.caller.time.constrain)
    (hc : fed.net.Conservative) (hbound : fed.net.Below s.caller.time.currentTime) :
    s.federation.net.Conservative := by
  intro i p' hp' hcon' j q' hq' hreg
  rw [h.federation, net_setTime h.caller] at hp' hq'
  -- whoever regulates did so before, with the same promise
  obtain ⟨q, hq, hqreg, hsame⟩ : ∃ q, fed.net j = some q ∧ q.isRegulating = true ∧
      q'.promise = q.promise := by
    split at hq'
    · next hj =>
        cases hq'
        exact ⟨s.caller.time, hj ▸ h.net_caller, hreg, rfl⟩
    · exact ⟨q', hq', hreg, rfl⟩
  rw [hsame]
  split at hp'
  · cases hp'
    exact hbound j q hq hqreg
  · exact hc i p' hp' hcon' j q hq hqreg

end TimeSection.Changes

theorem conservative_section {r : TimeRequest} {s : TimeSection} (hs : timeSection c fed r = .ok s)
    (hok : r.KeepsWithin c fed) (h : fed.net.Conservative) : s.federation.net.Conservative := by
  obtain ⟨t, ht, hch⟩ := timeSection_eq_ok.mp hs
  rw [TimeRequest.change_eq_some] at ht
  cases r with
  | enableTimeRegulation =>
    obtain ⟨l, hl, hreg, rfl⟩ := ht
    exact hch.conservative_promise h rfl rfl
      (hok l (toOption_eq_some.mpr hl) s.caller.time hch.net_caller hreg)
  | modifyLookahead =>
    obtain ⟨l, hl, hreg, rfl⟩ := ht
    exact hch.conservative_promise h rfl rfl (hok l hl s.caller.time hch.net_caller hreg)
  | enableTimeConstrained =>
    obtain ⟨hfree, rfl⟩ := ht
    exact hch.conservative_constrain h
      (Federation.coe_le_lbts.mp (hok _ hch.net_caller hfree))
  | disableTimeRegulation =>
    obtain ⟨_, rfl⟩ := ht
    exact h.relax (hch.relaxes Bool.noConfusion fun hc => ⟨hc, le_refl _⟩)
  | disableTimeConstrained =>
    obtain ⟨_, rfl⟩ := ht
    exact h.relax (hch.relaxes (fun hr => ⟨hr, le_refl _⟩) Bool.noConfusion)
  | advance => exact h.relax (advance_relaxes hs)

theorem conservative_serve {req : ServiceRequest}
    (hok : ∀ r ∈ req.timeRequest?, r.KeepsWithin c fed) (h : fed.net.Conservative) :
    (serve c fed req).federation.net.Conservative := by
  refine (serve_run req).conservative ?_
  unfold grantsStart
  split
  · next r =>
      split
      · next s hs => exact conservative_section hs (hok r rfl) h
      · exact h
  · exact h

theorem conservative_apply (fed : Federation) (a : FedAction) (h : fed.net.Conservative)
    (hok : a.KeepsAhead fed) : (a.apply fed).net.Conservative := by
  cases a with
  | create =>
    intro k p hp
    cases hp
  | join =>
    refine Federation.join_keeps (P := fun fed => fed.net.Conservative) h fun name => ?_
    refine h.relax ?_
    intro k p hp
    rw [Federation.net_enter] at hp
    split at hp
    · cases hp
      exact ⟨Bool.noConfusion, Bool.noConfusion⟩
    · exact ⟨fun hr => ⟨p, hp, hr, le_refl _⟩, fun hc => ⟨p, hp, hc, le_refl _⟩⟩
  | leave =>
    refine h.relax ?_
    intro k' p hp
    rw [FedAction.apply, Federation.net_leave] at hp
    split at hp
    · cases hp
    · exact ⟨fun hr => ⟨p, hp, hr, le_refl _⟩, fun hc => ⟨p, hp, hc, le_refl _⟩⟩
  | serve => exact conservative_serve hok.2.1 h

/-! ## Deliveries -/

/-- What an update delivered at once is known by. -/
structure DeliveredAtOnce (c : Caller) (fed : Federation) (r : ObjectRequest) (time : F64)
    (h : FederateHandle) (p : TimeState) : Prop where
  request : ServiceRequest.updateTime? (.object r) = some time
  promised : checkPromise c fed time = .ok ()
  receiver : fed.net h = some p
  notAhead : p.isConstrained = true → ¬ F64.fin p.currentTime < time

theorem updateAttributeValuesWithTime_delivers {inst : WireField} {values : WireValueMap}
    {tag : Bytes} {stamp : WireField}
    (hcb : cb ∈ (updateAttributeValuesWithTime c fed inst values tag stamp).callbacks)
    (htime : cb.body.reflectTime? = some time) (hrecv : cb.receiver = some (h, p)) :
    DeliveredAtOnce c fed (.updateAttributeValuesWithTime inst values tag stamp) time h p := by
  revert hcb
  refine Outcome.ofExcept_of (Q := fun o => cb ∈ o.callbacks → _) (fun _ hcb => nomatch hcb) ?_
  refine .bind fun i _ => .bind fun vs _ => .bind fun tm htm => .bind fun ins _ =>
    .bind fun _ hprom => .pure ?_
  intro hcb
  rcases List.mem_append.mp hcb with hcb | hcb
  · have huntimed : CallbackRequest.Untimed cb.body :=
      forall_notifySubset (fun _ => trivial) cb hcb
    cases huntimed.reflectTime?.symm.trans htime
  · obtain ⟨r, hr, rfl⟩ := mem_fanOut.mp hcb
    cases htime
    cases hrecv
    obtain ⟨himm, hreach⟩ := Federation.mem_liveConnections.mp hr
    obtain ⟨_, fs, hfs, _, hp⟩ := Federation.recipient_eq_some.mp hreach
    have hnow := (HashSet.mem_filter.mp himm).2
    rw [hfs] at hnow
    refine ⟨?_, hprom, ?_, ?_⟩
    · rw [ServiceRequest.updateTime?, htm]
      rfl
    · rw [hp, ← touches_notifySubset.net (by decide)]
      exact Federation.net_eq_some.mpr ⟨fs, hfs, rfl⟩
    · rw [hp]
      exact holdsBack_eq_none.mp (Option.isNone_iff_eq_none.mp hnow)

theorem serveObject_delivers {r : ObjectRequest} (hcb : cb ∈ (serveObject c fed r).callbacks)
    (htime : cb.body.reflectTime? = some time) (hrecv : cb.receiver = some (h, p)) :
    DeliveredAtOnce c fed r time h p := by
  cases hr : r.timed with
  | false => cases ((serveObject_untimed hr).bodies cb hcb).1.reflectTime?.symm.trans htime
  | true =>
    cases r with
    | updateAttributeValuesWithTime =>
      exact updateAttributeValuesWithTime_delivers hcb htime hrecv
    | sendInteractionWithTime =>
      revert hcb
      refine Outcome.ofExcept_of (Q := fun o => cb ∈ o.callbacks → _) (fun _ hcb => nomatch hcb)
        (.bind fun _ _ => .bind fun _ _ => .pure fun hcb => ?_)
      obtain ⟨_, _, rfl⟩ := mem_fanOut.mp hcb
      cases htime
    | deleteObjectInstanceWithTime =>
      revert hcb
      refine Outcome.ofExcept_of (Q := fun o => cb ∈ o.callbacks → _) (fun _ hcb => nomatch hcb)
        (.bind fun _ _ => .bind fun _ _ => .bind fun _ _ => .pure fun hcb => ?_)
      obtain ⟨_, _, rfl⟩ := mem_fanOut.mp hcb
      cases htime
    | _ => cases hr

/-- At once: between the receiver's time and the timestamp stands the sender's
promise. -/
theorem DeliveredAtOnce.not_past {r : ObjectRequest} (hd : DeliveredAtOnce c fed r time h p)
    (hcons : fed.net.Conservative) (hnan : time ≠ .nan) (hcon : p.isConstrained = true)
    {fs : FederateSession} (hfs : fed.federates.lookup c.federate = some fs)
    (hreg : fs.time.isRegulating = true) :
    F64.fin p.currentTime ≤ time := by
  have hbound : (p.currentTime : Timestamp) ≤ fs.time.promise :=
    hcons h p hd.receiver hcon c.federate fs.time
      (Federation.net_eq_some.mpr ⟨fs, hfs, rfl⟩) hreg
  have hcheck := hd.promised
  rw [checkPromise, hfs] at hcheck
  dsimp only at hcheck
  split at hcheck
  · cases hcheck
  · next hnot =>
      exact (Timestamp.lt_toF64_or_ge hnan hbound).resolve_left fun hlt => hnot ⟨hreg, hlt⟩

/-- From the queue: what was queued was ahead. -/
theorem OutboundCallback.FromQueue.not_past (hq : cb.FromQueue fed) (hahead : fed.QueuesAhead)
    (htime : cb.body.reflectTime? = some time) (hrecv : cb.receiver = some (h, p))
    (hcon : p.isConstrained = true) : F64.fin p.currentTime ≤ time := by
  obtain ⟨h', fs, m, p', hfs, hm, hbody, hrecv', hp⟩ := hq
  cases hrecv.symm.trans hrecv'
  rcases hp with rfl | hfree
  · have hstamp : time = m.time.toF64 := by
      rw [hbody] at htime
      exact Option.some.inj ((CallbackRequest.timestamp_of_reflectTime? htime).symm.trans m.stamped)
    rw [hstamp]
    exact F64.fin_le_of_lt (Timestamp.fin_lt_toF64.mpr (hahead h fs hfs m hm))
  · rw [hcon] at hfree
    cases hfree

/-- A service other than a time service sends no update but by an update
request. -/
theorem serve_reflects {req : ServiceRequest} (hr : ∀ t, req ≠ .time t)
    (hcb : cb ∈ (serve c fed req).callbacks) (htime : cb.body.reflectTime? = some time) :
    ∃ r, req = .object r := by
  have hdata : cb.body.topic = .object ∨ cb.body.topic = .interaction :=
    CallbackRequest.data_of_timestamp (CallbackRequest.timestamp_of_reflectTime? htime)
  have htopic := serve_topics req cb hcb
  cases req with
  | object r => exact ⟨r, rfl⟩
  | time r => exact absurd rfl (hr r)
  | _ =>
    rcases hdata with hon | hon
    · simp [hon, ServiceRequest.topics] at htopic
    · simp [hon, ServiceRequest.topics] at htopic

theorem serve_not_past {req : ServiceRequest} (hahead : fed.QueuesAhead)
    (hcons : fed.net.Conservative) (hnan : req.updateTime? ≠ some .nan)
    (hcb : cb ∈ (serve c fed req).callbacks) (htime : cb.body.reflectTime? = some time)
    (hrecv : cb.receiver = some (h, p)) (hcon : p.isConstrained = true)
    (hsender : ∀ r, req = .object r →
      ∃ fs, fed.federates.lookup c.federate = some fs ∧ fs.time.isRegulating = true) :
    F64.fin p.currentTime ≤ time := by
  by_cases hr : ∃ r, req = .time r
  · obtain ⟨r, rfl⟩ := hr
    rw [serve] at hcb
    rcases serveTime_cases c fed r with ⟨e, _, he⟩ | ⟨s, resp, own, hs, hown, hcase⟩
    · rw [he] at hcb
      cases hcb
    · rcases hcase with ⟨_, he⟩ | ⟨_, pass, hpass, he⟩
      · rw [he] at hcb
        cases (hown cb hcb).1.reflectTime?.symm.trans htime
      · rw [he] at hcb
        rcases List.mem_append.mp hcb with hcb | hcb
        · cases (hown cb hcb).1.reflectTime?.symm.trans htime
        · rcases hpass.callbacks cb hcb with ⟨g, _, hbody, _⟩ | hqueue
          · rw [hbody] at htime
            cases htime
          · exact hqueue.not_past (queuesAhead_section hs hahead) htime hrecv hcon
  · obtain ⟨r, rfl⟩ := serve_reflects (not_exists.mp hr) hcb htime
    obtain ⟨fs, hfs, hreg⟩ := hsender r rfl
    have hd := serveObject_delivers hcb htime hrecv
    refine hd.not_past hcons ?_ hcon hfs hreg
    rintro rfl
    exact hnan hd.request

/-- No callback of the call brings a constrained federate an update from its
past.  Updates sent by a federate that does not regulate are not counted. -/
def Node.NothingPast (n : Node) (e : NodeEvent) : Prop :=
  ∀ t env request o, e = .call t env request → n.outcome t env request = some o →
    ∀ cb ∈ o.callbacks, ∀ h p time, cb.receiver = some (h, p) → p.isConstrained = true →
      cb.body.reflectTime? = some time →
      (∀ r c q, n.action e = some (r, .serve c (.object q)) →
        ∃ fs, (n.heap r).federates.lookup c.federate = some fs ∧ fs.time.isRegulating = true) →
      F64.fin p.currentTime ≤ time

theorem Node.nothingPast_step {n : Node} {e : NodeEvent}
    (hinv : ∀ r, (n.heap r).QueuesAhead ∧ (n.heap r).net.Conservative)
    (hok : n.Meets (fun fed a => a.KeepsAhead fed) e) : n.NothingPast e := by
  rintro t env request o rfl ho cb hcb h p time hrecv hcon htime hsender
  rcases Node.outcome_cases ho with ⟨r, c, req, ha, hcalls⟩ | hreports
  · rw [hcalls] at hcb
    refine serve_not_past (hinv r).1 (hinv r).2 (hok _ ha).2.2 hcb htime hrecv hcon ?_
    rintro q rfl
    exact hsender r c q ha
  · cases (hreports.quiet.2 cb hcb).reflectTime?.symm.trans htime

/-- **No update in the receiver's past**, in a run in which whoever is granted
is drained, nobody takes on a duty too late, and no update is stamped with a
NaN. -/
theorem Node.nothing_past {es : List NodeEvent}
    (h : StepsMeet Node.step (Node.Meets fun fed a => a.KeepsAhead fed) Node.new es) :
    StepsMeet Node.step Node.NothingPast Node.new es := by
  refine h.each (P := fun n => ∀ r, (n.heap r).QueuesAhead ∧ (n.heap r).net.Conservative) ?_
    (fun _ _ => Node.nothingPast_step) ?_
  · refine Node.heap_keeps (P := fun fed => fed.QueuesAhead ∧ fed.net.Conservative) ?_
    intro fed a hinv hok
    exact ⟨queuesAhead_apply fed a hinv.1 hok.1, conservative_apply fed a hinv.2 hok⟩
  · intro r
    exact ⟨fun _ _ hfs => (nomatch hfs), fun _ _ hp => (nomatch hp)⟩

/-! ## Runs -/

/-- With lookahead 0, an update of time 3 that is queued and one of time 5 that
is delivered at once. -/
theorem Node.nothing_past_pair :
    let es := pairUpdating ++
      [.serves 0 (.time (.enableTimeRegulation (wire64 0))),
        .serves 1 (.time .enableTimeConstrained),
        .serves 0 (updateAt wireThree), .serves 1 (advanceTo wireFive),
        .serves 0 (advanceTo wireFive), .serves 0 (updateAt wireFive)]
    StepsMeet Node.step Node.NothingPast Node.new es :=
  Node.nothing_past (by decide +kernel)

/-- Not a number. -/
def wireNan : WireField := some [0x7F, 0xF8, 0, 0, 0, 0, 0, 0]

/-- Federate 2 is constrained and at time 5 (in the last run, at 0) when it gets
an update of time 3 (in the last run, of no time), because federate 1 regulates
too late, lowers its lookahead, federate 2 is constrained too late, its queue
was not drained at its grant, or the timestamp is not a number. -/
def pastCalls : List (List NodeEvent × Transport × ServiceRequest) :=
  [(pairUpdating ++ [.serves 1 (.time .enableTimeConstrained), .serves 1 (advanceTo wireFive),
      .serves 0 (.time (.enableTimeRegulation wireOne))], 0, updateAt wireThree),
    (pairUpdating ++ [.serves 0 (.time (.enableTimeRegulation wireFive)),
      .serves 1 (.time .enableTimeConstrained), .serves 1 (advanceTo wireFive),
      .serves 0 (.time (.modifyLookahead wireOne))], 0, updateAt wireThree),
    (pairUpdating ++ [.serves 0 (.time (.enableTimeRegulation wireOne)),
      .serves 1 (advanceTo wireFive), .serves 1 (.time .enableTimeConstrained)],
      0, updateAt wireThree),
    (pairUpdating ++ [.serves 0 (.time (.enableTimeRegulation wireOne)),
      .serves 1 (.time .enableTimeConstrained), .serves 0 (updateAt wireThree),
      .serves 1 (advanceTo wireFive), .serves 0 (.time .disableTimeRegulation)],
      1, advanceTo wireTen),
    (pairUpdating ++ [.serves 0 (.time (.enableTimeRegulation wireOne)),
      .serves 1 (.time .enableTimeConstrained)], 0, updateAt wireNan)]

/-- The sender of an update regulates. -/
def Node.senderRegulates (n : Node) (e : NodeEvent) : Bool :=
  (n.action e).all fun ra =>
    match ra.2 with
    | .serve c (.object _) => ((n.heap ra.1).federates.lookup c.federate).any (·.time.isRegulating)
    | _ => true

/-- **In the past.**  Each of these calls delivers an update in the receiver's
past. -/
theorem Node.pastCalls_fail :
    pastCalls.Forall fun call =>
      ¬ (run Node.step Node.new call.1).NothingPast (.serves call.2.1 call.2.2) := by
  have hpast : ∀ call ∈ pastCalls,
      (run Node.step Node.new call.1).senderRegulates (.serves call.2.1 call.2.2) = true ∧
      ∃ o ∈ (run Node.step Node.new call.1).outcome call.2.1 .plain (.service call.2.2),
        ∃ cb ∈ o.callbacks, ∃ recv ∈ cb.receiver, ∃ time ∈ cb.body.reflectTime?,
          recv.2.isConstrained = true ∧ ¬ F64.fin recv.2.currentTime ≤ time := by
    decide +kernel
  rw [List.forall_iff_forall_mem]
  intro call hcall hnothing
  obtain ⟨hsender, o, ho, cb, hcb, recv, hrecv, time, htime, hcon, hlate⟩ := hpast call hcall
  refine hlate (hnothing _ .plain _ o rfl ho cb hcb recv.1 recv.2 time hrecv hcon htime ?_)
  intro r c q ha
  rw [Node.senderRegulates, ha] at hsender
  exact (Option.any_eq_true _ _).mp hsender

end Hla4
