/-
# `Hla4.Rti.Safety.Publication` — nothing is sent unpublished

Five services send interactions, over three handlers:

    sendInteraction, …WithRegions                   published_interactions is asked
    sendInteractionWithTime, …WithRegionsAndTime    published_interactions is asked
    sendDirectedInteraction                         nothing is asked

The third looks up the instance and its class, and never the directed
interactions its caller publishes.

A timestamped interaction may be sent by one call and delivered by another, which
finds it in a queue.  So the question is asked of what a call sends itself, and of
what it adds to a queue (`Brings`): that is its own message, and its caller
publishes it.  Only a time service delivers what was queued.
-/
import Hla4.Rti.Safety.Delivery
import Hla4.Rti.Safety.TsoOrder

namespace Hla4

open Lib

/-! ## Messages, and who may send them -/

/-- An interaction, directed or not. -/
def CallbackRequest.Interaction (body : CallbackRequest) : Prop :=
  body.On .interaction ∨ body.On .directed

instance (body : CallbackRequest) : Decidable body.Interaction :=
  inferInstanceAs (Decidable (body.topic = _ ∨ body.topic = _))

theorem CallbackRequest.On.not_interaction {t : CallbackTopic} {body : CallbackRequest}
    (h : body.On t) (ht : t ∉ [.interaction, .directed]) : ¬ body.Interaction := by
  cases h
  rintro (h | h)
  · exact ht (by rw [show body.topic = _ from h]; decide)
  · exact ht (by rw [show body.topic = _ from h]; decide)

/-- The interaction a request sends, when its fields can be read. -/
def ServiceRequest.message? (sender : FederateHandle) : ServiceRequest → Option CallbackRequest
  | .object (.sendInteraction _ cls params tag) => Except.toOption do
      let cls ← decodeInteractionOrErr cls
      let params ← decodeParameterValueMap params
      pure (.receiveInteraction cls params tag sender)
  | .object (.sendInteractionWithTime _ cls params tag stamp) => Except.toOption do
      let cls ← decodeInteractionOrErr cls
      let params ← decodeParameterValueMap params
      let time ← decodeLogicalTime stamp ""
      pure (.receiveInteractionWithTime cls params tag sender time)
  | .directed (.sendDirectedInteraction cls inst params tag) => Except.toOption do
      let cls ← decodeInteractionOrErr cls
      let inst ← getOr (inst.bind decodeObjectInstance) HlaException.objectInstanceNotKnown.bare
      let params ← decodeParameterValueMap params
      pure (.receiveDirectedInteraction cls inst params tag sender)
  | _ => none

namespace Federation

/-- The sender publishes the class, for a directed interaction at the class of the
instance. -/
def Permits (fed : Federation) : CallbackRequest → Prop
  | .receiveInteraction cls _ _ sender =>
    ∃ fs ∈ fed.federates.lookup sender, cls ∈ fs.pubSub.publishedInteractions
  | .receiveInteractionWithTime cls _ _ sender _ =>
    ∃ fs ∈ fed.federates.lookup sender, cls ∈ fs.pubSub.publishedInteractions
  | .receiveDirectedInteraction cls inst _ _ sender =>
    ∃ i ∈ fed.objectInstances.lookup inst, ∃ fs ∈ fed.federates.lookup sender,
      cls ∈ fs.pubSub.publishedDirectedInteractions.get i.cls
  | _ => True

instance (fed : Federation) (body : CallbackRequest) : Decidable (fed.Permits body) := by
  cases body <;> unfold Permits <;> infer_instance

/-- The messages queued for the federate. -/
def waiting (fed : Federation) (h : FederateHandle) : List TsoMessage :=
  ((fed.queue h).map (·.messages)).getD []

/-- The callback brings what is queued for its receiver. -/
def HoldsFor (fed : Federation) (cb : OutboundCallback) : Prop :=
  ∃ h ∈ cb.federate, ∃ m ∈ fed.waiting h, m.callback = cb.body

/-- From `fed` to `fed'` queues gained at most messages that are `P`. -/
def Gains (P : CallbackRequest → Prop) (fed fed' : Federation) : Prop :=
  ∀ h, ∃ new, (fed'.waiting h).Subperm (new ++ fed.waiting h) ∧ ∀ m ∈ new, P m.callback

end Federation

/-- A directed interaction is sent by a federate that publishes it. -/
def FedAction.DirectsPublished (fed : Federation) : FedAction → Prop
  | serve c (.directed (.sendDirectedInteraction cls inst _ _)) =>
    ∀ k ∈ (decodeInteractionOrErr cls).toOption,
      ∀ i ∈ (inst.bind decodeObjectInstance).bind fed.objectInstances.lookup,
        ∃ fs ∈ fed.federates.lookup c.federate,
          k ∈ fs.pubSub.publishedDirectedInteractions.get i.cls
  | _ => True

instance (fed : Federation) (a : FedAction) : Decidable (a.DirectsPublished fed) := by
  unfold FedAction.DirectsPublished
  split <;> infer_instance

variable {c : Caller} {fed fed' : Federation} {body : CallbackRequest}
  {P Q : CallbackRequest → Prop}

theorem Federation.Gains.of_subperm (h : ∀ k, (fed'.waiting k).Subperm (fed.waiting k)) :
    Federation.Gains P fed fed' :=
  fun k => ⟨[], h k, List.forall_mem_nil _⟩

theorem Federation.Gains.of_queue_eq (h : fed'.queue = fed.queue) : Federation.Gains P fed fed' :=
  .of_subperm fun k => by rw [Federation.waiting, h]; exact .refl _

theorem gains_route {subscribers : HashSet FederateHandle} {cb : TimedCallback} (hP : P cb.body) :
    fed.Gains P (routeTsoOrImmediate c fed subscribers cb).1 := by
  intro k
  simp only [Federation.waiting, Federation.queue, lookup_route, Option.map_map]
  cases fed.federates.lookup k with
  | none => exact ⟨[], .refl _, List.forall_mem_nil _⟩
  | some fs =>
    simp only [Option.map_some, Option.getD_some, Function.comp_apply]
    have same : ∃ new, fs.tsoQueue.messages.Subperm (new ++ fs.tsoQueue.messages) ∧
        ∀ m ∈ new, P m.callback := ⟨[], .refl _, List.forall_mem_nil _⟩
    split
    · exact same
    · next msg hb =>
        split
        · refine ⟨[msg], (SortedQueue.insert_perm _ msg).subperm, ?_⟩
          rw [List.forall_mem_singleton, (holdsBack_eq_some.mp hb).2.2]
          exact hP
        · exact same

/-! ## One call -/

/-- Whatever is sent, or added to a queue, is `P`. -/
structure Outcome.Brings (P : CallbackRequest → Prop) (fed : Federation) (o : Outcome) : Prop where
  sends : ∀ cb ∈ o.callbacks, P cb.body
  queues : fed.Gains P o.federation

namespace Outcome.Brings

variable {o : Outcome}

theorem mono (hPQ : ∀ body, P body → Q body) (h : o.Brings P fed) : o.Brings Q fed where
  sends cb hcb := hPQ _ (h.sends cb hcb)
  queues k :=
    let ⟨new, hsub, hnew⟩ := h.queues k
    ⟨new, hsub, fun m hm => hPQ _ (hnew m hm)⟩

theorem of_queue_eq (hq : o.federation.queue = fed.queue) (hcb : ∀ cb ∈ o.callbacks, P cb.body) :
    o.Brings P fed :=
  ⟨hcb, .of_queue_eq hq⟩

theorem reject {e : ExceptionData} : (Outcome.reject fed e).Brings P fed :=
  of_queue_eq rfl (List.forall_mem_nil _)

theorem fanOut {recipients : List Recipient} {resp : Resp} (hP : P body) :
    (Outcome.reply fed resp (Hla4.fanOut recipients body)).Brings P fed :=
  of_queue_eq rfl (forall_fanOut hP)

theorem route {subscribers : HashSet FederateHandle} {cb : TimedCallback} {resp : Resp}
    (first : List OutboundCallback) (hq : fed'.queue = fed.queue)
    (hfirst : ∀ cb ∈ first, P cb.body) (hP : P cb.body) :
    (Outcome.reply (routeTsoOrImmediate c fed' subscribers cb).1 resp
      (first ++ (routeTsoOrImmediate c fed' subscribers cb).2)).Brings P fed := by
  refine ⟨forall_append hfirst (forall_fanOut hP), fun k => ?_⟩
  have hsame : fed'.waiting k = fed.waiting k := by rw [Federation.waiting, hq, Federation.waiting]
  exact hsame ▸ gains_route (c := c) hP k

end Outcome.Brings

/-- The message of the request, sent by a federate that publishes it. -/
def ServiceRequest.Sends (c : Caller) (fed : Federation) (req : ServiceRequest)
    (body : CallbackRequest) : Prop :=
  req.message? c.federate = some body ∧ fed.Permits body

/-- Accepted interaction arguments: the fields are read, and the class is
published. -/
theorem sends_of_args {cls : WireField} {params : WireValueMap}
    {args : InteractionClassHandle × HashMap ParameterHandle Bytes}
    (h : interactionArgs c fed cls params = .ok args) :
    decodeInteractionOrErr cls = .ok args.1 ∧ decodeParameterValueMap params = .ok args.2 ∧
      ∃ fs ∈ fed.federates.lookup c.federate, args.1 ∈ fs.pubSub.publishedInteractions := by
  obtain ⟨hdef, hps, hpub⟩ := interactionArgs_eq_ok h
  obtain ⟨k, hk, hdef⟩ := bind_eq_ok.mp hdef
  obtain ⟨_, _, hdef⟩ := bind_eq_ok.mp hdef
  cases hdef
  exact ⟨hk, hps, hpub⟩

theorem serveObject_brings (r : ObjectRequest) :
    (serveObject c fed r).Brings
      (fun body => body.Interaction → ServiceRequest.Sends c fed (.object r) body) fed := by
  have object : ∀ {o : Outcome}, o.Brings (CallbackRequest.On .object) fed →
      o.Brings (fun body => body.Interaction → ServiceRequest.Sends c fed (.object r) body) fed :=
    .mono fun _ h hi => absurd hi (h.not_interaction (by decide))
  have untimed : r.timed = false → r.topic = .object → (serveObject c fed r).Brings
      (fun body => body.Interaction → ServiceRequest.Sends c fed (.object r) body) fed := by
    intro hr ht
    refine object (.of_queue_eq ((serveObject_untimed hr).touches.queue (by decide)) ?_)
    exact ht ▸ (serveObject_on r).bodies
  cases r with
  | updateAttributeValuesWithTime =>
    refine Outcome.ofExcept_of (fun _ => .reject) ?_
    refine .bind fun _ _ => .bind fun _ _ => .bind fun _ _ => .bind fun _ _ =>
      .bind fun _ _ => .pure (object (.route _ (touches_notifySubset.queue (by decide)) ?_ rfl))
    exact forall_notifySubset fun _ => rfl
  | deleteObjectInstanceWithTime =>
    refine Outcome.ofExcept_of (fun _ => .reject) ?_
    refine .bind fun _ _ => .bind fun _ _ => .bind fun _ _ => .pure ?_
    exact object (.route [] (touches_removeInstance.queue (by decide)) (List.forall_mem_nil _) rfl)
  | sendInteraction =>
    refine Outcome.ofExcept_of (fun _ => .reject) (.bind fun args hargs => .pure ?_)
    obtain ⟨hk, hps, hpub⟩ := sends_of_args hargs
    refine .fanOut fun _ => ⟨?_, hpub⟩
    simp only [ServiceRequest.message?, hk, hps]
    rfl
  | sendInteractionWithTime =>
    refine Outcome.ofExcept_of (fun _ => .reject)
      (.bind fun args hargs => .bind fun time htime => .pure ?_)
    obtain ⟨hk, hps, hpub⟩ := sends_of_args hargs
    refine .route [] rfl (List.forall_mem_nil _) fun _ => ⟨?_, hpub⟩
    simp only [ServiceRequest.message?, hk, hps, htime]
    rfl
  | _ => exact untimed rfl rfl

theorem serveDirected_brings (r : DirectedRequest)
    (hok : (FedAction.serve c (.directed r)).DirectsPublished fed) :
    (serveDirected c fed r).Brings (ServiceRequest.Sends c fed (.directed r)) fed := by
  have silent : (∀ cb ∈ (serveDirected c fed r).callbacks, False) →
      (serveDirected c fed r).Brings (ServiceRequest.Sends c fed (.directed r)) fed := fun h =>
    .of_queue_eq ((serveDirected_confined r).touches.queue (by decide)) fun cb hcb => (h cb hcb).elim
  cases r with
  | sendDirectedInteraction =>
    refine Outcome.ofExcept_of (fun _ => .reject) (.bind fun k hk => .bind fun i hi =>
      .bind fun ps hps => .bind fun target htarget => .pure ?_)
    refine .fanOut ⟨?_, ?_⟩
    · simp only [ServiceRequest.message?, hk, hi, hps]
      rfl
    · rw [getOr_eq_ok] at hi htarget
      obtain ⟨fs, hfs, hpub⟩ := hok k (by rw [hk]; rfl) target (by rw [hi]; exact htarget)
      exact ⟨target, htarget, fs, hfs, hpub⟩
  | _ =>
    refine silent ?_
    exact Outcome.ofExcept_of (Q := fun o => ∀ cb ∈ o.callbacks, False)
      (fun _ => List.forall_mem_nil _) (.bind fun _ _ => .pure (List.forall_mem_nil _))

/-- A time service adds nothing to a queue, and sends grants and what was
queued. -/
theorem serveTime_gains (r : TimeRequest) :
    (∀ cb ∈ (serveTime c fed r).callbacks, cb.body.On .time ∨ fed.HoldsFor cb) ∧
      fed.Gains P (serveTime c fed r).federation := by
  rcases serveTime_cases c fed r with ⟨e, _, he⟩ | ⟨s, resp, own, hs, hown, hcase⟩
  · rw [he]
    exact ⟨List.forall_mem_nil _, .of_queue_eq rfl⟩
  · rcases hcase with ⟨_, he⟩ | ⟨_, pass, hpass, he⟩
    · rw [he]
      exact ⟨fun cb hcb => .inl (hown cb hcb).2, .of_queue_eq (queue_section hs)⟩
    · rw [he]
      have hsame : ∀ k, s.federation.waiting k = fed.waiting k := fun k => by
        rw [Federation.waiting, queue_section hs, Federation.waiting]
      refine ⟨fun cb hcb => ?_, .of_subperm fun k => ?_⟩
      · rcases List.mem_append.mp hcb with hcb | hcb
        · exact .inl (hown cb hcb).2
        · rcases hpass.callbacks cb hcb with ⟨g, _, hbody, _⟩ | ⟨h, fs, m, p, hfs, hm, hbody, hrecv, _⟩
          · rw [hbody]
            exact .inl rfl
          · refine .inr ⟨h, by rw [OutboundCallback.federate, hrecv]; rfl, m, ?_, hbody.symm⟩
            rw [← hsame, Federation.waiting, Federation.queue, hfs]
            exact hm
      · rw [← hsame, Federation.waiting]
        cases hq : pass.federation.queue k with
        | none => exact List.nil_subperm
        | some q' =>
          obtain ⟨q, hq, hsub, _⟩ := hpass.drained k q' hq
          rw [Federation.waiting, hq]
          exact hsub.subperm

/-- **One call.**  An interaction that is sent, or added to a queue, is the message
of the request, and the caller publishes it.  What else is delivered was queued, and
the call is a time service. -/
theorem serve_brings (req : ServiceRequest) (hok : (FedAction.serve c req).DirectsPublished fed) :
    (∀ cb ∈ (serve c fed req).callbacks, cb.body.Interaction →
      req.Sends c fed cb.body ∨ (∃ r, req = .time r) ∧ fed.HoldsFor cb) ∧
    fed.Gains (fun body => body.Interaction → req.Sends c fed body) (serve c fed req).federation := by
  by_cases hr : ∃ r, req = .time r
  · obtain ⟨r, rfl⟩ := hr
    obtain ⟨hsends, hqueues⟩ := serveTime_gains r
    refine ⟨fun cb hcb hi => .inr ⟨⟨r, rfl⟩, ?_⟩, hqueues⟩
    exact (hsends cb hcb).resolve_left fun ht => ht.not_interaction (by decide) hi
  suffices h : (serve c fed req).Brings (fun body => body.Interaction → req.Sends c fed body) fed from
    ⟨fun cb hcb hi => .inl (h.sends cb hcb hi), h.queues⟩
  have other : ∀ {t : CallbackTopic} {ps : List Part}, t ∉ [.interaction, .directed] →
      .federate .queue ∉ ps → (serve c fed req).Confined ps (CallbackRequest.On t) fed →
      (serve c fed req).Brings (fun body => body.Interaction → req.Sends c fed body) fed :=
    fun ht hps h => .of_queue_eq (h.touches.queue hps) fun cb hcb hi =>
      absurd hi ((h.bodies cb hcb).not_interaction ht)
  cases req with
  | declaration r => exact other (by decide) (by decide) (serveDeclaration_confined r)
  | region r => exact other (by decide) (by decide) (serveRegion_confined r)
  | directed r => exact (serveDirected_brings r hok).mono fun _ h _ => h
  | object r => exact serveObject_brings r
  | ownership r => exact other (by decide) (by decide) (serveOwnership_confined r)
  | saveRestore r => exact other (by decide) (by decide) (serveSaveRestore_confined r)
  | syncPoint r => exact other (by decide) (by decide) (serveSyncPoint_confined r)
  | time r => exact absurd ⟨r, rfl⟩ hr
  | switch r =>
    exact other (t := .report) (by decide) (by decide)
      ((serveSwitch_confined r).weaken fun _ => False.elim)
  | lookup r =>
    exact other (t := .report) (by decide) (by decide)
      ((serveLookup_confined c fed r).weaken fun _ => False.elim)

/-! ## Whole runs -/

theorem FedAction.gains_apply {a : FedAction} (hok : a.DirectsPublished fed) :
    fed.Gains (fun body => body.Interaction → ∃ c req, a = .serve c req ∧ req.Sends c fed body)
      (a.apply fed) := by
  cases a with
  | create => exact .of_subperm fun k => List.nil_subperm
  | join =>
    refine .of_subperm fun k => ?_
    refine Federation.join_keeps (P := fun fed' => (fed'.waiting k).Subperm (fed.waiting k))
      (.refl _) fun name => ?_
    rw [Federation.waiting, Federation.queue, Federation.lookup_enter]
    split
    · exact List.nil_subperm
    · exact .refl _
  | leave =>
    refine .of_subperm fun k => ?_
    rw [FedAction.apply, Federation.waiting, Federation.queue, Federation.lookup_leave]
    split
    · exact List.nil_subperm
    · exact .refl _
  | serve c req =>
    intro k
    obtain ⟨new, hsub, hnew⟩ := (serve_brings req hok).2 k
    exact ⟨new, hsub, fun m hm hi => ⟨c, req, rfl, hnew m hm hi⟩⟩

namespace Node

/-- What the step delivers of interactions is the message of its own call, which the
caller publishes, or was queued for the receiver and is delivered by a time
service.  What it adds to a queue is the message of its own call, which the caller
publishes. -/
structure SendsPublished (n : Node) (e : NodeEvent) : Prop where
  delivers : ∀ t env request o, e = .call t env request → n.outcome t env request = some o →
    ∀ cb ∈ o.callbacks, cb.body.Interaction → ∃ r c req, n.action e = some (r, .serve c req) ∧
      (req.Sends c (n.heap r) cb.body ∨ (∃ s, req = .time s) ∧ (n.heap r).HoldsFor cb)
  queues : ∀ r, (n.heap r).Gains (fun body => body.Interaction →
    ∃ c req, n.action e = some (r, .serve c req) ∧ req.Sends c (n.heap r) body) ((n.step e).heap r)

theorem sendsPublished {n : Node} {e : NodeEvent}
    (hok : n.Meets (fun fed a => a.DirectsPublished fed) e) : n.SendsPublished e := by
  refine ⟨fun t env request o he ho cb hcb hi => ?_, fun r => ?_⟩
  · subst he
    rcases outcome_cases ho with ⟨r, c, req, ha, hcalls⟩ | hreports
    · rw [hcalls] at hcb
      exact ⟨r, c, req, ha, (serve_brings req (hok _ ha)).1 cb hcb hi⟩
    · exact absurd hi ((hreports.2 cb hcb).not_interaction (by decide))
  · rcases n.heap_cases e r with hsame | ⟨a, ha, hact⟩
    · rw [hsame]
      exact .of_queue_eq rfl
    · rw [hact]
      intro k
      obtain ⟨new, hsub, hnew⟩ := FedAction.gains_apply (hok _ ha) k
      refine ⟨new, hsub, fun m hm hi => ?_⟩
      obtain ⟨c, req, rfl, hs⟩ := hnew m hm hi
      exact ⟨c, req, ha, hs⟩

/-- **Nothing is sent unpublished**, in every run in which directed interactions are
sent by federates that publish them. -/
theorem nothing_sent_unpublished {es : List NodeEvent}
    (h : StepsMeet Node.step (Meets fun fed a => a.DirectsPublished fed) Node.new es) :
    StepsMeet Node.step SendsPublished Node.new es :=
  h.mono fun _ _ => sendsPublished

/-- A directed interaction to the instance of federate 1. -/
def directedToOne : ServiceRequest :=
  .directed (.sendDirectedInteraction (wire32 1) (wire64 1) none [])

/-- Federate 2 publishes it and sends it, and federate 1 gets it. -/
theorem nothing_sent_unpublished_directed :
    let es := pairUpdating ++ [.serves 1 (.directed (.publishObjectClassDirectedInteractions
      (wire32 1) (some [[0, 0, 0, 1]])))]
    (∃ o ∈ (run Node.step Node.new es).outcome 1 .plain (.service directedToOne),
      o.callbacks.map (fun cb => (cb.federate, cb.body.topic)) = [(some ⟨1⟩, .directed)]) ∧
    StepsMeet Node.step SendsPublished Node.new (es ++ [.serves 1 directedToOne]) :=
  ⟨by decide +kernel, nothing_sent_unpublished (by decide +kernel)⟩

/-- **A directed interaction nobody published.**  Federate 2 sends it without
having published anything, and federate 1 gets it. -/
theorem directed_unpublished :
    ¬ StepsMeet Node.step SendsPublished Node.new (pairUpdating ++ [.serves 1 directedToOne]) := by
  obtain ⟨o, ho, cb, hcb, hi, hnot⟩ :
      ∃ o ∈ (run Node.step Node.new pairUpdating).outcome 1 .plain (.service directedToOne),
        ∃ cb ∈ o.callbacks, cb.body.Interaction ∧ (run Node.step Node.new pairUpdating).Meets
          (fun fed _ => ¬ fed.Permits cb.body) (.serves 1 directedToOne) := by
    decide +kernel
  intro h
  have hlast := (stepsMeet_append.mp h).2.1
  obtain ⟨r, c, req, ha, hs | ⟨⟨s, rfl⟩, -⟩⟩ := hlast.delivers 1 .plain _ o rfl ho cb hcb hi
  · exact hnot _ ha hs.2
  · obtain ⟨_, _, _, _, he, -⟩ := action_serve ha
    cases he

end Node

end Hla4
