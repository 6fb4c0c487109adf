/-
# `Hla4.Rti.Safety.Delivery` — who gets an interaction, and who an update

**Interactions** go to the joined federates subscribed to the class or to an
ancestor of it, the sender apart.  Each of them gets one copy: at once, or, if
the interaction has a timestamp ahead of a constrained receiver, in its queue
(`interaction_exact`).  The timestamp may be anything a float can be: nothing is
ahead of anybody if it is not a number.

**Updates** are filtered by regions.  A federate is meant to get an update if one
of the subscriptions it HOLDS, to an updated attribute at the class of the
instance or at an ancestor, admits the instance's regions (`Entitled`).  The code
asks two questions instead: does the federate hold any such subscription, and do
its regions AT THE CLASS OF THE INSTANCE admit some updated attribute, held or
not (`mem_updateRecipients`).  `update_exact_iff` says when the answers are the
same.
-/
import Hla4.Rti.Safety.Membership

namespace Hla4

open Lib

/-! ## What a call does for one federate -/

/-- Every joined federate has a live connection. -/
def Federation.AllConnected (fed : Federation) (c : Caller) : Prop :=
  ∀ f ∈ fed.federates.keys, ∀ fs ∈ fed.federates.lookup f, fs.sessionId ∈ c.connections

instance (fed : Federation) (c : Caller) : Decidable (fed.AllConnected c) :=
  inferInstanceAs (Decidable (∀ f ∈ fed.federates.keys, ∀ fs ∈ fed.federates.lookup f, _ ∈ _))

theorem Federation.AllConnected.of_touches {fed fed' : Federation} {c : Caller} {ps : List Part}
    (h : fed.AllConnected c) (ht : fed.Touches ps fed') (hi : Part.federate .identity ∉ ps) :
    fed'.AllConnected c := by
  intro f _ fs' hfs'
  obtain ⟨fs, hfs, hsession⟩ := ht.lookup_before hi hfs'
  exact hsession ▸ h f (AList.mem_keys.mp (HashMap.mem_of_lookup hfs)) fs hfs

namespace Outcome

variable (fed : Federation) (o : Outcome) (f : FederateHandle) (body : CallbackRequest)

/-- `f` is sent `body`, once and nothing else, and its queue stays. -/
def Emits : Prop := bodiesFor f o.callbacks = [body] ∧ o.federation.queue f = fed.queue f

/-- `f` is sent nothing, and `body` is put in its queue, once. -/
def Queues : Prop :=
  bodiesFor f o.callbacks = [] ∧ ∃ q msg, fed.queue f = some q ∧ msg.callback = body ∧
    o.federation.queue f = some (q.insert msg)

/-- Nothing happens to `f`. -/
def Spares : Prop := bodiesFor f o.callbacks = [] ∧ o.federation.queue f = fed.queue f

/-- Everybody in the audience gets it, and nothing happens to anybody else;
what is sent is sent to the connection of the federate it is for. -/
structure ReachesExactly (c : Caller) (audience got : FederateHandle → Prop) : Prop where
  addressed : ∀ cb ∈ o.callbacks, ∃ f fs, cb.federate = some f ∧
    fed.federates.lookup f = some fs ∧ c.connections.lookup fs.sessionId = some cb.target
  reaches : ∀ f, audience f → got f
  spares : ∀ f, ¬ audience f → o.Spares fed f

variable {fed o f body}

theorem Emits.not_queues (h : o.Emits fed f body) : ¬ o.Queues fed f body := by
  rintro ⟨hnil, _⟩
  rw [h.1] at hnil
  exact List.cons_ne_nil _ _ hnil

theorem xor_emits_queues (h : o.Emits fed f body ∨ o.Queues fed f body) :
    Xor (o.Emits fed f body) (o.Queues fed f body) := by
  rcases h with he | hq
  · exact .inl ⟨he, he.not_queues⟩
  · exact .inr ⟨hq, fun he => he.not_queues hq⟩

end Outcome

section Routing

variable {c : Caller} {fed : Federation} {f : FederateHandle} {fs : FederateSession}

theorem bodiesFor_connected (hconn : fed.AllConnected c) {s : HashSet FederateHandle}
    {body : CallbackRequest} :
    bodiesFor f (fanOut (fed.liveConnections c s) body) =
      if f ∈ s ∧ f ∈ fed.federates then [body] else [] := by
  have hjoined : (fed.recipient c f).isSome = true ↔ f ∈ fed.federates := by
    rw [← AList.lookup_isSome]
    cases hfs : fed.federates.lookup f with
    | none => simp [Federation.recipient_eq_none hfs]
    | some fs =>
      have hmem := hconn f (AList.mem_keys.mp (HashMap.mem_of_lookup hfs)) fs hfs
      simp [Federation.isSome_recipient hfs, hmem]
  rw [Federation.bodiesFor_live]
  simp only [hjoined]

theorem fanOut_addressed {s : HashSet FederateHandle} {body : CallbackRequest} :
    ∀ cb ∈ fanOut (fed.liveConnections c s) body, ∃ f fs, cb.federate = some f ∧
      fed.federates.lookup f = some fs ∧ c.connections.lookup fs.sessionId = some cb.target := by
  intro cb hcb
  obtain ⟨r, hr, rfl⟩ := mem_fanOut.mp hcb
  obtain ⟨_, fs, hfs, htarget, _⟩ :=
    Federation.recipient_eq_some.mp (Federation.mem_liveConnections.mp hr).2
  exact ⟨r.federate, fs, rfl, hfs, htarget⟩

/-- A timestamped body routed to a set: each joined federate of the set gets it
now or in its queue, and nothing happens to anybody else. -/
theorem route_exact (hconn : fed.AllConnected c) {s : HashSet FederateHandle} {cb : TimedCallback}
    {resp : Resp} {audience : FederateHandle → Prop}
    (haud : ∀ f, audience f ↔ f ∈ s ∧ f ∈ fed.federates) :
    let routed := routeTsoOrImmediate c fed s cb
    let o := Outcome.reply routed.1 resp routed.2
    o.ReachesExactly fed c audience fun f =>
      Xor (o.Emits fed f cb.body) (o.Queues fed f cb.body) := by
  intro routed o
  have hbodies : ∀ f, bodiesFor f o.callbacks =
      if f ∈ s ∧ (∃ fs, fed.federates.lookup f = some fs ∧ fs.holdsBack cb = none) then [cb.body]
      else [] := by
    intro f
    refine bodiesFor_route.trans (if_congr (and_iff_left_of_imp ?_) rfl rfl)
    rintro ⟨_, fs, hfs, _⟩
    exact (Federation.isSome_recipient hfs).mpr
      (hconn f (AList.mem_keys.mp (HashMap.mem_of_lookup hfs)) fs hfs)
  have hqueue : ∀ f, o.federation.queue f = (fed.federates.lookup f).map fun fs =>
      (fs.holdsBack cb).elim fs.tsoQueue fun msg =>
        if f ∈ s then fs.tsoQueue.insert msg else fs.tsoQueue :=
    fun f => queue_route (c := c)
  refine ⟨fanOut_addressed, fun f hf => ?_, fun f hnot => ?_⟩
  · obtain ⟨hs, hf⟩ := (haud f).mp hf
    obtain ⟨fs, hfs⟩ := HashMap.mem_iff_lookup.mp hf
    have hold : fed.queue f = some fs.tsoQueue := by rw [Federation.queue, hfs, Option.map_some]
    refine Outcome.xor_emits_queues ?_
    cases hb : fs.holdsBack cb with
    | none =>
      refine .inl ⟨?_, ?_⟩
      · rw [hbodies, if_pos ⟨hs, fs, hfs, hb⟩]
      · rw [hqueue, hfs, Option.map_some, hb, hold, Option.elim_none]
    | some msg =>
      refine .inr ⟨?_, fs.tsoQueue, msg, hold, (holdsBack_eq_some.mp hb).2.2, ?_⟩
      · rw [hbodies, if_neg]
        rintro ⟨_, fs', hfs', hb'⟩
        cases hfs.symm.trans hfs'
        exact absurd (hb.symm.trans hb') (Option.some_ne_none msg)
      · rw [hqueue, hfs, Option.map_some, hb, Option.elim_some, if_pos hs]
  · rw [haud] at hnot
    refine ⟨?_, ?_⟩
    · rw [hbodies, if_neg]
      rintro ⟨hs, fs, hfs, _⟩
      exact hnot ⟨hs, HashMap.mem_of_lookup hfs⟩
    · rw [hqueue]
      cases hfs : fed.federates.lookup f with
      | none => rw [Federation.queue, hfs]; rfl
      | some fs =>
        have hs : f ∉ s := fun hs => hnot ⟨hs, HashMap.mem_of_lookup hfs⟩
        rw [Federation.queue, hfs, Option.map_some, Option.map_some]
        cases fs.holdsBack cb with
        | none => rfl
        | some => rw [Option.elim_some, if_neg hs]

end Routing

/-! ## Interactions -/

/-- Whom an interaction of class `k` is for: the joined federates, the sender
apart, that are subscribed to the class or to an ancestor. -/
def Federation.InteractionAudience (fed : Federation) (sender : FederateHandle)
    (k : InteractionClassHandle) (f : FederateHandle) : Prop :=
  f ∈ fed.federates ∧ f ≠ sender ∧
    ∃ c, fed.fom.InteractionAncestor k c ∧ f ∈ fed.subscriptions.byInteraction.get c

section Interactions

variable {c : Caller} {fed : Federation}

theorem interactionAudience_iff {sender f : FederateHandle} {k : InteractionClassHandle} :
    fed.InteractionAudience sender k f ↔
      f ∈ fed.subscribersForInteraction k (some sender) ∧ f ∈ fed.federates := by
  rw [Federation.mem_subscribersForInteraction, Federation.InteractionAudience, ne_eq (some f),
    Option.some.injEq]
  tauto

theorem interactionArgs_eq_ok {cls : WireField} {params : WireValueMap}
    {args : InteractionClassHandle × HashMap ParameterHandle Bytes}
    (h : interactionArgs c fed cls params = .ok args) :
    definedInteractionClassArg fed cls = .ok args.1 ∧
      decodeParameterValueMap params = .ok args.2 ∧
      ∃ fs ∈ fed.federates.lookup c.federate, args.1 ∈ fs.pubSub.publishedInteractions := by
  obtain ⟨k, hk, h⟩ := bind_eq_ok.mp h
  obtain ⟨fs, hfs, h⟩ := bind_eq_ok.mp h
  obtain ⟨_, hpub, h⟩ := bind_eq_ok.mp h
  obtain ⟨ps, hps, h⟩ := bind_eq_ok.mp h
  cases h
  exact ⟨hk, hps, fs, getOr_eq_ok.mp hfs, require_eq_ok.mp hpub⟩

theorem sendInteraction_exact (hconn : fed.AllConnected c) {cls : WireField}
    {params : WireValueMap} {tag : Bytes} {o : Outcome}
    (ho : o = sendInteraction c fed cls params tag) (hacc : o.response.accepted = true) :
    ∃ k ps, definedInteractionClassArg fed cls = .ok k ∧ decodeParameterValueMap params = .ok ps ∧
      o.ReachesExactly fed c (fed.InteractionAudience c.federate k)
        fun f => o.Emits fed f (.receiveInteraction k ps tag c.federate) := by
  subst ho
  obtain ⟨args, hargs, ho⟩ := bind_eq_ok.mp (Outcome.ofExcept_accepted hacc)
  obtain ⟨hk, hps, _⟩ := interactionArgs_eq_ok hargs
  refine ⟨args.1, args.2, hk, hps, ?_⟩
  rw [show sendInteraction c fed cls params tag = _ from (Except.ok.inj ho).symm]
  refine ⟨fanOut_addressed, fun f haud => ?_, fun f hnot => ?_⟩
  · rw [interactionAudience_iff] at haud
    exact ⟨(bodiesFor_connected hconn).trans (if_pos haud), rfl⟩
  · rw [interactionAudience_iff] at hnot
    exact ⟨(bodiesFor_connected hconn).trans (if_neg hnot), rfl⟩

theorem sendInteractionWithTime_exact (hconn : fed.AllConnected c) {cls time : WireField}
    {params : WireValueMap} {tag : Bytes} {o : Outcome}
    (ho : o = sendInteractionWithTime c fed cls params tag time)
    (hacc : o.response.accepted = true) :
    ∃ k ps stamp, definedInteractionClassArg fed cls = .ok k ∧
      decodeParameterValueMap params = .ok ps ∧ decodeLogicalTime time "" = .ok stamp ∧
      o.ReachesExactly fed c (fed.InteractionAudience c.federate k) fun f =>
        Xor (o.Emits fed f (.receiveInteractionWithTime k ps tag c.federate stamp))
          (o.Queues fed f (.receiveInteractionWithTime k ps tag c.federate stamp)) := by
  subst ho
  obtain ⟨args, hargs, ho⟩ := bind_eq_ok.mp (Outcome.ofExcept_accepted hacc)
  obtain ⟨stamp, hstamp, ho⟩ := bind_eq_ok.mp ho
  obtain ⟨hk, hps, _⟩ := interactionArgs_eq_ok hargs
  refine ⟨args.1, args.2, stamp, hk, hps, hstamp, ?_⟩
  rw [show sendInteractionWithTime c fed cls params tag time = _ from (Except.ok.inj ho).symm]
  exact route_exact hconn fun f => interactionAudience_iff

/-- **Interactions reach their audience, each once.** -/
theorem interaction_exact (hconn : fed.AllConnected c) (withRegions : Bool) (cls : WireField)
    (params : WireValueMap) (tag : Bytes) :
    (∀ o, o = serve c fed (.object (.sendInteraction withRegions cls params tag)) →
      o.response.accepted = true →
      ∃ k ps, definedInteractionClassArg fed cls = .ok k ∧
        decodeParameterValueMap params = .ok ps ∧
        o.ReachesExactly fed c (fed.InteractionAudience c.federate k)
          fun f => o.Emits fed f (.receiveInteraction k ps tag c.federate)) ∧
    ∀ time o, o = serve c fed (.object (.sendInteractionWithTime withRegions cls params tag time)) →
      o.response.accepted = true →
      ∃ k ps stamp, definedInteractionClassArg fed cls = .ok k ∧
        decodeParameterValueMap params = .ok ps ∧ decodeLogicalTime time "" = .ok stamp ∧
        o.ReachesExactly fed c (fed.InteractionAudience c.federate k) fun f =>
          Xor (o.Emits fed f (.receiveInteractionWithTime k ps tag c.federate stamp))
            (o.Queues fed f (.receiveInteractionWithTime k ps tag c.federate stamp)) :=
  ⟨fun _ ho => sendInteraction_exact hconn ho, fun _ _ ho => sendInteractionWithTime_exact hconn ho⟩

/-- In the federation of federates 1 and 2, an interaction of time 3. -/
theorem interaction_exact_pair :
    let n := run Node.step Node.new pairCoordinated
    let c := n.caller ⟨0, ⟨1⟩, "federate-00000001"⟩ .plain
    let o := serve c (n.heap 0)
      (.object (.sendInteractionWithTime false (wire32 1) none [] wireThree))
    (n.heap 0).AllConnected c ∧ o.response.accepted = true ∧
    ∃ k ps stamp, definedInteractionClassArg (n.heap 0) (wire32 1) = .ok k ∧
      decodeParameterValueMap none = .ok ps ∧ decodeLogicalTime wireThree "" = .ok stamp ∧
      o.ReachesExactly (n.heap 0) c ((n.heap 0).InteractionAudience ⟨1⟩ k) fun f =>
        Xor (o.Emits (n.heap 0) f (.receiveInteractionWithTime k ps [] ⟨1⟩ stamp))
          (o.Queues (n.heap 0) f (.receiveInteractionWithTime k ps [] ⟨1⟩ stamp)) := by
  intro n c o
  have hconn : (n.heap 0).AllConnected c := by decide +kernel
  have hacc : o.response.accepted = true := by decide +kernel
  exact ⟨hconn, hacc, (interaction_exact hconn false (wire32 1) none []).2 wireThree o rfl hacc⟩

end Interactions

/-! ## Updates -/

/-- The committed bounds of two regions meet on every dimension both have. -/
def Region.Overlaps (rp rs : Region) : Prop :=
  ∀ d lp up ls us, rp.committed.lookup d = some (lp, up) → rs.committed.lookup d = some (ls, us) →
    lp ≤ us ∧ ls ≤ up

/-- The regions of a federate's subscription to attribute `a` at class `cls`
admit the regions an instance has for `a`. -/
def Federation.Admits (fed : Federation) (i : ObjectInstance) (fs : FederateSession)
    (cls : ObjectClassHandle) (a : AttributeHandle) : Prop :=
  (i.attributeRegions.get a).keys = [] ∨
    (fs.pubSub.subscribedAttrsRegions.get (cls, a)).keys = [] ∨
    ∃ p ∈ i.attributeRegions.get a, ∃ s ∈ fs.pubSub.subscribedAttrsRegions.get (cls, a),
      ∃ rp rs, fed.regions.lookup p = some rp ∧ fed.regions.lookup s = some rs ∧ rp.Overlaps rs

/-- A subscription `f` holds, to one of the attributes at the class of the
instance or at an ancestor. -/
def Federation.Holds (fed : Federation) (i : ObjectInstance) (attrs : List AttributeHandle)
    (f : FederateHandle) (cls : ObjectClassHandle) (a : AttributeHandle) : Prop :=
  a ∈ attrs ∧ cls ∈ fed.fom.inheritanceChain i.cls ∧ fed.subscriptions.Subscribes f cls a

/-- One of the subscriptions `f` holds admits the instance's regions. -/
def Federation.Entitled (fed : Federation) (i : ObjectInstance) (attrs : List AttributeHandle)
    (f : FederateHandle) (fs : FederateSession) : Prop :=
  ∃ cls a, fed.Holds i attrs f cls a ∧ fed.Admits i fs cls a

/-- An update of instance `h`, with attributes and values `vs`, that passes the
checks. -/
structure AcceptedUpdate (c : Caller) (fed : Federation) (inst : WireField) (values : WireValueMap)
    (h : ObjectInstanceHandle) (vs : HashMap AttributeHandle Bytes) (i : ObjectInstance) : Prop where
  inst : inst.bind decodeObjectInstance = some h
  values : decodeAttributeValueMap values = .ok vs
  owned : ownedInstance c fed h vs.keys = .ok i

/-- An accepted update is reflected to exactly the federates entitled to it,
among the connected federates other than the producer. -/
def UpdateExact (c : Caller) (fed : Federation) (inst : WireField) (values : WireValueMap)
    (tag : Bytes) : Prop :=
  ∀ h vs i, AcceptedUpdate c fed inst values h vs i →
    ∀ f fs, fed.federates.lookup f = some fs → f ≠ c.federate → fs.sessionId ∈ c.connections →
      (.reflectAttributeValues h vs tag c.federate ∈
          bodiesFor f (serve c fed (.object (.updateAttributeValues inst values tag))).callbacks ↔
        fed.Entitled i vs.keys f fs)

/-- Of every such federate that holds some subscription to the update: its
regions at the class of the instance admit some updated attribute, exactly if it
is entitled. -/
def RegionsSettle (c : Caller) (fed : Federation) (inst : WireField) (values : WireValueMap) : Prop :=
  ∀ h vs i, AcceptedUpdate c fed inst values h vs i →
    ∀ f fs, fed.federates.lookup f = some fs → f ≠ c.federate → fs.sessionId ∈ c.connections →
      (∃ cls a, fed.Holds i vs.keys f cls a) →
      ((∃ a ∈ vs.keys, fed.Admits i fs i.cls a) ↔ fed.Entitled i vs.keys f fs)

section Updates

variable {c : Caller} {fed : Federation} {f : FederateHandle} {fs : FederateSession}
  {i : ObjectInstance} {attrs : List AttributeHandle}

theorem overlaps_iff {rp rs : Region} : rp.overlaps rs = true ↔ rp.Overlaps rs := by
  rw [Region.overlaps, List.all_eq_true]
  constructor
  · intro h d lp up ls us hp hs
    have hd := h d (List.mem_filter.mpr ⟨AList.mem_keys.mp (HashMap.mem_of_lookup hp),
      decide_eq_true (HashMap.mem_of_lookup hs)⟩)
    simpa [hp, hs] using hd
  · intro h d _
    cases hp : rp.committed.lookup d with
    | none => rfl
    | some bp =>
      cases hs : rs.committed.lookup d with
      | none => rfl
      | some bs => simpa using h d bp.1 bp.2 bs.1 bs.2 hp hs

theorem regionsOverlapAny_eq_true {pub sub : HashSet RegionHandle} :
    regionsOverlapAny fed pub sub = true ↔ pub.keys = [] ∨ sub.keys = [] ∨
      ∃ p ∈ pub, ∃ s ∈ sub, ∃ rp rs, fed.regions.lookup p = some rp ∧
        fed.regions.lookup s = some rs ∧ rp.Overlaps rs := by
  rw [regionsOverlapAny, Bool.or_eq_true, Bool.or_eq_true, List.isEmpty_iff, List.isEmpty_iff,
    or_assoc]
  simp only [List.any_eq_true, ← AList.mem_keys]
  refine or_congr_right (or_congr_right ?_)
  refine exists_congr fun p => and_congr_right fun _ =>
    exists_congr fun s => and_congr_right fun _ => ?_
  cases fed.regions.lookup p with
  | none => simp
  | some =>
    cases fed.regions.lookup s with
    | none => simp
    | some => simp [overlaps_iff]

theorem regionsOverlapAny_iff {cls : ObjectClassHandle} {a : AttributeHandle} :
    regionsOverlapAny fed (i.attributeRegions.get a)
      (fs.pubSub.subscribedAttrsRegions.get (cls, a)) = true ↔ fed.Admits i fs cls a :=
  regionsOverlapAny_eq_true

/-- The subscribers of an update: the federates, its producer apart, that hold a
subscription. -/
theorem mem_subscribersForUpdate {producer : FederateHandle} :
    f ∈ fed.subscribersForAttributes i.cls attrs (some producer) ↔
      f ≠ producer ∧ ∃ cls a, fed.Holds i attrs f cls a := by
  rw [Federation.mem_subscribersForAttributes, ne_eq (some f), Option.some.injEq]
  refine and_congr_right fun _ => ?_
  constructor
  · rintro ⟨cls, hcls, a, ha, hsub⟩
    exact ⟨cls, a, ha, hcls, hsub⟩
  · rintro ⟨cls, a, ha, hcls, hsub⟩
    exact ⟨cls, hcls, a, ha, hsub⟩

/-- **What the code asks**: some subscription held, and regions that match at
the class of the instance, on any updated attribute. -/
theorem mem_updateRecipients {h : ObjectInstanceHandle} (hi : fed.objectInstances.lookup h = some i)
    (hfs : fed.federates.lookup f = some fs) :
    f ∈ updateRecipients c fed h i.cls attrs ↔
      (f ≠ c.federate ∧ ∃ cls a, fed.Holds i attrs f cls a) ∧
        ∃ a ∈ attrs, fed.Admits i fs i.cls a := by
  have hfilter : ∀ a, f ∈ filterSubscribersByRegions fed
      (fed.subscribersForAttributes i.cls attrs (some c.federate)) h i.cls a ↔
      (f ≠ c.federate ∧ ∃ cls a, fed.Holds i attrs f cls a) ∧ fed.Admits i fs i.cls a := by
    intro a
    rw [filterSubscribersByRegions, hi, ← mem_subscribersForUpdate]
    dsimp only
    split
    · next hempty =>
        have hadmits : fed.Admits i fs i.cls a := .inl (List.isEmpty_iff.mp hempty)
        exact (and_iff_left hadmits).symm
    · rw [HashSet.mem_filter, hfs]
      exact and_congr_right fun _ => regionsOverlapAny_iff
  rw [updateRecipients, HashSet.mem_ofList, List.mem_flatMap]
  simp only [← AList.mem_keys, hfilter]
  constructor
  · rintro ⟨a, ha, hsub, hadm⟩
    exact ⟨hsub, a, ha, hadm⟩
  · rintro ⟨hsub, a, ha, hadm⟩
    exact ⟨a, ha, hsub, hadm⟩

section Accepted

variable {inst : WireField} {values : WireValueMap} {tag : Bytes} {h : ObjectInstanceHandle}
  {vs : HashMap AttributeHandle Bytes} {i : ObjectInstance}

theorem updateAttributeValues_eq (hu : AcceptedUpdate c fed inst values h vs i) :
    updateAttributeValues c fed inst values tag =
      let matched := updateRecipients c fed h i.cls vs.keys
      let discovery := notifySubscribersOfRegistrationSubset c fed h i.cls c.federate matched
      .reply discovery.1 (.ack .updateAttributeValues)
        (discovery.2 ++ fanOut (discovery.1.liveConnections c matched)
          (.reflectAttributeValues h vs tag c.federate)) := by
  rw [updateAttributeValues, getOr_eq_ok.mpr hu.inst, hu.values]
  show Outcome.ofExcept fed (ownedInstance c fed h vs.keys >>= _) = _
  rw [hu.owned]
  rfl

theorem AcceptedUpdate.instance (hu : AcceptedUpdate c fed inst values h vs i) :
    fed.objectInstances.lookup h = some i := by
  obtain ⟨i', hi', ho⟩ := bind_eq_ok.mp hu.owned
  obtain ⟨_, _, ho⟩ := bind_eq_ok.mp ho
  cases ho
  exact getOr_eq_ok.mp hi'

theorem notMem_discoveries {cls : ObjectClassHandle} {producer : FederateHandle}
    {candidates : HashSet FederateHandle} {body : CallbackRequest}
    (hbody : ∀ name, CallbackRequest.discoverObjectInstance h cls name producer ≠ body) :
    body ∉ bodiesFor f
      (notifySubscribersOfRegistrationSubset c fed h cls producer candidates).2 := by
  intro hmem
  obtain ⟨cb, hcb, rfl⟩ := List.mem_map.mp hmem
  have hother : cb.body ≠ cb.body :=
    @forall_notifySubset c fed _ _ (· ≠ cb.body) _ _ hbody cb (List.mem_filter.mp hcb).1
  exact hother rfl

theorem mem_reflections (hu : AcceptedUpdate c fed inst values h vs i) {h' : ObjectInstanceHandle}
    {vs' : HashMap AttributeHandle Bytes} :
    .reflectAttributeValues h' vs' tag c.federate ∈
        bodiesFor f (updateAttributeValues c fed inst values tag).callbacks ↔
      (h' = h ∧ vs' = vs) ∧ f ∈ updateRecipients c fed h i.cls vs.keys ∧
        (fed.recipient c f).isSome = true := by
  rw [updateAttributeValues_eq hu]
  show _ ∈ bodiesFor f (_ ++ _) ↔ _
  rw [bodiesFor_append, List.mem_append,
    or_iff_right (notMem_discoveries fun _ => CallbackRequest.noConfusion),
    Federation.bodiesFor_live, touches_notifySubset.recipient_eq (by decide) (by decide)]
  split
  · next hin =>
      rw [List.mem_singleton, and_iff_left hin]
      simp
  · next hout => exact iff_of_false List.not_mem_nil fun hin => hout hin.2

theorem reflects_iff (hu : AcceptedUpdate c fed inst values h vs i)
    (hfs : fed.federates.lookup f = some fs) (hconn : fs.sessionId ∈ c.connections) :
    .reflectAttributeValues h vs tag c.federate ∈
        bodiesFor f (updateAttributeValues c fed inst values tag).callbacks ↔
      f ∈ updateRecipients c fed h i.cls vs.keys := by
  rw [mem_reflections hu, Federation.isSome_recipient hfs, and_iff_right ⟨rfl, rfl⟩,
    and_iff_left hconn]

end Accepted

/-- **When update routing is exact.** -/
theorem update_exact_iff (c : Caller) (fed : Federation) (inst : WireField) (values : WireValueMap)
    (tag : Bytes) : UpdateExact c fed inst values tag ↔ RegionsSettle c fed inst values := by
  refine forall_congr' fun h => forall_congr' fun vs => forall_congr' fun i =>
    forall_congr' fun hu => forall_congr' fun f => forall_congr' fun fs => forall_congr' fun hfs =>
    forall_congr' fun hne => forall_congr' fun hconn => ?_
  show (_ ∈ bodiesFor f (updateAttributeValues c fed inst values tag).callbacks ↔ _) ↔ _
  rw [reflects_iff hu hfs hconn, mem_updateRecipients hu.instance hfs, and_iff_right hne]
  -- whoever is entitled holds a subscription
  have hholds : fed.Entitled i vs.keys f fs → ∃ cls a, fed.Holds i vs.keys f cls a := by
    rintro ⟨cls, a, hheld, _⟩
    exact ⟨cls, a, hheld⟩
  constructor
  · intro hiff hheld
    exact (and_iff_right hheld).symm.trans hiff
  · intro hsettle
    constructor
    · rintro ⟨hheld, hadmits⟩
      exact (hsettle hheld).mp hadmits
    · intro hent
      exact ⟨hholds hent, (hsettle (hholds hent)).mpr hent⟩

end Updates

/-- Decision procedure for `Entitled`. -/
def Federation.entitledB (fed : Federation) (i : ObjectInstance) (attrs : List AttributeHandle)
    (f : FederateHandle) (fs : FederateSession) : Bool :=
  attrs.any fun a => (fed.fom.inheritanceChain i.cls).any fun cls =>
    decide (fed.subscriptions.Subscribes f cls a) &&
      regionsOverlapAny fed (i.attributeRegions.get a)
        (fs.pubSub.subscribedAttrsRegions.get (cls, a))

theorem entitledB_iff {fed : Federation} {i : ObjectInstance} {attrs : List AttributeHandle}
    {f : FederateHandle} {fs : FederateSession} :
    fed.entitledB i attrs f fs = true ↔ fed.Entitled i attrs f fs := by
  simp only [Federation.entitledB, List.any_eq_true, Bool.and_eq_true, decide_eq_true_eq,
    regionsOverlapAny_iff]
  constructor
  · rintro ⟨a, ha, cls, hcls, hsub, hadm⟩
    exact ⟨cls, a, ⟨ha, hcls, hsub⟩, hadm⟩
  · rintro ⟨cls, a, ⟨ha, hcls, hsub⟩, hadm⟩
    exact ⟨a, ha, cls, hcls, hsub, hadm⟩

/-- An object class with two attributes, and a class below it. -/
def treeModule : Omt.FomModule where
  objectClasses :=
    [⟨"O", none, [⟨"a", "", .timestampOrder, "", .noTransfer, .neither, .static, []⟩,
        ⟨"b", "", .timestampOrder, "", .noTransfer, .neither, .static, []⟩], none⟩,
      ⟨"P", some "O", [], none⟩]
  interactionClasses := []

/-- Federate 1 has a region of the range 0 to 1 and an instance of the lower
class with that region for the first attribute; federate 2 has a region of the
range 5 to 6. -/
def regionsApart : List NodeEvent :=
  [.opens, .call 0 { CallEnv.plain with parse := fun _ => .parsed treeModule }
      (.federation (.createFederationExecution .withModules "f" [.file "m" []])),
    .joins 0, .opens, .joins 1,
    .serves 0 (.declaration (.publishObjectClassAttributes (wire32 2)
      (some [[0, 0, 0, 1], [0, 0, 0, 2]]))),
    .serves 0 (.region (.createRegion (some [[0, 0, 0, 1]]))),
    .serves 0 (.region (.setRangeBounds (wire64 1) (wire32 1) (some (0, 1)))),
    .serves 0 (.region (.commitRegionModifications (some [[0, 0, 0, 0, 0, 0, 0, 1]]))),
    .serves 1 (.region (.createRegion (some [[0, 0, 0, 1]]))),
    .serves 1 (.region (.setRangeBounds (wire64 2) (wire32 1) (some (5, 6)))),
    .serves 1 (.region (.commitRegionModifications (some [[0, 0, 0, 0, 0, 0, 0, 2]]))),
    .serves 0 (.object (.registerObjectInstanceWithRegions (wire32 2)
      (some [⟨some [[0, 0, 0, 1]], some [[0, 0, 0, 0, 0, 0, 0, 1]]⟩])))]

/-- Federate 2 subscribes to the first attribute with its region. -/
def subscribesApart (cls : WireField) : NodeEvent :=
  .serves 1 (.region (.subscribeObjectClassAttributesWithRegions cls
    (some [⟨some [[0, 0, 0, 1]], some [[0, 0, 0, 0, 0, 0, 0, 2]]⟩])))

/-- An update is routed exactly. -/
def FedAction.RoutesUpdate (fed : Federation) : FedAction → Prop
  | serve c (.object (.updateAttributeValues inst values tag)) =>
    UpdateExact c fed inst values tag
  | _ => True

/-- Updates of the instance by federate 1, after federate 2 has subscribed with
its region: to the first attribute at the class of the instance, and both
attributes are updated; to the first attribute at the upper class; to the first
attribute at the class of the instance, and without a region at the upper
class. -/
def unevenUpdates : List (List NodeEvent × WireValueMap) :=
  [(regionsApart ++ [subscribesApart (wire32 2)], some [(wire32 1, []), (wire32 2, [])]),
    (regionsApart ++ [subscribesApart (wire32 1)], some [(wire32 1, [])]),
    (regionsApart ++ [subscribesApart (wire32 2),
      .serves 1 (.declaration (.subscribeObjectClassAttributes .plain (wire32 1)
        (some [[0, 0, 0, 1]])))], some [(wire32 1, [])])]

/-- **Uneven routing.**  In the first two cases federate 2 gets an update its
regions exclude, in the third it does not get one it is entitled to. -/
theorem Node.unevenUpdates_fail :
    unevenUpdates.Forall fun u =>
      ¬ (run Node.step Node.new u.1).Meets (fun fed a => a.RoutesUpdate fed)
        (.serves 0 (.object (.updateAttributeValues (wire64 1) u.2 []))) := by
  have huneven : ∀ u ∈ unevenUpdates,
      ∃ m ∈ ((run Node.step Node.new u.1).sessions.lookup 0).bind Session.membership,
      ∃ vs ∈ (decodeAttributeValueMap u.2).toOption,
      ∃ i ∈ (ownedInstance ((run Node.step Node.new u.1).caller m .plain)
        ((run Node.step Node.new u.1).heap m.federation) ⟨1⟩ vs.keys).toOption,
      ∃ fs ∈ ((run Node.step Node.new u.1).heap m.federation).federates.lookup ⟨2⟩,
        ⟨2⟩ ≠ m.federateHandle ∧ fs.sessionId ∈ (run Node.step Node.new u.1).connections ∧
        (⟨2⟩ ∈ updateRecipients ((run Node.step Node.new u.1).caller m .plain)
            ((run Node.step Node.new u.1).heap m.federation) ⟨1⟩ i.cls vs.keys ↔
          ¬ ((run Node.step Node.new u.1).heap m.federation).entitledB i vs.keys ⟨2⟩ fs = true) := by
    decide +kernel
  rw [List.forall_iff_forall_mem]
  intro u hu hmeets
  obtain ⟨m, hm, vs, hvs, i, hi, fs, hfs, hne, hconn, hodd⟩ := huneven u hu
  have hacc : AcceptedUpdate ((run Node.step Node.new u.1).caller m .plain)
      ((run Node.step Node.new u.1).heap m.federation) (wire64 1) u.2 ⟨1⟩ vs i :=
    ⟨by decide, toOption_eq_some.mp hvs, toOption_eq_some.mp hi⟩
  have hexact : UpdateExact _ _ (wire64 1) u.2 [] :=
    hmeets _ (Node.action_of_membership hm .plain _)
  have hiff := (reflects_iff hacc hfs hconn).symm.trans
    (hexact ⟨1⟩ vs i hacc ⟨2⟩ fs hfs hne hconn)
  rw [← entitledB_iff, hodd] at hiff
  exact iff_not_self hiff.symm

end Hla4
