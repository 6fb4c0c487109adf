/-
# `Hla4.Rti.Safety.HandOver` — nothing is taken without its callback

Three things in a federate's record are used up by the server and told of once:

    pendingAdvance        cleared by a grant         TimeAdvanceGrant
    tsoQueue              drained up to a grant      the queued callbacks
    discoveredInstances   marked at a discovery      DiscoverObjectInstance

The record is changed whether or not the federate has a connection, and the
callbacks go to connections only.  From whom a call takes something is known
beforehand (`ServiceRequest.Takes`): from those a time request lets go, and from
those to whom an instance is announced that they have not discovered.  The call
hands over what it takes exactly if it finds them connected
(`Node.taken_is_handed_over`); a suspended federate loses all three
(`suspended_loses`).

`Hands` says what a piece of a service does to queues, and where its callbacks
go; pieces compose (`Hands.trans`).
-/
import Hla4.Rti.Safety.Delivery
import Hla4.Rti.Safety.Discovery
import Hla4.Rti.Safety.Identity
import Hla4.Rti.Safety.Requests

namespace Hla4

open Lib

variable {c : Caller} {fed fed' fed'' : Federation} {h : FederateHandle}
  {inst : ObjectInstanceHandle} {taken : FederateHandle → Prop}

/-! ## Pieces of a service -/

/-- The callback is for a joined federate and goes to its connection. -/
def OutboundCallback.Addressed (c : Caller) (fed : Federation) (cb : OutboundCallback) : Prop :=
  ∃ f fs, cb.federate = some f ∧ fed.federates.lookup f = some fs ∧
    c.connections.lookup fs.sessionId = some cb.target

theorem OutboundCallback.Addressed.of_touches {ps : List Part} {cb : OutboundCallback}
    (ht : fed.Touches ps fed') (hi : Part.federate .identity ∉ ps) (h : cb.Addressed c fed') :
    cb.Addressed c fed := by
  obtain ⟨f, fs', hf, hfs', htarget⟩ := h
  have hid := ht.federate hi f
  rw [hfs', Option.map_some, eq_comm, Option.map_eq_some_iff] at hid
  obtain ⟨fs, hfs, hid⟩ := hid
  have hsid : fs.sessionId = fs'.sessionId := congrArg (fun i => i.2.2.2) hid
  exact ⟨f, fs, hf, hfs, hsid ▸ htarget⟩

/-- From `fed` to `fed'`, with `callbacks`: these are addressed; only the queues of
federates in `taken` lose messages; and what has left the queue of a connected
federate is among the callbacks, in order. -/
structure Hands (taken : FederateHandle → Prop) (c : Caller) (fed : Federation)
    (callbacks : List OutboundCallback) (fed' : Federation) : Prop where
  touches : fed.Touches serviceParts fed'
  addressed : ∀ cb ∈ callbacks, cb.Addressed c fed
  queue : ∀ h q, (taken h → (fed.recipient c h).isSome = true) → fed.queue h = some q →
    ∃ q' gone, fed'.queue h = some q' ∧
      (gone.map TsoMessage.callback).Sublist (bodiesFor h callbacks) ∧
      q.messages.Sublist (gone ++ q'.messages)

namespace Hands

variable {callbacks callbacks' : List OutboundCallback}

theorem trans (ha : Hands taken c fed callbacks fed') (hb : Hands taken c fed' callbacks' fed'') :
    Hands taken c fed (callbacks ++ callbacks') fed'' where
  touches := ha.touches.trans hb.touches
  addressed := by
    intro cb hcb
    rcases List.mem_append.mp hcb with hcb | hcb
    · exact ha.addressed cb hcb
    · exact (hb.addressed cb hcb).of_touches ha.touches (by decide)
  queue := by
    intro h q hconn hq
    obtain ⟨q', gone, hq', htold, hleft⟩ := ha.queue h q hconn hq
    obtain ⟨q'', gone', hq'', htold', hleft'⟩ :=
      hb.queue h q' (fun ht => (ha.touches.isSome_recipient (by decide) h).trans (hconn ht)) hq'
    refine ⟨q'', gone ++ gone', hq'', ?_, ?_⟩
    · rw [List.map_append, bodiesFor_append]
      exact htold.append htold'
    · rw [List.append_assoc]
      exact hleft.trans (hleft'.append_left gone)

theorem before (ha : Hands taken c fed [] fed') (hb : Hands taken c fed' callbacks fed'') :
    Hands taken c fed callbacks fed'' := ha.trans hb

theorem after (ha : Hands taken c fed callbacks fed') (hb : Hands taken c fed' [] fed'') :
    Hands taken c fed callbacks fed'' := by
  have h := ha.trans hb
  rwa [List.append_nil] at h

theorem of_touches {ps : List Part} (ht : fed.Touches ps fed') (hps : ps ⊆ serviceParts)
    (hq : Part.federate .queue ∉ ps) (hcb : ∀ cb ∈ callbacks, cb.Addressed c fed) :
    Hands taken c fed callbacks fed' where
  touches := ht.mono hps
  addressed := hcb
  queue := by
    intro h q _ hqueue
    exact ⟨q, [], (congrFun (ht.queue hq) h).trans hqueue, List.nil_sublist _, List.Sublist.refl _⟩

theorem refl : Hands taken c fed [] fed :=
  of_touches (show fed.Touches [] fed from .refl) (List.nil_subset _) List.not_mem_nil
    (List.forall_mem_nil _)

/-- A change outside the queues, then a body to a set of federates. -/
theorem tell {ps : List Part} (ht : fed.Touches ps fed') (hps : ps ⊆ serviceParts)
    (hq : Part.federate .queue ∉ ps) {s : HashSet FederateHandle} {body : CallbackRequest} :
    Hands taken c fed (fanOut (fed'.liveConnections c s) body) fed' :=
  of_touches ht hps hq fun cb hcb =>
    OutboundCallback.Addressed.of_touches ht (fun hi => absurd (hps hi) (by decide))
      (fanOut_addressed cb hcb)

theorem silent {ps : List Part} (ht : fed.Touches ps fed') (hps : ps ⊆ serviceParts)
    (hq : Part.federate .queue ∉ ps) : Hands taken c fed [] fed' :=
  of_touches ht hps hq (List.forall_mem_nil _)

end Hands

/-! ## Time services -/

theorem hands_drain {k : FederateHandle} (htaken : taken k) (t : ℚ) :
    Hands taken c fed (drainTsoUpTo c fed k t).2 (drainTsoUpTo c fed k t).1 where
  touches := touches_drain.mono (by decide)
  addressed := by
    intro cb hcb
    rw [drainTsoUpTo_callbacks] at hcb
    cases hfs : fed.federates.lookup k with
    | none =>
      rw [hfs] at hcb
      cases hcb
    | some =>
      rw [hfs] at hcb
      obtain ⟨m, _, hcb⟩ := List.mem_flatMap.mp hcb
      rw [← Federation.ownConnection_eq] at hcb
      exact fanOut_addressed cb hcb
  queue := by
    intro h q hconn hq
    rw [queue_drain]
    by_cases hk : h = k
    · subst hk
      obtain ⟨r, hr⟩ := Option.isSome_iff_exists.mp (hconn htaken)
      rw [if_pos rfl, hq, bodiesFor_drain hq hr]
      refine ⟨q.drain t, q.upTo t, rfl, List.Sublist.refl _, ?_⟩
      rw [SortedQueue.drain, q.upTo_append_after]
    · rw [if_neg hk]
      exact ⟨q, [], hq, List.nil_sublist _, List.Sublist.refl _⟩

theorem hands_drainAll {l : List (FederateHandle × ℚ)} (htaken : ∀ e ∈ l, taken e.1) :
    Hands taken c fed (drainAll c fed l).2 (drainAll c fed l).1 := by
  induction l generalizing fed with
  | nil => exact .refl
  | cons e l ih =>
    rw [List.forall_mem_cons] at htaken
    exact (hands_drain htaken.1 e.2).trans (ih htaken.2)

theorem hands_grantRound : Hands taken c fed (fed.grantRound c).callbacks (fed.grantRound c).federation := by
  have hround : fed.Touches _ (fed.applyGrants (fed.toGrant c.env.federates)).1 :=
    Federation.touches_applyGrants _
  refine .of_touches hround (by decide) (by decide) ?_
  intro cb hcb
  obtain ⟨g, _, hcb⟩ := List.mem_flatMap.mp hcb
  exact .of_touches hround (by decide) (fanOut_addressed cb hcb)

theorem hands_grantRounds (fuel : Nat) :
    Hands taken c fed (Federation.grantRounds c fuel fed).callbacks
      (Federation.grantRounds c fuel fed).federation := by
  induction fuel generalizing fed with
  | zero => exact .refl
  | succ fuel ih =>
    rw [Federation.grantRounds]
    split
    · exact .refl
    · split
      · exact hands_grantRound.trans ih
      · exact hands_grantRound

theorem hands_grantsWithTso (htaken : ∀ h t, fed.net.Grantable h t → taken h) :
    Hands taken c fed (tryGrantPendingAdvancesWithTso c fed).callbacks
      (tryGrantPendingAdvancesWithTso c fed).federation :=
  (hands_drainAll fun e he => htaken e.1 e.2 (mem_aboutToBeGranted.mp he)).trans
    (hands_grantRounds _)

theorem hands_grantAtOnce {t : ℚ} (hown : taken c.federate)
    (htaken : ∀ h u, (fed.net.grant c.federate t).Grantable h u → taken h) :
    Hands taken c fed (grantAtOnce c fed t).callbacks (grantAtOnce c fed t).federation := by
  have hgrant : Hands taken c fed [] (fed.grant c.federate t) :=
    .silent (Federation.touches_grant _ _) (by decide) (by decide)
  have htell : ∀ fed₁ : Federation,
      Hands taken c fed₁ (fanOut (fed₁.ownConnection c c.federate) (.timeAdvanceGrant t)) fed₁ :=
    fun fed₁ => .tell (show fed₁.Touches [] fed₁ from .refl) (List.nil_subset _) List.not_mem_nil
  refine ((hgrant.before (hands_drain hown t)).trans (htell _)).trans (hands_grantsWithTso ?_)
  rw [touches_drain.net (by decide), Federation.net_grant]
  exact htaken

theorem serveTime_hands (r : TimeRequest) :
    Hands (r.Grants c fed) c fed (serveTime c fed r).callbacks (serveTime c fed r).federation := by
  have hsec : ∀ {s : TimeSection}, timeSection c fed r = .ok s →
      Hands (r.Grants c fed) c fed [] s.federation :=
    fun hs => .silent (touches_section hs) (by decide) (by decide)
  have hown : ∀ {s : TimeSection} {own : List OutboundCallback}, timeSection c fed r = .ok s →
      RoleNotice c s.federation own → Hands (r.Grants c fed) c fed own s.federation := by
    intro s own hs hown
    cases hown with
    | nothing => exact hsec hs
    | regulates | constrains => exact .tell (touches_section hs) (by decide) (by decide)
  have heff := @serveTime_effect c fed r
  generalize serveTime c fed r = o at heff ⊢
  cases heff with
  | rejects => exact .refl
  | changes _ hs hn => exact hown hs hn
  | passes _ hs hn => exact (hown hs hn).trans (hands_grantRounds _)
  | @advances s t _ _ hk hs ha =>
    refine (hsec hs).before ?_
    obtain ⟨_, ht, hch⟩ := advanceSection_ok ha
    have hcaller : s.federation.net c.federate = some (s.caller.time.request ⟨t, ht⟩) := by
      rw [hch.federation, net_setTime hch.caller, if_pos rfl]
    have hgrants : ∀ {k}, k ∈ s.federation.net.leastGranted → r.Grants c fed k := by
      intro k hk'
      obtain ⟨p, hp, hch'⟩ := timeSection_eq_ok.mp hs
      exact ⟨hk ▸ TimeKind.noConfusion, s.caller, hch.caller, p, hp, hch'.federation ▸ hk'⟩
    rw [advancePass]
    split
    · next hfree =>
        have hfirst : s.federation.net.Grantable c.federate t := ⟨_, hcaller, rfl, .inl hfree⟩
        exact hands_grantAtOnce (hgrants hfirst.mem_leastGranted)
          fun k u hg => hgrants (hfirst.mem_leastGranted_after hg)
    · exact hands_grantsWithTso fun k u hg => hgrants hg.mem_leastGranted

/-! ## Object services -/

/-- A routed message is added to queues, and nothing is taken. -/
theorem hands_route {s : HashSet FederateHandle} {cb : TimedCallback} :
    Hands taken c fed (routeTsoOrImmediate c fed s cb).2 (routeTsoOrImmediate c fed s cb).1 where
  touches := touches_route.mono (by decide)
  addressed := fanOut_addressed
  queue := by
    intro h q _ hq
    obtain ⟨fs, hfs, rfl⟩ := Option.map_eq_some_iff.mp hq
    rw [Federation.queue, lookup_route, hfs]
    simp only [Option.map_some, Option.some.injEq]
    refine ⟨_, [], rfl, List.nil_sublist _, ?_⟩
    cases fs.holdsBack cb with
    | none => exact List.Sublist.refl _
    | some msg =>
      dsimp only
      split
      · conv_lhs => rw [← fs.tsoQueue.upTo_append_after msg.time]
        exact (List.sublist_cons_self _ _).append_left _
      · exact List.Sublist.refl _

theorem hands_discovery {candidates : HashSet FederateHandle} {cls : ObjectClassHandle}
    {name : String} {producer : FederateHandle} :
    Hands taken c fed (notifyDiscovery c fed candidates inst cls name producer).2
      (notifyDiscovery c fed candidates inst cls name producer).1 :=
  .tell touches_discover (by decide) (by decide)

theorem hands_discoverySubset {candidates : HashSet FederateHandle} {cls : ObjectClassHandle}
    {producer : FederateHandle} :
    Hands taken c fed (notifySubscribersOfRegistrationSubset c fed inst cls producer candidates).2
      (notifySubscribersOfRegistrationSubset c fed inst cls producer candidates).1 := by
  rw [notifySubscribersOfRegistrationSubset]
  split
  · exact .refl
  · exact hands_discovery

theorem registerObjectInstance_hands {cls : WireField} {name : Option String} {form : RegisterForm} :
    Hands taken c fed ((registerObjectInstance c fed cls name).outcome form).callbacks
      ((registerObjectInstance c fed cls name).outcome form).federation := by
  have hdrawn : Hands taken c fed [] { fed with nextObjectId := fed.nextObjectId + 1 } :=
    .silent Federation.touches_counters (by decide) (by decide)
  rw [registerObjectInstance]
  split
  · exact .refl
  · dsimp only
    split
    · exact hdrawn
    · refine (hdrawn.before ?_).before hands_discovery
      exact .silent Federation.touches_instances (by decide) (by decide)

theorem registerObjectInstanceWithRegions_hands {cls : WireField} {name : Option String}
    {pairs : WireRegionPairs} {form : RegisterForm} :
    Hands taken c fed
      ((registerObjectInstanceWithRegions c fed cls name pairs).outcome form).callbacks
      ((registerObjectInstanceWithRegions c fed cls name pairs).outcome form).federation := by
  have hplain := @registerObjectInstance_hands c fed taken cls name form
  cases hr : (registerObjectInstance c fed cls name).result with
  | error =>
    simp only [registerObjectInstanceWithRegions, hr, Registration.outcome] at hplain ⊢
    exact hplain
  | ok =>
    simp only [registerObjectInstanceWithRegions, hr, Registration.outcome] at hplain ⊢
    exact hplain.after (.silent Federation.touches_instances (by decide) (by decide))

theorem serveObject_hands (r : ObjectRequest) :
    Hands (fun _ => False) c fed (serveObject c fed r).callbacks
      (serveObject c fed r).federation := by
  have checked : ∀ {x : Except ExceptionData Outcome},
      Yields x (fun o => Hands (fun _ => False) c fed o.callbacks o.federation) →
      Hands (fun _ => False) c fed (Outcome.ofExcept fed x).callbacks
        (Outcome.ofExcept fed x).federation :=
    fun hx => Outcome.ofExcept_of (Q := fun o => Hands _ c fed o.callbacks o.federation)
      (fun _ => .refl) hx
  cases r with
  | registerObjectInstance | registerObjectInstanceWithName => exact registerObjectInstance_hands
  | registerObjectInstanceWithRegions | registerObjectInstanceWithNameAndRegions =>
    exact registerObjectInstanceWithRegions_hands
  | updateAttributeValues =>
    exact checked (.bind fun _ _ => .bind fun _ _ => .bind fun _ _ => .pure
      (hands_discoverySubset.trans (.tell (show Federation.Touches [] _ _ from .refl)
        (List.nil_subset _) List.not_mem_nil)))
  | updateAttributeValuesWithTime =>
    exact checked (.bind fun _ _ => .bind fun _ _ => .bind fun _ _ => .bind fun _ _ =>
      .bind fun _ _ => .pure (hands_discoverySubset.trans hands_route))
  | sendInteraction =>
    exact checked (.bind fun _ _ => .pure
      (.tell (show Federation.Touches [] _ _ from .refl) (List.nil_subset _) List.not_mem_nil))
  | sendInteractionWithTime =>
    exact checked (.bind fun _ _ => .bind fun _ _ => .pure hands_route)
  | deleteObjectInstance =>
    exact checked (.bind fun _ _ => .bind fun _ _ => .pure
      (.tell touches_removeInstance (by decide) (by decide)))
  | deleteObjectInstanceWithTime =>
    refine checked (.bind fun i _ => .bind fun _ _ => .bind fun _ _ => .pure ?_)
    have hremoved : Hands (fun _ => False) c fed [] (fed.removeInstance i c.federate) :=
      .silent touches_removeInstance (by decide) (by decide)
    exact hremoved.before hands_route
  | localDeleteObjectInstance =>
    refine checked (.bind fun _ _ => .pure (.silent (touches_modifyPubSub [.discovered] ?_)
      (by decide) (by decide)))
    intro fs q hq
    cases q <;> first | rfl | exact absurd (List.mem_singleton_self _) hq

/-! ## Who is marked -/

/-- Whom a registration is announced to: the subscribers of the class and of its
ancestors, without the producer. -/
def Federation.classAudience (fed : Federation) (cls : ObjectClassHandle)
    (producer : FederateHandle) : HashSet FederateHandle :=
  HashSet.ofList <| (fed.fom.inheritanceChain cls).flatMap fun ancestor =>
    (fed.subscriptions.subscribersOfClass ancestor).filter fun f => f ≠ producer

/-- The request passes its checks in this state and announces instance `k` to the
federates `s`. -/
inductive Announces (c : Caller) (fed : Federation) :
    ServiceRequest → ObjectInstanceHandle → HashSet FederateHandle → Prop
  | registers {req : ServiceRequest} {asked : WireField × Option String} {id : InstanceIdentity} :
      req.registration? = some asked → registering c fed asked.1 asked.2 = some id →
      Announces c fed req fed.nextInstance (fed.classAudience id.cls c.federate)
  | updates {inst : WireField} {values : WireValueMap} {tag : Bytes} {k : ObjectInstanceHandle}
      {vs : HashMap AttributeHandle Bytes} {i : ObjectInstance} :
      AcceptedUpdate c fed inst values k vs i →
      Announces c fed (.object (.updateAttributeValues inst values tag)) k
        (updateRecipients c fed k i.cls vs.keys)
  | updatesAt {inst time : WireField} {values : WireValueMap} {tag : Bytes}
      {k : ObjectInstanceHandle} {vs : HashMap AttributeHandle Bytes} {i : ObjectInstance}
      {stamp : F64} :
      AcceptedUpdate c fed inst values k vs i → decodeLogicalTime time "" = .ok stamp →
      checkPromise c fed stamp = .ok () →
      Announces c fed (.object (.updateAttributeValuesWithTime inst values tag time)) k
        (fed.subscribersForAttributes i.cls vs.keys (some c.federate))

section Marked

variable {fs fs' : FederateSession} {k : ObjectInstanceHandle} {s : HashSet FederateHandle}

theorem mem_discover (hfs : fed.federates.lookup h = some fs)
    (hfs' : (fed.discover s k).federates.lookup h = some fs') :
    inst ∈ fs'.pubSub.discoveredInstances ↔
      inst ∈ fs.pubSub.discoveredInstances ∨ (inst = k ∧ h ∈ s) := by
  rw [lookup_discover, hfs, Option.map_some, Option.some.injEq] at hfs'
  subst hfs'
  split
  · next hin => simp [FederateSession.mark, HashSet.mem_insert, hin, or_comm]
  · next hout => simp [hout]

theorem mem_register {cls : WireField} {name : Option String}
    (hfs : fed.federates.lookup h = some fs)
    (hfs' : (registerObjectInstance c fed cls name).federation.federates.lookup h = some fs') :
    inst ∈ fs'.pubSub.discoveredInstances ↔ inst ∈ fs.pubSub.discoveredInstances ∨
      ∃ id, registering c fed cls name = some id ∧ inst = fed.nextInstance ∧
        h ∈ fed.classAudience id.cls c.federate := by
  rw [registerObjectInstance] at hfs'
  rw [registering]
  cases hargs : registrationArgs c fed cls with
  | error =>
    rw [hargs] at hfs'
    cases hfs.symm.trans hfs'
    simp [Except.toOption]
  | ok =>
    rw [hargs] at hfs'
    dsimp only [Except.toOption, Option.bind_some, Federation.generatedInstanceName] at hfs' ⊢
    split_ifs at hfs' ⊢ with huse
    · cases hfs.symm.trans hfs'
      simp
    · simp only [Option.some.injEq, exists_eq_left']
      exact mem_discover hfs hfs'

theorem mem_update (hinst : k ∈ fed.objectInstances) {cls : ObjectClassHandle}
    {producer : FederateHandle} (hfs : fed.federates.lookup h = some fs)
    (hfs' : (notifySubscribersOfRegistrationSubset c fed k cls producer s).1.federates.lookup h =
      some fs') :
    inst ∈ fs'.pubSub.discoveredInstances ↔
      inst ∈ fs.pubSub.discoveredInstances ∨ (inst = k ∧ h ∈ s) := by
  obtain ⟨i, hi⟩ := HashMap.mem_iff_lookup.mp hinst
  rw [notifySubscribersOfRegistrationSubset, hi] at hfs'
  exact mem_discover hfs hfs'

/-- A registration in any of its forms leaves the federates as the plain one does. -/
theorem serve_registration {req : ServiceRequest} {asked : WireField × Option String}
    (hreq : req.registration? = some asked) :
    (serve c fed req).federation.federates =
      (registerObjectInstance c fed asked.1 asked.2).federation.federates := by
  have hform : ∀ (r : Registration) form, (r.outcome form).federation = r.federation := by
    intro r form
    rw [Registration.outcome]
    split <;> rfl
  have hregions : ∀ cls name pairs,
      (registerObjectInstanceWithRegions c fed cls name pairs).federation.federates =
        (registerObjectInstance c fed cls name).federation.federates := by
    intro cls name pairs
    rw [registerObjectInstanceWithRegions]
    split <;> rfl
  cases req with
  | object r =>
    cases r <;> cases hreq <;> rw [serve, serveObject, hform]
    · exact hregions ..
    · exact hregions ..
  | _ => cases hreq

theorem discovered_of_route {cb : TimedCallback}
    (hfs' : (routeTsoOrImmediate c fed s cb).1.federates.lookup h = some fs') :
    ∃ fs, fed.federates.lookup h = some fs ∧
      fs.pubSub.discoveredInstances = fs'.pubSub.discoveredInstances :=
  touches_route.record_before (p := .discovered) (by decide) hfs'

theorem updateAttributeValuesWithTime_federation {inst' time : WireField} {values : WireValueMap}
    {tag : Bytes} {vs : HashMap AttributeHandle Bytes} {i : ObjectInstance} {stamp : F64}
    (hu : AcceptedUpdate c fed inst' values k vs i) (hstamp : decodeLogicalTime time "" = .ok stamp)
    (hprom : checkPromise c fed stamp = .ok ()) :
    ∃ cb, (updateAttributeValuesWithTime c fed inst' values tag time).federation =
      let subscribers := fed.subscribersForAttributes i.cls vs.keys (some c.federate)
      (routeTsoOrImmediate c (notifySubscribersOfRegistrationSubset c fed k i.cls c.federate
        subscribers).1 subscribers cb).1 := by
  refine ⟨⟨stamp, .reflectAttributeValuesWithTime k vs tag c.federate stamp, rfl⟩, ?_⟩
  rw [updateAttributeValuesWithTime, getOr_eq_ok.mpr hu.inst, hu.values, hstamp]
  show (Outcome.ofExcept fed (ownedInstance c fed k vs.keys >>= _)).federation = _
  rw [hu.owned]
  rw [hprom]
  rfl

/-- Whoever an instance is announced to has it marked. -/
theorem Announces.marks {req : ServiceRequest} (ha : Announces c fed req k s) (hin : h ∈ s)
    (hfs : fed.federates.lookup h = some fs)
    (hfs' : (serve c fed req).federation.federates.lookup h = some fs') :
    k ∈ fs'.pubSub.discoveredInstances := by
  cases ha with
  | registers hreq hid =>
    rw [serve_registration hreq] at hfs'
    exact (mem_register hfs hfs').mpr (.inr ⟨_, hid, rfl, hin⟩)
  | updates hu =>
    rw [serve, serveObject, updateAttributeValues_eq hu] at hfs'
    exact (mem_update (HashMap.mem_of_lookup hu.instance) hfs hfs').mpr (.inr ⟨rfl, hin⟩)
  | updatesAt hu hstamp hprom =>
    obtain ⟨cb, hfed⟩ := updateAttributeValuesWithTime_federation hu hstamp hprom
    rw [serve, serveObject, hfed] at hfs'
    obtain ⟨fs₁, hfs₁, hdisc⟩ := discovered_of_route (c := c) hfs'
    rw [← hdisc]
    exact (mem_update (HashMap.mem_of_lookup hu.instance) hfs hfs₁).mpr (.inr ⟨rfl, hin⟩)

variable (hfs : fed.federates.lookup h = some fs)

include hfs

theorem mem_of_removeInstance {deleter : FederateHandle}
    (hfs' : (fed.removeInstance k deleter).federates.lookup h = some fs')
    (hin : inst ∈ fs'.pubSub.discoveredInstances) : inst ∈ fs.pubSub.discoveredInstances := by
  rw [lookup_removeInstance, hfs, Option.map_some, Option.some.injEq] at hfs'
  subst hfs'
  rw [FederateSession.bereft] at hin
  split at hin
  · exact hin
  · exact (AList.mem_erase.mp hin).2

theorem mem_of_localDelete {asker : FederateHandle}
    (hfs' : (fed.modifyPubSub asker fun ps => { ps with
      discoveredInstances := ps.discoveredInstances.erase k }).federates.lookup h = some fs')
    (hin : inst ∈ fs'.pubSub.discoveredInstances) : inst ∈ fs.pubSub.discoveredInstances := by
  rw [Federation.modifyPubSub, Federation.modifyFederate, HashMap.lookup_modify] at hfs'
  split at hfs'
  · next hh =>
      subst hh
      cases hfs ▸ hfs'
      exact (AList.mem_erase.mp hin).2
  · cases hfs.symm.trans hfs'
    exact hin

theorem announces_of_marked {req : ServiceRequest}
    (hfs' : (serve c fed req).federation.federates.lookup h = some fs')
    (hin : inst ∈ fs'.pubSub.discoveredInstances) (hnot : inst ∉ fs.pubSub.discoveredInstances) :
    ∃ s, Announces c fed req inst s ∧ h ∈ s := by
  have registered : ∀ {asked}, req.registration? = some asked →
      ∃ s, Announces c fed req inst s ∧ h ∈ s := by
    intro asked hreq
    rw [serve_registration hreq] at hfs'
    obtain ⟨id, hid, rfl, haud⟩ := ((mem_register hfs hfs').mp hin).resolve_left hnot
    exact ⟨_, .registers hreq hid, haud⟩
  have kept : ∀ {ps}, fed.Touches ps (serve c fed req).federation →
      Part.federate .discovered ∉ ps → ∃ s, Announces c fed req inst s ∧ h ∈ s := by
    intro ps ht hps
    have hsame : fs'.pubSub.discoveredInstances = fs.pubSub.discoveredInstances :=
      ht.get_eq hps hfs hfs'
    exact absurd (hsame ▸ hin) hnot
  have checked : ∀ {x : Except ExceptionData Outcome},
      (Outcome.ofExcept fed x).federation.federates.lookup h = some fs' →
      Yields x (fun o => o.federation.federates.lookup h = some fs' →
        ∃ s, Announces c fed req inst s ∧ h ∈ s) → ∃ s, Announces c fed req inst s ∧ h ∈ s := by
    intro x hlook hx
    cases x with
    | error =>
      cases hfs.symm.trans hlook
      exact absurd hin hnot
    | ok o => exact hx o rfl hlook
  cases req with
  | object r =>
    cases r with
    | registerObjectInstance | registerObjectInstanceWithName
    | registerObjectInstanceWithRegions | registerObjectInstanceWithNameAndRegions =>
      exact registered rfl
    | updateAttributeValues inst' values tag =>
      refine checked hfs' (.bind fun k hk => .bind fun vs hvs => .bind fun i hi => .pure ?_)
      intro hlook
      have hu : AcceptedUpdate c fed inst' values k vs i := ⟨getOr_eq_ok.mp hk, hvs, hi⟩
      obtain ⟨rfl, hmem⟩ := ((mem_update (HashMap.mem_of_lookup hu.instance) hfs hlook).mp
        hin).resolve_left hnot
      exact ⟨_, .updates hu, hmem⟩
    | updateAttributeValuesWithTime inst' values tag time =>
      refine checked hfs' (.bind fun k hk => .bind fun vs hvs => .bind fun stamp hstamp =>
        .bind fun i hi => .bind fun _ hprom => .pure ?_)
      intro hlook
      have hu : AcceptedUpdate c fed inst' values k vs i := ⟨getOr_eq_ok.mp hk, hvs, hi⟩
      obtain ⟨fs₁, hfs₁, hdisc⟩ := discovered_of_route (c := c) hlook
      rw [← hdisc] at hin
      obtain ⟨rfl, hmem⟩ := ((mem_update (HashMap.mem_of_lookup hu.instance) hfs hfs₁).mp
        hin).resolve_left hnot
      exact ⟨_, .updatesAt hu hstamp hprom, hmem⟩
    | sendInteraction withRegions cls params tag =>
      refine checked hfs' (.bind fun _ _ => .pure fun hlook => ?_)
      cases hfs.symm.trans hlook
      exact absurd hin hnot
    | sendInteractionWithTime withRegions cls params tag time =>
      refine checked hfs' (.bind fun _ _ => .bind fun _ _ => .pure fun hlook => ?_)
      obtain ⟨fs₁, hfs₁, hdisc⟩ := discovered_of_route (c := c) hlook
      cases hfs.symm.trans hfs₁
      exact absurd (hdisc ▸ hin) hnot
    | deleteObjectInstance inst' tag =>
      refine checked hfs' (.bind fun _ _ => .bind fun _ _ => .pure fun hlook => ?_)
      exact absurd (mem_of_removeInstance hfs hlook hin) hnot
    | deleteObjectInstanceWithTime inst' tag time =>
      refine checked hfs' (.bind fun _ _ => .bind fun _ _ => .bind fun _ _ => .pure
        fun hlook => ?_)
      obtain ⟨fs₁, hfs₁, hdisc⟩ := discovered_of_route (c := c) hlook
      exact absurd (mem_of_removeInstance hfs hfs₁ (hdisc ▸ hin)) hnot
    | localDeleteObjectInstance inst' =>
      refine checked hfs' (.bind fun _ _ => .pure fun hlook => ?_)
      exact absurd (mem_of_localDelete hfs hlook hin) hnot
  | _ => exact kept (serve_footprint _) (by simp [ServiceRequest.parts])

end Marked

/-! ## What is told -/

/-- The bodies sent to a federate over the connection of its session. -/
def bodiesOver (connections : HashMap UInt64 ConnectionHandle) (h : FederateHandle)
    (fs : FederateSession) (callbacks : List OutboundCallback) : List CallbackRequest :=
  (callbacks.filter fun cb => decide
    (cb.federate = some h ∧ connections.lookup fs.sessionId = some cb.target)).map
      OutboundCallback.body

/-- Where the callbacks are addressed, this is all that is for the federate. -/
theorem Hands.bodiesOver_eq {callbacks : List OutboundCallback} {fs : FederateSession}
    (hh : Hands taken c fed callbacks fed') (hfs : fed.federates.lookup h = some fs) :
    bodiesOver c.connections h fs callbacks = bodiesFor h callbacks := by
  rw [bodiesOver, bodiesFor]
  refine congrArg _ (List.filter_congr fun cb hcb => decide_eq_decide.mpr ⟨And.left, ?_⟩)
  intro hf
  obtain ⟨f, fs', hf', hfs', htarget⟩ := hh.addressed cb hcb
  cases hf.symm.trans hf'
  cases hfs.symm.trans hfs'
  exact ⟨hf, htarget⟩

/-- What a call with these grants takes from a federate's record, or marks in
it, is among the bodies. -/
structure HandedOver (h : FederateHandle) (fs fs' : FederateSession)
    (grants : List (Net.GrantStep FederateHandle ℚ)) (bodies : List CallbackRequest) : Prop where
  granted : ∀ g ∈ grants, g.party = h → .timeAdvanceGrant g.time ∈ bodies
  cleared : ∀ t, fs.time.pendingAdvance = some t → fs'.time.pendingAdvance ≠ some t →
    .timeAdvanceGrant t ∈ bodies
  drained : ∃ gone : List TsoMessage, (gone.map TsoMessage.callback).Sublist bodies ∧
    fs.tsoQueue.messages.Sublist (gone ++ fs'.tsoQueue.messages)
  discovered : ∀ inst ∈ fs'.pubSub.discoveredInstances, inst ∉ fs.pubSub.discoveredInstances →
    ∃ cls name producer, .discoverObjectInstance inst cls name producer ∈ bodies

theorem HandedOver.of_eq {fs fs' : FederateSession} {bodies : List CallbackRequest}
    (htime : fs'.time = fs.time) (hqueue : fs'.tsoQueue = fs.tsoQueue)
    (hdisc : fs'.pubSub.discoveredInstances = fs.pubSub.discoveredInstances) :
    HandedOver h fs fs' [] bodies where
  granted := List.forall_mem_nil _
  cleared := fun _ hp hne => absurd (htime ▸ hp) hne
  drained := ⟨[], List.nil_sublist _, hqueue ▸ List.Sublist.refl _⟩
  discovered := fun _ hin hnot => absurd (hdisc ▸ hin) hnot

theorem mem_of_grantsTo {callbacks : List OutboundCallback} {t : ℚ} (ht : t ∈ grantsTo h callbacks) :
    .timeAdvanceGrant t ∈ bodiesFor h callbacks := by
  obtain ⟨body, hbody, hg⟩ := List.mem_filterMap.mp ht
  exact CallbackRequest.eq_of_grantTime? hg ▸ hbody

theorem mem_of_told {callbacks : List OutboundCallback} (ht : .appears inst ∈ told h callbacks) :
    ∃ cls name producer,
      .discoverObjectInstance inst cls name producer ∈ bodiesFor h callbacks := by
  obtain ⟨body, hbody, hn⟩ := List.mem_filterMap.mp ht
  cases body <;> cases hn
  exact ⟨_, _, _, hbody⟩

section Served

variable {fs fs' : FederateSession} {req : ServiceRequest}

/-- The call takes something from the federate with this record: it grants it a
time, or it marks an instance for it.  Only who is granted is drained. -/
def ServiceRequest.Takes (req : ServiceRequest) (c : Caller) (fed : Federation)
    (h : FederateHandle) (fs : FederateSession) : Prop :=
  (∃ r, req = .time r ∧ r.Grants c fed h) ∨
    ∃ k s, Announces c fed req k s ∧ h ∈ s ∧ k ∉ fs.pubSub.discoveredInstances

/-- Whatever is handed over goes to a connection. -/
theorem connected_of_mem_bodiesOver {body : CallbackRequest} {callbacks : List OutboundCallback}
    (hbody : body ∈ bodiesOver c.connections h fs callbacks) : fs.sessionId ∈ c.connections := by
  obtain ⟨cb, hcb, _⟩ := List.mem_map.mp hbody
  exact HashMap.mem_of_lookup (of_decide_eq_true (List.mem_filter.mp hcb).2).2

theorem granted_takes {g : Net.GrantStep FederateHandle ℚ} (hg : g ∈ (serve c fed req).grants) :
    req.Takes c fed g.party fs := by
  by_cases hr : ∃ r, req = .time r
  · obtain ⟨r, rfl⟩ := hr
    exact .inl ⟨r, rfl, serveTime_granted.mp ⟨g, hg, rfl⟩⟩
  · rw [(serve_confined (not_exists.mp hr)).grants] at hg
    cases hg

variable (hfs : fed.federates.lookup h = some fs)
  (hfs' : (serve c fed req).federation.federates.lookup h = some fs')

include hfs hfs'

theorem serve_discovered (hconn : fs.sessionId ∈ c.connections)
    (hin : inst ∈ fs'.pubSub.discoveredInstances)
    (hnot : inst ∉ fs.pubSub.discoveredInstances) :
    .appears inst ∈ told h (serve c fed req).callbacks := by
  obtain ⟨_, hfs₂, hmoves⟩ := serve_comes req hfs hconn
  cases hfs'.symm.trans hfs₂
  rcases hmoves.appears_of_known hin with hold | hlog
  · exact absurd hold hnot
  · exact (List.mem_append.mp hlog).resolve_right (appears_not_unheard req)

/-- Whoever no longer waits for an advance was granted it. -/
theorem serve_cleared {t : ℚ} (hp : fs.time.pendingAdvance = some t)
    (hne : fs'.time.pendingAdvance ≠ some t) :
    ∃ g ∈ (serve c fed req).grants, g.party = h ∧ g.time = t := by
  have hwaits := @wait_grantsStart c fed h req
  rw [(serve_run req).wait_eq h, wait_eq_of_net (Federation.net_eq_some.mpr ⟨fs, hfs, rfl⟩),
    wait_eq_of_net (Federation.net_eq_some.mpr ⟨fs', hfs', rfl⟩), hp] at hwaits
  have hmem : F64.fin t ∈ (Net.timesOf h (serve c fed req).grants ++
      fs'.time.pendingAdvance.toList).map F64.fin := hwaits ▸ List.mem_cons_self
  obtain ⟨t', ht', heq⟩ := List.mem_map.mp hmem
  cases heq
  rcases List.mem_append.mp ht' with hgranted | hstill
  · obtain ⟨g, hg, htime⟩ := List.mem_map.mp hgranted
    exact ⟨g, (List.mem_filter.mp hg).1, of_decide_eq_true (List.mem_filter.mp hg).2, htime⟩
  · exact absurd (Option.mem_toList.mp hstill) hne

theorem serve_other (hreq : ∀ t, req ≠ .time t)
    (hparts : ∀ p ∈ [FederatePart.time, .queue, .discovered], Part.federate p ∉ req.parts)
    {bodies : List CallbackRequest} : HandedOver h fs fs' (serve c fed req).grants bodies := by
  have ht : fed.Touches req.parts (serve c fed req).federation := serve_footprint req
  rw [(serve_confined hreq).grants]
  exact .of_eq (ht.get_eq (hparts .time (by decide)) hfs hfs')
    (ht.get_eq (hparts .queue (by decide)) hfs hfs')
    (ht.get_eq (hparts .discovered (by decide)) hfs hfs')

/-- A piece that takes from nobody else hands over all four. -/
theorem Hands.handedOver {taken : FederateHandle → Prop}
    (hh : Hands taken c fed (serve c fed req).callbacks (serve c fed req).federation)
    (htaken : taken h → req.Takes c fed h fs)
    (hconn : req.Takes c fed h fs → fs.sessionId ∈ c.connections) :
    HandedOver h fs fs' (serve c fed req).grants
      (bodiesOver c.connections h fs (serve c fed req).callbacks) := by
  rw [hh.bodiesOver_eq hfs]
  have hgranted : ∀ g ∈ (serve c fed req).grants, g.party = h →
      .timeAdvanceGrant g.time ∈ bodiesFor h (serve c fed req).callbacks := by
    rintro g hg rfl
    refine mem_of_grantsTo ?_
    rw [serve_tellsAll req fun _ _ =>
      (Federation.isSome_recipient hfs).mpr (hconn (granted_takes hg))]
    exact List.mem_map.mpr ⟨g, List.mem_filter.mpr ⟨hg, decide_eq_true rfl⟩, rfl⟩
  refine ⟨hgranted, fun t hp hne => ?_, ?_, fun inst hin hnot => ?_⟩
  · obtain ⟨g, hg, hparty, rfl⟩ := serve_cleared hfs hfs' hp hne
    exact hgranted g hg hparty
  · obtain ⟨q', gone, hq', htold, hleft⟩ := hh.queue h fs.tsoQueue
      (fun ht => (Federation.isSome_recipient hfs).mpr (hconn (htaken ht)))
      (by rw [Federation.queue, hfs]; rfl)
    rw [Federation.queue, hfs'] at hq'
    cases hq'
    exact ⟨gone, htold, hleft⟩
  · obtain ⟨s, hann, haud⟩ := announces_of_marked hfs hfs' hin hnot
    exact mem_of_told
      (serve_discovered hfs hfs' (hconn (.inr ⟨inst, s, hann, haud, hnot⟩)) hin hnot)

/-- **A call hands over what it takes exactly if it finds the federate
connected.** -/
theorem serve_handedOver_iff :
    HandedOver h fs fs' (serve c fed req).grants
        (bodiesOver c.connections h fs (serve c fed req).callbacks) ↔
      (req.Takes c fed h fs → fs.sessionId ∈ c.connections) := by
  constructor
  · rintro hover (⟨r, rfl, hgrants⟩ | ⟨k, s, hann, hin, hnot⟩)
    · obtain ⟨g, hg, rfl⟩ := serveTime_granted.mpr hgrants
      exact connected_of_mem_bodiesOver (hover.granted g hg rfl)
    · obtain ⟨_, _, _, hbody⟩ := hover.discovered k (hann.marks hin hfs hfs') hnot
      exact connected_of_mem_bodiesOver hbody
  · intro hconn
    cases req with
    | object r => exact (serveObject_hands r).handedOver hfs hfs' False.elim hconn
    | time r => exact (serveTime_hands r).handedOver hfs hfs' (fun ht => .inl ⟨r, rfl, ht⟩) hconn
    | _ => exact serve_other hfs hfs' (by simp) (by simp [ServiceRequest.parts])

end Served

/-! ## Calls on the node -/

/-- A call hands over what it takes from federate `h` of federation `r`, if the
federate is joined before and after, and does not touch it if it acts on
another federation. -/
def Node.HandsOver (r : FedRef) (h : FederateHandle) (n : Node) (e : NodeEvent) : Prop :=
  ∀ t env request o, e = .call t env request → n.outcome t env request = some o →
    (∀ a, n.action e = some (r, a) → a.enters (n.heap r) h = false →
      ∀ fs fs', (n.heap r).federates.lookup h = some fs →
        ((n.step e).heap r).federates.lookup h = some fs' →
        HandedOver h fs fs' o.grants (bodiesOver n.connections h fs o.callbacks)) ∧
    ((∀ a, n.action e ≠ some (r, a)) → (n.step e).heap r = n.heap r)

/-- The federate is connected if the action takes something from it. -/
def FedAction.FindsConnected (h : FederateHandle) (fed : Federation) : FedAction → Prop
  | serve c req => ∀ fs, fed.federates.lookup h = some fs → req.Takes c fed h fs →
      fs.sessionId ∈ c.connections
  | _ => True

/-- That somebody else joins or leaves takes nothing from the federate. -/
theorem handedOver_of_membership {r : FedRef} {n : Node} {t : Transport} {env : CallEnv}
    {request : CallRequest} {o : CallOutcome} {a : FedAction} {fs fs' : FederateSession}
    (ho : n.outcome t env request = some o) (ha : n.action (.call t env request) = some (r, a))
    (hserve : ∀ c req, a ≠ .serve c req) (hent : a.enters (n.heap r) h = false)
    (hfs : (n.heap r).federates.lookup h = some fs)
    (hfs' : ((n.step (.call t env request)).heap r).federates.lookup h = some fs') :
    HandedOver h fs fs' o.grants (bodiesOver n.connections h fs o.callbacks) := by
  have hreports := Node.outcome_reports ho fun r' c req ha' => by
    cases ha.symm.trans ha'
    exact hserve c req rfl
  have hsame : (n.heap r).federates.lookup h = some fs' := by
    refine FedAction.lookup_of_membership hserve hent ?_
    rw [Node.heap_step, ha, Node.heapAfter, Function.update_self] at hfs'
    exact hfs'
  cases hfs.symm.trans hsame
  rw [hreports.1]
  exact .of_eq rfl rfl rfl

/-- **Nothing is taken without its callback exactly if the call finds connected
whom it takes from**, whatever the state of the node and so at every step of every
run.  What is taken is the pending advance that a grant clears, the messages that
leave the queue and the instances newly marked discovered; whom from is said by the
request and the state before the call. -/
theorem Node.taken_is_handed_over (r : FedRef) (h : FederateHandle) (n : Node) (e : NodeEvent) :
    n.HandsOver r h e ↔ n.MeetsAt r (fun fed a => a.FindsConnected h fed) e := by
  constructor
  · rintro hover ⟨_, a⟩ ha rfl
    cases a with
    | serve c req =>
      intro fs hfs htakes
      obtain ⟨t, s, m, env, rfl, hs, hm, rfl, rfl⟩ := Node.action_serve ha
      obtain ⟨o, ho⟩ : ∃ o, n.outcome t env (.service req) = some o :=
        ⟨_, by rw [Node.outcome, hs]; rfl⟩
      obtain ⟨hcb, hgrants, hheap⟩ := Node.outcome_serve ho ha
      have hnode : n.step (.call t env (.service req)) = o.node := by rw [Node.step, ho]
      obtain ⟨fs', hfs'⟩ := HashMap.mem_iff_lookup.mp
        ((serve_mem_federates (c := n.caller m env) req h).mpr (HashMap.mem_of_lookup hfs))
      have hstep := (hover t env _ o rfl ho).1 _ ha rfl fs fs' hfs (by rw [hnode, hheap, hfs'])
      rw [hcb, hgrants] at hstep
      exact (serve_handedOver_iff hfs hfs').mp hstep htakes
    | _ => trivial
  · rintro hfinds t env request o rfl ho
    constructor
    · intro a ha hent fs fs' hfs hfs'
      by_cases hserve : ∃ c req, a = .serve c req
      · obtain ⟨c, req, rfl⟩ := hserve
        obtain ⟨hcb, hgrants, hheap⟩ := Node.outcome_serve ho ha
        have hconn := hfinds (r, _) ha rfl fs hfs
        obtain ⟨_, s, m, env', _, _, _, _, rfl⟩ := Node.action_serve ha
        rw [show n.step (.call t env request) = o.node by rw [Node.step, ho], hheap] at hfs'
        rw [hcb, hgrants]
        exact (serve_handedOver_iff hfs hfs').mpr hconn
      · exact handedOver_of_membership ho ha (fun c req he => hserve ⟨c, req, he⟩) hent hfs hfs'
    · intro hother
      rcases n.heap_cases (.call t env request) r with hsame | ⟨a, ha, _⟩
      · exact hsame
      · exact absurd ha (hother a)

/-- Federate 2 has subscribed, has a message of time 3 in its queue and waits
for time 5, and its transport is gone. -/
def pairSuspended : List NodeEvent := .setReconnectWindow 60 :: pairUpdating ++
  [.serves 0 (.time (.enableTimeRegulation wireOne)), .serves 1 (.time .enableTimeConstrained),
    .serves 0 (updateAt wireThree), .serves 1 (advanceTo wireFive), .close 1, .removeConnection 2]

/-- The three, of one federate. -/
def Node.oneShot (n : Node) (h : FederateHandle) :
    Option (Option ℚ × Nat × List ObjectInstanceHandle) :=
  ((n.heap 0).federates.lookup h).map fun fs =>
    (fs.time.pendingAdvance, fs.tsoQueue.messages.length, fs.pubSub.discoveredInstances.keys)

/-- How many callbacks of a call are for a federate. -/
def Node.callbacksFor (n : Node) (h : FederateHandle) (req : ServiceRequest) : Option Nat :=
  (n.outcome 0 .plain (.service req)).map fun o => (bodiesFor h o.callbacks).length

/-- **A suspended federate loses** its grant and its message when federate 1
goes on, and a discovery when it registers an instance: nothing is sent to it,
and it is still joined and may resume. -/
theorem Node.suspended_loses :
    let n := run Node.step Node.new pairSuspended
    let registration : ServiceRequest := .object (.registerObjectInstance (wire32 1))
    (2 : UInt64) ∈ n.suspendedSessions ∧
    n.oneShot ⟨2⟩ = some (some 5, 1, [⟨1⟩]) ∧
    (n.step (.serves 0 (advanceTo wireFive))).oneShot ⟨2⟩ = some (none, 0, [⟨1⟩]) ∧
    n.callbacksFor ⟨2⟩ (advanceTo wireFive) = some 0 ∧
    (n.step (.serves 0 registration)).oneShot ⟨2⟩ = some (some 5, 1, [⟨2⟩, ⟨1⟩]) ∧
    n.callbacksFor ⟨2⟩ registration = some 0 := by
  decide +kernel

end Hla4
