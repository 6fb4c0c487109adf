/-
# `Hla4.Rti.Safety.Audience` — who gets an update, before and after, timed or not

An untimed update is reflected to the federates that HOLD a subscription to it and
whose recorded regions at the class of the instance ADMIT one of its attributes
(`reflected_iff`).  Three things one would take for granted follow from that only
under a condition, and for each the condition is exact.

  * A timed update has the audience of the untimed one — but it goes to every holder,
    and regions are not looked at (`sameAudience_iff`).
  * Unsubscribing with regions widens nothing — but it takes regions off a subscription
    that stays held, and without any the subscription is unrestricted
    (`unsubscribe_narrows_iff`).
  * A plain subscription is unrestricted — but the regions an earlier one recorded stay
    (`subscribe_unrestricted_iff`).
-/
import Hla4.Rti.Safety.Delivery
import Hla4.Rti.Safety.Subscribers

namespace Hla4

open Lib

/-- An untimed update is reflected to `f`. -/
def Reflected (c : Caller) (fed : Federation) (inst : WireField) (values : WireValueMap)
    (tag : Bytes) (f : FederateHandle) : Prop :=
  ∃ h vs, .reflectAttributeValues h vs tag c.federate ∈
    bodiesFor f (serve c fed (.object (.updateAttributeValues inst values tag))).callbacks

/-- A timed update is reflected to `f`, or its reflection is put in the queue of
`f`. -/
def ReflectedAt (c : Caller) (fed : Federation) (inst : WireField) (values : WireValueMap)
    (tag : Bytes) (time : WireField) (f : FederateHandle) : Prop :=
  ∃ o h vs stamp, o = serve c fed (.object (.updateAttributeValuesWithTime inst values tag time)) ∧
    (.reflectAttributeValuesWithTime h vs tag c.federate stamp ∈ bodiesFor f o.callbacks ∨
      ∃ q msg, fed.queue f = some q ∧ o.federation.queue f = some (q.insert msg) ∧
        msg.callback = .reflectAttributeValuesWithTime h vs tag c.federate stamp)

section

variable {c c' : Caller} {fed fed' : Federation} {inst : WireField} {values : WireValueMap}
  {tag : Bytes} {h : ObjectInstanceHandle} {vs : HashMap AttributeHandle Bytes}
  {i : ObjectInstance} {f : FederateHandle}

/-! ## The untimed update -/

theorem AcceptedUpdate.of_callback {cb : OutboundCallback}
    (hcb : cb ∈ (updateAttributeValues c fed inst values tag).callbacks) :
    ∃ h vs i, AcceptedUpdate c fed inst values h vs i := by
  obtain ⟨h, hh, ho⟩ := bind_eq_ok.mp (Outcome.ofExcept_of_callback hcb)
  obtain ⟨vs, hvs, ho⟩ := bind_eq_ok.mp ho
  obtain ⟨i, hi, _⟩ := bind_eq_ok.mp ho
  exact ⟨h, vs, i, getOr_eq_ok.mp hh, hvs, hi⟩

theorem AcceptedUpdate.reflected_iff_mem (hu : AcceptedUpdate c fed inst values h vs i) :
    Reflected c fed inst values tag f ↔
      f ∈ updateRecipients c fed h i.cls vs.keys ∧ (fed.recipient c f).isSome = true := by
  constructor
  · rintro ⟨h', vs', hmem⟩
    exact ((mem_reflections hu).mp hmem).2
  · intro hmem
    exact ⟨h, vs, (mem_reflections hu).mpr ⟨⟨rfl, rfl⟩, hmem⟩⟩

/-- **Who gets an untimed update.** -/
theorem reflected_iff : Reflected c fed inst values tag f ↔
    ∃ h vs i fs, AcceptedUpdate c fed inst values h vs i ∧ fed.federates.lookup f = some fs ∧
      fs.sessionId ∈ c.connections ∧ (f ≠ c.federate ∧ ∃ cls a, fed.Holds i vs.keys f cls a) ∧
      ∃ a ∈ vs.keys, fed.Admits i fs i.cls a := by
  constructor
  · intro hr
    obtain ⟨h, vs, i, hu⟩ : ∃ h vs i, AcceptedUpdate c fed inst values h vs i := by
      obtain ⟨_, _, hmem⟩ := hr
      obtain ⟨cb, hcb, _⟩ := List.mem_map.mp hmem
      exact AcceptedUpdate.of_callback (List.mem_filter.mp hcb).1
    obtain ⟨hmem, hconn⟩ := hu.reflected_iff_mem.mp hr
    obtain ⟨r, hr⟩ := Option.isSome_iff_exists.mp hconn
    obtain ⟨_, fs, hfs, _⟩ := Federation.recipient_eq_some.mp hr
    obtain ⟨hholds, hadmits⟩ := (mem_updateRecipients hu.instance hfs).mp hmem
    exact ⟨h, vs, i, fs, hu, hfs, (Federation.isSome_recipient hfs).mp hconn, hholds, hadmits⟩
  · rintro ⟨h, vs, i, fs, hu, hfs, hconn, hholds, hadmits⟩
    exact hu.reflected_iff_mem.mpr ⟨(mem_updateRecipients hu.instance hfs).mpr ⟨hholds, hadmits⟩,
      (Federation.isSome_recipient hfs).mpr hconn⟩

/-- An update is accepted by what the instances say. -/
theorem AcceptedUpdate.congr (hinst : fed'.objectInstances = fed.objectInstances) :
    AcceptedUpdate c fed' inst values h vs i ↔ AcceptedUpdate c fed inst values h vs i := by
  have howned : ownedInstance c fed' h vs.keys = ownedInstance c fed h vs.keys := by
    rw [ownedInstance, ownedInstance, hinst]
  constructor
  · rintro ⟨hinst, hvalues, hown⟩
    exact ⟨hinst, hvalues, howned ▸ hown⟩
  · rintro ⟨hinst, hvalues, hown⟩
    exact ⟨hinst, hvalues, howned ▸ hown⟩

/-- The same after a change to other parts than the instances and who is joined: the
update is accepted as it was before, and the federate as connected. -/
theorem reflected_iff_of_touches {ps : List Part} (ht : fed.Touches ps fed')
    (hinst : Part.instances ∉ ps) (hi : Part.federate .identity ∉ ps) :
    Reflected c fed' inst values tag f ↔
      ∃ h vs i fs fs', AcceptedUpdate c fed inst values h vs i ∧
        fed.federates.lookup f = some fs ∧ fed'.federates.lookup f = some fs' ∧
        fs.sessionId ∈ c.connections ∧
        (f ≠ c.federate ∧ ∃ cls a, fed'.Holds i vs.keys f cls a) ∧
        ∃ a ∈ vs.keys, fed'.Admits i fs' i.cls a := by
  have hsame : fed'.objectInstances = fed.objectInstances := ht .instances hinst
  rw [reflected_iff]
  constructor
  · rintro ⟨h, vs, i, fs', hu, hfs', hconn, hrest⟩
    obtain ⟨fs, hfs, hsession⟩ := ht.lookup_before hi hfs'
    exact ⟨h, vs, i, fs, fs', (AcceptedUpdate.congr hsame).mp hu, hfs, hfs', hsession ▸ hconn,
      hrest⟩
  · rintro ⟨h, vs, i, fs, fs', hu, hfs, hfs', hconn, hrest⟩
    obtain ⟨fs₁, hfs₁, hsession⟩ := ht.lookup_before hi hfs'
    cases hfs.symm.trans hfs₁
    exact ⟨h, vs, i, fs', (AcceptedUpdate.congr hsame).mpr hu, hfs', hsession ▸ hconn, hrest⟩

/-! ## The timed update -/

variable {time : WireField}

/-- An accepted timed update: the checks of the untimed one and two more. -/
theorem updateAttributeValuesWithTime_eq
    (hacc : (updateAttributeValuesWithTime c fed inst values tag time).response.accepted = true) :
    ∃ h vs i stamp, AcceptedUpdate c fed inst values h vs i ∧
      let subscribers := fed.subscribersForAttributes i.cls vs.keys (some c.federate)
      let discovery := notifySubscribersOfRegistrationSubset c fed h i.cls c.federate subscribers
      let routed := routeTsoOrImmediate c discovery.1 subscribers
        ⟨stamp, .reflectAttributeValuesWithTime h vs tag c.federate stamp, rfl⟩
      updateAttributeValuesWithTime c fed inst values tag time =
        .reply routed.1 (.ack .updateAttributeValuesWithTime) (discovery.2 ++ routed.2) := by
  obtain ⟨h, hh, ho⟩ := bind_eq_ok.mp (Outcome.ofExcept_accepted hacc)
  obtain ⟨vs, hvs, ho⟩ := bind_eq_ok.mp ho
  obtain ⟨stamp, _, ho⟩ := bind_eq_ok.mp ho
  obtain ⟨i, hi, ho⟩ := bind_eq_ok.mp ho
  obtain ⟨_, _, ho⟩ := bind_eq_ok.mp ho
  exact ⟨h, vs, i, stamp, ⟨getOr_eq_ok.mp hh, hvs, hi⟩, (Except.ok.inj ho).symm⟩

theorem AcceptedUpdate.unique {h' : ObjectInstanceHandle} {vs' : HashMap AttributeHandle Bytes}
    {i' : ObjectInstance} (hu : AcceptedUpdate c fed inst values h vs i)
    (hu' : AcceptedUpdate c fed inst values h' vs' i') : h' = h ∧ vs' = vs ∧ i' = i := by
  cases hu.inst.symm.trans hu'.inst
  cases hu.values.symm.trans hu'.values
  cases hu.instance.symm.trans hu'.instance
  exact ⟨rfl, rfl, rfl⟩

/-- **Who gets a timed update**: whoever is subscribed. -/
theorem AcceptedUpdate.reflectedAt_iff (hu : AcceptedUpdate c fed inst values h vs i)
    (hconn : fed.AllConnected c)
    (hacc : (updateAttributeValuesWithTime c fed inst values tag time).response.accepted = true) :
    ReflectedAt c fed inst values tag time f ↔
      f ∈ fed.subscribersForAttributes i.cls vs.keys (some c.federate) ∧ f ∈ fed.federates := by
  obtain ⟨h', vs', i', stamp, hu', ho⟩ := updateAttributeValuesWithTime_eq hacc
  obtain ⟨rfl, rfl, rfl⟩ := hu.unique hu'
  dsimp only at ho
  generalize hsubs : fed.subscribersForAttributes i'.cls vs'.keys (some c.federate) = subscribers
    at ho ⊢
  generalize hdisc : notifySubscribersOfRegistrationSubset c fed h' i'.cls c.federate subscribers =
    discovery at ho
  have ht : fed.Touches [.federate .discovered] discovery.1 := hdisc ▸ touches_notifySubset
  have hother : ∀ h vs stamp, .reflectAttributeValuesWithTime h vs tag c.federate stamp ∉
      bodiesFor f discovery.2 := by
    intro h vs stamp
    rw [← hdisc]
    exact notMem_discoveries fun _ => CallbackRequest.noConfusion
  generalize hrouted : routeTsoOrImmediate c discovery.1 subscribers
    ⟨stamp, .reflectAttributeValuesWithTime h' vs' tag c.federate stamp, rfl⟩ = routed at ho
  have hroute : Outcome.ReachesExactly discovery.1
      (.reply routed.1 (.ack .updateAttributeValuesWithTime) routed.2) c
      (fun f => f ∈ subscribers ∧ f ∈ discovery.1.federates) _ :=
    hrouted ▸ route_exact (hconn.of_touches ht (by decide)) fun f => Iff.rfl
  rw [← ht.mem_federates (by decide) f]
  constructor
  · rintro ⟨_, h, vs, stamp, rfl, hgot⟩
    by_contra hnot
    obtain ⟨hsent, hqueue⟩ := hroute.spares f hnot
    rw [serve, serveObject, ho] at hgot
    rcases hgot with hmem | ⟨q, msg, hq, hq', _⟩
    · have hmem : _ ∈ bodiesFor f (discovery.2 ++ routed.2) := hmem
      rw [bodiesFor_append, List.mem_append] at hmem
      rcases hmem with hmem | hmem
      · exact hother h vs stamp hmem
      · rw [show bodiesFor f routed.2 = [] from hsent] at hmem
        cases hmem
    · rw [ht.queue (by decide), hq] at hqueue
      exact q.insert_ne_self msg (Option.some.inj (hq'.symm.trans hqueue))
  · intro haud
    refine ⟨_, h', vs', stamp, rfl, ?_⟩
    rw [serve, serveObject, ho]
    rcases (hroute.reaches f haud).or with ⟨hsent, _⟩ | ⟨_, q, msg, hq, hmsg, hq'⟩
    · refine .inl ?_
      show _ ∈ bodiesFor f (discovery.2 ++ routed.2)
      rw [bodiesFor_append, show bodiesFor f routed.2 = _ from hsent]
      exact List.mem_append_right _ (List.mem_singleton_self _)
    · exact .inr ⟨q, msg, by rw [← ht.queue (by decide), hq], hq', hmsg⟩

end

/-- Everybody connected, an accepted timed update reaches the federates the untimed
one would. -/
def SameAudience (c : Caller) (fed : Federation) (inst : WireField) (values : WireValueMap)
    (tag : Bytes) (time : WireField) : Prop :=
  fed.AllConnected c →
    (serve c fed (.object
      (.updateAttributeValuesWithTime inst values tag time))).response.accepted = true →
    ∀ f, ReflectedAt c fed inst values tag time f ↔ Reflected c fed inst values tag f

/-- Every federate that holds a subscription to the update has regions that admit
one of its attributes. -/
def RegionsAdmitHolders (c : Caller) (fed : Federation) (inst : WireField) (values : WireValueMap)
    (tag : Bytes) (time : WireField) : Prop :=
  fed.AllConnected c →
    (serve c fed (.object
      (.updateAttributeValuesWithTime inst values tag time))).response.accepted = true →
    ∀ h vs i, AcceptedUpdate c fed inst values h vs i →
      ∀ f fs, fed.federates.lookup f = some fs → f ≠ c.federate →
        (∃ cls a, fed.Holds i vs.keys f cls a) → ∃ a ∈ vs.keys, fed.Admits i fs i.cls a

/-- **When a timed update has the audience of the untimed one.** -/
theorem sameAudience_iff (c : Caller) (fed : Federation) (inst : WireField) (values : WireValueMap)
    (tag : Bytes) (time : WireField) :
    SameAudience c fed inst values tag time ↔ RegionsAdmitHolders c fed inst values tag time := by
  refine forall_congr' fun hconn => forall_congr' fun hacc => ?_
  constructor
  · intro hsame h vs i hu f fs hfs hne hholds
    have hat := (hu.reflectedAt_iff hconn hacc).mpr
      ⟨mem_subscribersForUpdate.mpr ⟨hne, hholds⟩, HashMap.mem_of_lookup hfs⟩
    obtain ⟨hmem, _⟩ := hu.reflected_iff_mem.mp ((hsame f).mp hat)
    exact ((mem_updateRecipients hu.instance hfs).mp hmem).2
  · intro hadmit f
    obtain ⟨h, vs, i, _, hu, _⟩ := updateAttributeValuesWithTime_eq hacc
    rw [hu.reflectedAt_iff hconn hacc, hu.reflected_iff_mem]
    constructor
    · rintro ⟨hsub, hf⟩
      obtain ⟨fs, hfs⟩ := HashMap.mem_iff_lookup.mp hf
      obtain ⟨hne, hholds⟩ := mem_subscribersForUpdate.mp hsub
      refine ⟨(mem_updateRecipients hu.instance hfs).mpr ⟨⟨hne, hholds⟩, ?_⟩, ?_⟩
      · exact hadmit h vs i hu f fs hfs hne hholds
      · exact (Federation.isSome_recipient hfs).mpr
          (hconn f (AList.mem_keys.mp hf) fs hfs)
    · rintro ⟨hmem, hrecv⟩
      obtain ⟨r, hr⟩ := Option.isSome_iff_exists.mp hrecv
      obtain ⟨_, fs, hfs, _⟩ := Federation.recipient_eq_some.mp hr
      exact ⟨mem_subscribersForUpdate.mpr ((mem_updateRecipients hu.instance hfs).mp hmem).1,
        HashMap.mem_of_lookup hfs⟩

/-- A timed update has the audience of the untimed one. -/
def FedAction.TimedLikeUntimed (fed : Federation) : FedAction → Prop
  | serve c (.object (.updateAttributeValuesWithTime inst values tag time)) =>
    SameAudience c fed inst values tag time
  | _ => True

/-- **A timed update ignores regions.**  The region of federate 2's subscription
excludes the instance: the update of time 1 reaches it all the same, the untimed
one does not. -/
theorem Node.timed_ignores_regions :
    ¬ (run Node.step Node.new (regionsApart ++ [subscribesApart (wire32 2)])).Meets
      (fun fed a => a.TimedLikeUntimed fed) (.serves 0 (updateAt wireOne)) := by
  generalize hes : regionsApart ++ [subscribesApart (wire32 2)] = es
  have hodd : ∃ m ∈ ((run Node.step Node.new es).sessions.lookup 0).bind Session.membership,
      let c := (run Node.step Node.new es).caller m .plain
      let fed := (run Node.step Node.new es).heap m.federation
      fed.AllConnected c ∧ (serve c fed (updateAt wireOne)).response.accepted = true ∧
      ∃ vs ∈ (decodeAttributeValueMap (some [(wire32 1, [])])).toOption,
      ∃ i ∈ (ownedInstance c fed ⟨1⟩ vs.keys).toOption,
        ⟨2⟩ ∈ fed.federates ∧
        ⟨2⟩ ∈ fed.subscribersForAttributes i.cls vs.keys (some c.federate) ∧
        ⟨2⟩ ∉ updateRecipients c fed ⟨1⟩ i.cls vs.keys := by
    subst hes
    decide +kernel
  obtain ⟨m, hm, hconn, hacc, vs, hvs, i, hi, hf, hsub, hnot⟩ := hodd
  intro hmeets
  have hu : AcceptedUpdate ((run Node.step Node.new es).caller m .plain)
      ((run Node.step Node.new es).heap m.federation) (wire64 1) (some [(wire32 1, [])]) ⟨1⟩ vs i :=
    ⟨by decide, toOption_eq_some.mp hvs, toOption_eq_some.mp hi⟩
  have hsame : SameAudience _ _ (wire64 1) (some [(wire32 1, [])]) [] wireOne :=
    hmeets _ (Node.action_of_membership hm .plain _)
  have hat := (hu.reflectedAt_iff hconn hacc).mpr ⟨hsub, hf⟩
  exact hnot (hu.reflected_iff_mem.mp ((hsame hconn hacc ⟨2⟩).mp hat)).1

/-! ## Unsubscribing with regions -/

theorem mem_get_withdraw {m : SubscribedRegions} {cls : ObjectClassHandle}
    {regions : MultiMap AttributeHandle RegionHandle} {k : ObjectClassHandle × AttributeHandle}
    {v : RegionHandle} :
    v ∈ (SubscribedRegions.withdraw cls regions m).get k ↔
      v ∈ m.get k ∧ ¬ (k.1 = cls ∧ v ∈ regions.get k.2) := by
  have hfold : ∀ (l : List AttributeHandle) (m : SubscribedRegions),
      v ∈ (l.foldl (fun m attr => m.remove (cls, attr) (regions.get attr).keys) m).get k ↔
        v ∈ m.get k ∧ ¬ (k.1 = cls ∧ k.2 ∈ l ∧ v ∈ regions.get k.2) := by
    intro l
    induction l with
    | nil => simp
    | cons attr l ih =>
      intro m
      rw [List.foldl_cons, ih, MultiMap.mem_get_remove, Prod.ext_iff, ← AList.mem_keys]
      by_cases hattr : k.2 = attr
      · subst hattr
        simp only [List.mem_cons]
        tauto
      · simp only [List.mem_cons, hattr]
        tauto
  have hkey : v ∈ regions.get k.2 → k.2 ∈ regions.keys := by
    intro hv
    exact AList.mem_keys.mp (MultiMap.mem_of_mem_get hv)
  rw [SubscribedRegions.withdraw, hfold]
  tauto

/-- The call takes the last region off the caller's subscription. -/
def TakesLast (c : Caller) (fed : Federation) (cls : WireField) (pairs : WireRegionPairs)
    (k : ObjectClassHandle × AttributeHandle) : Prop :=
  objectClassArg cls = .ok k.1 ∧ ∃ fs, fed.federates.lookup c.federate = some fs ∧
    (fs.pubSub.subscribedAttrsRegions.get k).keys ≠ [] ∧
    ∀ v ∈ fs.pubSub.subscribedAttrsRegions.get k, v ∈ (decodeAttrRegionPairs pairs).get k.2

/-- Whatever would be reflected to the caller after the call would have been
before. -/
def UnsubscribeNarrows (c : Caller) (fed : Federation) (cls : WireField) (pairs : WireRegionPairs) :
    Prop :=
  ∀ fed', fed' = (serve c fed (.region
      (.unsubscribeObjectClassAttributesWithRegions cls pairs))).federation →
    ∀ c' inst values tag, Reflected c' fed' inst values tag c.federate →
      Reflected c' fed inst values tag c.federate

/-- Where the call takes the last region off a subscription, the updates the caller
holds a subscription to were admitted already. -/
def LastRegionsAdmit (c : Caller) (fed : Federation) (cls : WireField) (pairs : WireRegionPairs) :
    Prop :=
  ∀ c' inst values h vs i, AcceptedUpdate c' fed inst values h vs i →
    ∀ fs, fed.federates.lookup c.federate = some fs → fs.sessionId ∈ c'.connections →
      c.federate ≠ c'.federate → (∃ cls a, fed.Holds i vs.keys c.federate cls a) →
      (∃ a ∈ vs.keys, TakesLast c fed cls pairs (i.cls, a)) →
      ∃ a ∈ vs.keys, fed.Admits i fs i.cls a

section Unsubscribe

variable {c : Caller} {fed : Federation} {cls : WireField} {pairs : WireRegionPairs}

theorem touches_unsubscribe :
    fed.Touches [.federate .subscribedRegions]
      (unsubscribeObjectClassAttributesWithRegions c fed cls pairs).federation :=
  Outcome.ofExcept_of (Q := fun o => fed.Touches _ o.federation) (fun _ => .refl)
    (.bind fun _ _ => .pure (touches_subscribedRegions _))

theorem mem_regions_unsubscribe {fs fs' : FederateSession}
    (hfs : fed.federates.lookup c.federate = some fs)
    (hfs' : (unsubscribeObjectClassAttributesWithRegions c fed cls
      pairs).federation.federates.lookup c.federate = some fs')
    {k : ObjectClassHandle × AttributeHandle} {v : RegionHandle} :
    v ∈ fs'.pubSub.subscribedAttrsRegions.get k ↔ v ∈ fs.pubSub.subscribedAttrsRegions.get k ∧
      ¬ (objectClassArg cls = .ok k.1 ∧ v ∈ (decodeAttrRegionPairs pairs).get k.2) := by
  rw [unsubscribeObjectClassAttributesWithRegions] at hfs'
  cases hcls : objectClassArg cls with
  | error =>
    rw [hcls] at hfs'
    cases hfs.symm.trans hfs'
    simp
  | ok =>
    rw [hcls] at hfs'
    have hfs' : (fed.federates.modify c.federate _).lookup c.federate = some fs' := hfs'
    rw [HashMap.lookup_modify, if_pos rfl, hfs] at hfs'
    cases hfs'
    rw [mem_get_withdraw, Except.ok.injEq, eq_comm]

variable {fs fs' : FederateSession}

theorem keys_regions_unsubscribe (hfs : fed.federates.lookup c.federate = some fs)
    (hfs' : (unsubscribeObjectClassAttributesWithRegions c fed cls
      pairs).federation.federates.lookup c.federate = some fs') {k : ObjectClassHandle × AttributeHandle} :
    (fs'.pubSub.subscribedAttrsRegions.get k).keys = [] ↔
      (fs.pubSub.subscribedAttrsRegions.get k).keys = [] ∨ TakesLast c fed cls pairs k := by
  simp only [HashSet.keys_eq_nil_iff, mem_regions_unsubscribe hfs hfs', not_and_not_right]
  constructor
  · intro hall
    by_cases hnone : ∀ v, v ∉ fs.pubSub.subscribedAttrsRegions.get k
    · exact .inl hnone
    · obtain ⟨v, hv⟩ := not_forall_not.mp hnone
      refine .inr ⟨(hall v hv).1, fs, hfs, ?_, fun v hv => (hall v hv).2⟩
      exact fun hnil => hnone (HashSet.keys_eq_nil_iff.mp hnil)
  · rintro (hnone | ⟨hcls, _, hfs₁, _, htaken⟩) v hv
    · exact absurd hv (hnone v)
    · cases hfs.symm.trans hfs₁
      exact ⟨hcls, htaken v hv⟩

/-- After the call the regions admit an instance if the last was taken, or if they
did before. -/
theorem admits_of_unsubscribe (hfs : fed.federates.lookup c.federate = some fs)
    (hfs' : (unsubscribeObjectClassAttributesWithRegions c fed cls
      pairs).federation.federates.lookup c.federate = some fs') {i : ObjectInstance} {k : ObjectClassHandle} {a : AttributeHandle}
    (hadm : (unsubscribeObjectClassAttributesWithRegions c fed cls pairs).federation.Admits
      i fs' k a) : TakesLast c fed cls pairs (k, a) ∨ fed.Admits i fs k a := by
  have hregions : (unsubscribeObjectClassAttributesWithRegions c fed cls pairs).federation.regions =
      fed.regions := touches_unsubscribe .regions (by decide)
  rcases hadm with hinst | hsub | ⟨p, hp, v, hv, hoverlap⟩
  · exact .inr (.inl hinst)
  · rcases (keys_regions_unsubscribe hfs hfs').mp hsub with hnone | htaken
    · exact .inr (.inr (.inl hnone))
    · exact .inl htaken
  · rw [hregions] at hoverlap
    exact .inr (.inr (.inr ⟨p, hp, v, ((mem_regions_unsubscribe hfs hfs').mp hv).1, hoverlap⟩))

end Unsubscribe

/-- **When unsubscribing with regions widens nothing.** -/
theorem unsubscribe_narrows_iff (c : Caller) (fed : Federation) (cls : WireField)
    (pairs : WireRegionPairs) :
    UnsubscribeNarrows c fed cls pairs ↔ LastRegionsAdmit c fed cls pairs := by
  obtain ⟨fed', hfed'⟩ : ∃ fed', fed' =
      (unsubscribeObjectClassAttributesWithRegions c fed cls pairs).federation := ⟨_, rfl⟩
  have ht : fed.Touches [.federate .subscribedRegions] fed' := hfed' ▸ touches_unsubscribe
  have hholds : ∀ i attrs k a, fed'.Holds i attrs c.federate k a ↔
      fed.Holds i attrs c.federate k a := by
    intro i attrs k a
    have hmodel : (fed'.name, fed'.fom) = (fed.name, fed.fom) := ht .model (by decide)
    have hfom : fed'.fom = fed.fom := congrArg Prod.snd hmodel
    have hsubs : fed'.subscriptions = fed.subscriptions := ht .subscriptions (by decide)
    rw [Federation.Holds, Federation.Holds, hsubs, hfom]
  constructor
  · intro hnarrow c' inst values h vs i hu fs hfs hconn hne hheld ⟨a, ha, htaken⟩
    obtain ⟨fs', hfs', _⟩ := ht.lookup_after (by decide) hfs
    have hempty := (keys_regions_unsubscribe hfs (hfed' ▸ hfs')).mpr (.inr htaken)
    have hafter : Reflected c' fed' inst values [] c.federate :=
      (reflected_iff_of_touches ht (by decide) (by decide)).mpr ⟨h, vs, i, fs, fs', hu, hfs, hfs',
        hconn, ⟨hne, by simpa only [hholds] using hheld⟩, a, ha, .inr (.inl hempty)⟩
    obtain ⟨h₁, vs₁, i₁, fs₁, hu₁, hfs₁, _, _, hadm⟩ :=
      reflected_iff.mp (hnarrow fed' hfed' c' inst values [] hafter)
    obtain ⟨rfl, rfl, rfl⟩ := hu.unique hu₁
    cases hfs.symm.trans hfs₁
    exact hadm
  · rintro hadmit fed₁ hfed₁ c' inst values tag hafter
    cases hfed₁.trans hfed'.symm
    obtain ⟨h, vs, i, fs, fs', hu, hfs, hfs', hconn, ⟨hne, hheld⟩, a, ha, hadm'⟩ :=
      (reflected_iff_of_touches ht (by decide) (by decide)).mp hafter
    simp only [hholds] at hheld
    refine reflected_iff.mpr ⟨h, vs, i, fs, hu, hfs, hconn, ⟨hne, hheld⟩, ?_⟩
    rcases admits_of_unsubscribe hfs (hfed' ▸ hfs') (hfed' ▸ hadm') with htaken | hadm
    · exact hadmit c' inst values h vs i hu fs hfs hconn hne hheld ⟨a, ha, htaken⟩
    · exact ⟨a, ha, hadm⟩

/-- Unsubscribing with regions widens nothing. -/
def FedAction.Narrows (fed : Federation) : FedAction → Prop
  | serve c (.region (.unsubscribeObjectClassAttributesWithRegions cls pairs)) =>
    UnsubscribeNarrows c fed cls pairs
  | _ => True

/-- **The last region.**  Federate 2 takes back the one region of its subscription,
and gets the updates the region kept away. -/
theorem Node.unsubscribe_widens :
    ¬ (run Node.step Node.new (regionsApart ++ [subscribesApart (wire32 2)])).Meets
      (fun fed a => a.Narrows fed)
      (.serves 1 (.region (.unsubscribeObjectClassAttributesWithRegions (wire32 2)
        (some [⟨some [[0, 0, 0, 1]], some [[0, 0, 0, 0, 0, 0, 0, 2]]⟩])))) := by
  generalize hes : regionsApart ++ [subscribesApart (wire32 2)] = es
  generalize hpairs : some [WireRegionPair.mk (some [[0, 0, 0, 1]]) _] = pairs
  have hodd : ∃ m ∈ ((run Node.step Node.new es).sessions.lookup 1).bind Session.membership,
      let n := run Node.step Node.new es
      let c := n.caller m .plain
      let fed := n.heap m.federation
      let fed' := (serve c fed (.region
        (.unsubscribeObjectClassAttributesWithRegions (wire32 2) pairs))).federation
      let c' := n.caller ⟨m.federation, ⟨1⟩, "federate-00000001"⟩ .plain
      ∃ vs ∈ (decodeAttributeValueMap (some [(wire32 1, [])])).toOption,
      ∃ i ∈ (ownedInstance c' fed ⟨1⟩ vs.keys).toOption,
        c.federate ∈ updateRecipients c' fed' ⟨1⟩ i.cls vs.keys ∧
        (fed'.recipient c' c.federate).isSome = true ∧
        c.federate ∉ updateRecipients c' fed ⟨1⟩ i.cls vs.keys := by
    subst hes hpairs
    decide +kernel
  obtain ⟨m, hm, vs, hvs, i, hi, hafter, hrecv, hbefore⟩ := hodd
  intro hmeets
  have hu : AcceptedUpdate _ _ (wire64 1) (some [(wire32 1, [])]) ⟨1⟩ vs i :=
    ⟨by decide, toOption_eq_some.mp hvs, toOption_eq_some.mp hi⟩
  have hnarrow : UnsubscribeNarrows _ _ (wire32 2) pairs :=
    hmeets _ (Node.action_of_membership hm .plain _)
  refine hbefore (hu.reflected_iff_mem.mp (hnarrow _ rfl _ _ _ [] ?_)).1
  refine (AcceptedUpdate.reflected_iff_mem ?_).mpr ⟨hafter, hrecv⟩
  exact (AcceptedUpdate.congr (touches_unsubscribe .instances (by decide))).mpr hu

/-! ## A plain subscription -/

/-- After a successful subscription without regions, an update of one of its
attributes on an instance of its class, by another federate, is reflected to the
subscriber. -/
def SubscribesUnrestricted (c : Caller) (fed : Federation) (form : SubscribeForm) (cls : WireField)
    (attrs : WireSet) : Prop :=
  ∀ o, o = serve c fed (.declaration (.subscribeObjectClassAttributes form cls attrs)) →
    o.response.accepted = true →
    ∀ k set, objectClassArg cls = .ok k → decodeHandleSet attrs = .ok set →
    ∀ c' inst values tag h vs i, AcceptedUpdate c' o.federation inst values h vs i → i.cls = k →
      (∃ a ∈ vs.keys, a ∈ set) → c.federate ≠ c'.federate →
      (∃ fs, o.federation.federates.lookup c.federate = some fs ∧ fs.sessionId ∈ c'.connections) →
      Reflected c' o.federation inst values tag c.federate

/-- The regions recorded for the subscriber admit one of the attributes of every
such update. -/
def RecordedRegionsAdmit (c : Caller) (fed : Federation) (form : SubscribeForm) (cls : WireField)
    (attrs : WireSet) : Prop :=
  (serve c fed (.declaration (.subscribeObjectClassAttributes form cls attrs))).response.accepted =
      true →
    ∀ k set, objectClassArg cls = .ok k → decodeHandleSet attrs = .ok set →
    ∀ c' inst values h vs i, AcceptedUpdate c' fed inst values h vs i → i.cls = k →
      (∃ a ∈ vs.keys, a ∈ set) → c.federate ≠ c'.federate →
      ∀ fs, fed.federates.lookup c.federate = some fs → fs.sessionId ∈ c'.connections →
      ∃ a ∈ vs.keys, fed.Admits i fs k a

/-- After a successful subscription the caller holds it: it is in the matrix, and its
class is defined. -/
theorem holds_subscribe {c : Caller} {fed : Federation} {cls : WireField} {attrs : WireSet}
    {set : HashSet AttributeHandle} {i : ObjectInstance} {updated : List AttributeHandle}
    {a : AttributeHandle}
    (hacc : (subscribeObjectClassAttributes c fed cls attrs).response.accepted = true)
    (hk : objectClassArg cls = .ok i.cls) (hset : decodeHandleSet attrs = .ok set)
    (ha : a ∈ updated) (haset : a ∈ set) :
    (subscribeObjectClassAttributes c fed cls attrs).federation.Holds i updated c.federate i.cls
      a := by
  obtain ⟨k, hk', ho⟩ := bind_eq_ok.mp (Outcome.ofExcept_accepted hacc)
  obtain ⟨set', hset', ho⟩ := bind_eq_ok.mp ho
  obtain ⟨k', hk'', hdef⟩ := bind_eq_ok.mp hk'
  obtain ⟨_, hdef, hk'⟩ := bind_eq_ok.mp hdef
  cases hk'
  cases hk.symm.trans hk''
  cases hset.symm.trans hset'
  rw [show subscribeObjectClassAttributes c fed cls attrs = _ from (Except.ok.inj ho).symm]
  refine ⟨ha, ?_, ?_⟩
  · exact Omt.MergedFom.mem_inheritanceChain.mpr
      ⟨AList.lookup_isSome.mp (require_eq_ok.mp hdef), .refl⟩
  · exact SubscriptionMatrix.subscribes_subscribeAll.mpr
      (.inl ⟨rfl, rfl, AList.mem_keys.mp haset⟩)

/-- **When a plain subscription is unrestricted.** -/
theorem subscribe_unrestricted_iff (c : Caller) (fed : Federation) (form : SubscribeForm)
    (cls : WireField) (attrs : WireSet) :
    SubscribesUnrestricted c fed form cls attrs ↔ RecordedRegionsAdmit c fed form cls attrs := by
  obtain ⟨o, ho⟩ : ∃ o, o = subscribeObjectClassAttributes c fed cls attrs := ⟨_, rfl⟩
  have ht : fed.Touches [.federate .subscribed, .subscriptions] o.federation := by
    subst ho
    exact Outcome.ofExcept_of (Q := fun o => fed.Touches _ o.federation) (fun _ => .refl)
      (.bind fun _ _ => .bind fun _ _ => .pure touches_resubscribe)
  have hadmits : ∀ fs fs', fed.federates.lookup c.federate = some fs →
      o.federation.federates.lookup c.federate = some fs' →
      ∀ i k a, o.federation.Admits i fs' k a ↔ fed.Admits i fs k a := by
    intro fs fs' hfs hfs' i k a
    have hregions : o.federation.regions = fed.regions := ht .regions (by decide)
    have hrecorded : fs'.pubSub.subscribedAttrsRegions = fs.pubSub.subscribedAttrsRegions :=
      ht.get_eq (p := .subscribedRegions) (by decide) hfs hfs'
    rw [Federation.Admits, Federation.Admits, hregions, hrecorded]
  have hinst : o.federation.objectInstances = fed.objectInstances := ht .instances (by decide)
  constructor
  · intro hunrestricted hacc k set hk hset c' inst values h vs i hu hi hcommon hne fs hfs hconn
    obtain ⟨fs', hfs', hsession⟩ := ht.lookup_after (by decide) hfs
    have hreflected := hunrestricted o ho (ho ▸ hacc) k set hk hset c' inst values [] h vs i
      ((AcceptedUpdate.congr hinst).mpr hu) hi hcommon hne ⟨fs', hfs', hsession ▸ hconn⟩
    obtain ⟨h₁, vs₁, i₁, fs₁, fs₂, hu₁, hfs₁, hfs₂, _, _, a, ha, hadm⟩ :=
      (reflected_iff_of_touches ht (by decide) (by decide)).mp hreflected
    obtain ⟨rfl, rfl, rfl⟩ := hu.unique hu₁
    cases hfs.symm.trans hfs₁
    exact ⟨a, ha, hi ▸ (hadmits fs fs₂ hfs hfs₂ _ _ a).mp hadm⟩
  · rintro hadmit o₁ ho₁ hacc k set hk hset c' inst values tag h vs i hu' rfl hcommon hne
      ⟨fs', hfs', hconn'⟩
    cases ho₁.trans ho.symm
    have hok : (subscribeObjectClassAttributes c fed cls attrs).response.accepted = true :=
      ho ▸ hacc
    obtain ⟨fs, hfs, hsession⟩ := ht.lookup_before (by decide) hfs'
    have hu := (AcceptedUpdate.congr hinst).mp hu'
    have hconn : fs.sessionId ∈ c'.connections := hsession ▸ hconn'
    obtain ⟨a, ha, hadm⟩ :=
      hadmit hok i.cls set hk hset c' inst values h vs i hu rfl hcommon hne fs hfs hconn
    refine (reflected_iff_of_touches ht (by decide) (by decide)).mpr ⟨h, vs, i, fs, fs', hu, hfs,
      hfs', hconn, ⟨hne, ?_⟩, a, ha, (hadmits fs fs' hfs hfs' _ _ a).mpr hadm⟩
    obtain ⟨b, hb, hbset⟩ := hcommon
    exact ⟨i.cls, b, ho ▸ holds_subscribe hok hk hset hb hbset⟩

/-- A plain subscription is unrestricted. -/
def FedAction.Unrestricts (fed : Federation) : FedAction → Prop
  | serve c (.declaration (.subscribeObjectClassAttributes form cls attrs)) =>
    SubscribesUnrestricted c fed form cls attrs
  | _ => True

/-- **Regions stay.**  Federate 2, subscribed with its region, subscribes without;
the region still keeps the update away. -/
theorem Node.subscribe_stays_restricted :
    ¬ (run Node.step Node.new (regionsApart ++ [subscribesApart (wire32 2)])).Meets
      (fun fed a => a.Unrestricts fed)
      (.serves 1 (.declaration (.subscribeObjectClassAttributes .plain (wire32 2)
        (some [[0, 0, 0, 1]])))) := by
  generalize hes : regionsApart ++ [subscribesApart (wire32 2)] = es
  have hodd : ∃ m ∈ ((run Node.step Node.new es).sessions.lookup 1).bind Session.membership,
      let n := run Node.step Node.new es
      let c := n.caller m .plain
      let fed := n.heap m.federation
      let o := serve c fed (.declaration (.subscribeObjectClassAttributes .plain (wire32 2)
        (some [[0, 0, 0, 1]])))
      let c' := n.caller ⟨m.federation, ⟨1⟩, "federate-00000001"⟩ .plain
      o.response.accepted = true ∧
      (∃ fs ∈ o.federation.federates.lookup c.federate, fs.sessionId ∈ c'.connections) ∧
      c.federate ≠ c'.federate ∧
      ∃ k ∈ (objectClassArg (wire32 2)).toOption,
      ∃ set ∈ (decodeHandleSet (some [[0, 0, 0, 1]])).toOption,
      ∃ vs ∈ (decodeAttributeValueMap (some [(wire32 1, [])])).toOption,
      ∃ i ∈ (ownedInstance c' o.federation ⟨1⟩ vs.keys).toOption, i.cls = k ∧
        (∃ a ∈ vs.keys, a ∈ set) ∧
        c.federate ∉ updateRecipients c' o.federation ⟨1⟩ i.cls vs.keys := by
    subst hes
    decide +kernel
  obtain ⟨m, hm, hacc, hconn, hne, k, hk, set, hset, vs, hvs, i, hi, hcls, hcommon, hnot⟩ := hodd
  intro hmeets
  have hu : AcceptedUpdate _ _ (wire64 1) (some [(wire32 1, [])]) ⟨1⟩ vs i :=
    ⟨by decide, toOption_eq_some.mp hvs, toOption_eq_some.mp hi⟩
  have hunrestricted : SubscribesUnrestricted _ _ .plain (wire32 2) (some [[0, 0, 0, 1]]) :=
    hmeets _ (Node.action_of_membership hm .plain _)
  have hreflected := hunrestricted _ rfl hacc k set (toOption_eq_some.mp hk)
    (toOption_eq_some.mp hset) _ _ _ [] _ vs i hu hcls hcommon hne hconn
  exact hnot (hu.reflected_iff_mem.mp hreflected).1

end Hla4
