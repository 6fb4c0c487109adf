/-
# `Hla4.Rti.Safety.Discovery` — instances as one federate sees them

A federate watches the instances of its federation: it is told of a discovery,
of updates and of a removal.  Its record in the server is a `Watcher` of
`Hla4.Lib.Watch`: the instances marked discovered are the known ones, and its
timestamp queue holds updates and removals back (`FederateSession.watch`).

    service                    moves
    register, update           appear (by the discovered mark), then change or hold
    delete                     vanish, or defer if timestamped and ahead
    local delete by itself     forget
    advance                    deliver, up to the time granted
    everything else            nothing

`serve_sees` says so for every call and every federate, connected or not: the
call is a sequence of possible moves, and what it tells is what they log.  A
guard on announcements and removals goes along (`ObjectRequest.Permits`); the
discipline needs none.
-/
import Hla4.Lib.Watch
import Hla4.Rti.Node

namespace Hla4

open Lib

/-! ## News -/

abbrev InstanceNews := News ObjectInstanceHandle

namespace CallbackRequest

/-- What a callback tells of an instance. -/
def news? : CallbackRequest → Option InstanceNews
  | discoverObjectInstance inst .. => some (.appears inst)
  | reflectAttributeValues inst .. => some (.changes inst)
  | reflectAttributeValuesWithTime inst .. => some (.changes inst)
  | removeObjectInstance inst .. => some (.vanishes inst)
  | removeObjectInstanceWithTime inst .. => some (.vanishes inst)
  | _ => none

/-- What a queued callback will tell. -/
def held? : CallbackRequest → Option (Held ObjectInstanceHandle)
  | reflectAttributeValuesWithTime inst .. => some (.change inst)
  | removeObjectInstanceWithTime inst .. => some (.vanish inst)
  | _ => none

theorem news?_of_timestamp {body : CallbackRequest} {t : F64} (h : body.timestamp = some t) :
    body.news? = body.held?.map Held.news := by
  cases body <;> first | rfl | cases h

theorem news?_of_topic {body : CallbackRequest} (h : body.topic ≠ .object) : body.news? = none := by
  cases body <;> first | rfl | exact absurd rfl h

end CallbackRequest

/-- The news of instances in a list of callbacks, for one federate. -/
def told (h : FederateHandle) (callbacks : List OutboundCallback) : List InstanceNews :=
  (bodiesFor h callbacks).filterMap CallbackRequest.news?

/-- The news in a list of queued messages. -/
def heldBack (messages : List TsoMessage) : List (Held ObjectInstanceHandle) :=
  messages.filterMap fun m => m.callback.held?

/-- Whether a call reaches the federate with this record. -/
def Caller.sees (c : Caller) (fs : FederateSession) : Bool := decide (fs.sessionId ∈ c.connections)

/-- A federate's record, with the news it had, as a watcher. -/
def FederateSession.watch (fs : FederateSession) (l : List InstanceNews) :
    Watcher ObjectInstanceHandle :=
  ⟨l, {i | i ∈ fs.pubSub.discoveredInstances}, heldBack fs.tsoQueue.messages⟩

variable {c : Caller} {h : FederateHandle} {fed fed' fed'' : Federation}
  {cls : ObjectClassHandle} {producer : FederateHandle} {s candidates : HashSet FederateHandle}
  {body : CallbackRequest} {cb : TimedCallback} {callbacks : List OutboundCallback}
  {fs : FederateSession}

theorem told_append (a b : List OutboundCallback) : told h (a ++ b) = told h a ++ told h b := by
  rw [told, bodiesFor_append, List.filterMap_append]
  rfl

theorem told_eq_nil (hnone : ∀ cb ∈ callbacks, cb.federate = some h → cb.body.news? = none) :
    told h callbacks = [] := by
  rw [told, List.filterMap_eq_nil_iff]
  intro body hbody
  obtain ⟨cb, hcb, rfl⟩ := List.mem_map.mp hbody
  obtain ⟨hmem, hfed⟩ := List.mem_filter.mp hcb
  exact hnone cb hmem (of_decide_eq_true hfed)

/-- A body fanned out to a set tells its news to whoever is in the set and
reached. -/
theorem told_live (hfs : fed.federates.lookup h = some fs) :
    told h (fanOut (fed.liveConnections c s) body) =
      if h ∈ s ∧ c.sees fs = true then body.news?.toList else [] := by
  have hsees : (fed.recipient c h).isSome = true ↔ c.sees fs = true :=
    (Federation.isSome_recipient hfs).trans decide_eq_true_iff.symm
  rw [told, Federation.bodiesFor_live]
  simp only [hsees]
  split
  · cases hb : body.news? <;> simp [hb]
  · rfl

theorem told_live_absent (hfs : fed.federates.lookup h = none) :
    told h (fanOut (fed.liveConnections c s) body) = [] := by
  rw [told, Federation.bodiesFor_live, Federation.recipient_eq_none hfs, if_neg (by simp)]
  rfl

theorem heldBack_split (fs : FederateSession) (t : Timestamp) :
    heldBack fs.tsoQueue.messages = heldBack (fs.tsoQueue.upTo t) ++ heldBack (fs.tsoQueue.after t) := by
  rw [← fs.tsoQueue.upTo_append_after t, heldBack, List.filterMap_append]
  rfl

theorem heldBack_cons (m : TsoMessage) (messages : List TsoMessage) :
    heldBack (m :: messages) = m.callback.held?.toList ++ heldBack messages := by
  rw [heldBack, List.filterMap_cons]
  cases m.callback.held? <;> rfl

theorem heldBack_insert (q : TsoQueue) (msg : TsoMessage) :
    heldBack (q.insert msg).messages = heldBack (q.upTo msg.time) ++
      (msg.callback.held?.toList ++ heldBack (q.after msg.time)) := by
  show heldBack (q.upTo msg.time ++ msg :: q.after msg.time) = _
  rw [heldBack, List.filterMap_append]
  exact congrArg _ (heldBack_cons msg _)

/-! ## A call as seen by one federate -/

/-- A guard on the moves of a watcher that is reached or not. -/
abbrev Guard := Bool → Watcher ObjectInstanceHandle → Watcher.Move ObjectInstanceHandle → Prop

/-- From `fed` to `fed'` federate `h`, which had the news `l`, gets `news`: by
possible moves that meet the guard.  One that is not joined gets none. -/
structure Sees (c : Caller) (h : FederateHandle) (ok : Guard) (l : List InstanceNews)
    (fed : Federation) (news : List InstanceNews) (fed' : Federation) : Prop where
  absent : fed.federates.lookup h = none → news = [] ∧ fed'.federates.lookup h = none
  joined : ∀ fs, fed.federates.lookup h = some fs → ∃ fs', fed'.federates.lookup h = some fs' ∧
    fs'.sessionId = fs.sessionId ∧
    Watcher.Comes (c.sees fs) (ok (c.sees fs)) (fs.watch l) (fs'.watch (l ++ news))

/-- What a watcher depends on. -/
def watchedParts : List Part := [.federate .identity, .federate .discovered, .federate .queue]

namespace Sees

variable {ok : Guard} {l news news' : List InstanceNews}

theorem refl : Sees c h ok l fed [] fed where
  absent := fun hfs => ⟨rfl, hfs⟩
  joined := fun fs hfs => ⟨fs, hfs, rfl, .of_eq (by rw [List.append_nil])⟩

theorem trans (ha : Sees c h ok l fed news fed') (hb : Sees c h ok (l ++ news) fed' news' fed'') :
    Sees c h ok l fed (news ++ news') fed'' where
  absent := by
    intro hfs
    obtain ⟨rfl, hfs'⟩ := ha.absent hfs
    exact hb.absent hfs'
  joined := by
    intro fs hfs
    obtain ⟨fs', hfs', hid, hmoves⟩ := ha.joined fs hfs
    obtain ⟨fs'', hfs'', hid', hmoves'⟩ := hb.joined fs' hfs'
    have hsees : c.sees fs' = c.sees fs := by rw [Caller.sees, Caller.sees, hid]
    rw [hsees, List.append_assoc] at hmoves'
    exact ⟨fs'', hfs'', hid'.trans hid, hmoves.trans hmoves'⟩

theorem tell {a b : List OutboundCallback} (ha : Sees c h ok l fed (told h a) fed')
    (hb : Sees c h ok (l ++ told h a) fed' (told h b) fed'') :
    Sees c h ok l fed (told h (a ++ b)) fed'' :=
  told_append a b ▸ ha.trans hb

theorem of_touches {ps : List Part} (ht : fed.Touches ps fed') (hps : ∀ p ∈ watchedParts, p ∉ ps) :
    Sees c h ok l fed [] fed' where
  absent := by
    intro hfs
    have := ht.federate (hps _ (by decide)) (p := .identity) h
    rw [hfs, Option.map_none, Option.map_eq_none_iff] at this
    exact ⟨rfl, this⟩
  joined := by
    intro fs hfs
    have hsome := ht.federate (hps _ (by decide)) (p := .identity) h
    rw [hfs, Option.map_some, Option.map_eq_some_iff] at hsome
    obtain ⟨fs', hfs', hid⟩ := hsome
    have hdisc : fs'.pubSub.discoveredInstances = fs.pubSub.discoveredInstances :=
      ht.get_eq (hps _ (by decide)) (p := .discovered) hfs hfs'
    have hqueue : fs'.tsoQueue = fs.tsoQueue :=
      ht.get_eq (hps _ (by decide)) (p := .queue) hfs hfs'
    refine ⟨fs', hfs', congrArg (fun i => i.2.2.2) hid, .of_eq ?_⟩
    rw [FederateSession.watch, FederateSession.watch, hdisc, hqueue, List.append_nil]

theorem quiet {ps : List Part} (ht : fed.Touches ps fed') (hps : ∀ p ∈ watchedParts, p ∉ ps)
    (hnone : ∀ cb ∈ callbacks, cb.body.news? = none) :
    Sees c h ok l fed (told h callbacks) fed' :=
  told_eq_nil (fun cb hcb _ => hnone cb hcb) ▸ of_touches ht hps

end Sees

section Moves

variable {ok : Guard} {l : List InstanceNews} {inst : ObjectInstanceHandle}

/-! ## Announcements -/

/-- A record with an instance marked discovered. -/
def FederateSession.mark (fs : FederateSession) (inst : ObjectInstanceHandle) : FederateSession :=
  { fs with pubSub := { fs.pubSub with
      discoveredInstances := fs.pubSub.discoveredInstances.insert inst } }

/-- A record with the mark taken off. -/
def FederateSession.unmark (fs : FederateSession) (inst : ObjectInstanceHandle) : FederateSession :=
  { fs with pubSub := { fs.pubSub with
      discoveredInstances := fs.pubSub.discoveredInstances.erase inst } }

theorem watch_mark (fs : FederateSession) :
    (fs.mark inst).watch l = { fs.watch l with known := insert inst (fs.watch l).known } := by
  have hknown : {i | i ∈ fs.pubSub.discoveredInstances.insert inst} =
      insert inst {i | i ∈ fs.pubSub.discoveredInstances} := Set.ext fun i => HashSet.mem_insert
  exact congrArg (fun known => Watcher.mk l known _) hknown

theorem watch_unmark (fs : FederateSession) :
    (fs.unmark inst).watch l = { fs.watch l with known := (fs.watch l).known \ {inst} } := by
  have hknown : {i | i ∈ fs.pubSub.discoveredInstances.erase inst} =
      {i | i ∈ fs.pubSub.discoveredInstances} \ {inst} :=
    Set.ext fun i => AList.mem_erase.trans and_comm
  exact congrArg (fun known => Watcher.mk l known _) hknown

theorem lookup_discover :
    (fed.discover candidates inst).federates.lookup h =
      (fed.federates.lookup h).map fun fs => if h ∈ candidates then fs.mark inst else fs :=
  HashMap.lookup_mapValues _ _ _

theorem mem_undiscovered (hfs : fed.federates.lookup h = some fs) :
    h ∈ fed.undiscovered candidates inst ↔
      h ∈ candidates ∧ inst ∉ fs.pubSub.discoveredInstances := by
  rw [Federation.undiscovered, HashSet.mem_filter, hfs, decide_eq_true_eq]

/-- An announcement is made to those for whom the instance is new. -/
theorem sees_discovery {name : String}
    (hok : ∀ fs, fed.federates.lookup h = some fs → inst ∉ fs.pubSub.discoveredInstances →
      ok (c.sees fs) (fs.watch l) (.appear inst)) :
    Sees c h ok l fed (told h (notifyDiscovery c fed candidates inst cls name producer).2)
      (notifyDiscovery c fed candidates inst cls name producer).1 := by
  constructor
  · intro hfs
    have hnone : (fed.discover candidates inst).federates.lookup h = none := by
      rw [lookup_discover, hfs]
      rfl
    exact ⟨told_live_absent hnone, hnone⟩
  · intro fs hfs
    have hfs' : (fed.discover candidates inst).federates.lookup h =
        some (if h ∈ candidates then fs.mark inst else fs) := by
      rw [lookup_discover, hfs]
      rfl
    have hid : (if h ∈ candidates then fs.mark inst else fs).sessionId = fs.sessionId := by
      split <;> rfl
    have hsees : c.sees (if h ∈ candidates then fs.mark inst else fs) = c.sees fs := by
      rw [Caller.sees, Caller.sees, hid]
    refine ⟨_, hfs', hid, ?_⟩
    show Watcher.Comes _ _ _ (FederateSession.watch _ (l ++ told h (fanOut _ _)))
    have hnew : h ∈ fed.undiscovered candidates inst ↔ _ := mem_undiscovered hfs
    rw [told_live hfs', hsees]
    by_cases hcand : h ∈ candidates
    · rw [if_pos hcand, watch_mark]
      by_cases hdisc : inst ∈ fs.pubSub.discoveredInstances
      · have hsame : insert inst (fs.watch l).known = (fs.watch l).known :=
          Set.insert_eq_of_mem hdisc
        refine .of_eq ?_
        rw [if_neg fun hn => (hnew.mp hn.1).2 hdisc, List.append_nil, hsame]
      · refine .move (.appear inst) hdisc (hok fs hfs hdisc) ?_
        show Watcher.mk (if c.sees fs = true then l ++ [.appears inst] else l) _ _ = _
        by_cases hseen : c.sees fs = true
        · rw [if_pos hseen, if_pos ⟨hnew.mpr ⟨hcand, hdisc⟩, hseen⟩]
          rfl
        · rw [if_neg hseen, if_neg fun hn => hseen hn.2, List.append_nil]
          rfl
    · refine .of_eq ?_
      rw [if_neg hcand, if_neg fun hn => hcand (hnew.mp hn.1).1, List.append_nil]

theorem sees_discoverySubset
    (hok : ∀ fs, fed.federates.lookup h = some fs → inst ∉ fs.pubSub.discoveredInstances →
      ok (c.sees fs) (fs.watch l) (.appear inst)) :
    Sees c h ok l fed
      (told h (notifySubscribersOfRegistrationSubset c fed inst cls producer candidates).2)
      (notifySubscribersOfRegistrationSubset c fed inst cls producer candidates).1 := by
  rw [notifySubscribersOfRegistrationSubset]
  split
  · exact .refl
  · exact sees_discovery hok

/-- Afterwards the candidates know the instance. -/
theorem known_of_candidate (hinst : inst ∈ fed.objectInstances)
    (hfs : (notifySubscribersOfRegistrationSubset c fed inst cls producer
      candidates).1.federates.lookup h = some fs) (hcand : h ∈ candidates) :
    inst ∈ fs.pubSub.discoveredInstances := by
  obtain ⟨i, hi⟩ := HashMap.mem_iff_lookup.mp hinst
  rw [notifySubscribersOfRegistrationSubset, hi] at hfs
  have hlook : (fed.discover candidates inst).federates.lookup h = some fs := hfs
  rw [lookup_discover, Option.map_eq_some_iff] at hlook
  obtain ⟨fs₀, _, rfl⟩ := hlook
  rw [if_pos hcand]
  exact HashSet.mem_insert.mpr (.inl rfl)

/-! ## Changes -/

theorem comes_change {p : Prop} [Decidable p] (hlen : ∀ seen, Watcher.Lenient (ok seen))
    (hknown : p → inst ∈ fs.pubSub.discoveredInstances) :
    Watcher.Comes (c.sees fs) (ok (c.sees fs)) (fs.watch l)
      (fs.watch (l ++ if p ∧ c.sees fs = true then [.changes inst] else [])) := by
  split
  · next hrec =>
      refine .move (.change inst) (hknown hrec.1) ((hlen _).change ..) ?_
      show Watcher.mk (if c.sees fs = true then l ++ [.changes inst] else l) _ _ = _
      rw [if_pos hrec.2]
      rfl
  · exact .of_eq (by rw [List.append_nil])

theorem sees_change {recipients : HashSet FederateHandle} (hlen : ∀ seen, Watcher.Lenient (ok seen))
    (hbody : body.news? = some (.changes inst))
    (hknown : ∀ fs, fed.federates.lookup h = some fs → h ∈ recipients →
      inst ∈ fs.pubSub.discoveredInstances) :
    Sees c h ok l fed (told h (fanOut (fed.liveConnections c recipients) body)) fed := by
  refine ⟨fun hfs => ⟨told_live_absent hfs, hfs⟩, fun fs hfs => ⟨fs, hfs, rfl, ?_⟩⟩
  rw [told_live hfs, hbody]
  exact comes_change hlen (hknown fs hfs)

/-- Whether a timestamped callback is told now, and the record after it. -/
theorem routed_cases (hfs : fed.federates.lookup h = some fs) :
    (∃ msg, fs.holdsBack cb = some msg ∧ h ∈ s ∧ msg.callback = cb.body ∧
      told h (routeTsoOrImmediate c fed s cb).2 = [] ∧
      (routeTsoOrImmediate c fed s cb).1.federates.lookup h =
        some { fs with tsoQueue := fs.tsoQueue.insert msg }) ∨
    ((h ∈ s → fs.holdsBack cb = none) ∧
      told h (routeTsoOrImmediate c fed s cb).2 =
        (if h ∈ s ∧ c.sees fs = true then cb.body.news?.toList else []) ∧
      (routeTsoOrImmediate c fed s cb).1.federates.lookup h = some fs) := by
  have htold : told h (routeTsoOrImmediate c fed s cb).2 =
      if (h ∈ s ∧ fs.holdsBack cb = none) ∧ c.sees fs = true then cb.body.news?.toList else [] := by
    refine (told_live hfs).trans (if_congr (and_congr_left' ?_) rfl rfl)
    rw [HashSet.mem_filter, hfs, Option.isNone_iff_eq_none]
  rw [htold, lookup_route, hfs, Option.map_some]
  cases hb : fs.holdsBack cb with
  | none =>
    refine .inr ⟨fun _ => rfl, ?_, rfl⟩
    simp
  | some msg =>
    dsimp only
    by_cases hmem : h ∈ s
    · refine .inl ⟨msg, rfl, hmem, (holdsBack_eq_some.mp hb).2.2, ?_, ?_⟩
      · rw [if_neg fun hn => absurd hn.1.2 (Option.some_ne_none msg)]
      · rw [if_pos hmem]
    · refine .inr ⟨fun hs => absurd hs hmem, ?_, ?_⟩
      · rw [if_neg fun hn => hmem hn.1.1, if_neg fun hn => hmem hn.1]
      · rw [if_neg hmem]

theorem routed_absent (hfs : fed.federates.lookup h = none) :
    told h (routeTsoOrImmediate c fed s cb).2 = [] ∧
      (routeTsoOrImmediate c fed s cb).1.federates.lookup h = none :=
  ⟨told_live_absent hfs, by rw [lookup_route, hfs]; rfl⟩

theorem sees_routedChange (hlen : ∀ seen, Watcher.Lenient (ok seen))
    (hbody : cb.body.held? = some (.change inst))
    (hknown : ∀ fs, fed.federates.lookup h = some fs → h ∈ s →
      inst ∈ fs.pubSub.discoveredInstances) :
    Sees c h ok l fed (told h (routeTsoOrImmediate c fed s cb).2)
      (routeTsoOrImmediate c fed s cb).1 := by
  refine ⟨routed_absent, fun fs hfs => ?_⟩
  rcases @routed_cases c h fed s cb fs hfs with
    ⟨msg, _, hmem, hmsg, hnews, hfs'⟩ | ⟨_, hnews, hfs'⟩
  · refine ⟨_, hfs', rfl, ?_⟩
    rw [hnews, List.append_nil]
    refine .move (.hold inst (heldBack (fs.tsoQueue.upTo msg.time))
      (heldBack (fs.tsoQueue.after msg.time))) ⟨hknown fs hfs hmem, heldBack_split fs _⟩
      ((hlen _).hold ..) ?_
    refine congrArg (Watcher.mk l _) ?_
    rw [heldBack_insert, hmsg, hbody]
    rfl
  · refine ⟨fs, hfs', rfl, ?_⟩
    rw [hnews, CallbackRequest.news?_of_timestamp cb.stamped, hbody]
    exact comes_change hlen (hknown fs hfs)

theorem sees_routedOther (hbody : cb.body.held? = none) :
    Sees c h ok l fed (told h (routeTsoOrImmediate c fed s cb).2)
      (routeTsoOrImmediate c fed s cb).1 := by
  refine ⟨routed_absent, fun fs hfs => ?_⟩
  rcases @routed_cases c h fed s cb fs hfs with
    ⟨msg, _, _, hmsg, hnews, hfs'⟩ | ⟨_, hnews, hfs'⟩
  · refine ⟨_, hfs', rfl, .of_eq ?_⟩
    rw [hnews, List.append_nil]
    refine congrArg (Watcher.mk l _) ?_
    rw [heldBack_insert, hmsg, hbody]
    exact heldBack_split fs msg.time
  · refine ⟨fs, hfs', rfl, .of_eq ?_⟩
    rw [hnews, CallbackRequest.news?_of_timestamp cb.stamped, hbody]
    simp

/-! ## Removals -/

/-- The removals of an instance in a federate's queue. -/
def Federation.removalsQueued (fed : Federation) (h : FederateHandle)
    (inst : ObjectInstanceHandle) : Nat :=
  match fed.federates.lookup h with
  | none => 0
  | some fs => (heldBack fs.tsoQueue.messages).count (.vanish inst)

/-- Between `fed` and `fed'` a removal of the instance was told or queued. -/
def removalMade (h : FederateHandle) (inst : ObjectInstanceHandle) (fed fed' : Federation)
    (callbacks : List OutboundCallback) : List InstanceNews :=
  if .vanishes inst ∈ told h callbacks ∨ fed.removalsQueued h inst < fed'.removalsQueued h inst then
    [.ends inst]
  else []

theorem removalMade_absent (hnews : told h callbacks = []) (hfs' : fed'.federates.lookup h = none) :
    removalMade h inst fed fed' callbacks = [] := by
  refine if_neg ?_
  rw [hnews, Federation.removalsQueued, Federation.removalsQueued, hfs']
  rintro (hmem | hlt)
  · cases hmem
  · exact absurd hlt (Nat.not_lt_zero _)

/-- Where the queue is as before, a removal is made by telling it. -/
theorem told_removalMade {fs' : FederateSession} {p : Prop} [Decidable p]
    (hfs : fed.federates.lookup h = some fs) (hfs' : fed'.federates.lookup h = some fs')
    (hq : fs'.tsoQueue = fs.tsoQueue)
    (hnews : told h callbacks = if p then [.vanishes inst] else []) :
    told h callbacks ++ removalMade h inst fed fed' callbacks =
      if p then [.vanishes inst, .ends inst] else [] := by
  have hlt : ¬ fed.removalsQueued h inst < fed'.removalsQueued h inst := by
    rw [Federation.removalsQueued, Federation.removalsQueued, hfs, hfs']
    dsimp only
    rw [hq]
    exact Nat.lt_irrefl _
  rw [removalMade, hnews]
  by_cases hp : p
  · simp [hp]
  · simp [hp, hlt]

theorem removalMade_queued {fs' : FederateSession} {msg : TsoMessage}
    (hfs : fed.federates.lookup h = some fs) (hfs' : fed'.federates.lookup h = some fs')
    (hq : fs'.tsoQueue = fs.tsoQueue.insert msg) (hmsg : msg.callback.held? = some (.vanish inst)) :
    removalMade h inst fed fed' callbacks = [.ends inst] := by
  refine if_pos (.inr ?_)
  rw [Federation.removalsQueued, Federation.removalsQueued, hfs, hfs']
  dsimp only
  rw [hq, heldBack_insert, hmsg, heldBack_split fs msg.time]
  simp only [List.count_append, Option.toList_some, List.count_singleton_self]
  omega

/-- A federate's record after a deletion: the deleter keeps its mark. -/
def FederateSession.bereft (fs : FederateSession) (h deleter : FederateHandle)
    (inst : ObjectInstanceHandle) : FederateSession :=
  if h = deleter then fs else fs.unmark inst

section Bereft

variable {fs : FederateSession} {deleter : FederateHandle}

theorem bereft_sessionId : (fs.bereft h deleter inst).sessionId = fs.sessionId := by
  rw [FederateSession.bereft]
  split <;> rfl

theorem bereft_tsoQueue : (fs.bereft h deleter inst).tsoQueue = fs.tsoQueue := by
  rw [FederateSession.bereft]
  split <;> rfl

theorem bereft_holdsBack :
    (fs.bereft h deleter inst).holdsBack cb = fs.holdsBack cb := by
  rw [FederateSession.bereft]
  split <;> rfl

theorem sees_bereft : c.sees (fs.bereft h deleter inst) = c.sees fs := by
  rw [Caller.sees, Caller.sees, bereft_sessionId]

theorem lookup_removeInstance :
    (fed.removeInstance inst deleter).federates.lookup h =
      (fed.federates.lookup h).map fun fs => fs.bereft h deleter inst :=
  HashMap.lookup_mapValues _ _ _

end Bereft

theorem mem_discoverers {deleter : FederateHandle} (hfs : fed.federates.lookup h = some fs) :
    h ∈ fed.discoverers inst deleter ↔ h ≠ deleter ∧ inst ∈ fs.pubSub.discoveredInstances := by
  rw [Federation.discoverers, HashSet.mem_ofList, List.mem_filter, hfs]
  have hkey := AList.mem_keys.mp (HashMap.mem_of_lookup hfs)
  simp [hkey]

/-- Whoever does not hear of a deletion did not know the instance, or made it
and goes on knowing it. -/
theorem watch_removed_of_not_mem {deleter : FederateHandle} (hfs : fed.federates.lookup h = some fs)
    (hmem : h ∉ fed.discoverers inst deleter) :
    (fs.bereft h deleter inst).watch l = fs.watch l := by
  rw [FederateSession.bereft]
  split
  · rfl
  · next hne =>
      have hnot : inst ∉ fs.pubSub.discoveredInstances :=
        fun hd => hmem ((mem_discoverers hfs).mpr ⟨hne, hd⟩)
      have hsame : (fs.watch l).known \ {inst} = (fs.watch l).known :=
        Set.sdiff_singleton_eq_self hnot
      rw [watch_unmark, hsame]

theorem after_vanish (fs : FederateSession) {seen : Bool} :
    (fs.watch l).after seen (.vanish inst) =
      (fs.unmark inst).watch (l ++ if seen = true then [.vanishes inst, .ends inst] else []) := by
  rw [watch_unmark]
  cases seen with
  | true => rfl
  | false => rw [if_neg Bool.false_ne_true, List.append_nil]; rfl

theorem comes_removal (hfs : fed.federates.lookup h = some fs)
    (hok : h ∈ fed.discoverers inst c.federate → ok (c.sees fs) (fs.watch l) (.vanish inst)) :
    Watcher.Comes (c.sees fs) (ok (c.sees fs)) (fs.watch l)
      ((fs.bereft h c.federate inst).watch (l ++
        if h ∈ fed.discoverers inst c.federate ∧ c.sees fs = true then
          [.vanishes inst, .ends inst] else [])) := by
  by_cases hmem : h ∈ fed.discoverers inst c.federate
  · rw [FederateSession.bereft, if_neg ((mem_discoverers hfs).mp hmem).1]
    refine .move (.vanish inst) trivial (hok hmem) ?_
    rw [after_vanish]
    simp only [hmem, true_and]
  · rw [watch_removed_of_not_mem hfs hmem, if_neg fun hn => hmem hn.1, List.append_nil]
    exact .refl

theorem sees_removal (hbody : body.news? = some (.vanishes inst))
    (hok : ∀ fs, fed.federates.lookup h = some fs → h ∈ fed.discoverers inst c.federate →
      ok (c.sees fs) (fs.watch l) (.vanish inst)) :
    let gone := fed.removeInstance inst c.federate
    let callbacks := fanOut (gone.liveConnections c (fed.discoverers inst c.federate)) body
    Sees c h ok l fed (told h callbacks ++ removalMade h inst fed gone callbacks) gone := by
  intro gone callbacks
  constructor
  · intro hfs
    have hnone : gone.federates.lookup h = none := by
      rw [lookup_removeInstance, hfs]
      rfl
    rw [removalMade_absent (told_live_absent hnone) hnone, told_live_absent hnone]
    exact ⟨rfl, hnone⟩
  · intro fs hfs
    have hfs' : gone.federates.lookup h = some (fs.bereft h c.federate inst) := by
      rw [lookup_removeInstance, hfs]
      rfl
    have hnews := @told_live c h _ (fed.discoverers inst c.federate) body _ hfs'
    rw [sees_bereft, hbody] at hnews
    refine ⟨_, hfs', bereft_sessionId, ?_⟩
    rw [told_removalMade hfs hfs' bereft_tsoQueue hnews]
    exact comes_removal hfs (hok fs hfs)

/-- The message of a timestamped deletion. -/
def timedRemoval (inst : ObjectInstanceHandle) (tag : Bytes) (producer : FederateHandle)
    (time : F64) : TimedCallback :=
  ⟨time, .removeObjectInstanceWithTime inst tag producer time, rfl⟩

/-- What a timestamped removal does to the record it meets. -/
def FederateSession.removalMove (fs : FederateSession) (inst : ObjectInstanceHandle)
    (cb : TimedCallback) : Watcher.Move ObjectInstanceHandle :=
  match fs.holdsBack cb with
  | none => .vanish inst
  | some msg =>
    .defer inst (heldBack (fs.tsoQueue.upTo msg.time)) (heldBack (fs.tsoQueue.after msg.time))

/-- A timestamped removal is told to the discoverers or queued for them. -/
theorem sees_routedRemoval (hbody : cb.body.held? = some (.vanish inst))
    (hok : ∀ fs, fed.federates.lookup h = some fs → h ∈ fed.discoverers inst c.federate →
      ok (c.sees fs) (fs.watch l) (fs.removalMove inst cb)) :
    let routed := routeTsoOrImmediate c (fed.removeInstance inst c.federate)
      (fed.discoverers inst c.federate) cb
    Sees c h ok l fed (told h routed.2 ++ removalMade h inst fed routed.1 routed.2) routed.1 := by
  intro routed
  constructor
  · intro hfs
    have hgone : (fed.removeInstance inst c.federate).federates.lookup h = none := by
      rw [lookup_removeInstance, hfs]
      rfl
    obtain ⟨hnews, hnone⟩ : told h routed.2 = [] ∧ routed.1.federates.lookup h = none :=
      routed_absent hgone
    rw [removalMade_absent hnews hnone, hnews]
    exact ⟨rfl, hnone⟩
  · intro fs hfs
    have hgone : (fed.removeInstance inst c.federate).federates.lookup h =
        some (fs.bereft h c.federate inst) := by
      rw [lookup_removeInstance, hfs]
      rfl
    rcases @routed_cases c h _ (fed.discoverers inst c.federate) cb _ hgone with
      ⟨msg, hmsg, hmem, hcb, hnews, hfs'⟩ | ⟨hnone, hnews, hfs'⟩
    · -- queued
      have hmove := hok fs hfs hmem
      rw [bereft_holdsBack] at hmsg
      rw [FederateSession.removalMove, hmsg] at hmove
      rw [FederateSession.bereft, if_neg ((mem_discoverers hfs).mp hmem).1] at hfs'
      refine ⟨_, hfs', rfl, ?_⟩
      rw [removalMade_queued hfs hfs' rfl (hcb ▸ hbody), hnews, List.nil_append]
      refine .move (.defer inst (heldBack (fs.tsoQueue.upTo msg.time))
        (heldBack (fs.tsoQueue.after msg.time))) (heldBack_split fs msg.time) hmove ?_
      have hunmark : ((fs.unmark inst).watch l).known = (fs.watch l).known \ {inst} := by
        rw [watch_unmark]
      have hqueue : heldBack (fs.tsoQueue.insert msg).messages =
          heldBack (fs.tsoQueue.upTo msg.time) ++
            Held.vanish inst :: heldBack (fs.tsoQueue.after msg.time) := by
        rw [heldBack_insert, hcb, hbody]
        rfl
      exact (congrArg₂ (Watcher.mk (l ++ [.ends inst])) hunmark hqueue).symm
    · -- told, or not heard of
      rw [sees_bereft, CallbackRequest.news?_of_timestamp cb.stamped, hbody] at hnews
      refine ⟨_, hfs', bereft_sessionId, ?_⟩
      rw [told_removalMade hfs hfs' bereft_tsoQueue hnews]
      refine comes_removal hfs fun hmem => ?_
      have hmove := hok fs hfs hmem
      rw [FederateSession.removalMove, ← bereft_holdsBack, hnone hmem] at hmove
      exact hmove

/-! ## Deliveries -/

theorem Sees.of_lookup (hlook : fed'.federates.lookup h = fed.federates.lookup h) :
    Sees c h ok l fed [] fed' where
  absent := fun hfs => ⟨rfl, hlook.trans hfs⟩
  joined := fun fs hfs => ⟨fs, hlook.trans hfs, rfl, .of_eq (by rw [List.append_nil])⟩

theorem Sees.then_lookup {news : List InstanceNews} (ha : Sees c h ok l fed news fed')
    (hlook : fed''.federates.lookup h = fed'.federates.lookup h) : Sees c h ok l fed news fed'' :=
  List.append_nil news ▸ ha.trans (.of_lookup hlook)

theorem Sees.of_lookup_then {news : List InstanceNews}
    (hlook : fed'.federates.lookup h = fed.federates.lookup h)
    (hb : Sees c h ok l fed' news fed'') : Sees c h ok l fed news fed'' :=
  (Sees.of_lookup hlook).trans ((List.append_nil l).symm ▸ hb)

theorem told_queued (hfs : fed.federates.lookup h = some fs) (messages : List TsoMessage) :
    told h (messages.flatMap fun m => fanOut (fed.ownConnection c h) m.callback) =
      if c.sees fs = true then (heldBack messages).map Held.news else [] := by
  induction messages with
  | nil => split <;> rfl
  | cons m messages ih =>
    rw [List.flatMap_cons, told_append, ih, Federation.ownConnection, told_live hfs,
      CallbackRequest.news?_of_timestamp m.stamped, heldBack_cons]
    by_cases hseen : c.sees fs = true
    · cases m.callback.held? <;> simp [hseen]
    · simp [hseen]

theorem sees_drain (hlen : ∀ seen, Watcher.Lenient (ok seen)) {k : FederateHandle} {t : ℚ} :
    Sees c h ok l fed (told h (drainTsoUpTo c fed k t).2) (drainTsoUpTo c fed k t).1 := by
  by_cases hk : h = k
  · subst hk
    rw [drainTsoUpTo]
    cases hfs : fed.federates.lookup h with
    | none => exact .refl
    | some fs =>
      have hfs' : (fed.modifyFederate h fun fs =>
          { fs with tsoQueue := fs.tsoQueue.drain t }).federates.lookup h =
            some { fs with tsoQueue := fs.tsoQueue.drain t } := by
        rw [Federation.modifyFederate, HashMap.lookup_modify_self, hfs]
        rfl
      refine ⟨fun hnone => absurd (hfs.symm.trans hnone) (Option.some_ne_none fs), ?_⟩
      intro fs₁ hfs₁
      cases hfs.symm.trans hfs₁
      refine ⟨_, hfs', rfl, ?_⟩
      rw [told_queued hfs']
      have hsplit : fs.watch l = ⟨l, {i | i ∈ fs.pubSub.discoveredInstances},
          heldBack (fs.tsoQueue.upTo t) ++ heldBack (fs.tsoQueue.after t)⟩ :=
        congrArg (Watcher.mk l _) (heldBack_split fs t)
      rw [hsplit]
      exact (hlen (c.sees fs)).deliverAll l _ _ _
  · have hnone : told h (drainTsoUpTo c fed k t).2 = [] := by
      refine told_eq_nil ?_
      intro cb hcb hfed
      obtain ⟨_, fs, _, hrecv⟩ := drainTsoUpTo_fromQueue hcb
      rw [OutboundCallback.federate, hrecv] at hfed
      exact absurd (Option.some.inj hfed).symm hk
    rw [hnone]
    refine .of_lookup ?_
    rw [drainTsoUpTo]
    cases fed.federates.lookup k with
    | none => rfl
    | some => exact HashMap.lookup_modify_ne _ hk _

theorem sees_drainAll (hlen : ∀ seen, Watcher.Lenient (ok seen)) (gs : List (FederateHandle × ℚ)) :
    Sees c h ok l fed (told h (drainAll c fed gs).2) (drainAll c fed gs).1 := by
  induction gs generalizing fed l with
  | nil => exact .refl
  | cons g gs ih => exact (sees_drain hlen).tell ih

theorem sees_grants :
    Sees c h ok l fed (told h (fed.tryGrantPendingAdvances c).callbacks)
      (fed.tryGrantPendingAdvances c).federation := by
  refine .quiet Federation.tryGrantPendingAdvances_touches (by decide) ?_
  intro cb hcb
  obtain ⟨g, _, hbody, _⟩ := Federation.tryGrantPendingAdvances_callbacks hcb
  rw [hbody]
  rfl

theorem sees_grantsWithTso (hlen : ∀ seen, Watcher.Lenient (ok seen)) :
    Sees c h ok l fed (told h (tryGrantPendingAdvancesWithTso c fed).callbacks)
      (tryGrantPendingAdvancesWithTso c fed).federation :=
  (sees_drainAll hlen _).tell sees_grants

theorem told_own_eq_nil {k : FederateHandle} (hbody : body.news? = none) :
    told h (fanOut (fed.ownConnection c k) body) = [] :=
  told_eq_nil fun _ hcb _ => (Federation.mem_fanOut_own hcb).1 ▸ hbody

theorem sees_grantAtOnce (hlen : ∀ seen, Watcher.Lenient (ok seen)) (t : ℚ) :
    Sees c h ok l fed (told h (grantAtOnce c fed t).callbacks) (grantAtOnce c fed t).federation := by
  have hgrant : Sees c h ok l fed [] (fed.grant c.federate t) :=
    .of_touches (Federation.touches_grant _ _) (by decide)
  have hdrain := hgrant.trans (sees_drain hlen (k := c.federate) (t := t))
  rw [List.nil_append] at hdrain
  have hpass := hdrain.tell (sees_grantsWithTso hlen)
  rw [told_append] at hpass
  show Sees c h ok l fed (told h ((_ ++ _) ++ _)) _
  rw [told_append, told_append, told_own_eq_nil rfl, List.append_nil]
  exact hpass

theorem serveTime_sees (hlen : ∀ seen, Watcher.Lenient (ok seen)) (r : TimeRequest) :
    Sees c h ok l fed (told h (serveTime c fed r).callbacks) (serveTime c fed r).federation := by
  -- a section changes a time state only
  have hsec : ∀ {s : TimeSection}, timeSection c fed r = .ok s → Sees c h ok l fed [] s.federation :=
    fun hs => .of_touches (touches_section hs) (by decide)
  have after : ∀ {s : TimeSection} {news : List InstanceNews} {fed' : Federation},
      timeSection c fed r = .ok s → Sees c h ok (l ++ []) s.federation news fed' →
      Sees c h ok l fed news fed' :=
    fun hs hb => (hsec hs).trans hb
  have hown : ∀ {fed' : Federation} {own : List OutboundCallback}, RoleNotice c fed' own →
      told h own = [] := by
    intro fed' own hown
    cases hown with
    | nothing => rfl
    | regulates | constrains => exact told_own_eq_nil rfl
  have heff := @serveTime_effect c fed r
  generalize serveTime c fed r = o at heff ⊢
  cases heff with
  | rejects => exact .refl
  | @changes s _ own _ hs hn =>
    show Sees c h ok l fed (told h own) s.federation
    rw [hown hn]
    exact hsec hs
  | passes _ hs hn =>
    rw [told_append, hown hn]
    exact after hs sees_grants
  | @advances s t _ _ _ hs _ =>
    refine after hs ?_
    rw [advancePass]
    split
    · exact sees_grantAtOnce hlen _
    · exact sees_grantsWithTso hlen

end Moves

/-! ## The services -/

/-- What happens to a federate's view in a call without a callback: a removal
is made for it, or it forgets an instance itself. -/
def ServiceRequest.unheard (c : Caller) (fed : Federation) (h : FederateHandle) :
    ServiceRequest → List InstanceNews
  | .object (.deleteObjectInstance inst tag) =>
    let o := deleteObjectInstance c fed inst tag
    (inst.bind decodeObjectInstance).toList.flatMap fun i =>
      removalMade h i fed o.federation o.callbacks
  | .object (.deleteObjectInstanceWithTime inst tag stamp) =>
    let o := deleteObjectInstanceWithTime c fed inst tag stamp
    (inst.bind decodeObjectInstance).toList.flatMap fun i =>
      removalMade h i fed o.federation o.callbacks
  | .object (.localDeleteObjectInstance inst) =>
    if c.federate = h ∧ h ∈ fed.federates then
      (inst.bind decodeObjectInstance).toList.map .forgets
    else []
  | _ => []

/-- The news of an action for one federate. -/
def FedAction.news (fed : Federation) (h : FederateHandle) : FedAction → List InstanceNews
  | serve c req => told h (Hla4.serve c fed req).callbacks ++ req.unheard c fed h
  | _ => []

/-- An instance is announced if it is not marked. -/
def FederateSession.announcement (fs : FederateSession) (inst : ObjectInstanceHandle) :
    Option (Watcher.Move ObjectInstanceHandle) :=
  if inst ∈ fs.pubSub.discoveredInstances then none else some (.appear inst)

/-- The announcement or the removal a request can make for the federate with
this record. -/
def ObjectRequest.move? (c : Caller) (fed : Federation) (h : FederateHandle)
    (fs : FederateSession) : ObjectRequest → Option (Watcher.Move ObjectInstanceHandle)
  | registerObjectInstance _ => fs.announcement ⟨fed.nextObjectId⟩
  | registerObjectInstanceWithName .. => fs.announcement ⟨fed.nextObjectId⟩
  | registerObjectInstanceWithRegions .. => fs.announcement ⟨fed.nextObjectId⟩
  | registerObjectInstanceWithNameAndRegions .. => fs.announcement ⟨fed.nextObjectId⟩
  | updateAttributeValues inst _ _ => do
      let inst ← inst.bind decodeObjectInstance
      if inst ∈ fed.objectInstances then fs.announcement inst else none
  | updateAttributeValuesWithTime inst _ _ _ => do
      let inst ← inst.bind decodeObjectInstance
      if inst ∈ fed.objectInstances then fs.announcement inst else none
  | deleteObjectInstance inst _ => do
      let inst ← inst.bind decodeObjectInstance
      let _ ← (checkDeletable c fed inst).toOption
      if h ∈ fed.discoverers inst c.federate then some (.vanish inst) else none
  | deleteObjectInstanceWithTime inst tag time => do
      let inst ← inst.bind decodeObjectInstance
      let time ← (decodeLogicalTime time "").toOption
      let _ ← (checkDeletable c fed inst).toOption
      if h ∈ fed.discoverers inst c.federate then
        some (fs.removalMove inst (timedRemoval inst tag c.federate time))
      else none
  | _ => none

/-- That move, for the federate of handle `h` with the news `l`, meets the
guard. -/
def ObjectRequest.Permits (r : ObjectRequest) (ok : Guard) (c : Caller) (fed : Federation)
    (h : FederateHandle) (l : List InstanceNews) : Prop :=
  ∀ fs ∈ fed.federates.lookup h, ∀ m ∈ r.move? c fed h fs, ok (c.sees fs) (fs.watch l) m

section Services

variable {ok : Guard} {l : List InstanceNews} {inst : WireField} {tag : Bytes}

theorem announcement_eq_some {inst : ObjectInstanceHandle}
    (hnew : inst ∉ fs.pubSub.discoveredInstances) : fs.announcement inst = some (.appear inst) :=
  if_neg hnew

theorem registerObjectInstance_sees {cls : WireField} {name : Option String} {form : RegisterForm}
    (hok : ∀ fs ∈ fed.federates.lookup h, ∀ m ∈ fs.announcement ⟨fed.nextObjectId⟩,
      ok (c.sees fs) (fs.watch l) m) :
    Sees c h ok l fed (told h ((registerObjectInstance c fed cls name).outcome form).callbacks)
      ((registerObjectInstance c fed cls name).outcome form).federation := by
  rw [registerObjectInstance]
  split
  · exact .refl
  · dsimp only
    split
    · exact .of_lookup rfl
    · refine .of_lookup_then ?_ (sees_discovery ?_)
      · rfl
      · intro fs hfs hnew
        exact hok fs hfs _ (announcement_eq_some hnew)

theorem registerObjectInstanceWithRegions_sees {cls : WireField} {name : Option String}
    {pairs : WireRegionPairs} {form : RegisterForm}
    (hok : ∀ fs ∈ fed.federates.lookup h, ∀ m ∈ fs.announcement ⟨fed.nextObjectId⟩,
      ok (c.sees fs) (fs.watch l) m) :
    Sees c h ok l fed
      (told h ((registerObjectInstanceWithRegions c fed cls name pairs).outcome form).callbacks)
      ((registerObjectInstanceWithRegions c fed cls name pairs).outcome form).federation := by
  have hplain := @registerObjectInstance_sees c h fed ok l cls name form hok
  cases hr : (registerObjectInstance c fed cls name).result with
  | error =>
    simp only [registerObjectInstanceWithRegions, hr, Registration.outcome] at hplain ⊢
    exact hplain
  | ok =>
    simp only [registerObjectInstanceWithRegions, hr, Registration.outcome] at hplain ⊢
    exact hplain.then_lookup rfl

theorem mem_objectInstances_of_owned {inst : ObjectInstanceHandle} {attrs : List AttributeHandle}
    {i : ObjectInstance} (hi : ownedInstance c fed inst attrs = .ok i) :
    inst ∈ fed.objectInstances := by
  simp only [ownedInstance, bind_eq_ok, getOr_eq_ok] at hi
  obtain ⟨i', hi', _⟩ := hi
  exact HashMap.mem_of_lookup hi'

/-- An update first announces its instance to who does not know it. -/
theorem sees_announcement {r : ObjectRequest} {i : ObjectInstanceHandle}
    (hmove : ∀ fs, r.move? c fed h fs = (inst.bind decodeObjectInstance).bind fun i =>
      if i ∈ fed.objectInstances then fs.announcement i else none) (hperm : r.Permits ok c fed h l)
    (hi : inst.bind decodeObjectInstance = some i) (hinst : i ∈ fed.objectInstances) :
    Sees c h ok l fed
      (told h (notifySubscribersOfRegistrationSubset c fed i cls producer candidates).2)
      (notifySubscribersOfRegistrationSubset c fed i cls producer candidates).1 := by
  refine sees_discoverySubset fun fs hfs hnew => hperm fs hfs _ ?_
  rw [hmove, hi, Option.bind_some, if_pos hinst]
  exact announcement_eq_some hnew

theorem updateAttributeValues_sees (hlen : ∀ seen, Watcher.Lenient (ok seen))
    {values : WireValueMap}
    (hperm : (ObjectRequest.updateAttributeValues inst values tag).Permits ok c fed h l) :
    Sees c h ok l fed (told h (updateAttributeValues c fed inst values tag).callbacks)
      (updateAttributeValues c fed inst values tag).federation := by
  refine Outcome.ofExcept_of (Q := fun o => Sees c h ok l fed (told h o.callbacks) o.federation)
    (fun _ => .refl) (.bind fun i hi => .bind fun vs _ => .bind fun rec hrec => .pure ?_)
  have hinst := mem_objectInstances_of_owned hrec
  refine (sees_announcement (fun _ => rfl) hperm (getOr_eq_ok.mp hi) hinst).tell
    (sees_change hlen rfl ?_)
  exact fun fs hfs hmem => known_of_candidate hinst hfs hmem

theorem updateAttributeValuesWithTime_sees (hlen : ∀ seen, Watcher.Lenient (ok seen))
    {values : WireValueMap} {time : WireField}
    (hperm : (ObjectRequest.updateAttributeValuesWithTime inst values tag time).Permits
      ok c fed h l) :
    Sees c h ok l fed (told h (updateAttributeValuesWithTime c fed inst values tag time).callbacks)
      (updateAttributeValuesWithTime c fed inst values tag time).federation := by
  refine Outcome.ofExcept_of (Q := fun o => Sees c h ok l fed (told h o.callbacks) o.federation)
    (fun _ => .refl) (.bind fun i hi => .bind fun vs _ => .bind fun t _ => .bind fun rec hrec =>
      .bind fun _ _ => .pure ?_)
  have hinst := mem_objectInstances_of_owned hrec
  refine (sees_announcement (fun _ => rfl) hperm (getOr_eq_ok.mp hi) hinst).tell
    (sees_routedChange hlen rfl ?_)
  exact fun fs hfs hmem => known_of_candidate hinst hfs hmem

theorem removalMade_rejected {inst : ObjectInstanceHandle} {e : ExceptionData} :
    removalMade h inst fed (Outcome.reject fed e).federation (Outcome.reject fed e).callbacks = [] := by
  refine if_neg ?_
  rintro (hmem | hlt)
  · cases hmem
  · exact absurd hlt (Nat.lt_irrefl _)

/-- What a federate sees of a deletion, from the instance it removes. -/
theorem sees_deletion {x : Except ExceptionData Outcome}
    (hx : Yields x fun o => ∃ i, inst.bind decodeObjectInstance = some i ∧
      Sees c h ok l fed (told h o.callbacks ++ removalMade h i fed o.federation o.callbacks)
        o.federation) :
    let o := Outcome.ofExcept fed x
    Sees c h ok l fed (told h o.callbacks ++
      (inst.bind decodeObjectInstance).toList.flatMap fun i =>
        removalMade h i fed o.federation o.callbacks) o.federation := by
  refine Outcome.ofExcept_of (Q := fun o => Sees c h ok l fed (told h o.callbacks ++
    (inst.bind decodeObjectInstance).toList.flatMap fun i =>
      removalMade h i fed o.federation o.callbacks) o.federation) (fun _ => ?_) fun o ho => ?_
  · rw [List.flatMap_eq_nil_iff.mpr fun _ _ => removalMade_rejected]
    exact .refl
  · obtain ⟨i, hi, hsees⟩ := hx o ho
    rw [hi, Option.toList_some, List.flatMap_singleton]
    exact hsees

theorem deleteObjectInstance_sees
    (hperm : (ObjectRequest.deleteObjectInstance inst tag).Permits ok c fed h l) :
    Sees c h ok l fed (told h (deleteObjectInstance c fed inst tag).callbacks ++
      (ServiceRequest.object (.deleteObjectInstance inst tag)).unheard c fed h)
      (deleteObjectInstance c fed inst tag).federation := by
  refine sees_deletion (.bind fun i hi => .bind fun _ hdel => .pure ⟨i, getOr_eq_ok.mp hi, ?_⟩)
  refine sees_removal rfl fun fs hfs hmem => hperm fs hfs _ ?_
  rw [ObjectRequest.move?, getOr_eq_ok.mp hi, Option.bind_eq_bind, Option.bind_some, hdel]
  exact if_pos hmem

theorem deleteObjectInstanceWithTime_sees {time : WireField}
    (hperm : (ObjectRequest.deleteObjectInstanceWithTime inst tag time).Permits ok c fed h l) :
    Sees c h ok l fed (told h (deleteObjectInstanceWithTime c fed inst tag time).callbacks ++
      (ServiceRequest.object (.deleteObjectInstanceWithTime inst tag time)).unheard c fed h)
      (deleteObjectInstanceWithTime c fed inst tag time).federation := by
  refine sees_deletion (.bind fun i hi => .bind fun t ht => .bind fun _ hdel =>
    .pure ⟨i, getOr_eq_ok.mp hi, ?_⟩)
  refine sees_routedRemoval rfl fun fs hfs hmem => hperm fs hfs _ ?_
  show _ = some _
  simp only [ObjectRequest.move?, getOr_eq_ok.mp hi, ht, hdel, Except.toOption, Option.bind_eq_bind,
    Option.bind_some, if_pos hmem, timedRemoval]

theorem sees_forget (hlen : ∀ seen, Watcher.Lenient (ok seen)) {i : ObjectInstanceHandle} :
    Sees c h ok l fed (if c.federate = h ∧ h ∈ fed.federates then [.forgets i] else [])
      (fed.modifyPubSub c.federate fun ps =>
        { ps with discoveredInstances := ps.discoveredInstances.erase i }) := by
  by_cases hh : h = c.federate
  · subst hh
    refine ⟨fun hfs => ?_, fun fs hfs => ?_⟩
    · have habsent : c.federate ∉ fed.federates := AList.lookup_eq_none.mp hfs
      rw [if_neg fun hn => habsent hn.2]
      refine ⟨rfl, ?_⟩
      rw [Federation.modifyPubSub, Federation.modifyFederate, HashMap.lookup_modify_self, hfs]
      rfl
    · have hfs' : (fed.modifyPubSub c.federate fun ps =>
          { ps with discoveredInstances := ps.discoveredInstances.erase i }).federates.lookup
            c.federate = some (fs.unmark i) := by
        rw [Federation.modifyPubSub, Federation.modifyFederate, HashMap.lookup_modify_self, hfs]
        rfl
      refine ⟨_, hfs', rfl, ?_⟩
      rw [if_pos ⟨rfl, HashMap.mem_of_lookup hfs⟩, watch_unmark]
      exact .move (.forget i) trivial ((hlen _).forget ..) rfl
  · rw [if_neg fun hn => hh hn.1.symm]
    exact .of_lookup (HashMap.lookup_modify_ne _ hh _)

theorem localDeleteObjectInstance_sees (hlen : ∀ seen, Watcher.Lenient (ok seen)) :
    Sees c h ok l fed (told h (localDeleteObjectInstance c fed inst).callbacks ++
      (ServiceRequest.object (.localDeleteObjectInstance inst)).unheard c fed h)
      (localDeleteObjectInstance c fed inst).federation := by
  rw [localDeleteObjectInstance, ServiceRequest.unheard]
  cases inst.bind decodeObjectInstance with
  | none =>
    rw [show (if c.federate = h ∧ h ∈ fed.federates then Option.none.toList.map News.forgets
      else ([] : List InstanceNews)) = [] from ite_self _]
    exact .refl
  | some => exact sees_forget hlen

theorem serveObject_sees (hlen : ∀ seen, Watcher.Lenient (ok seen)) (r : ObjectRequest)
    (hperm : r.Permits ok c fed h l) :
    Sees c h ok l fed (told h (serveObject c fed r).callbacks ++
      (ServiceRequest.object r).unheard c fed h) (serveObject c fed r).federation := by
  -- most requests do nothing unheard
  have heard : ∀ {o : Outcome}, Sees c h ok l fed (told h o.callbacks) o.federation →
      Sees c h ok l fed (told h o.callbacks ++ []) o.federation :=
    fun ho => (List.append_nil _).symm ▸ ho
  cases r with
  | registerObjectInstance | registerObjectInstanceWithName =>
    exact heard (registerObjectInstance_sees hperm)
  | registerObjectInstanceWithRegions | registerObjectInstanceWithNameAndRegions =>
    exact heard (registerObjectInstanceWithRegions_sees hperm)
  | updateAttributeValues => exact heard (updateAttributeValues_sees hlen hperm)
  | updateAttributeValuesWithTime =>
    exact heard (updateAttributeValuesWithTime_sees hlen hperm)
  | sendInteraction =>
    refine heard (Outcome.ofExcept_of (Q := fun o => Sees c h ok l fed (told h o.callbacks)
      o.federation) (fun _ => .refl) (.bind fun _ _ => .pure ?_))
    refine .quiet (show Federation.Touches [] fed fed from .refl) (by decide) ?_
    exact @forall_fanOut (fun body => body.news? = none) _ _ rfl
  | sendInteractionWithTime =>
    refine heard (Outcome.ofExcept_of (Q := fun o => Sees c h ok l fed (told h o.callbacks)
      o.federation) (fun _ => .refl) (.bind fun _ _ => .bind fun _ _ => .pure ?_))
    exact sees_routedOther rfl
  | deleteObjectInstance => exact deleteObjectInstance_sees hperm
  | deleteObjectInstanceWithTime => exact deleteObjectInstanceWithTime_sees hperm
  | localDeleteObjectInstance => exact localDeleteObjectInstance_sees hlen

/-- The guard, for any service. -/
def ServiceRequest.Permits (req : ServiceRequest) (ok : Guard) (c : Caller) (fed : Federation)
    (h : FederateHandle) (l : List InstanceNews) : Prop :=
  ∀ r, req = .object r → r.Permits ok c fed h l

/-- **What a call is to a federate**: possible moves, told in order. -/
theorem serve_sees (hlen : ∀ seen, Watcher.Lenient (ok seen)) (req : ServiceRequest)
    (hperm : req.Permits ok c fed h l) :
    Sees c h ok l fed ((FedAction.serve c req).news fed h) (serve c fed req).federation := by
  -- the other services neither tell of instances nor touch what is watched
  have other : (∀ p ∈ watchedParts, p ∉ req.parts) → CallbackTopic.object ∉ req.topics →
      Sees c h ok l fed (told h (serve c fed req).callbacks ++ []) (serve c fed req).federation := by
    intro hparts htopic
    rw [List.append_nil]
    refine .quiet (serve_footprint req) hparts fun cb hcb => CallbackRequest.news?_of_topic ?_
    intro hobj
    exact htopic (hobj ▸ serve_topics req cb hcb)
  cases req with
  | object r => exact serveObject_sees hlen r (hperm r rfl)
  | time r =>
    show Sees c h ok l fed (told h (serveTime c fed r).callbacks ++ []) _
    rw [List.append_nil]
    exact serveTime_sees hlen r
  | _ =>
    exact other (by simp [watchedParts, ServiceRequest.parts]) (by simp [ServiceRequest.topics])

/-- The moves of a call for a federate it reaches, with no guard. -/
theorem serve_comes (req : ServiceRequest) (hfs : fed.federates.lookup h = some fs)
    (hconn : fs.sessionId ∈ c.connections) :
    ∃ fs', (serve c fed req).federation.federates.lookup h = some fs' ∧
      Watcher.Comes true (fun _ _ => True) (fs.watch [])
        (fs'.watch (told h (serve c fed req).callbacks ++ req.unheard c fed h)) := by
  have hsees : Sees c h (fun _ _ _ => True) [] fed ((FedAction.serve c req).news fed h)
      (serve c fed req).federation :=
    serve_sees (fun _ => Watcher.lenient_true) req fun _ _ _ _ _ _ => trivial
  obtain ⟨fs', hfs', _, hmoves⟩ := hsees.joined fs hfs
  rw [show c.sees fs = true from decide_eq_true hconn] at hmoves
  exact ⟨fs', hfs', hmoves⟩

/-- What goes unheard is an end, never a discovery. -/
theorem appears_not_unheard (req : ServiceRequest) {inst : ObjectInstanceHandle} :
    .appears inst ∉ req.unheard c fed h := by
  have made : ∀ {i : WireField} {fed' : Federation} {callbacks : List OutboundCallback},
      News.appears inst ∉ (i.bind decodeObjectInstance).toList.flatMap fun i =>
        removalMade h i fed fed' callbacks := by
    intro i fed' callbacks hmem
    obtain ⟨k, _, hmem⟩ := List.mem_flatMap.mp hmem
    rw [removalMade] at hmem
    split at hmem
    · cases List.mem_singleton.mp hmem
    · cases hmem
  intro hmem
  unfold ServiceRequest.unheard at hmem
  split at hmem
  · exact made hmem
  · exact made hmem
  · split at hmem
    · obtain ⟨_, _, hk⟩ := List.mem_map.mp hmem
      cases hk
    · cases hmem
  · cases hmem

end Services

/-! ## Whole runs -/

/-- What a federate has been told since it entered under its handle. -/
def newsLog (h : FederateHandle) (fed : Federation) (a : FedAction) (l : List InstanceNews) :
    List InstanceNews :=
  if a.enters fed h then [] else l ++ a.news fed h

/-- The news are `Q`, and while the federate is joined, its view is `P`. -/
def Views (Q : List InstanceNews → Prop) (P : Watcher ObjectInstanceHandle → Prop)
    (h : FederateHandle) (fed : Federation) (l : List InstanceNews) : Prop :=
  Q l ∧ ∀ fs, fed.federates.lookup h = some fs → P (fs.watch l)

/-- **The invariant rule for views**: what every permitted move keeps is kept by
the actions on a federation. -/
theorem views_apply {ok : Guard} {Q : List InstanceNews → Prop}
    {P : Watcher ObjectInstanceHandle → Prop} (hlen : ∀ seen, Watcher.Lenient (ok seen))
    (hstart : P ⟨[], ∅, []⟩) (hlog : ∀ w, P w → Q w.log) {l : List InstanceNews} {a : FedAction}
    (hkeep : ∀ c req, a = .serve c req → ∀ fs, fed.federates.lookup h = some fs →
      ∀ w m, P w → m.Allowed w ∧ ok (c.sees fs) w m → P (w.after (c.sees fs) m))
    (hperm : ∀ c req, a = .serve c req → req.Permits ok c fed h l) (hv : Views Q P h fed l) :
    Views Q P h (a.apply fed) (newsLog h fed a l) := by
  cases hent : a.enters fed h with
  | true =>
    rw [newsLog, hent, if_pos rfl]
    refine ⟨hlog _ hstart, ?_⟩
    intro fs hfs
    obtain ⟨name, sessionId, rfl⟩ := FedAction.lookup_of_enters hent hfs
    have hempty : {i | i ∈ (∅ : HashSet ObjectInstanceHandle)} = (∅ : Set _) :=
      Set.ext fun i => iff_of_false (AList.notMem_empty i) (Set.notMem_empty i)
    exact (congrArg (fun known => P ⟨[], known, []⟩) hempty).mpr hstart
  | false =>
    rw [newsLog, hent, if_neg Bool.false_ne_true]
    by_cases ha : ∃ c req, a = .serve c req
    · obtain ⟨c, req, rfl⟩ := ha
      have hsees := serve_sees hlen req (hperm c req rfl)
      cases hfs : fed.federates.lookup h with
      | none =>
        obtain ⟨hnews, hnone⟩ := hsees.absent hfs
        rw [hnews, List.append_nil]
        refine ⟨hv.1, ?_⟩
        intro fs' hfs'
        exact absurd (hnone.symm.trans hfs') (Option.some_ne_none fs').symm
      | some fs =>
        obtain ⟨fs', hfs', _, hmoves⟩ := hsees.joined fs hfs
        have hP := hmoves.keeps (hkeep c req rfl fs hfs) (hv.2 fs hfs)
        refine ⟨hlog _ hP, ?_⟩
        intro fs'' hfs''
        cases hfs'.symm.trans hfs''
        exact hP
    · have hnone : a.news fed h = [] := by
        cases a with
        | serve c req => exact absurd ⟨c, req, rfl⟩ ha
        | _ => rfl
      rw [hnone, List.append_nil]
      refine ⟨hv.1, ?_⟩
      intro fs hfs
      exact hv.2 fs (FedAction.lookup_of_membership (fun c req he => ha ⟨c, req, he⟩) hent hfs)

/-- Changes only after an announcement, and between two announcements an end
or a drop. -/
def InstanceDiscipline (l : List InstanceNews) : Prop :=
  ∀ i, Preceded (· = .appears i) (· = .changes i) l ∧
    Between (· = .appears i) (· = .appears i) (Watcher.Closes i) l

theorem disciplined_apply {l : List InstanceNews} {a : FedAction} (hreach : a.Reaches h fed)
    (hv : Views InstanceDiscipline Watcher.Disciplined h fed l) :
    Views InstanceDiscipline Watcher.Disciplined h (a.apply fed) (newsLog h fed a l) := by
  have hlen : ∀ seen, Watcher.Lenient ((fun _ _ _ => True : Guard) seen) :=
    fun _ => Watcher.lenient_true
  refine views_apply hlen Watcher.Disciplined.start (fun w hw i => ⟨hw.first i, hw.apart i⟩) ?_
    (fun _ _ _ _ _ _ _ _ _ => trivial) hv
  rintro c req rfl fs hfs w m hw hm
  have hsees : c.sees fs = true := decide_eq_true (hreach fs hfs)
  rw [hsees]
  exact hw.after m hm.1

/-- **Discovery discipline.**  In every run in which the calls on federation `r`
find federate `h` connected whenever it is joined, in what it has been told
since it entered: every reflection of an instance, immediate or from the queue,
comes after a discovery of the instance; and between two discoveries of an
instance a removal of it was told or queued for the federate, or the federate
deleted it locally. -/
theorem Node.discovery_disciplined (r : FedRef) (h : FederateHandle) {es : List NodeEvent}
    (hlive : StepsMeet Node.step (Node.MeetsAt r fun fed a => a.Reaches h fed) Node.new es) :
    Always (logged Node.step (Node.track r (newsLog h))) (fun s => InstanceDiscipline s.2)
      (Node.new, []) es := by
  have hnew : Views InstanceDiscipline Watcher.Disciplined h (.new "" .new) [] := by
    refine ⟨fun i => ⟨preceded_nil, between_nil⟩, ?_⟩
    intro fs hfs
    cases hfs
  have hviews := Node.track_always (I := Views InstanceDiscipline Watcher.Disciplined h) hnew
    (fun fed l a hv hreach => disciplined_apply hreach hv) hlive
  exact fun done hd => (hviews done hd).1

/-- An update of time 3 and a deletion at time 5, both queued for federate 2
until it goes there. -/
def pairWatching : List NodeEvent := pairUpdating ++
  [.serves 0 (.time (.enableTimeRegulation wireOne)), .serves 1 (.time .enableTimeConstrained),
    .serves 0 (updateAt wireThree),
    .serves 0 (.object (.deleteObjectInstanceWithTime (wire64 1) [] wireFive)),
    .serves 1 (advanceTo wireFive), .serves 0 (advanceTo wireFive)]

theorem Node.discovery_disciplined_pair :
    (run (logged Node.step (Node.track 0 (newsLog ⟨2⟩))) (Node.new, []) pairWatching).2 =
      [.appears ⟨1⟩, .ends ⟨1⟩, .changes ⟨1⟩, .vanishes ⟨1⟩] ∧
    Always (logged Node.step (Node.track 0 (newsLog ⟨2⟩))) (fun s => InstanceDiscipline s.2)
      (Node.new, []) pairWatching :=
  ⟨by decide +kernel, Node.discovery_disciplined 0 ⟨2⟩ (by decide +kernel)⟩

end Hla4
