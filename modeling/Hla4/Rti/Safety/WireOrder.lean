/-
# `Hla4.Rti.Safety.WireOrder` — discoveries and reflections on the wire

Within a call an instance is announced to a federate before it is reflected
(`Hla4.Rti.Safety.Discovery`).  The callbacks of the call are pushed afterwards,
by the loop of the session that made it, and another loop may be faster:

    loop 1    update dispatched: instance 1 is marked discovered for federate 2
    loop 2    dispatched: sees the mark, or the reflection in the queue
    loop 2    pushes the reflection to federate 2
    loop 1    pushes the discovery to federate 2

The wire keeps the order as long as a reflection waits for the discovery of its
instance that another loop still has to push (`discovery_before_reflection`).
Two more things are needed.  No discovery is dropped, as those of a call are whose
response cannot be sent.  And a session that is resumed gets a channel on which
nothing was announced, so its federate must not yet be aware of an instance.
-/
import Hla4.Lib.Outbox
import Hla4.Rti.Loops
import Hla4.Rti.Safety.Discovery
import Hla4.Rti.Safety.Isolation

namespace Hla4

open Lib

/-! ## What is on a channel and on its way to it -/

namespace CallbackRequest

/-- The instance a callback announces. -/
def discovers? (body : CallbackRequest) : Option ObjectInstanceHandle :=
  match body.news? with
  | some (.appears inst) => some inst
  | _ => none

/-- The instance a callback reflects. -/
def reflects? (body : CallbackRequest) : Option ObjectInstanceHandle :=
  match body.news? with
  | some (.changes inst) => some inst
  | _ => none

variable {body : CallbackRequest} {inst : ObjectInstanceHandle}

theorem discovers?_eq_some : body.discovers? = some inst ↔ body.news? = some (.appears inst) := by
  rw [discovers?]
  split
  · next h => rw [h, Option.some.injEq, Option.some.injEq, News.appears.injEq]
  · next hne => exact iff_of_false (fun h => by cases h) (hne inst)

theorem reflects?_eq_some : body.reflects? = some inst ↔ body.news? = some (.changes inst) := by
  rw [reflects?]
  split
  · next h => rw [h, Option.some.injEq, Option.some.injEq, News.changes.injEq]
  · next hne => exact iff_of_false (fun h => by cases h) (hne inst)

end CallbackRequest

/-- A discovery of the instance. -/
def Discovers (inst : ObjectInstanceHandle) (body : CallbackRequest) : Prop :=
  body.discovers? = some inst

/-- A reflection of the instance. -/
def Reflects (inst : ObjectInstanceHandle) (body : CallbackRequest) : Prop :=
  body.reflects? = some inst

instance (inst : ObjectInstanceHandle) (body : CallbackRequest) : Decidable (Discovers inst body) :=
  inferInstanceAs (Decidable (body.discovers? = some inst))

theorem not_reflects_of_topic {inst : ObjectInstanceHandle} {body : CallbackRequest}
    (h : body.topic ≠ .object) : ¬ Reflects inst body := by
  intro hr
  have hnews := CallbackRequest.reflects?_eq_some.mp hr
  rw [CallbackRequest.news?_of_topic h] at hnews
  cases hnews

section Push

variable {c : Channel} {f : OutFrame}

theorem callbacks_push {body : CallbackRequest} (ho : c.isOpen = true)
    (hf : f.callback? = some body) : (c.push f).callbacks = c.callbacks ++ [body] := by
  rw [Channel.push, if_pos ho, Channel.callbacks, List.filterMap_append]
  simp [Channel.callbacks, hf]

theorem callbacks_push_other (hf : f.callback? = none) : (c.push f).callbacks = c.callbacks := by
  rw [Channel.push]
  split
  · simp [Channel.callbacks, hf]
  · rfl

end Push

/-- Those of a list that are for channel `ch`. -/
def forChannel (ch : Nat) (l : List (Nat × CallbackRequest)) : List CallbackRequest :=
  l.filterMap fun c => if c.1 = ch then some c.2 else none

theorem mem_forChannel {ch : Nat} {l : List (Nat × CallbackRequest)} {body : CallbackRequest} :
    body ∈ forChannel ch l ↔ (ch, body) ∈ l := by
  rw [forChannel, List.mem_filterMap]
  constructor
  · rintro ⟨c, hc, he⟩
    split at he
    · next hch =>
        cases he
        exact hch ▸ hc
    · cases he
  · intro h
    exact ⟨(ch, body), h, if_pos rfl⟩

theorem forChannel_split {ch : Nat} {callbacks : List OutboundCallback} {l₁ l₂ : List CallbackRequest}
    {y : CallbackRequest} (h : forChannel ch (addressed callbacks) = l₁ ++ y :: l₂) :
    ∃ pre cb post, callbacks = pre ++ cb :: post ∧ cb.target.channel = ch ∧ cb.body = y ∧
      forChannel ch (addressed pre) = l₁ := by
  induction callbacks generalizing l₁ with
  | nil => simp [forChannel, addressed] at h
  | cons cb callbacks ih =>
    by_cases hch : cb.target.channel = ch
    · have hcons : forChannel ch (addressed (cb :: callbacks)) =
          cb.body :: forChannel ch (addressed callbacks) := by simp [forChannel, addressed, hch]
      rw [hcons] at h
      cases l₁ with
      | nil => exact ⟨[], cb, callbacks, rfl, hch, (List.cons.inj h).1, rfl⟩
      | cons =>
        obtain ⟨hx, hrest⟩ := List.cons.inj h
        obtain ⟨pre, cb', post, rfl, hch', hbody, rfl⟩ := ih hrest
        refine ⟨cb :: pre, cb', post, rfl, hch', hbody, ?_⟩
        simp [forChannel, addressed, hch, ← hx]
    · have hskip : ∀ cbs, forChannel ch (addressed (cb :: cbs)) = forChannel ch (addressed cbs) := by
        intro cbs
        simp [forChannel, addressed, hch]
      rw [hskip] at h
      obtain ⟨pre, cb', post, rfl, hch', hbody, rfl⟩ := ih h
      exact ⟨cb :: pre, cb', post, rfl, hch', hbody, hskip pre⟩

/-- The instances a federate has been told of, or will be reflected. -/
def FederateSession.aware (fs : FederateSession) : List ObjectInstanceHandle :=
  fs.pubSub.discoveredInstances.keys ++ (heldBack fs.tsoQueue.messages).filterMap fun m =>
    match m with
    | .change inst => some inst
    | .vanish _ => none

theorem FederateSession.mem_aware {fs : FederateSession} {inst : ObjectInstanceHandle} :
    inst ∈ fs.aware ↔
      inst ∈ fs.pubSub.discoveredInstances ∨ .change inst ∈ heldBack fs.tsoQueue.messages := by
  rw [aware, List.mem_append, List.mem_filterMap]
  refine or_congr AList.mem_keys.symm ⟨?_, fun h => ⟨_, h, rfl⟩⟩
  rintro ⟨m, hm, he⟩
  cases m with
  | change =>
    cases he
    exact hm
  | vanish => cases he

/-! ## The callbacks of a call -/

/-- A callback for a federate goes to its connection. -/
theorem OutboundCallback.Addressed.target_eq {c : Caller} {fed : Federation} {cb : OutboundCallback}
    (h : cb.Addressed c fed) {k : FederateHandle} {fs : FederateSession} {target : ConnectionHandle}
    (hfed : cb.federate = some k) (hfs : fed.federates.lookup k = some fs)
    (htarget : c.connections.lookup fs.sessionId = some target) : cb.target = target := by
  obtain ⟨k', fs', hfed', hfs', htarget'⟩ := h
  cases hfed.symm.trans hfed'
  cases hfs.symm.trans hfs'
  exact Option.some.inj (htarget'.symm.trans htarget)

theorem mem_told {h : FederateHandle} {callbacks : List OutboundCallback} {news : InstanceNews} :
    news ∈ told h callbacks ↔
      ∃ cb ∈ callbacks, cb.federate = some h ∧ cb.body.news? = some news := by
  simp only [told, bodiesFor, List.mem_filterMap, List.mem_map, List.mem_filter, decide_eq_true_eq]
  constructor
  · rintro ⟨_, ⟨cb, ⟨hcb, hfed⟩, rfl⟩, hnews⟩
    exact ⟨cb, hcb, hfed, hnews⟩
  · rintro ⟨cb, hcb, hfed, hnews⟩
    exact ⟨_, ⟨cb, ⟨hcb, hfed⟩, rfl⟩, hnews⟩

section Calls

variable {c : Caller} {fed : Federation} {h : FederateHandle} {fs : FederateSession}
  {inst : ObjectInstanceHandle}

/-- **What a call tells a connected federate of an instance it is not aware of**:
a discovery before any reflection; and one if it becomes aware of it. -/
theorem serve_introduces (req : ServiceRequest) (hfs : fed.federates.lookup h = some fs)
    (hconn : fs.sessionId ∈ c.connections) (hinst : inst ∉ fs.aware) :
    Preceded (· = .appears inst) (· = .changes inst)
      (told h (serve c fed req).callbacks ++ req.unheard c fed h) ∧
    ∀ fs', (serve c fed req).federation.federates.lookup h = some fs' → inst ∈ fs'.aware →
      .appears inst ∈ told h (serve c fed req).callbacks := by
  obtain ⟨fs₁, hfs₁, hmoves⟩ := serve_comes req hfs hconn
  rw [FederateSession.mem_aware, not_or] at hinst
  obtain ⟨hpre, hin⟩ := hmoves.introduced rfl hinst.1 hinst.2
  refine ⟨hpre, ?_⟩
  intro fs' hfs' haware
  cases hfs₁.symm.trans hfs'
  have hlog : .appears inst ∈ told h (serve c fed req).callbacks ++ req.unheard c fed h :=
    hin (FederateSession.mem_aware.mp haware)
  exact (List.mem_append.mp hlog).resolve_right (appears_not_unheard req)

theorem discovery_before_reflection_in_call {req : ServiceRequest}
    (hfs : fed.federates.lookup h = some fs) (hconn : fs.sessionId ∈ c.connections)
    (hinst : inst ∉ fs.aware) {l₁ l₂ : List OutboundCallback} {cb : OutboundCallback}
    (hsplit : (serve c fed req).callbacks = l₁ ++ cb :: l₂) (hfed : cb.federate = some h)
    (hcb : Reflects inst cb.body) : ∃ cb' ∈ l₁, cb'.federate = some h ∧ Discovers inst cb'.body := by
  have hpre := (serve_introduces req hfs hconn hinst).1
  have hthis : told h [cb] = [.changes inst] := by
    simp [told, bodiesFor, hfed, CallbackRequest.reflects?_eq_some.mp hcb]
  have hlog : told h (serve c fed req).callbacks ++ req.unheard c fed h =
      told h l₁ ++ .changes inst :: (told h l₂ ++ req.unheard c fed h) := by
    rw [hsplit, ← List.singleton_append, told_append, told_append, hthis, List.append_assoc]
    rfl
  obtain ⟨x, hx, rfl⟩ := hpre _ _ _ hlog rfl
  obtain ⟨cb', hcb', hfed', hnews⟩ := mem_told.mp hx
  exact ⟨cb', hcb', hfed', CallbackRequest.discovers?_eq_some.mpr hnews⟩

end Calls

/-! ## The steps of the node -/

namespace Node

/-- A connection that was not there is one that is opened. -/
theorem connections_step (n : Node) (e : NodeEvent) {id : UInt64} {target : ConnectionHandle}
    (h : (n.step e).connections.lookup id = some target) :
    n.connections.lookup id = some target ∨ n.opened e = some id := by
  -- one is opened for session `id'`
  have inserted : ∀ {id' : UInt64} {t : Transport},
      (n.connections.insert id' ⟨id', t⟩).lookup id = some target →
      n.connections.lookup id = some target ∨ id' = id := by
    intro id' t h
    rw [HashMap.lookup_insert_eq] at h
    split at h
    · next hid => exact .inr hid.symm
    · exact .inl h
  have heff := n.step_effect e
  generalize n.action e = a at heff
  generalize n.move e = mv at heff
  generalize n.step e = n' at heff h
  cases heff with
  | quiet hq => exact .inl (hq.connections ▸ h)
  | calls _ hc => exact .inl (hc.connections.1 ▸ h)
  | opens hok =>
    refine (inserted h).imp_right fun hid => ?_
    rw [opened, if_pos hok, hid]
  | resumes hs hok =>
    refine (inserted h).imp_right fun hid => ?_
    rw [opened, hs, Option.bind_some, if_pos hok, hid]
  | disconnects =>
    exact .inl (HashMap.lookup_erase_eq_some.mp h).2
  | _ => exact .inl h

/-- Beside calls, federates only leave. -/
theorem lookup_step_of_not_call (n : Node) {e : NodeEvent}
    (he : ∀ t env request, e ≠ .call t env request) {r : FedRef} {h : FederateHandle}
    {fs : FederateSession} (hfs : ((n.step e).heap r).federates.lookup h = some fs) :
    (n.heap r).federates.lookup h = some fs := by
  rcases n.heap_cases e r with hsame | ⟨a, ha, hact⟩
  · exact hsame ▸ hfs
  · have hleave : ∃ k, a = .leave k := by
      cases e with
      | call t env request => exact absurd rfl (he t env request)
      | close =>
        obtain ⟨s, _, ha⟩ := Option.bind_eq_some_iff.mp ha
        split at ha
        · cases ha
        · obtain ⟨m, _, ha⟩ := Option.map_eq_some_iff.mp ha
          cases ha
          exact ⟨_, rfl⟩
      | janitorRemove =>
        obtain ⟨sid, _, ha⟩ := Option.bind_eq_some_iff.mp ha
        obtain ⟨s, _, ha⟩ := Option.map_eq_some_iff.mp ha
        cases ha
        exact ⟨_, rfl⟩
      | _ => cases ha
    obtain ⟨k, rfl⟩ := hleave
    rw [hact] at hfs
    exact FedAction.lookup_of_membership (fun _ _ h => by cases h) rfl hfs

variable {n : Node} {t : Transport} {env : CallEnv} {request : CallRequest} {o : CallOutcome}
  {inst : ObjectInstanceHandle}

/-- A reflection sent by a call follows a discovery to the same connection, or
the connection is of a federate that was aware of the instance. -/
theorem outcome_reflection (ho : n.outcome t env request = some o)
    {pre post : List OutboundCallback} {cb : OutboundCallback}
    (hsplit : o.callbacks = pre ++ cb :: post) (hcb : Reflects inst cb.body) :
    (∃ cb' ∈ pre, cb'.target = cb.target ∧ Discovers inst cb'.body) ∨
    ∃ r k fs, (n.heap r).federates.lookup k = some fs ∧
      n.connections.lookup fs.sessionId = some cb.target ∧ inst ∈ fs.aware := by
  rcases outcome_cases ho with ⟨r, c, req, ha, hcalls⟩ | hreports
  · replace hcalls := hcalls.symm.trans hsplit
    obtain ⟨_, _, m, env', _, _, _, _, rfl⟩ := action_serve ha
    have haddr := fun cb' (hmem : cb' ∈ pre ++ cb :: post) => serve_addressed req cb' (hcalls ▸ hmem)
    obtain ⟨k, fs, hfed, hfs, htarget⟩ := haddr cb (List.mem_append_right _ List.mem_cons_self)
    by_cases haware : inst ∈ fs.aware
    · exact .inr ⟨r, k, fs, hfs, htarget, haware⟩
    · obtain ⟨cb', hcb', hfed', hdisc⟩ := discovery_before_reflection_in_call hfs
        (HashMap.mem_of_lookup htarget) haware hcalls hfed hcb
      have hsame := (haddr cb' (List.mem_append_left _ hcb')).target_eq hfed' hfs htarget
      exact .inl ⟨cb', hcb', hsame, hdisc⟩
  · have hreport := hreports.2 cb (hsplit ▸ List.mem_append_right _ List.mem_cons_self)
    refine absurd hcb (not_reflects_of_topic ?_)
    rw [hreport]
    decide

/-- A connected federate that is aware of an instance after a call is sent its
discovery, or was aware of it before. -/
theorem outcome_aware (ho : n.outcome t env request = some o) {r : FedRef} {k : FederateHandle}
    {fs' : FederateSession} {target : ConnectionHandle}
    (hfs' : ((n.step (.call t env request)).heap r).federates.lookup k = some fs')
    (hconn : n.connections.lookup fs'.sessionId = some target) (haware : inst ∈ fs'.aware) :
    (∃ cb ∈ o.callbacks, cb.target = target ∧ Discovers inst cb.body) ∨
    ∃ fs, (n.heap r).federates.lookup k = some fs ∧ fs.sessionId = fs'.sessionId ∧
      inst ∈ fs.aware := by
  rcases n.heap_cases (.call t env request) r with hsame | ⟨a, ha, hact⟩
  · exact .inr ⟨fs', hsame ▸ hfs', rfl, haware⟩
  rw [hact] at hfs'
  by_cases hserve : ∃ c req, a = .serve c req
  · obtain ⟨c, req, rfl⟩ := hserve
    have hcalls := (outcome_serve ho ha).1
    obtain ⟨_, _, m, env', _, _, _, _, rfl⟩ := action_serve ha
    obtain ⟨fs, hfs, hid⟩ := (serve_touches req).lookup_before (by decide) hfs'
    by_cases hold : inst ∈ fs.aware
    · exact .inr ⟨fs, hfs, hid, hold⟩
    · rw [← hid] at hconn
      have htold := (serve_introduces req hfs (HashMap.mem_of_lookup hconn) hold).2 fs' hfs' haware
      obtain ⟨cb, hcb, hfed, hnews⟩ := mem_told.mp htold
      have htarget := (serve_addressed req cb hcb).target_eq hfed hfs hconn
      exact .inl ⟨cb, hcalls ▸ hcb, htarget, CallbackRequest.discovers?_eq_some.mpr hnews⟩
  · cases hent : a.enters (n.heap r) k with
    | true =>
      obtain ⟨name, sessionId, rfl⟩ := FedAction.lookup_of_enters hent hfs'
      cases haware
    | false =>
      have hfs := FedAction.lookup_of_membership (fun c req he => hserve ⟨c, req, he⟩) hent hfs'
      exact .inr ⟨fs', hfs, rfl, haware⟩

end Node

/-! ## The invariant -/

section Invariant

variable {I : Type} {hub hub' : Hub} {due due' : Nat → I → List CallbackRequest}

/-- The hub, and what the tasks have still to push into each channel.  While the
writer of a channel runs, every reflection on it or on its way to it has its
discovery; and every instance that a connected federate is aware of has been
announced to it, or is about to be. -/
structure WireOrdered (hub : Hub) (due : Nat → I → List CallbackRequest) : Prop where
  first : ∀ ch inst, Preceded (Discovers inst) (Reflects inst) (hub.channels ch).callbacks
  backed : ∀ ch inst, (hub.channels ch).isOpen = true →
    Backed (Discovers inst) (Reflects inst) (hub.channels ch).callbacks (due ch)
  announced : ∀ r h fs target, (hub.node.heap r).federates.lookup h = some fs →
    hub.node.connections.lookup fs.sessionId = some target →
    (hub.channels target.channel).isOpen = true → ∀ inst ∈ fs.aware,
    Announced (Discovers inst) (hub.channels target.channel).callbacks (due target.channel)
  wellFormed : hub.node.WellFormed

/-- A new connection is for a session none of whose federates is aware of an
instance. -/
def Node.OpensFresh (n : Node) (e : NodeEvent) : Prop :=
  ∀ id ∈ n.opened e, ∀ r < n.nextRef, ∀ h ∈ (n.heap r).federates.keys,
    ∀ fs ∈ (n.heap r).federates.lookup h, fs.sessionId = id → fs.aware = []

instance (n : Node) (e : NodeEvent) : Decidable (n.OpensFresh e) :=
  -- over the option, not over all session ids
  Option.decidableForallMem (p := fun id => ∀ r < n.nextRef, ∀ h ∈ (n.heap r).federates.keys,
    ∀ fs ∈ (n.heap r).federates.lookup h, fs.sessionId = id → fs.aware = []) (n.opened e)

namespace WireOrdered

theorem start : WireOrdered (I := I) .new fun _ _ => [] where
  first := fun _ _ => preceded_nil
  backed := fun _ _ _ => backed_nil
  announced := fun _ _ _ _ h => by cases h
  wellFormed := Node.wellFormed_new

/-- No callback is pushed, and what is due for the channels in use is the same. -/
theorem frame (h : WireOrdered hub due) (hn : hub'.node = hub.node)
    (hc : ∀ ch, (hub'.channels ch).callbacks = (hub.channels ch).callbacks)
    (ho : ∀ ch, (hub'.channels ch).isOpen = true → (hub.channels ch).isOpen = true)
    (hd : ∀ ch, (hub.channels ch).isOpen = true → due' ch = due ch) : WireOrdered hub' due' where
  first := fun ch inst => hc ch ▸ h.first ch inst
  backed := by
    intro ch inst hopen
    rw [hc, hd ch (ho ch hopen)]
    exact h.backed ch inst (ho ch hopen)
  announced := by
    intro r k fs target hfs hconn hopen inst haware
    rw [hn] at hfs hconn
    rw [hc, hd _ (ho _ hopen)]
    exact h.announced r k fs target hfs hconn (ho _ hopen) inst haware
  wellFormed := hn ▸ h.wellFormed

theorem on (h : WireOrdered hub due) {ch : Nat} {f : Channel → Channel}
    (hc : (f (hub.channels ch)).callbacks = (hub.channels ch).callbacks)
    (ho : (f (hub.channels ch)).isOpen = true → (hub.channels ch).isOpen = true)
    (hd : ∀ ch', (hub.channels ch').isOpen = true → due' ch' = due ch') :
    WireOrdered (hub.on ch f) due' := by
  refine h.frame rfl (fun ch' => ?_) (fun ch' hopen => ?_) hd
  · by_cases hch : ch' = ch
    · rw [hch, Hub.on_self, hc]
    · rw [Hub.on_of_ne hch]
  · by_cases hch : ch' = ch
    · rw [hch, Hub.on_self] at hopen
      rw [hch]
      exact ho hopen
    · rwa [Hub.on_of_ne hch] at hopen

theorem advance (h : WireOrdered hub due) {e : NodeEvent}
    (he : ∀ t env request, e ≠ .call t env request) (hfresh : hub.node.OpensFresh e) :
    WireOrdered (hub.advance e) due where
  first := h.first
  backed := h.backed
  announced := by
    intro r k fs target hfs hconn hopen inst haware
    have hold := hub.node.lookup_step_of_not_call he hfs
    rcases hub.node.connections_step e hconn with hconn | hnew
    · exact h.announced r k fs target hold hconn hopen inst haware
    · have hr : r < hub.node.nextRef := h.wellFormed.unused r k (HashMap.mem_of_lookup hold)
      have hk := AList.mem_keys.mp (HashMap.mem_of_lookup hold)
      rw [hfresh _ hnew r hr k hk fs hold rfl] at haware
      cases haware
  wellFormed := Node.wellFormed_step h.wellFormed e

variable [DecidableEq I] {i : I}

theorem push (h : WireOrdered hub due) {ch : Nat} {frame : OutFrame} {body : CallbackRequest}
    {rest : List CallbackRequest} (hopen : (hub.channels ch).isOpen = true)
    (hf : frame.callback? = some body) (hhead : due ch i = body :: rest)
    (hwait : ∀ inst, Reflects inst body → ∀ j, j ≠ i → ∀ x ∈ due ch j, ¬ Discovers inst x)
    (hd : due' ch = Function.update (due ch) i rest) (hd' : ∀ ch', ch' ≠ ch → due' ch' = due ch') :
    WireOrdered (hub.on ch (·.push frame)) due' := by
  have hpushed := callbacks_push hopen hf
  have hbacked := fun inst => (h.backed ch inst hopen).push hhead (hwait inst)
  refine ⟨?_, ?_, ?_, h.wellFormed⟩
  · intro ch' inst
    by_cases hch : ch' = ch
    · rw [hch, Hub.on_self, hpushed]
      exact (hbacked inst).first
    · rw [Hub.on_of_ne hch]
      exact h.first ch' inst
  · intro ch' inst ho
    by_cases hch : ch' = ch
    · rw [hch, Hub.on_self, hpushed, hd]
      exact hbacked inst
    · rw [Hub.on_of_ne hch] at ho ⊢
      rw [hd' ch' hch]
      exact h.backed ch' inst ho
  · intro r k fs target hfs hconn ho inst haware
    by_cases hch : target.channel = ch
    · have hann := h.announced r k fs target hfs hconn (hch ▸ hopen) inst haware
      rw [hch] at hann ⊢
      rw [Hub.on_self, hpushed, hd]
      exact hann.push hhead
    · rw [Hub.on_of_ne hch] at ho ⊢
      rw [hd' _ hch]
      exact h.announced r k fs target hfs hconn ho inst haware

theorem drop (h : WireOrdered hub due) (hno : ∀ ch, ∀ x ∈ due ch i, ∀ inst, ¬ Discovers inst x)
    (hd : ∀ ch, due' ch = Function.update (due ch) i []) : WireOrdered hub due' where
  first := h.first
  backed := by
    intro ch inst hopen
    rw [hd]
    exact (h.backed ch inst hopen).drop fun x hx => hno ch x hx inst
  announced := by
    intro r k fs target hfs hconn hopen inst haware
    rw [hd]
    exact (h.announced r k fs target hfs hconn hopen inst haware).drop fun x hx => hno _ x hx inst
  wellFormed := h.wellFormed

theorem call (h : WireOrdered hub due) {t : Transport} {env : CallEnv} {request : CallRequest}
    {o : CallOutcome} (ho : hub.node.outcome t env request = some o) (hidle : ∀ ch, due ch i = [])
    (hd : ∀ ch, due' ch = Function.update (due ch) i (forChannel ch (addressed o.callbacks))) :
    WireOrdered (hub.advance (.call t env request)) due' where
  first := h.first
  backed := by
    intro ch inst hopen
    rw [hd]
    refine (h.backed ch inst hopen).load (hidle ch) ?_
    intro l₁ y l₂ hsplit hy
    obtain ⟨pre, cb, post, hcbs, rfl, rfl, rfl⟩ := forChannel_split hsplit
    rcases Node.outcome_reflection ho hcbs hy with ⟨cb', hcb', htarget, hdisc⟩ |
      ⟨r, k, fs, hfs, hconn, haware⟩
    · exact .inl ⟨cb'.body, mem_forChannel.mpr (List.mem_map.mpr ⟨cb', hcb', by rw [htarget]⟩), hdisc⟩
    · exact .inr (h.announced r k fs cb.target hfs hconn hopen inst haware)
  announced := by
    intro r k fs' target hfs' hconn hopen inst haware
    have hconn₀ : hub.node.connections.lookup fs'.sessionId = some target :=
      (hub.node.connections_step _ hconn).resolve_right (Option.some_ne_none _).symm
    rcases Node.outcome_aware ho hfs' hconn₀ haware with ⟨cb, hcb, rfl, hdisc⟩ | ⟨fs, hfs, hid, hold⟩
    · -- the discovery is among the callbacks of this call
      refine .inr ⟨i, cb.body, ?_, hdisc⟩
      rw [hd, Function.update_self]
      exact mem_forChannel.mpr (List.mem_map_of_mem hcb)
    · rw [hd]
      exact (h.announced r k fs target hfs (hid ▸ hconn₀) hopen inst hold).load (hidle _) _
  wellFormed := Node.wellFormed_step h.wellFormed (.call t env request)

end WireOrdered

end Invariant

/-! ## Whole runs -/

section Runs

variable {I : Type} {s : Hub × (I → Loop × LoopTask)}

/-- What the tasks have still to push into channel `ch`. -/
def dueAt (tasks : I → Loop × LoopTask) (ch : Nat) (i : I) : List CallbackRequest :=
  forChannel ch (tasks i).2.due

/-- A reflection is pushed only when no other task has a discovery of its
instance to push into the same channel; a call whose response cannot be pushed
sends no discovery; and a new connection is for a session whose federates are
aware of no instance. -/
def ReflectsInTurn (s : Hub × (I → Loop × LoopTask)) : SectionEvent I LoopInput HubAct → Prop
  | .go i _ =>
    (∀ c ∈ (s.2 i).2.inHand, ∀ inst ∈ c.2.reflects?, ∀ j, j ≠ i →
      ∀ body ∈ dueAt s.2 c.1 j, ¬ Discovers inst body) ∧
    (s.1.refuses (s.2 i) = true → ∀ c ∈ (s.2 i).2.due, c.2.discovers? = none)
  | .act (.node e) => s.1.node.OpensFresh e
  | .act (.writerGone _) => True

theorem wireOrdered_act (h : WireOrdered s.1 (dueAt s.2)) {a : HubAct}
    (hok : ReflectsInTurn s (.act a)) : WireOrdered (s.1.act a) (dueAt s.2) := by
  cases a with
  | node =>
    rw [Hub.act]
    split
    · next hback =>
        refine h.advance ?_ hok
        rintro t env request rfl
        cases hback
    · exact h
  | writerGone => exact h.on rfl (fun ho => by cases ho) fun _ _ => rfl

variable [DecidableEq I]

instance [Fintype I] (s : Hub × (I → Loop × LoopTask)) :
    (e : SectionEvent I LoopInput HubAct) → Decidable (ReflectsInTurn s e)
  | .go i _ => inferInstanceAs (Decidable ((∀ c ∈ (s.2 i).2.inHand, ∀ inst ∈ c.2.reflects?,
      ∀ j, j ≠ i → ∀ body ∈ dueAt s.2 c.1 j, ¬ Discovers inst body) ∧
      (s.1.refuses (s.2 i) = true → ∀ c ∈ (s.2 i).2.due, c.2.discovers? = none)))
  | .act (.node e) => inferInstanceAs (Decidable (s.1.node.OpensFresh e))
  | .act (.writerGone _) => .isTrue trivial

theorem dueAt_update (tasks : I → Loop × LoopTask) (i : I) (p : Loop × LoopTask) (ch : Nat) :
    dueAt (Function.update tasks i p) ch =
      Function.update (dueAt tasks ch) i (forChannel ch p.2.due) :=
  Function.comp_update (fun p : Loop × LoopTask => forChannel ch p.2.due) tasks i p

/-- A task pushes the callback it has in its hands; the channel may be closed. -/
theorem wireOrdered_pushes (h : WireOrdered s.1 (dueAt s.2)) {i : I} {ch : Nat} {frame : OutFrame}
    {body : CallbackRequest} {rest : List (Nat × CallbackRequest)}
    (hf : frame.callback? = some body) (hdue : (s.2 i).2.due = (ch, body) :: rest)
    (hwait : ∀ inst ∈ body.reflects?, ∀ j, j ≠ i → ∀ x ∈ dueAt s.2 ch j, ¬ Discovers inst x)
    {due' : Nat → I → List CallbackRequest}
    (hd : ∀ ch, due' ch = Function.update (dueAt s.2 ch) i (forChannel ch rest)) :
    WireOrdered (s.1.on ch (·.push frame)) due' := by
  have hhead : dueAt s.2 ch i = body :: forChannel ch rest := by
    rw [dueAt, hdue]
    simp [forChannel]
  have hskip : ∀ ch', ch' ≠ ch → due' ch' = dueAt s.2 ch' := by
    intro ch' hch
    have hsame : dueAt s.2 ch' i = forChannel ch' rest := by
      rw [dueAt, hdue]
      simp [forChannel, Ne.symm hch]
    rw [hd, ← hsame]
    exact Function.update_eq_self i (dueAt s.2 ch')
  cases hopen : (s.1.channels ch).isOpen with
  | true => exact h.push hopen hf hhead hwait (hd ch) hskip
  | false =>
    -- the frame is lost, and the channel is not in use
    have hlost := Channel.push_of_closed (f := frame) hopen
    refine h.on (by rw [hlost]) (fun ho => by rwa [hlost] at ho) fun ch' ho => hskip ch' ?_
    rintro rfl
    rw [hopen] at ho
    cases ho

theorem wireOrdered_sect (h : WireOrdered s.1 (dueAt s.2)) {i : I} {x : LoopInput} {hub' : Hub}
    {task' : LoopTask} (heff : LoopEffect s.1 x (s.2 i) hub' task')
    (hwait : ∀ c ∈ (s.2 i).2.inHand, ∀ inst ∈ c.2.reflects?, ∀ j, j ≠ i →
      ∀ body ∈ dueAt s.2 c.1 j, ¬ Discovers inst body)
    (hkeep : s.1.refuses (s.2 i) = true → ∀ c ∈ (s.2 i).2.due, c.2.discovers? = none)
    {due' : Nat → I → List CallbackRequest}
    (hd : ∀ ch, due' ch = Function.update (dueAt s.2 ch) i (forChannel ch task'.due)) :
    WireOrdered hub' due' := by
  -- the same callbacks are due
  have same : task'.due = (s.2 i).2.due → ∀ ch, due' ch = dueAt s.2 ch := by
    intro hdue ch
    rw [hd, hdue]
    exact Function.update_eq_self i (dueAt s.2 ch)
  cases heff with
  | stays => exact h.frame rfl (fun _ => rfl) (fun _ ho => ho) fun ch _ => same rfl ch
  | rests _ _ hdue => exact h.frame rfl (fun _ => rfl) (fun _ ho => ho) fun ch _ => same hdue ch
  | aborts htask =>
    exact h.frame rfl (fun _ => rfl) (fun _ ho => ho) fun ch _ => same (htask ▸ rfl) ch
  | closes htask =>
    refine (h.frame rfl (fun _ => rfl) (fun _ ho => ho) fun ch _ => same (htask ▸ rfl) ch).advance
      (fun _ _ _ he => by cases he) ?_
    intro id hid
    cases hid
  | calls seq htask ho =>
    refine h.call ho (fun ch => ?_) hd
    rw [dueAt, htask]
    rfl
  | answers _ _ hdue _ hbody =>
    exact h.on (callbacks_push_other hbody) (fun ho => Channel.isOpen_push ▸ ho)
      fun ch _ => same hdue ch
  | claims _ _ _ hdue => exact h.on rfl (fun ho => ho) fun ch _ => same hdue ch
  | drops _ hshut =>
    refine h.drop (i := i) ?_ hd
    intro ch body hbody inst hdisc
    have hnone := hkeep hshut (ch, body) (mem_forChannel.mp hbody)
    rw [Discovers, hnone] at hdisc
    cases hdisc
  | @pushes _ ch frame _ _ hhand hdue =>
    cases hf : frame.callback? with
    | none =>
      rw [hhand, hf] at hdue
      exact h.on (callbacks_push_other hf) (fun ho => Channel.isOpen_push ▸ ho)
        fun ch' _ => same hdue.symm ch'
    | some body =>
      rw [hhand, hf, Option.map_some] at hwait hdue
      exact wireOrdered_pushes h hf hdue (hwait (ch, body) rfl) hd

theorem wireOrdered_step (h : WireOrdered s.1 (dueAt s.2)) {e : SectionEvent I LoopInput HubAct}
    (hok : ReflectsInTurn s e) :
    WireOrdered (looping.step s e).1 (dueAt (looping.step s e).2) := by
  cases e with
  | go i x =>
    exact wireOrdered_sect h (s.1.sect_effect (s.2 i) x) hok.1 hok.2
      (dueAt_update s.2 i (s.1.sect (s.2 i) x).2)
  | act => exact wireOrdered_act h hok

/-- **Discovery before reflection.**  In every interleaving of session loops and
heartbeats in which a reflection is pushed only when no other loop has a discovery
of its instance to push to the same connection, no discovery is dropped with a
response that cannot be pushed, and sessions are resumed only before their
federates are aware of an instance: on every connection every reflection comes
after a discovery of its instance. -/
theorem discovery_before_reflection (loops : I → Loop)
    {es : List (SectionEvent I LoopInput HubAct)}
    (hturn : StepsMeet looping.step ReflectsInTurn (Hub.start loops) es) :
    Always looping.step
      (fun s => ∀ ch inst, Preceded (Discovers inst) (Reflects inst) (s.1.channels ch).callbacks)
      (Hub.start loops) es := by
  have hall := hturn.always (P := fun s => WireOrdered s.1 (dueAt s.2))
    (fun _ _ h hok => wireOrdered_step h hok) WireOrdered.start
  exact fun done hd => (hall done hd).first

end Runs

/-- The session loops of federates 1 and 2. -/
def pairLoops : Two → Loop
  | .one => .session ⟨1, 0⟩
  | .two => .session ⟨2, 1⟩

/-- A session loop receives a call, and pushes the response. -/
def answered (i : Two) (request : CallRequest) : List (SectionEvent Two LoopInput HubAct) :=
  [.go i (.frame (.callRequest 1 .plain request)), .go i .tick]

/-- A session loop receives a call, and pushes the response and the callbacks. -/
def completed (i : Two) (request : CallRequest) (callbacks : Nat) :
    List (SectionEvent Two LoopInput HubAct) :=
  answered i request ++ List.replicate (2 * callbacks + 1) (.go i .tick)

/-- Federate 1 has registered an instance, federate 2 has subscribed and is
constrained; then federate 1 updates the instance at time 3.  The discovery for
federate 2 is still to be pushed, and the reflection is in its queue. -/
def updateAnswered : List (SectionEvent Two LoopInput HubAct) :=
  [.act (.node .opens)] ++
  completed .one (.federation (.createFederationExecution .withModules "f" [.file "m" []])) 0 ++
  completed .one (.federation (.joinFederationExecution .plain "" "f")) 0 ++
  [.act (.node .opens)] ++
  completed .two (.federation (.joinFederationExecution .plain "" "f")) 0 ++
  completed .one (.service (.declaration (.publishObjectClassAttributes (wire32 1)
    (some [[0, 0, 0, 1]])))) 0 ++
  completed .one (.service (.object (.registerObjectInstance (wire32 1)))) 0 ++
  completed .two (.service (.declaration (.subscribeObjectClassAttributes .plain (wire32 1)
    (some [[0, 0, 0, 1]])))) 1 ++
  completed .two (.service (.time .enableTimeConstrained)) 1 ++
  answered .one (.service (updateAt wireThree))

/-- Federate 2 goes to time 5, and its loop pushes what was queued for it. -/
def advancePushed : List (SectionEvent Two LoopInput HubAct) :=
  answered .two (.service (advanceTo wireFive)) ++ [.go .two .tick, .go .two .tick]

/-- The news on a channel. -/
def newsOn (s : Hub × (Two → Loop × LoopTask)) (ch : Nat) : List InstanceNews :=
  (s.1.channels ch).callbacks.filterMap CallbackRequest.news?

theorem discovery_before_reflection_update :
    let es := updateAnswered ++ [.go .one .tick, .go .one .tick] ++ advancePushed
    newsOn (run looping.step (Hub.start pairLoops) es) 1 = [.appears ⟨1⟩, .changes ⟨1⟩] ∧
    Always looping.step
      (fun s => ∀ ch inst, Preceded (Discovers inst) (Reflects inst) (s.1.channels ch).callbacks)
      (Hub.start pairLoops) es :=
  ⟨by decide +kernel, discovery_before_reflection pairLoops (by decide +kernel)⟩

/-- A reflection is all there is about an instance. -/
theorem not_preceded_of_news {l : List CallbackRequest} {inst : ObjectInstanceHandle}
    (h : l.filterMap CallbackRequest.news? = [.changes inst]) :
    ¬ Preceded (Discovers inst) (Reflects inst) l := by
  intro hpre
  obtain ⟨y, hy, hnews⟩ := List.mem_filterMap.mp (h ▸ List.mem_singleton_self _)
  obtain ⟨l₁, l₂, rfl⟩ := List.append_of_mem hy
  obtain ⟨x, hx, hdisc⟩ := hpre l₁ y l₂ rfl (CallbackRequest.reflects?_eq_some.mpr hnews)
  have happears : .appears inst ∈ (l₁ ++ y :: l₂).filterMap CallbackRequest.news? :=
    List.mem_filterMap.mpr
      ⟨x, List.mem_append_left _ hx, CallbackRequest.discovers?_eq_some.mp hdisc⟩
  rw [h] at happears
  cases List.mem_singleton.mp happears

/-- The loop of federate 2 is faster than that of federate 1. -/
theorem reflection_first :
    ¬ Preceded (Discovers ⟨1⟩) (Reflects ⟨1⟩) ((run looping.step (Hub.start pairLoops)
      (updateAnswered ++ advancePushed)).1.channels 1).callbacks :=
  not_preceded_of_news (by decide +kernel)

end Hla4
