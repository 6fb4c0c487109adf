/-
# `Hla4.Rti.Routing` — who is sent what

A service call is handled on the caller's federation and returns an `Outcome`:
the federation afterwards, the response, and the callbacks to push, in order.
Recipients of callbacks are found in two steps: a set of federates is computed
from the subscription matrix, and `liveConnections` resolves it to the
connections those federates have now.

**History.**  Two fields are read by no function of the server.  A callback
records the federate it is for and that federate's time state at the moment it
was resolved; an outcome records the grants it made, each with the network it
was applied to.  They are what statements about deliveries and grants talk
about.
-/
import Hla4.Lib.Checked
import Hla4.Rti.Federation

namespace Hla4

open Lib

/-- One side of an accepted transport: the session it serves, and its outbound
channel. -/
structure ConnectionHandle where
  sessionId : UInt64
  channel : Nat
deriving DecidableEq

/-- What the environment decides in one call: the orders in which hash tables
are iterated, and whether the file system lets the call read or write. -/
structure Env where
  federates : IterOrder FederateHandle
  instances : IterOrder ObjectInstanceHandle
  owners : IterOrder (Option FederateHandle)
  readFails : Bool
  writeFails : Bool

/-- Entry order everywhere, and a file system without errors. -/
def Env.plain : Env := ⟨.stored, .stored, .stored, false, false⟩

/-- The instances and synchronization points of a federation, with federates
by name (`persistence.rs`). -/
structure SerInstance where
  handle : UInt64
  cls : UInt32
  name : String
  registrarName : String
  attributeOwners : List (UInt32 × String)

structure SerSyncPoint where
  label : String
  tag : Bytes
  participants : List String

structure FederationSnapshot where
  federationName : String
  instances : List SerInstance
  syncPoints : List SerSyncPoint

/-- What a handler sees besides the federation: the calling federate, the live
connections by session id, the environment, and the saved snapshots by
federation and label. -/
structure Caller where
  federate : FederateHandle
  connections : HashMap UInt64 ConnectionHandle
  env : Env
  saved : String → String → Option FederationSnapshot

/-- A federate whose connection was found. -/
structure Recipient where
  target : ConnectionHandle
  federate : FederateHandle
  time : TimeState

/-- A callback to deliver after the call returns. -/
structure OutboundCallback where
  target : ConnectionHandle
  body : CallbackRequest
  /-- history: the federate resolved, and its time state then -/
  receiver : Option (FederateHandle × TimeState)

/-- What a handled call produces. -/
structure Outcome where
  federation : Federation
  response : Resp
  callbacks : List OutboundCallback
  /-- history: the grants made, in order -/
  grants : List (Net.GrantStep FederateHandle ℚ)
  /-- the snapshot to write, with its label -/
  snapshot : Option (String × FederationSnapshot)

namespace Outcome

/-- An exception, with the federation as given. -/
def reject (fed : Federation) (e : ExceptionData) : Outcome := ⟨fed, .exceptionData e, [], [], none⟩

/-- A response and callbacks. -/
def reply (fed : Federation) (response : Resp) (callbacks : List OutboundCallback) : Outcome :=
  ⟨fed, response, callbacks, [], none⟩

/-- An early error return leaves the federation as it was. -/
def ofExcept (fed : Federation) : Except ExceptionData Outcome → Outcome
  | .ok o => o
  | .error e => reject fed e

variable {fed : Federation} {x : Except ExceptionData Outcome}

/-- A property of outcomes that holds of a rejection and of what the checked
code yields. -/
theorem ofExcept_of {Q : Outcome → Prop} (hrej : ∀ e, Q (reject fed e)) (h : Yields x Q) :
    Q (ofExcept fed x) := by
  cases x with
  | ok o => exact h o rfl
  | error e => exact hrej e

theorem ofExcept_accepted (h : (ofExcept fed x).response.accepted = true) :
    x = .ok (ofExcept fed x) := by
  cases x with
  | ok => rfl
  | error => exact absurd h Bool.false_ne_true

theorem ofExcept_of_callback {cb : OutboundCallback} (h : cb ∈ (ofExcept fed x).callbacks) :
    x = .ok (ofExcept fed x) := by
  cases x with
  | ok => rfl
  | error => cases h

/-- What most services can do: change the parts `ps` of the federation and push
callbacks with bodies of one kind; they grant nobody. -/
structure Confined (ps : List Part) (kind : CallbackRequest → Prop) (fed : Federation)
    (o : Outcome) : Prop where
  touches : Federation.Touches ps fed o.federation
  grants : o.grants = []
  bodies : ∀ cb ∈ o.callbacks, kind cb.body

namespace Confined

variable {ps qs : List Part} {kind : CallbackRequest → Prop} {fed fed' : Federation} {o : Outcome}

theorem reject {e : ExceptionData} (h : Federation.Touches ps fed fed') :
    Confined ps kind fed (Outcome.reject fed' e) :=
  ⟨h, rfl, fun _ hcb => nomatch hcb⟩

theorem reply {response : Resp} {callbacks : List OutboundCallback}
    (h : Federation.Touches ps fed fed') (hcb : ∀ cb ∈ callbacks, kind cb.body) :
    Confined ps kind fed (Outcome.reply fed' response callbacks) :=
  ⟨h, rfl, hcb⟩

theorem silent {response : Resp} (h : Federation.Touches ps fed fed') :
    Confined ps kind fed (Outcome.reply fed' response []) :=
  reply h fun _ hcb => nomatch hcb

theorem ofExcept (h : Yields x (Confined ps kind fed)) :
    Confined ps kind fed (Outcome.ofExcept fed x) :=
  ofExcept_of (fun _ => reject .refl) h

theorem mono (hs : ps ⊆ qs) (h : Confined ps kind fed o) : Confined qs kind fed o :=
  ⟨h.touches.mono hs, h.grants, h.bodies⟩

theorem weaken {kind' : CallbackRequest → Prop} (hk : ∀ body, kind body → kind' body)
    (h : Confined ps kind fed o) : Confined ps kind' fed o :=
  ⟨h.touches, h.grants, fun cb hcb => hk _ (h.bodies cb hcb)⟩

end Confined

end Outcome

namespace Federation

variable (fed : Federation)

/-- Walk the class's inheritance chain for the federates that subscribe to any
of `attrs`, without `exclude`. -/
def subscribersForAttributes (cls : ObjectClassHandle) (attrs : List AttributeHandle)
    (exclude : Option FederateHandle) : HashSet FederateHandle :=
  HashSet.ofList <| (fed.fom.inheritanceChain cls).flatMap fun ancestor =>
    attrs.flatMap fun attr =>
      (fed.subscriptions.byAttribute.get (ancestor, attr)).keys.filter fun f => some f ≠ exclude

/-- The same for interaction classes. -/
def subscribersForInteraction (cls : InteractionClassHandle) (exclude : Option FederateHandle) :
    HashSet FederateHandle :=
  HashSet.ofList <| (fed.fom.interactionChain cls).flatMap fun c =>
    (fed.subscriptions.byInteraction.get c).keys.filter fun f => some f ≠ exclude

theorem mem_subscribersForAttributes {cls : ObjectClassHandle} {attrs : List AttributeHandle}
    {exclude : Option FederateHandle} {f : FederateHandle} :
    f ∈ fed.subscribersForAttributes cls attrs exclude ↔
      some f ≠ exclude ∧ ∃ c ∈ fed.fom.inheritanceChain cls, ∃ a ∈ attrs,
        fed.subscriptions.Subscribes f c a := by
  simp only [subscribersForAttributes, HashSet.mem_ofList, List.mem_flatMap, List.mem_filter,
    decide_eq_true_eq, SubscriptionMatrix.Subscribes, ← AList.mem_keys]
  constructor
  · rintro ⟨c, hc, a, ha, hf, hne⟩
    exact ⟨hne, c, hc, a, ha, hf⟩
  · rintro ⟨hne, c, hc, a, ha, hf⟩
    exact ⟨c, hc, a, ha, hf, hne⟩

theorem mem_subscribersForInteraction {cls : InteractionClassHandle}
    {exclude : Option FederateHandle} {f : FederateHandle} :
    f ∈ fed.subscribersForInteraction cls exclude ↔
      some f ≠ exclude ∧ ∃ c, fed.fom.InteractionAncestor cls c ∧
        f ∈ fed.subscriptions.byInteraction.get c := by
  simp only [subscribersForInteraction, HashSet.mem_ofList, List.mem_flatMap, List.mem_filter,
    decide_eq_true_eq, ← AList.mem_keys, Omt.MergedFom.mem_interactionChain]
  constructor
  · rintro ⟨c, hc, hf, hne⟩
    exact ⟨hne, c, hc, hf⟩
  · rintro ⟨hne, c, hc, hf⟩
    exact ⟨c, hc, hf, hne⟩

/-- The entries of the federates map, in an order of iteration. -/
def sessions (o : IterOrder FederateHandle) : List (FederateHandle × FederateSession) :=
  (o.order fed.federates.keys).filterMap fun h => (fed.federates.lookup h).map (h, ·)

/-- The connection of one federate, if it is joined and connected. -/
def recipient (c : Caller) (h : FederateHandle) : Option Recipient := do
  let fs ← fed.federates.lookup h
  let target ← c.connections.lookup fs.sessionId
  pure ⟨target, h, fs.time⟩

/-- Resolve a set of federates to live connections. -/
def liveConnections (c : Caller) (federates : HashSet FederateHandle) : List Recipient :=
  (c.env.federates.order federates.keys).filterMap (fed.recipient c)

/-- `single`: a set of one federate, resolved. -/
def ownConnection (c : Caller) (h : FederateHandle) : List Recipient :=
  fed.liveConnections c (HashSet.ofList [h])

end Federation

/-- The federate a callback is for. -/
def OutboundCallback.federate (cb : OutboundCallback) : Option FederateHandle :=
  cb.receiver.map Prod.fst

/-- The bodies of the callbacks for one federate, in order. -/
def bodiesFor (h : FederateHandle) (callbacks : List OutboundCallback) : List CallbackRequest :=
  (callbacks.filter fun cb => decide (cb.federate = some h)).map OutboundCallback.body

theorem bodiesFor_append (h : FederateHandle) (l l' : List OutboundCallback) :
    bodiesFor h (l ++ l') = bodiesFor h l ++ bodiesFor h l' := by
  rw [bodiesFor, List.filter_append, List.map_append]
  rfl

/-- Queue one body for every recipient. -/
def fanOut (recipients : List Recipient) (body : CallbackRequest) : List OutboundCallback :=
  recipients.map fun r => ⟨r.target, body, some (r.federate, r.time)⟩

theorem mem_fanOut {recipients : List Recipient} {body : CallbackRequest} {cb : OutboundCallback} :
    cb ∈ fanOut recipients body ↔
      ∃ r ∈ recipients, cb = ⟨r.target, body, some (r.federate, r.time)⟩ := by
  simp only [fanOut, List.mem_map, eq_comm]

theorem bodiesFor_fanOut (h : FederateHandle) (recipients : List Recipient) (body : CallbackRequest) :
    bodiesFor h (fanOut recipients body) =
      List.replicate ((recipients.map Recipient.federate).count h) body := by
  induction recipients with
  | nil => rfl
  | cons r recipients ih =>
    rw [show fanOut (r :: recipients) body =
      [⟨r.target, body, some (r.federate, r.time)⟩] ++ fanOut recipients body from rfl,
      bodiesFor_append, ih, List.map_cons, List.count_cons]
    by_cases hr : r.federate = h
    · simp [bodiesFor, OutboundCallback.federate, hr, List.replicate_succ]
    · simp [bodiesFor, OutboundCallback.federate, hr]

theorem forall_fanOut {kind : CallbackRequest → Prop} {recipients : List Recipient}
    {body : CallbackRequest} (h : kind body) : ∀ cb ∈ fanOut recipients body, kind cb.body := by
  intro cb hcb
  obtain ⟨r, _, rfl⟩ := mem_fanOut.mp hcb
  exact h

theorem forall_append {kind : CallbackRequest → Prop} {l l' : List OutboundCallback}
    (h : ∀ cb ∈ l, kind cb.body) (h' : ∀ cb ∈ l', kind cb.body) :
    ∀ cb ∈ l ++ l', kind cb.body := by
  intro cb hcb
  exact (List.mem_append.mp hcb).elim (h cb) (h' cb)

namespace Federation

variable {fed : Federation} {c : Caller} {s : HashSet FederateHandle} {h : FederateHandle}
  {body : CallbackRequest}

theorem mem_sessions {o : IterOrder FederateHandle} {e : FederateHandle × FederateSession} :
    e ∈ fed.sessions o ↔ fed.federates.lookup e.1 = some e.2 := by
  simp only [sessions, List.mem_filterMap, IterOrder.mem_order, ← AList.mem_keys,
    Option.map_eq_some_iff]
  constructor
  · rintro ⟨h, _, fs, hfs, rfl⟩
    exact hfs
  · intro h
    exact ⟨e.1, HashMap.mem_of_lookup h, e.2, h, rfl⟩

theorem nodup_sessions {o : IterOrder FederateHandle} : ((fed.sessions o).map Prod.fst).Nodup := by
  have hsub : ((fed.sessions o).map Prod.fst).Sublist ((o.order fed.federates.keys).map id) := by
    refine filterMap_keys_sublist id Prod.fst ?_ _
    intro h e he
    obtain ⟨_, _, rfl⟩ := Option.map_eq_some_iff.mp he
    rfl
  rw [List.map_id] at hsub
  exact (o.nodup_order fed.federates.keys_nodup).sublist hsub

theorem recipient_eq_some {r : Recipient} :
    fed.recipient c h = some r ↔ r.federate = h ∧
      ∃ fs, fed.federates.lookup h = some fs ∧
        c.connections.lookup fs.sessionId = some r.target ∧ r.time = fs.time := by
  simp only [recipient, Option.bind_eq_bind, Option.bind_eq_some_iff, Option.pure_def,
    Option.some.injEq]
  constructor
  · rintro ⟨fs, hfs, target, ht, rfl⟩
    exact ⟨rfl, fs, hfs, ht, rfl⟩
  · rintro ⟨hh, fs, hfs, ht, htime⟩
    refine ⟨fs, hfs, r.target, ht, ?_⟩
    cases r
    simp_all

theorem isSome_recipient {fs : FederateSession} (hfs : fed.federates.lookup h = some fs) :
    (fed.recipient c h).isSome = true ↔ fs.sessionId ∈ c.connections := by
  rw [recipient, hfs, Option.bind_eq_bind, Option.bind_some, ← AList.lookup_isSome]
  cases c.connections.lookup fs.sessionId <;> simp

theorem recipient_eq_none (hfs : fed.federates.lookup h = none) :
    fed.recipient c h = none := by
  rw [recipient, hfs]
  rfl

theorem mem_liveConnections {r : Recipient} :
    r ∈ fed.liveConnections c s ↔ r.federate ∈ s ∧ fed.recipient c r.federate = some r := by
  simp only [liveConnections, List.mem_filterMap, IterOrder.mem_order]
  constructor
  · rintro ⟨h, hh, hr⟩
    obtain ⟨rfl, _⟩ := recipient_eq_some.mp hr
    exact ⟨AList.mem_keys.mpr hh, hr⟩
  · rintro ⟨hh, hr⟩
    exact ⟨r.federate, AList.mem_keys.mp hh, hr⟩

theorem nodup_liveConnections :
    ((fed.liveConnections c s).map Recipient.federate).Nodup := by
  have hsub : ((fed.liveConnections c s).map Recipient.federate).Sublist
      ((c.env.federates.order s.keys).map id) :=
    filterMap_keys_sublist id Recipient.federate (fun _ _ hr => (recipient_eq_some.mp hr).1) _
  rw [List.map_id] at hsub
  exact (c.env.federates.nodup_order s.keys_nodup).sublist hsub

/-- A federate in the set gets one copy if it is joined and connected, and
nobody else gets one. -/
theorem bodiesFor_live :
    bodiesFor h (fanOut (fed.liveConnections c s) body) =
      if h ∈ s ∧ (fed.recipient c h).isSome = true then [body] else [] := by
  have hmem : h ∈ (fed.liveConnections c s).map Recipient.federate ↔
      h ∈ s ∧ (fed.recipient c h).isSome = true := by
    rw [List.mem_map, Option.isSome_iff_exists]
    constructor
    · rintro ⟨r, hr, rfl⟩
      obtain ⟨hs, hr⟩ := mem_liveConnections.mp hr
      exact ⟨hs, r, hr⟩
    · rintro ⟨hs, r, hr⟩
      obtain ⟨rfl, _⟩ := recipient_eq_some.mp hr
      exact ⟨r, mem_liveConnections.mpr ⟨hs, hr⟩, rfl⟩
  rw [bodiesFor_fanOut, nodup_liveConnections.count]
  simp only [hmem]
  split <;> rfl

/-- Whether a federate is reached does not depend on what a pass of grants
changes. -/
theorem Touches.reaches {ps : List Part} {fed' : Federation} (ht : Touches ps fed fed')
    (hi : Part.federate .identity ∉ ps) {r' : Recipient} (hr : fed'.recipient c h = some r') :
    ∃ r, fed.recipient c h = some r := by
  obtain ⟨_, fs', hfs', hconn, _⟩ := recipient_eq_some.mp hr
  obtain ⟨fs, hfs, hsid⟩ := ht.lookup_before hi hfs'
  exact ⟨⟨r'.target, h, fs.time⟩, recipient_eq_some.mpr ⟨rfl, fs, hfs, hsid ▸ hconn, rfl⟩⟩

theorem Touches.isSome_recipient {ps : List Part} {fed' : Federation} (ht : Touches ps fed fed')
    (hi : Part.federate .identity ∉ ps) (h : FederateHandle) :
    (fed'.recipient c h).isSome = (fed.recipient c h).isSome := by
  rw [Bool.eq_iff_iff, Option.isSome_iff_exists, Option.isSome_iff_exists]
  constructor
  · rintro ⟨r, hr⟩
    exact ht.reaches hi hr
  · rintro ⟨r, hr⟩
    exact ht.symm.reaches hi hr

theorem Touches.recipient_eq {ps : List Part} {fed' : Federation} (ht : Touches ps fed fed')
    (hi : Part.federate .identity ∉ ps) (htime : Part.federate .time ∉ ps) (h : FederateHandle) :
    fed'.recipient c h = fed.recipient c h := by
  have hid := ht.federate hi h
  have htm := ht.federate htime h
  rw [recipient, recipient]
  cases hfs : fed.federates.lookup h with
  | none =>
    rw [hfs, Option.map_none, Option.map_eq_none_iff] at hid
    rw [hid]
  | some fs =>
    rw [hfs, Option.map_some, Option.map_eq_some_iff] at hid htm
    obtain ⟨fs', hfs', hid⟩ := hid
    obtain ⟨_, hfs₂, htm⟩ := htm
    cases hfs'.symm.trans hfs₂
    have hsid : fs'.sessionId = fs.sessionId := congrArg (fun i => i.2.2.2) hid
    have htime : fs'.time = fs.time := htm
    rw [hfs']
    simp only [Option.bind_eq_bind, Option.bind_some, htime]
    rw [hsid]

theorem ownConnection_eq (h : FederateHandle) :
    fed.ownConnection c h = (fed.recipient c h).toList := by
  have hone : c.env.federates.order (HashSet.ofList [h]).keys = [h] := by
    have hp := c.env.federates.perm (HashSet.ofList [h]).keys
    exact List.perm_singleton.mp hp
  rw [ownConnection, liveConnections, hone]
  cases hr : fed.recipient c h with
  | none => simp [hr]
  | some => simp [hr]

theorem mem_fanOut_own {cb : OutboundCallback} (hcb : cb ∈ fanOut (fed.ownConnection c h) body) :
    cb.body = body ∧ cb.federate = some h ∧ ∃ r, fed.recipient c h = some r := by
  obtain ⟨r, hr, rfl⟩ := mem_fanOut.mp hcb
  rw [ownConnection_eq, Option.mem_toList] at hr
  exact ⟨rfl, congrArg some (recipient_eq_some.mp hr).1, r, hr⟩

end Federation

end Hla4
