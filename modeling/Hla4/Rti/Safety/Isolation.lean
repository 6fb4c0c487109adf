/-
# `Hla4.Rti.Safety.Isolation` — what a call cannot reach

Two things no request does, over all of `dispatch_call`.

**It does not reach another federation.**  A call works on the federation its
session is joined to and on nothing else, and its callbacks go to connections of
that federation's federates, or to its own.  Only create, destroy, join and
resign go through the registry.  Connections are found by session id, so this
rests on one invariant of the node (`Node.Wired`): what is registered under an
id belongs to a transport that serves this id.

**It does nothing when it throws.**  A handler checks first and works then:

    checks, in order        an exception leaves the federation as it was
    draws a handle          registration and join only, before the last check
    works                   no exception from here on

so an exception leaves everything as it was, except that a handle may have been
drawn.  `commitRegionModifications` is the one handler that works and checks by
turns: it keeps the regions it has committed before the one it refuses.
-/
import Hla4.Rti.Safety.HandOver
import Hla4.Rti.Safety.Membership

namespace Hla4

open Lib

variable {c : Caller} {fed fed' : Federation} {response : Resp} {x : Except ExceptionData Outcome}

/-! ## Where callbacks go -/

/-- Every callback is for a federate of the federation the call leaves, and
goes to its connection. -/
def Outcome.Tells (c : Caller) (o : Outcome) : Prop := ∀ cb ∈ o.callbacks, cb.Addressed c o.federation

namespace Outcome.Tells

theorem reject {e : ExceptionData} : Tells c (Outcome.reject fed e) := List.forall_mem_nil _

theorem silent : Tells c (Outcome.reply fed response []) := List.forall_mem_nil _

theorem live {s : HashSet FederateHandle} {body : CallbackRequest} :
    Tells c (Outcome.reply fed response (fanOut (fed.liveConnections c s) body)) :=
  fanOut_addressed

theorem append {l l' : List OutboundCallback} (h : Tells c (Outcome.reply fed response l))
    (h' : Tells c (Outcome.reply fed response l')) :
    Tells c (Outcome.reply fed response (l ++ l')) :=
  fun cb hcb => (List.mem_append.mp hcb).elim (h cb) (h' cb)

theorem ite {p : Prop} [Decidable p] {l : List OutboundCallback}
    (h : Tells c (Outcome.reply fed response l)) :
    Tells c (Outcome.reply fed response (if p then l else [])) := by
  split
  · exact h
  · exact silent

theorem aboutAttributes {attrs : List AttributeHandle} {l : List OutboundCallback}
    (h : Tells c (Outcome.reply fed response l)) :
    Tells c (Outcome.reply fed response (Hla4.aboutAttributes attrs l)) := by
  rw [Hla4.aboutAttributes]
  split
  · exact silent
  · exact h

theorem flatMap {A : Type} {as : List A} {f : A → List OutboundCallback}
    (h : ∀ a, Tells c (Outcome.reply fed response (f a))) :
    Tells c (Outcome.reply fed response (as.flatMap f)) := by
  intro cb hcb
  obtain ⟨a, _, hcb⟩ := List.mem_flatMap.mp hcb
  exact h a cb hcb

theorem ofExcept (h : Yields x (Tells c)) :
    Tells c (Outcome.ofExcept fed x) :=
  ofExcept_of (fun _ => reject) h

end Outcome.Tells

open Outcome

/-! ## What an exception leaves -/

/-- The federation is as it was, except that a handle may have been drawn. -/
inductive Federation.Drew (fed : Federation) : Federation → Prop
  | nothing : Drew fed fed
  | instanceHandle : Drew fed { fed with nextObjectId := fed.nextObjectId + 1 }
  | federateHandle : Drew fed fed.drawHandle

theorem Resp.exception_of_not_accepted (h : response.accepted = false) :
    ∃ e, response = .exceptionData e := by
  cases response with
  | exceptionData e => exact ⟨e, rfl⟩
  | _ => cases h

/-- Nothing is sent, granted or written, and nothing but a handle is taken. -/
structure Outcome.Idle (fed : Federation) (o : Outcome) : Prop where
  callbacks : o.callbacks = []
  grants : o.grants = []
  snapshot : o.snapshot = none
  federation : fed.Drew o.federation

/-- A service that answers with an exception has done nothing. -/
def Outcome.ChecksFirst (fed : Federation) (o : Outcome) : Prop :=
  o.response.accepted = false → o.Idle fed

namespace Outcome.ChecksFirst

theorem reject (e : ExceptionData) : ChecksFirst fed (Outcome.reject fed e) :=
  fun _ => ⟨rfl, rfl, rfl, .nothing⟩

theorem accepted {o : Outcome} (h : o.response.accepted = true) : ChecksFirst fed o :=
  fun hrej => absurd (h.symm.trans hrej) (Ne.symm Bool.false_ne_true)

theorem ofExcept (h : Yields x fun o => o.response.accepted = true) :
    ChecksFirst fed (Outcome.ofExcept fed x) :=
  ofExcept_of reject fun o ho => accepted (h o ho)

end Outcome.ChecksFirst

/-- Such a service that has nothing to write, either. -/
structure Outcome.Orderly (fed : Federation) (o : Outcome) : Prop where
  checksFirst : ChecksFirst fed o
  unsaved : o.snapshot = none

namespace Outcome.Orderly

theorem reject (e : ExceptionData) : Orderly fed (Outcome.reject fed e) := ⟨.reject e, rfl⟩

theorem accepted {o : Outcome} (h : o.response.accepted = true) (hs : o.snapshot = none) :
    Orderly fed o :=
  ⟨.accepted h, hs⟩

theorem ofExcept (h : Yields x fun o => o.response.accepted = true ∧ o.snapshot = none) :
    Orderly fed (Outcome.ofExcept fed x) :=
  ofExcept_of reject fun o ho => accepted (h o ho).1 (h o ho).2

end Outcome.Orderly

/-- A service that tells joined federates only, checks before it works, and
writes nothing. -/
structure Outcome.Proper (c : Caller) (fed : Federation) (o : Outcome) : Prop where
  tells : o.Tells c
  orderly : o.Orderly fed

theorem Outcome.Proper.ofExcept
    (h : Yields x fun o => o.Tells c ∧ o.response.accepted = true ∧ o.snapshot = none) :
    Proper c fed (Outcome.ofExcept fed x) :=
  ⟨.ofExcept fun o ho => (h o ho).1, .ofExcept fun o ho => (h o ho).2⟩

/-! ## Services -/

theorem serveDeclaration_proper (r : DeclarationRequest) :
    (serveDeclaration c fed r).Proper c fed := by
  cases r with
  | publishObjectClassAttributes | unpublishObjectClassAttributes =>
    exact .ofExcept (.bind fun _ _ => .bind fun _ _ => .pure ⟨Tells.silent, rfl, rfl⟩)
  | subscribeObjectClassAttributes | unsubscribeObjectClassAttributes =>
    exact .ofExcept (.bind fun _ _ => .bind fun _ _ => .pure ⟨Tells.ite Tells.live, rfl, rfl⟩)
  | subscribeInteractionClass | unsubscribeInteractionClass =>
    exact .ofExcept (.bind fun _ _ => .pure ⟨Tells.ite Tells.live, rfl, rfl⟩)
  | publishInteractionClass | unpublishObjectClass | unsubscribeObjectClass =>
    exact .ofExcept (.bind fun _ _ => .pure ⟨Tells.silent, rfl, rfl⟩)
  | unpublishInteractionClass =>
    exact .ofExcept (.bind fun _ _ => .pure ⟨Tells.silent, rfl, rfl⟩)

theorem serveRegion_proper {r : RegionRequest}
    (hr : ∀ regions, r ≠ .commitRegionModifications regions) :
    (serveRegion c fed r).Proper c fed := by
  cases r with
  | createRegion => exact ⟨Tells.silent, .accepted rfl rfl⟩
  | commitRegionModifications regions => exact absurd rfl (hr regions)
  | deleteRegion =>
    exact .ofExcept (.bind fun _ _ => .bind fun _ _ => .pure ⟨Tells.silent, rfl, rfl⟩)
  | getRangeBounds =>
    exact .ofExcept (.bind fun _ _ => .bind fun _ _ => .bind fun _ _ =>
      .pure ⟨Tells.silent, rfl, rfl⟩)
  | setRangeBounds =>
    exact .ofExcept (.bind fun _ _ => .bind fun _ _ => .bind fun _ _ => .bind fun _ _ =>
      .bind fun _ _ => .pure ⟨Tells.silent, rfl, rfl⟩)
  | subscribeObjectClassAttributesWithRegions =>
    exact .ofExcept (.bind fun _ _ => .pure ⟨Tells.ite Tells.live, rfl, rfl⟩)
  | unsubscribeObjectClassAttributesWithRegions =>
    exact .ofExcept (.bind fun _ _ => .pure ⟨Tells.silent, rfl, rfl⟩)

theorem commitRegionModifications_tells (regions : WireSet) :
    (commitRegionModifications c fed regions).Tells c := by
  rw [commitRegionModifications]
  split
  · exact Tells.silent
  · exact Tells.reject

theorem serveDirected_proper (r : DirectedRequest) : (serveDirected c fed r).Proper c fed := by
  cases r with
  | sendDirectedInteraction =>
    exact .ofExcept (.bind fun _ _ => .bind fun _ _ => .bind fun _ _ => .bind fun _ _ =>
      .pure ⟨Tells.live, rfl, rfl⟩)
  | _ => exact .ofExcept (.bind fun _ _ => .pure ⟨Tells.silent, rfl, rfl⟩)

theorem serveOwnership_proper (r : OwnershipRequest) : (serveOwnership c fed r).Proper c fed := by
  cases r with
  | isAttributeOwnedByFederate =>
    exact .ofExcept (.bind fun _ _ => .bind fun _ _ => .bind fun _ _ =>
      .pure ⟨Tells.silent, rfl, rfl⟩)
  | queryAttributeOwnership =>
    exact .ofExcept (.bind fun _ _ => .bind fun _ _ => .bind fun _ _ =>
      .pure ⟨Tells.flatMap fun _ => Tells.live, rfl, rfl⟩)
  | attributeOwnershipDivestiture =>
    exact .ofExcept (.bind fun _ _ => .bind fun _ _ => .bind fun _ _ =>
      .pure ⟨Tells.aboutAttributes Tells.live, rfl, rfl⟩)
  | attributeOwnershipAcquisition =>
    exact .ofExcept (.bind fun _ _ => .bind fun _ _ => .bind fun _ _ =>
      .pure ⟨Tells.append (Tells.aboutAttributes Tells.live) (Tells.aboutAttributes Tells.live),
        rfl, rfl⟩)

/-- The services of saves and restores may write a snapshot. -/
theorem serveSaveRestore_careful (r : SaveRestoreRequest) :
    (serveSaveRestore c fed r).Tells c ∧ ChecksFirst fed (serveSaveRestore c fed r) := by
  have checked : ∀ {x : Except ExceptionData Outcome},
      Yields x (fun o => o.Tells c ∧ o.response.accepted = true) →
      (Outcome.ofExcept fed x).Tells c ∧ ChecksFirst fed (Outcome.ofExcept fed x) :=
    fun h => ⟨.ofExcept fun o ho => (h o ho).1, .ofExcept fun o ho => (h o ho).2⟩
  have saves : ∀ successfully, (federateSaveProgressed c fed successfully).Tells c ∧
      ChecksFirst fed (federateSaveProgressed c fed successfully) := by
    intro successfully
    refine checked (.bind fun save _ => ?_)
    dsimp only
    split
    · exact .pure ⟨Tells.silent, rfl⟩
    · exact .pure ⟨Tells.live, rfl⟩
    · exact .pure ⟨fanOut_addressed, rfl⟩
  have restores : ∀ successfully, (federateRestoreProgressed c fed successfully).Tells c ∧
      ChecksFirst fed (federateRestoreProgressed c fed successfully) := by
    intro successfully
    refine checked (.bind fun restore _ => ?_)
    dsimp only
    split
    · exact .pure ⟨Tells.silent, rfl⟩
    · exact .pure ⟨Tells.live, rfl⟩
  cases r with
  | requestFederationSave =>
    exact checked (.bind fun _ _ => .bind fun _ _ => .pure ⟨Tells.live, rfl⟩)
  | federateSaveBegun =>
    exact checked (.bind fun _ _ => .bind fun _ _ => .bind fun _ _ => .pure ⟨Tells.silent, rfl⟩)
  | federateSaveComplete => exact saves true
  | federateSaveNotComplete => exact saves false
  | abortFederationSave | abortFederationRestore =>
    exact checked (.bind fun _ _ => .pure ⟨Tells.silent, rfl⟩)
  | requestFederationRestore =>
    exact requestFederationRestore_cases (Q := fun o => o.Tells c ∧ ChecksFirst fed o)
      (fun _ e => ⟨Tells.reject, .reject e⟩) (fun _ _ => ⟨Tells.live, .accepted rfl⟩)
      (fun _ _ _ _ e => ⟨Tells.reject, .reject e⟩)
      fun _ _ _ _ _ _ => ⟨Tells.append (Tells.append Tells.live Tells.live)
        (Tells.flatMap fun _ => Tells.live), .accepted rfl⟩
  | federateRestoreComplete => exact restores true
  | federateRestoreNotComplete => exact restores false

theorem serveSyncPoint_proper (r : SyncPointRequest) : (serveSyncPoint c fed r).Proper c fed := by
  have registers : ∀ label tag subset,
      (registerSynchronizationPoint c fed label tag subset).Proper c fed := by
    intro label tag subset
    refine .ofExcept (.bind fun _ _ => ?_)
    split
    · exact .pure ⟨Tells.live, rfl, rfl⟩
    · exact .pure ⟨Tells.append Tells.live Tells.live, rfl, rfl⟩
  cases r with
  | registerFederationSynchronizationPoint | registerFederationSynchronizationPointWithSet =>
    exact registers _ _ _
  | synchronizationPointAchieved =>
    refine .ofExcept (.bind fun _ _ => .bind fun _ _ => ?_)
    dsimp only
    split
    · exact .pure ⟨Tells.live, rfl, rfl⟩
    · exact .pure ⟨Tells.silent, rfl, rfl⟩

/-- **Where the callbacks of a service go**: to connections of federates joined
to the federation. -/
theorem serve_addressed (r : ServiceRequest) :
    ∀ cb ∈ (serve c fed r).callbacks, cb.Addressed c fed := by
  -- who is joined, and under which session, is the same before and after
  have told : (serve c fed r).Tells c → ∀ cb ∈ (serve c fed r).callbacks, cb.Addressed c fed :=
    fun h cb hcb => (h cb hcb).of_touches (serve_touches r) (by decide)
  cases r with
  | declaration r => exact told (serveDeclaration_proper r).tells
  | region r =>
    cases r with
    | commitRegionModifications regions => exact told (commitRegionModifications_tells regions)
    | _ => exact told (serveRegion_proper fun _ => RegionRequest.noConfusion).tells
  | directed r => exact told (serveDirected_proper r).tells
  | object r => exact (serveObject_hands r).addressed
  | ownership r => exact told (serveOwnership_proper r).tells
  | saveRestore r => exact told (serveSaveRestore_careful r).1
  | syncPoint r => exact told (serveSyncPoint_proper r).tells
  | time r => exact (serveTime_hands r).addressed
  | switch r => exact fun cb hcb => ((serveSwitch_confined r).bodies cb hcb).elim
  | lookup r => exact fun cb hcb => ((serveLookup_confined c fed r).bodies cb hcb).elim

/-! ## Whose a connection is -/

namespace Node

variable {n n' : Node}

/-- What is registered under a session id was opened for it, and the session
that runs there, if one does, has this id. -/
structure Wired (n : Node) : Prop where
  opened : ∀ id target, n.connections.lookup id = some target →
    target.sessionId = id ∧ target.channel < n.nextTransport
  serves : ∀ id target s, n.connections.lookup id = some target →
    n.sessions.lookup target.channel = some s → s.sessionId = id

theorem wired_new : Node.new.Wired where
  opened := fun _ _ h => by cases h
  serves := fun _ _ _ h => by cases h

/-- No connection is added, and running sessions keep their ids. -/
theorem Wired.mono (hw : n.Wired) (ht : n'.nextTransport = n.nextTransport)
    (hc : ∀ id target, n'.connections.lookup id = some target → n.connections.lookup id = some target)
    (hs : ∀ t s', n'.sessions.lookup t = some s' →
      ∃ s, n.sessions.lookup t = some s ∧ s'.sessionId = s.sessionId) : n'.Wired where
  opened := fun id target h => ht ▸ hw.opened id target (hc id target h)
  serves := by
    intro id target s' h hs'
    obtain ⟨s, hlook, hid⟩ := hs _ s' hs'
    exact hid.trans (hw.serves id target s (hc id target h) hlook)

theorem Wired.frame (hw : n.Wired) (hf : Frame n n') (hc : n'.connections = n.connections) :
    n'.Wired :=
  hw.mono hf.nextTransport (fun _ _ h => hc ▸ h) hf.sessions

theorem Wired.erase (hw : n.Wired) {t : Transport} (ht : n'.nextTransport = n.nextTransport)
    (hc : n'.connections = n.connections) (hs : n'.sessions = n.sessions.erase t) : n'.Wired := by
  refine hw.mono ht (fun _ _ h => hc ▸ h) ?_
  intro t' s' hs'
  rw [hs, HashMap.lookup_erase_eq_some] at hs'
  exact ⟨s', hs'.2, rfl⟩

/-- A session is opened on a transport that no connection is of. -/
theorem Wired.openSession (hw : n.Wired) (id : UInt64) (m : Option Membership) :
    (n.openSession id m).Wired := by
  have hlook : ∀ id' target, (n.openSession id m).connections.lookup id' = some target →
      id' = id ∧ target = ⟨id, n.nextTransport⟩ ∨ n.connections.lookup id' = some target := by
    intro id' target h
    change (n.connections.insert id ⟨id, n.nextTransport⟩).lookup id' = some target at h
    rw [HashMap.lookup_insert_eq] at h
    split at h
    · next hid => exact .inl ⟨hid, (Option.some.inj h).symm⟩
    · exact .inr h
  constructor
  · intro id' target h
    rcases hlook id' target h with ⟨rfl, rfl⟩ | hold
    · exact ⟨rfl, Nat.lt_succ_self _⟩
    · obtain ⟨hid, hlt⟩ := hw.opened id' target hold
      exact ⟨hid, Nat.lt_succ_of_lt hlt⟩
  · intro id' target s h hs
    change (n.sessions.insert n.nextTransport _).lookup target.channel = some s at hs
    rw [HashMap.lookup_insert_eq] at hs
    rcases hlook id' target h with ⟨rfl, rfl⟩ | hold
    · rw [if_pos rfl] at hs
      exact congrArg Session.sessionId (Option.some.inj hs).symm
    · rw [if_neg (Nat.ne_of_lt (hw.opened id' target hold).2)] at hs
      exact hw.serves id' target s hold hs

theorem wired_step (hw : n.Wired) (e : NodeEvent) : (n.step e).Wired := by
  have heff := n.step_effect e
  generalize n.action e = a at heff
  generalize n.move e = mv at heff
  generalize n.step e = n' at heff ⊢
  cases heff with
  | quiet h => exact hw.frame h.frame h.connections
  | calls _ h => exact hw.frame h.frame h.connections.1
  | opens =>
    refine Wired.openSession (?_ : Wired { n with nextSessionId := n.nextSessionId + 1 }) _ _
    exact hw.frame (.same rfl rfl (fun _ h => h) rfl rfl) rfl
  | @resumes sessionId _ s _ _ =>
    refine Wired.openSession (?_ : Wired { n with
      nextSessionId := n.nextSessionId + 1
      suspendedSessions := n.suspendedSessions.erase sessionId }) _ _
    exact hw.frame (.same rfl rfl (fun _ h => (AList.mem_erase.mp h).2) rfl rfl) rfl
  | refuses | expires =>
    exact hw.frame (.same rfl rfl (fun _ h => (AList.mem_erase.mp h).2) rfl rfl) rfl
  | suspends | ends | leaves => exact hw.erase rfl rfl rfl
  | disconnects =>
    refine hw.mono rfl ?_ fun _ s h => ⟨s, h, rfl⟩
    intro id target h
    exact (HashMap.lookup_erase_eq_some.mp h).2
  | skips => exact hw.frame (.same rfl rfl (fun _ h => h) rfl rfl) rfl

theorem wired_run (es : List NodeEvent) : (run Node.step Node.new es).Wired := by
  have hrun : StepsMeet Node.step (fun _ _ => True) Node.new es := .of_forall fun _ _ => trivial
  exact hrun.invariant (P := Wired) (fun _ e hw _ => wired_step hw e) wired_new

/-- The connection of the session with this id. -/
structure ConnectionOf (n : Node) (id : UInt64) (target : ConnectionHandle) : Prop where
  registered : n.connections.lookup id = some target
  labelled : target.sessionId = id
  running : ∀ s, n.sessions.lookup target.channel = some s → s.sessionId = id

theorem Wired.connectionOf (hw : n.Wired) {id : UInt64} {target : ConnectionHandle}
    (h : n.connections.lookup id = some target) : n.ConnectionOf id target :=
  ⟨h, (hw.opened id target h).1, fun s hs => hw.serves id target s h hs⟩

end Node

/-! ## Isolation -/

/-- Not create, destroy, join or resign. -/
def CallRequest.Internal : CallRequest → Prop
  | federation (.createFederationExecution ..) => False
  | federation (.destroyFederationExecution _) => False
  | federation (.joinFederationExecution ..) => False
  | federation .resignFederationExecution => False
  | _ => True

namespace Node

/-- What a call of session `s` may come to in node `n`. -/
structure Isolated (n : Node) (s : Session) (o : CallOutcome) : Prop where
  others : ∀ r, (∀ m, s.membership = some m → r ≠ m.federation) → o.node.heap r = n.heap r
  registry : o.node.federations = n.federations
  targets : ∀ cb ∈ o.callbacks, n.ConnectionOf s.sessionId cb.target ∨
    ∃ m h fs, s.membership = some m ∧ (n.heap m.federation).federates.lookup h = some fs ∧
      n.ConnectionOf fs.sessionId cb.target

variable {n : Node} {s : Session}

theorem isolated_respond (response : Resp) : n.Isolated s (n.respond response []) :=
  ⟨fun _ _ => rfl, rfl, List.forall_mem_nil _⟩

theorem isolated_report (hw : n.Wired) (response : Resp) (body : CallbackRequest) :
    n.Isolated s (n.respond response (n.report s body)) := by
  refine ⟨fun _ _ => rfl, rfl, ?_⟩
  intro cb hcb
  obtain ⟨target, htarget, rfl⟩ := List.mem_map.mp hcb
  exact .inl (hw.connectionOf (Option.mem_toList.mp htarget))

theorem federations_writeSnapshot (n : Node) (federation : String) (env : CallEnv)
    (snap : Option (String × FederationSnapshot)) :
    (n.writeSnapshot federation env snap).federations = n.federations := by
  cases snap with
  | none => rfl
  | some =>
    rw [writeSnapshot]
    split <;> rfl

theorem isolated_serveMember (hw : n.Wired) {m : Membership} (hm : s.membership = some m)
    (env : CallEnv) (r : ServiceRequest) : n.Isolated s (n.serveMember m env r) := by
  refine ⟨?_, federations_writeSnapshot .., ?_⟩
  · intro r' hr
    refine (congrFun (heap_writeSnapshot ..) r').trans ?_
    exact Function.update_of_ne (hr m hm) ..
  · intro cb hcb
    obtain ⟨f, fs, _, hfs, htarget⟩ := serve_addressed r cb hcb
    exact .inr ⟨m, f, fs, hm, hfs, hw.connectionOf htarget⟩

theorem isolated_dispatchCall (hw : n.Wired) (t : Transport) (env : CallEnv) {request : CallRequest}
    (hreq : request.Internal) : n.Isolated s (n.dispatchCall t s env request) := by
  cases request with
  | malformed | unset => exact isolated_respond _
  | stateless r =>
    rw [dispatchCall]
    cases statelessResponse r with
    | error | ok => exact isolated_respond _
  | federation r =>
    cases r with
    | listFederationExecutionMembers | listFederationExecutions => exact isolated_report hw _ _
    | _ => exact hreq.elim
  | service r =>
    rw [dispatchCall]
    cases hm : s.membership with
    | none => exact isolated_respond _
    | some => exact isolated_serveMember hw hm env r

/-- **Federations are isolated.**  In every reachable state, a call of a session
other than create, destroy, join and resign changes no federation but the one
the session is joined to, and not the registry; its callbacks go to the
session's own connection, or to that of a federate joined to its federation. -/
theorem federations_isolated (es : List NodeEvent) {t : Transport} {s : Session} {env : CallEnv}
    {request : CallRequest} (hreq : request.Internal) {o : CallOutcome}
    (hs : (run Node.step Node.new es).sessions.lookup t = some s)
    (ho : (run Node.step Node.new es).outcome t env request = some o) :
    (run Node.step Node.new es).Isolated s o := by
  rw [outcome, hs, Option.map_some] at ho
  cases ho
  exact isolated_dispatchCall (wired_run es) t env hreq

/-- Federate 1 updates its instance, and federate 2 is sent the reflection. -/
theorem federations_isolated_update :
    let n := run Node.step Node.new pairUpdating
    ∃ s o, n.sessions.lookup 0 = some s ∧
      n.outcome 0 .plain (.service (updateAt wireOne)) = some o ∧ o.callbacks.length = 1 ∧
      n.Isolated s o := by
  intro n
  have hsent : (n.outcome 0 .plain (.service (updateAt wireOne))).map
      (fun o => o.callbacks.length) = some 1 := by decide +kernel
  obtain ⟨o, ho, hlen⟩ := Option.map_eq_some_iff.mp hsent
  obtain ⟨s, hs, _⟩ := Option.map_eq_some_iff.mp ho
  exact ⟨s, o, hs, ho, hlen, federations_isolated pairUpdating
    (show CallRequest.Internal (.service _) from trivial) hs ho⟩

end Node

/-! ## Exceptions -/

/-- The one handle that is drawn before the last check. -/
theorem registerObjectInstance_orderly {cls : WireField} {name : Option String}
    {form : RegisterForm} :
    Orderly fed ((registerObjectInstance c fed cls name).outcome form) := by
  rw [registerObjectInstance]
  split
  · exact .reject _
  · dsimp only
    split
    · exact ⟨fun _ => ⟨rfl, rfl, rfl, .instanceHandle⟩, rfl⟩
    · exact .accepted rfl rfl

theorem registerObjectInstanceWithRegions_orderly {cls : WireField} {name : Option String}
    {pairs : WireRegionPairs} {form : RegisterForm} :
    Orderly fed ((registerObjectInstanceWithRegions c fed cls name pairs).outcome form) := by
  have hplain := @registerObjectInstance_orderly c fed cls name form
  rw [registerObjectInstanceWithRegions]
  cases hr : (registerObjectInstance c fed cls name).result with
  | error => exact hplain
  | ok =>
    refine .accepted ?_ ?_
    · rfl
    · rfl

theorem serveObject_orderly (r : ObjectRequest) : Orderly fed (serveObject c fed r) := by
  cases r with
  | registerObjectInstance | registerObjectInstanceWithName => exact registerObjectInstance_orderly
  | registerObjectInstanceWithRegions | registerObjectInstanceWithNameAndRegions =>
    exact registerObjectInstanceWithRegions_orderly
  | updateAttributeValues | deleteObjectInstanceWithTime =>
    exact .ofExcept (.bind fun _ _ => .bind fun _ _ => .bind fun _ _ => .pure ⟨rfl, rfl⟩)
  | updateAttributeValuesWithTime =>
    exact .ofExcept (.bind fun _ _ => .bind fun _ _ => .bind fun _ _ => .bind fun _ _ =>
      .bind fun _ _ => .pure ⟨rfl, rfl⟩)
  | sendInteraction | localDeleteObjectInstance =>
    exact .ofExcept (.bind fun _ _ => .pure ⟨rfl, rfl⟩)
  | sendInteractionWithTime | deleteObjectInstance =>
    exact .ofExcept (.bind fun _ _ => .bind fun _ _ => .pure ⟨rfl, rfl⟩)

theorem serveTime_orderly (r : TimeRequest) : Orderly fed (serveTime c fed r) := by
  cases r with
  | enableTimeRegulation lookahead =>
    rw [serveTime, enableTimeRegulation]
    cases enableRegulationSection c fed lookahead with
    | error e => exact .reject e
    | ok => exact .accepted rfl rfl
  | disableTimeRegulation =>
    rw [serveTime, disableTimeRegulation]
    cases disableRegulationSection c fed with
    | error e => exact .reject e
    | ok => exact .accepted rfl rfl
  | enableTimeConstrained =>
    rw [serveTime, enableTimeConstrained]
    cases enableConstrainedSection c fed with
    | error e => exact .reject e
    | ok => exact .accepted rfl rfl
  | disableTimeConstrained =>
    rw [serveTime, disableTimeConstrained]
    cases disableConstrainedSection c fed with
    | error e => exact .reject e
    | ok => exact .accepted rfl rfl
  | modifyLookahead lookahead =>
    rw [serveTime, modifyLookahead]
    cases modifyLookaheadSection c fed lookahead with
    | error e => exact .reject e
    | ok => exact .accepted rfl rfl
  | advance service time =>
    rw [serveTime, timeAdvanceRequest]
    cases advanceSection c fed time with
    | error e => exact .reject e
    | ok => exact .accepted rfl rfl

theorem serveSwitch_orderly (r : SwitchRequest) : Orderly fed (serveSwitch c fed r) := by
  cases r with
  | setSwitch => exact .ofExcept (.bind fun _ _ => .pure ⟨rfl, rfl⟩)
  | setAutomaticResignDirective =>
    exact .ofExcept (.bind fun _ _ => .bind fun _ _ => .pure ⟨rfl, rfl⟩)

theorem serveLookup_orderly (r : LookupRequest) : Orderly fed (serveLookup c fed r) := by
  rw [serveLookup]
  split
  · exact .reject _
  · -- whatever the answer is, nothing has been done
    exact ofExcept_of .reject (.bind fun _ _ => .pure ⟨fun _ => ⟨rfl, rfl, rfl, .nothing⟩, rfl⟩)

/-- Not `commitRegionModifications`. -/
def ServiceRequest.ChecksFirst : ServiceRequest → Prop
  | region (.commitRegionModifications _) => False
  | _ => True

theorem serve_orderly {r : ServiceRequest} (hr : r.ChecksFirst) (hsave : ∀ q, r ≠ .saveRestore q) :
    Orderly fed (serve c fed r) := by
  cases r with
  | declaration r => exact (serveDeclaration_proper r).orderly
  | region =>
    refine (serveRegion_proper ?_).orderly
    rintro regions rfl
    exact hr
  | directed r => exact (serveDirected_proper r).orderly
  | object r => exact serveObject_orderly r
  | ownership r => exact (serveOwnership_proper r).orderly
  | saveRestore r => exact absurd rfl (hsave r)
  | syncPoint r => exact (serveSyncPoint_proper r).orderly
  | time r => exact serveTime_orderly r
  | switch r => exact serveSwitch_orderly r
  | lookup r => exact serveLookup_orderly r

/-- **A service that throws has done nothing.** -/
theorem serve_checksFirst {r : ServiceRequest} (hr : r.ChecksFirst) :
    ChecksFirst fed (serve c fed r) := by
  cases r with
  | saveRestore r => exact (serveSaveRestore_careful r).2
  | _ => exact (serve_orderly hr fun _ => ServiceRequest.noConfusion).checksFirst

/-- Not `commitRegionModifications`. -/
def CallRequest.ChecksFirst : CallRequest → Prop
  | service r => r.ChecksFirst
  | _ => True

namespace Node

/-- Nothing is sent, and the node is as it was, except that in the federations
a handle may have been drawn. -/
structure Untouched (n : Node) (o : CallOutcome) : Prop where
  callbacks : o.callbacks = []
  node : ∃ heap, o.node = { n with heap } ∧ ∀ r, (n.heap r).Drew (heap r)

variable {n : Node} {s : Session}

theorem untouched_respond (response : Resp) : n.Untouched (n.respond response []) :=
  ⟨rfl, n.heap, rfl, fun _ => .nothing⟩

theorem drew_update {r : FedRef} (h : (n.heap r).Drew fed) (r' : FedRef) :
    (n.heap r').Drew (Function.update n.heap r fed r') := by
  by_cases hr : r' = r
  · subst hr
    rw [Function.update_self]
    exact h
  · rw [Function.update_of_ne hr]
    exact .nothing

theorem untouched_join (t : Transport) (form : JoinForm) (federateName federationName : String)
    (h : (n.join t s form federateName federationName).response.accepted = false) :
    n.Untouched (n.join t s form federateName federationName) := by
  rw [join] at h ⊢
  split at h
  · next hm =>
      rw [if_pos hm]
      exact untouched_respond _
  · next hm =>
      rw [if_neg hm]
      cases hr : n.federations.lookup federationName with
      | none => exact untouched_respond _
      | some r =>
        rw [hr] at h
        dsimp only at h ⊢
        rcases Federation.join_cases (n.heap r) (requestedName form federateName) s.sessionId with
          ⟨e, he⟩ | ⟨name, he⟩
        · rw [he]
          exact ⟨rfl, _, rfl, drew_update .federateHandle⟩
        · rw [he] at h
          cases h

theorem untouched_serveFederation (t : Transport) (env : CallEnv) (r : FederationRequest)
    (h : (n.serveFederation t s env r).response.accepted = false) :
    n.Untouched (n.serveFederation t s env r) := by
  cases r with
  | createFederationExecution form name modules =>
    rw [serveFederation] at h ⊢
    cases hc : n.createFederation env name modules with
    | error => exact untouched_respond _
    | ok =>
      rw [hc] at h
      cases h
  | destroyFederationExecution name =>
    rw [serveFederation] at h ⊢
    cases hd : n.destroyFederation name with
    | error => exact untouched_respond _
    | ok =>
      rw [hd] at h
      cases h
  | listFederationExecutionMembers => cases h
  | listFederationExecutions => cases h
  | joinFederationExecution form federateName federationName =>
    exact untouched_join t form federateName federationName h
  | resignFederationExecution =>
    rw [serveFederation, resign] at h ⊢
    cases hm : s.membership with
    | none => exact untouched_respond _
    | some =>
      rw [hm] at h
      cases h

theorem untouched_serveMember {m : Membership} {env : CallEnv} {r : ServiceRequest}
    (hr : r.ChecksFirst) (h : (n.serveMember m env r).response.accepted = false) :
    n.Untouched (n.serveMember m env r) := by
  have hidle : (serve (n.caller m env) (n.heap m.federation) r).Idle (n.heap m.federation) :=
    serve_checksFirst hr h
  refine ⟨hidle.callbacks, _, ?_, drew_update hidle.federation⟩
  show (n.setFederation m.federation _).writeSnapshot _ env _ = _
  rw [hidle.snapshot]
  rfl

/-- **Exceptions have no effect.**  In every state, reachable or not, and for
every request but `commitRegionModifications`: if the response is an exception,
no callback is produced and the node is as it was, with the session's
membership, the registry and every federation, except that the call may have
drawn an instance or a federate handle. -/
theorem exceptions_have_no_effect (n : Node) {t : Transport} {env : CallEnv} {request : CallRequest}
    (hreq : request.ChecksFirst) {o : CallOutcome} (ho : n.outcome t env request = some o)
    {e : ExceptionData} (he : o.response = .exceptionData e) : n.Untouched o := by
  obtain ⟨s, _, rfl⟩ := Option.map_eq_some_iff.mp ho
  have hrej : (n.dispatchCall t s env request).response.accepted = false := by
    rw [he]
    rfl
  cases request with
  | malformed | unset => exact untouched_respond _
  | stateless r =>
    rw [dispatchCall]
    cases statelessResponse r with
    | error | ok => exact untouched_respond _
  | federation r => exact untouched_serveFederation t env r hrej
  | service =>
    rw [dispatchCall] at hrej ⊢
    cases hm : s.membership with
    | none => exact untouched_respond _
    | some =>
      rw [hm] at hrej
      exact untouched_serveMember hreq hrej

/-- An instance is named `HLA1`, and another of this name is refused; the handle
it would have had is drawn. -/
theorem exceptions_have_no_effect_nameInUse :
    let n := run Node.step Node.new pairUpdating
    let request : ServiceRequest := .object (.registerObjectInstanceWithName (wire32 1) "HLA1")
    ∃ o, n.outcome 0 .plain (.service request) = some o ∧ o.response.accepted = false ∧
      (o.node.heap 0).nextObjectId = (n.heap 0).nextObjectId + 1 ∧ n.Untouched o := by
  intro n request
  have hrejected : (n.outcome 0 .plain (.service request)).map
      (fun o => (o.response.accepted, (o.node.heap 0).nextObjectId)) =
      some (false, (n.heap 0).nextObjectId + 1) := by
    decide +kernel
  obtain ⟨o, ho, hresp⟩ := Option.map_eq_some_iff.mp hrejected
  obtain ⟨hacc, hid⟩ := Prod.mk.inj hresp
  obtain ⟨e, he⟩ := Resp.exception_of_not_accepted hacc
  exact ⟨o, ho, hacc, hid, exceptions_have_no_effect n
    (show CallRequest.ChecksFirst (.service request) from trivial) ho he⟩

end Node

end Hla4
