/-
# `Hla4.Rti.Safety.Joining` — joining, section by section

Creating and destroying a federation are one section each, under the write lock
of `node.federations`.  A join is not: `join` looks the federation up, draws a
handle, checks the name if one is asked for, and enters the federate, each
under a lock of its own, and other calls run in between.

    join      look up · draw a handle · check the name · enter the federate ·
              set the membership · return
    resign    take the membership · remove the federate · return

The session context is the session's own; what the sessions share is the node.
A call that runs undisturbed does what its handler does in one step
(`solo_serves_federation`).

A federation that nobody has joined can be destroyed, also between the look-up
and the entry of a join: the federate then enters a federation that nobody can
find (`joined_unregistered`).  Apart from that a member's federation is the one
registered under its name (`membership_registered`).
-/
import Hla4.Lib.Sections
import Hla4.Rti.Node

namespace Hla4

open Lib

/-! ## The model -/

/-- What the sessions share. -/
structure JoinShared where
  node : Node
  /-- history: the federate entered last under the handle asked for its name -/
  asked : FedRef → FederateHandle → Bool
  /-- history: the responses, with the sessions they are for -/
  answers : List (UInt64 × Resp)

/-- Where a session stands, before its next section. -/
inductive JoinPhase
  | idle
  | drawing (form : JoinForm) (requested : Option String) (r : FedRef)
  | checking (form : JoinForm) (name : String) (r : FedRef) (handle : FederateHandle)
  | entering (form : JoinForm) (m : Membership) (asked : Bool)
  | seating (form : JoinForm) (m : Membership)
  | removing (m : Membership)
  | returning (response : Resp)

structure JoinSession where
  session : Session
  phase : JoinPhase

/-- The call an idle session makes next. -/
abbrev JoinInput := Option (CallEnv × FederationRequest)

/-- Enter a federate under a handle drawn before. -/
def Federation.enterAs (fed : Federation) (handle : FederateHandle) (name : String)
    (sessionId : UInt64) : Federation :=
  { fed with federates := fed.federates.insert handle (.new handle name sessionId) }

namespace JoinSession

variable (p : JoinSession)

def goTo (phase : JoinPhase) : JoinSession := { p with phase }

def returning (response : Resp) : JoinSession := p.goTo (.returning response)

def rejecting (e : ExceptionData) : JoinSession := p.returning (.exceptionData e)

def setMembership (m : Option Membership) : JoinSession :=
  { p with session := { p.session with membership := m } }

end JoinSession

namespace JoinShared

variable (s : JoinShared)

def setNode (node : Node) : JoinShared := { s with node }

/-- A section under the write lock of `node.federations`. -/
def manage (p : JoinSession) (ack : Ack) : Except ExceptionData Node → JoinShared × JoinSession
  | .ok node => (s.setNode node, p.returning (.ack ack))
  | .error e => (s, p.rejecting e)

/-- A call, up to the end of its first section. -/
def start (p : JoinSession) (env : CallEnv) : FederationRequest → JoinShared × JoinSession
  | .createFederationExecution form name modules =>
    s.manage p (.createFederationExecution form) (s.node.createFederation env name modules)
  | .destroyFederationExecution name =>
    s.manage p .destroyFederationExecution (s.node.destroyFederation name)
  | .joinFederationExecution form federateName federationName =>
    if p.session.membership.isSome then
      (s, p.rejecting (HlaException.federateAlreadyExecutionMember.because
        ("session " ++ toString p.session.sessionId)))
    else
      match s.node.federations.lookup federationName with
      | none => (s, p.rejecting
          (HlaException.federationExecutionDoesNotExist.because federationName))
      | some r => (s, p.goTo (.drawing form (Node.requestedName form federateName) r))
  | .resignFederationExecution =>
    match p.session.membership with
    | none => (s, p.rejecting HlaException.federateNotExecutionMember.bare)
    | some m => (s, (p.setMembership none).goTo (.removing m))
  | _ => (s, p)

/-- The next section of a session's call. -/
def sect (p : JoinSession) (x : JoinInput) : JoinShared × JoinSession :=
  match p.phase with
  | .idle => x.elim (s, p) fun call => s.start p call.1 call.2
  | .drawing form requested r =>
    let fed := s.node.heap r
    (s.setNode (s.node.setFederation r fed.drawHandle),
      match requested with
      | some name => p.goTo (.checking form name r fed.nextHandle)
      | none => p.goTo (.entering form
          ⟨r, fed.nextHandle, "federate-" ++ hex8 fed.nextFederateId⟩ false))
  | .checking form name r handle =>
    if ∃ fs ∈ (s.node.heap r).federates.values, fs.name = name then
      (s, p.rejecting (HlaException.federateNameAlreadyInUse.because name))
    else (s, p.goTo (.entering form ⟨r, handle, name⟩ true))
  | .entering form m asked =>
    ({ s with
        node := s.node.setFederation m.federation ((s.node.heap m.federation).enterAs
          m.federateHandle m.federateName p.session.sessionId)
        asked := fun r h =>
          if r = m.federation ∧ h = m.federateHandle then asked else s.asked r h },
      p.goTo (.seating form m))
  | .seating form m =>
    (s, (p.setMembership (some m)).returning
      (.joinFederationExecution form m.federateHandle "HLAfloat64Time"))
  | .removing m =>
    (s.setNode (s.node.removeFederate m), p.returning (.ack .resignFederationExecution))
  | .returning response =>
    ({ s with answers := s.answers ++ [(p.session.sessionId, response)] }, p.goTo .idle)

/-- The other services of a federation. -/
def serves (r : FedRef) (c : Caller) (req : ServiceRequest) : JoinShared :=
  s.setNode (s.node.setFederation r (serve c (s.node.heap r) req).federation)

end JoinShared

/-- What else happens to the shared state. -/
inductive JoinAct
  | serve (r : FedRef) (c : Caller) (req : ServiceRequest)

def joining : Sections JoinShared JoinSession JoinInput JoinAct where
  sect := JoinShared.sect
  act
    | s, .serve r c req => s.serves r c req

def JoinShared.new : JoinShared := ⟨.new, fun _ _ => false, []⟩

/-- A session that has not joined. -/
def JoinSession.new (sessionId : UInt64) : JoinSession := ⟨⟨sessionId, none, 0⟩, .idle⟩

/-! ## One call by itself -/

/-- The shared state and the session after a call are what the handler makes of
them in one step. -/
structure JoinShared.Serves (s s' : JoinShared) (p p' : JoinSession) (t : Transport)
    (o : CallOutcome) : Prop where
  node : { s'.node with sessions := o.node.sessions } = o.node
  session : s.node.sessions.lookup t = some p.session →
    o.node.sessions.lookup t = some p'.session
  answers : s'.answers = s.answers ++ [(p.session.sessionId, o.response)]
  idle : p'.phase = .idle

/-- The calls of this module. -/
def FederationRequest.manages : FederationRequest → Bool
  | listFederationExecutionMembers _ => false
  | listFederationExecutions => false
  | _ => true

section Solo

variable {s s' : JoinShared} {p q : JoinSession} {t : Transport} {o : CallOutcome} {env : CallEnv}

theorem solo_idle_session (k : Nat) (hp : p.phase = .idle) :
    joining.solo (List.replicate k none) s p = (s, p) := by
  induction k with
  | zero => rfl
  | succ k ih =>
    rw [List.replicate_succ, Sections.solo]
    show joining.solo (List.replicate k none) (s.sect p none).1 (s.sect p none).2 = _
    rw [JoinShared.sect, hp]
    exact ih

/-- A call that has only to return does what the handler did. -/
theorem solo_answering (s s' : JoinShared) (p q : JoinSession) (t : Transport) (o : CallOutcome)
    (k : Nat)
    (hnode : { s'.node with sessions := o.node.sessions } = o.node)
    (hsession : s.node.sessions.lookup t = some p.session →
      o.node.sessions.lookup t = some q.session)
    (hid : q.session.sessionId = p.session.sessionId) (hanswers : s'.answers = s.answers) :
    ∃ s'' p', joining.solo (List.replicate (k + 1) none) s' (q.returning o.response) = (s'', p') ∧
      s.Serves s'' p p' t o := by
  refine ⟨_, _, solo_idle_session k rfl, ⟨hnode, hsession, ?_, rfl⟩⟩
  show s'.answers ++ [(q.session.sessionId, o.response)] = _
  rw [hanswers, hid]

theorem solo_responding (s : JoinShared) (p : JoinSession) (t : Transport) (k : Nat) (n' : Node)
    (response : Resp) (hn : n'.sessions = s.node.sessions) :
    ∃ s'' p', joining.solo (List.replicate (k + 1) none) (s.setNode n') (p.returning response) =
      (s'', p') ∧ s.Serves s'' p p' t (n'.respond response []) := by
  refine solo_answering s (s.setNode n') p p t (n'.respond response []) k rfl ?_ rfl rfl
  intro hs
  show n'.sessions.lookup t = _
  rw [hn, hs]

theorem solo_rejecting (s : JoinShared) (p : JoinSession) (t : Transport) (k : Nat)
    (e : ExceptionData) :
    ∃ s'' p', joining.solo (List.replicate (k + 1) none) s (p.rejecting e) = (s'', p') ∧
      s.Serves s'' p p' t (s.node.respond (.exceptionData e) []) :=
  solo_responding s p t k s.node _ rfl

theorem createFederation_sessions {n n' : Node} {name : String} {modules : List WireFomModule}
    (h : n.createFederation env name modules = .ok n') : n'.sessions = n.sessions := by
  obtain ⟨fom, _, h⟩ := bind_eq_ok.mp h
  cases h
  rfl

theorem enterAs_drawHandle (fed : Federation) (name : String) (sessionId : UInt64) :
    fed.drawHandle.enterAs fed.nextHandle name sessionId = fed.enter name sessionId := rfl

/-- A join, from where the federate is entered on. -/
theorem solo_entering (s : JoinShared) (p : JoinSession) (t : Transport) (o : CallOutcome) (k : Nat)
    (form : JoinForm) (r : FedRef) (name : String) (asked : Bool)
    (ho : o = ((s.node.setFederation r ((s.node.heap r).enter name p.session.sessionId)).setMembership
      t (some ⟨r, (s.node.heap r).nextHandle, name⟩)).respond
        (.joinFederationExecution form (s.node.heap r).nextHandle "HLAfloat64Time") []) :
    ∃ s' p', joining.solo (List.replicate (k + 3) none)
        (s.setNode (s.node.setFederation r (s.node.heap r).drawHandle))
        (p.goTo (.entering form ⟨r, (s.node.heap r).nextHandle, name⟩ asked)) = (s', p') ∧
      s.Serves s' p p' t o := by
  let drawn := s.setNode (s.node.setFederation r (s.node.heap r).drawHandle)
  let m : Membership := ⟨r, (s.node.heap r).nextHandle, name⟩
  have hentered : drawn.node.setFederation r
      ((drawn.node.heap r).enterAs m.federateHandle name p.session.sessionId) =
      s.node.setFederation r ((s.node.heap r).enter name p.session.sessionId) := by
    have hself : drawn.node.heap r = (s.node.heap r).drawHandle := Function.update_self ..
    rw [hself, enterAs_drawHandle]
    show (s.node.setFederation r _).setFederation r _ = _
    rw [Node.setFederation, Node.setFederation, Function.update_idem]
    rfl
  have hdone := solo_answering s (drawn.sect (p.goTo (.entering form m asked)) none).1 p
    (p.setMembership (some m)) t o k ?_ ?_ rfl rfl
  · rw [ho] at hdone ⊢
    exact hdone
  · show ({ drawn.node.setFederation r ((drawn.node.heap r).enterAs m.federateHandle name
      p.session.sessionId) with sessions := o.node.sessions } : Node) = o.node
    rw [hentered, ho]
    rfl
  · intro hs
    rw [ho]
    show ((s.node.sessions.modify t _).lookup t) = _
    rw [HashMap.lookup_modify, if_pos rfl, hs]
    rfl

/-- A join, from where the name is checked on. -/
theorem solo_checking (s : JoinShared) (p : JoinSession) (t : Transport) (form : JoinForm) (r : FedRef)
    (name : String)
    (hused : (∃ fs ∈ (s.node.heap r).federates.values, fs.name = name) →
      o = (s.node.setFederation r (s.node.heap r).drawHandle).respond
        (.exceptionData (HlaException.federateNameAlreadyInUse.because name)) [])
    (hfree : ¬ (∃ fs ∈ (s.node.heap r).federates.values, fs.name = name) →
      o = ((s.node.setFederation r ((s.node.heap r).enter name p.session.sessionId)).setMembership t
        (some ⟨r, (s.node.heap r).nextHandle, name⟩)).respond
          (.joinFederationExecution form (s.node.heap r).nextHandle "HLAfloat64Time") []) :
    ∃ s' p', joining.solo (List.replicate 5 none)
        (s.setNode (s.node.setFederation r (s.node.heap r).drawHandle))
        (p.goTo (.checking form name r (s.node.heap r).nextHandle)) = (s', p') ∧
      s.Serves s' p p' t o := by
  let drawn := s.setNode (s.node.setFederation r (s.node.heap r).drawHandle)
  let checking := p.goTo (.checking form name r (s.node.heap r).nextHandle)
  have hself : drawn.node.heap r = (s.node.heap r).drawHandle := Function.update_self ..
  show ∃ s' p', joining.solo (List.replicate 4 none) (drawn.sect checking none).1
    (drawn.sect checking none).2 = (s', p') ∧ s.Serves s' p p' t o
  by_cases huse : ∃ fs ∈ (s.node.heap r).federates.values, fs.name = name
  · have hsect : drawn.sect checking none = (drawn, checking.rejecting
        (HlaException.federateNameAlreadyInUse.because name)) := by
      refine if_pos ?_
      rw [hself]
      exact huse
    rw [hsect, hused huse]
    exact solo_responding s p t 3 _ _ rfl
  · have hsect : drawn.sect checking none =
        (drawn, checking.goTo (.entering form ⟨r, (s.node.heap r).nextHandle, name⟩ true)) := by
      refine if_neg ?_
      rw [hself]
      exact huse
    rw [hsect]
    exact solo_entering s p t o 1 form r name true (hfree huse)

/-- A join of a session that has not joined, from the draw on. -/
theorem solo_drawing (s : JoinShared) (p : JoinSession) (t : Transport)
    (hm : p.session.membership = none) (form : JoinForm) (federateName federationName : String)
    {r : FedRef} (hr : s.node.federations.lookup federationName = some r) :
    ∃ s' p', joining.solo (List.replicate 6 none) s
        (p.goTo (.drawing form (Node.requestedName form federateName) r)) = (s', p') ∧
      s.Serves s' p p' t (s.node.join t p.session form federateName federationName) := by
  cases hreq : Node.requestedName form federateName with
  | none =>
    refine solo_entering s p t _ 2 form r _ false ?_
    simp [Node.join, hm, hr, hreq, Federation.join]
  | some name =>
    refine solo_checking s p t form r name ?_ ?_
    · intro huse
      simp [Node.join, hm, hr, hreq, Federation.join, huse]
    · intro huse
      simp [Node.join, hm, hr, hreq, Federation.join, huse]

theorem solo_federation (s : JoinShared) (p : JoinSession) (t : Transport) (env : CallEnv)
    (hp : p.phase = .idle) {r : FederationRequest} (hr : r.manages = true) :
    ∃ s' p', joining.solo (some (env, r) :: List.replicate 6 none) s p = (s', p') ∧
      s.Serves s' p p' t (s.node.serveFederation t p.session env r) := by
  have hstart : s.sect p (some (env, r)) = s.start p env r := by rw [JoinShared.sect, hp]; rfl
  show ∃ s' p', joining.solo (List.replicate 6 none) (s.sect p (some (env, r))).1
    (s.sect p (some (env, r))).2 = (s', p') ∧ _
  rw [hstart]
  cases r with
  | createFederationExecution form name modules =>
    rw [JoinShared.start, Node.serveFederation]
    cases hc : s.node.createFederation env name modules with
    | ok n' => exact solo_responding s p t 5 n' _ (createFederation_sessions hc)
    | error e => exact solo_rejecting s p t 5 e
  | destroyFederationExecution name =>
    rw [JoinShared.start, Node.serveFederation]
    cases hd : s.node.destroyFederation name with
    | ok =>
      obtain rfl := Node.destroyFederation_ok hd
      exact solo_responding s p t 5 _ _ rfl
    | error e => exact solo_rejecting s p t 5 e
  | joinFederationExecution form federateName federationName =>
    rw [JoinShared.start, Node.serveFederation]
    cases hm : p.session.membership with
    | some =>
      rw [Node.join, hm]
      exact solo_rejecting s p t 5 _
    | none =>
      cases hfed : s.node.federations.lookup federationName with
      | none =>
        rw [Node.join, hm, hfed]
        exact solo_rejecting s p t 5 _
      | some => exact solo_drawing s p t hm form federateName federationName hfed
  | resignFederationExecution =>
    rw [JoinShared.start, Node.serveFederation, Node.resign]
    cases hm : p.session.membership with
    | none => exact solo_rejecting s p t 5 _
    | some m =>
      refine solo_answering s (s.setNode (s.node.removeFederate m)) p (p.setMembership none) t
        (((s.node.removeFederate m).setMembership t none).respond _ []) 4 rfl ?_ rfl rfl
      intro hs
      show (s.node.sessions.modify t _).lookup t = _
      rw [HashMap.lookup_modify, if_pos rfl, hs]
      rfl
  | listFederationExecutionMembers => cases hr
  | listFederationExecutions => cases hr

/-- **A call that runs undisturbed** does what its handler does in one step,
whatever the other sessions are about. -/
theorem solo_serves_federation {I : Type} [DecidableEq I] {sessions : I → JoinSession} {i : I}
    (hp : (sessions i).phase = .idle) {r : FederationRequest} (hr : r.manages = true) :
    ∃ s' p', run joining.step (s, sessions)
        ((some (env, r) :: List.replicate 6 none : List JoinInput).map (.go i)) =
          (s', Function.update sessions i p') ∧
      s.Serves s' (sessions i) p' t (s.node.serveFederation t (sessions i).session env r) := by
  obtain ⟨s', p', hsolo, hserves⟩ := solo_federation s (sessions i) t env hp hr
  refine ⟨s', p', ?_, hserves⟩
  rw [Sections.run_solo, hsolo]

end Solo

/-! Two sessions; the first one creates a federation. -/

abbrev JoinRun := List (SectionEvent Two JoinInput JoinAct)

/-- The first section of a call of a session. -/
def FederationRequest.startedBy (r : FederationRequest) (i : Two) :
    SectionEvent Two JoinInput JoinAct := .go i (some (.plain, r))

/-- The next `k` sections of a session's call. -/
def joinGoesOn (i : Two) (k : Nat) : JoinRun := List.replicate k (.go i none)

def createF : FederationRequest := .createFederationExecution .withModules "f" [.file "m" []]

def joinAs (name : String) : FederationRequest := .joinFederationExecution .withName name "f"

def pairIds : Two → UInt64
  | .one => 1
  | .two => 2

def joinPair (es : JoinRun) : JoinShared × (Two → JoinSession) :=
  run joining.step (JoinShared.new, fun i => JoinSession.new (pairIds i)) es

/-- The second has looked the federation up and drawn a handle; the node knows
the session of the first, at transport 0. -/
def handleDrawn : JoinShared × (Two → JoinSession) :=
  let s := joinPair (createF.startedBy .one :: joinGoesOn .one 1 ++
    (joinAs "viewer").startedBy .two :: joinGoesOn .two 1)
  (s.1.setNode { s.1.node with sessions := AList.insert 0 (s.2 .one).session ∅ }, s.2)

theorem solo_serves_federation_joins :
    let s := handleDrawn
    let o := s.1.node.serveFederation 0 (s.2 .one).session .plain (joinAs "sender")
    (s.2 .two).phase = .checking .withName "viewer" 0 ⟨1⟩ ∧
    o.response = .joinFederationExecution .withName ⟨2⟩ "HLAfloat64Time" ∧
    ∃ s' p', run joining.step s ((joinAs "sender").startedBy .one :: joinGoesOn .one 6) =
        (s', Function.update s.2 .one p') ∧
      s.1.Serves s' (s.2 .one) p' 0 o ∧ p'.session.membership = some ⟨0, ⟨2⟩, "sender"⟩ := by
  obtain ⟨s', p', hrun, hserves⟩ := @solo_serves_federation handleDrawn.1 0 .plain Two _
    handleDrawn.2 .one rfl (joinAs "sender") rfl
  refine ⟨rfl, rfl, s', p', hrun, hserves, ?_⟩
  have hseat := hserves.session rfl
  exact (congrArg (fun p : Option Session => p.bind Session.membership) hseat).symm

/-! ## Registered federations -/

/-- A place in a federation. -/
abbrev Membership.place (m : Membership) : FedRef × FederateHandle :=
  (m.federation, m.federateHandle)

namespace JoinPhase

/-- The federation a join has looked up, until it has entered the federate. -/
def federation? : JoinPhase → Option FedRef
  | drawing _ _ r => some r
  | checking _ _ r _ => some r
  | entering _ m _ => some m.federation
  | _ => none

/-- The place a call is about to take, or to leave. -/
def place? : JoinPhase → Option (FedRef × FederateHandle)
  | checking _ _ r handle => some (r, handle)
  | entering _ m _ => some m.place
  | seating _ m => some m.place
  | removing m => some m.place
  | _ => none

end JoinPhase

/-- The session has the place, or its call is about it. -/
def JoinSession.Has (p : JoinSession) (u : FedRef × FederateHandle) : Prop :=
  p.session.membership.map Membership.place = some u ∨ p.phase.place? = some u

instance (p : JoinSession) (u : FedRef × FederateHandle) : Decidable (p.Has u) :=
  inferInstanceAs (Decidable (_ ∨ _))

theorem heap_setFederation (n : Node) (r r' : FedRef) (fed : Federation) :
    (n.setFederation r fed).heap r' = if r' = r then fed else n.heap r' := Function.update_apply ..

namespace JoinShared

/-- The federation the next section destroys. -/
def destroys (s : JoinShared) (p : JoinSession) (x : JoinInput) : Option FedRef :=
  match p.phase, x with
  | .idle, some (_, .destroyFederationExecution name) =>
    (s.node.federations.lookup name).filter fun r => decide ((s.node.heap r).federates.keys = [])
  | _, _ => none

/-- The place whose handle the next section draws. -/
def draws (s : JoinShared) (p : JoinSession) : Option (FedRef × FederateHandle) :=
  match p.phase with
  | .drawing _ _ r => some (r, (s.node.heap r).nextHandle)
  | _ => none

/-- What a section can do to the federations: register one, destroy one, or
neither; federates leave by being removed only. -/
inductive Change (s : JoinShared) (p : JoinSession) (x : JoinInput) (n' : Node) : Prop
  | keep (hf : n'.federations = s.node.federations) (hn : n'.nextRef = s.node.nextRef)
      (hname : ∀ r, (n'.heap r).name = (s.node.heap r).name)
      (hjoined : ∀ r h, h ∈ (s.node.heap r).federates →
        (∀ m, p.phase = .removing m → m.place ≠ (r, h)) → h ∈ (n'.heap r).federates)
  | create (name : String) (hnew : name ∉ s.node.federations)
      (hf : n'.federations = s.node.federations.insert name s.node.nextRef)
      (hn : n'.nextRef = s.node.nextRef + 1) (hname : (n'.heap s.node.nextRef).name = name)
      (hheap : ∀ r, r ≠ s.node.nextRef → n'.heap r = s.node.heap r)
  | destroy (name : String) (r : FedRef) (hr : s.node.federations.lookup name = some r)
      (hd : s.destroys p x = some r) (hf : n'.federations = s.node.federations.erase name)
      (hn : n'.nextRef = s.node.nextRef) (hheap : n'.heap = s.node.heap)

section Change

variable {s : JoinShared} {p : JoinSession} {x : JoinInput} {n' : Node}

theorem destroys_empty {r : FedRef} (h : s.destroys p x = some r) :
    (s.node.heap r).federates.keys = [] := by
  unfold destroys at h
  split at h
  · exact of_decide_eq_true (Option.filter_eq_some_iff.mp h).2
  · cases h

theorem Change.same : s.Change p x s.node :=
  .keep rfl rfl (fun _ => rfl) fun _ _ hh _ => hh

theorem Change.set {r : FedRef} {fed : Federation} (hname : fed.name = (s.node.heap r).name)
    (hjoined : ∀ h, h ∈ (s.node.heap r).federates →
      (∀ m, p.phase = .removing m → m.place ≠ (r, h)) → h ∈ fed.federates) :
    s.Change p x (s.node.setFederation r fed) := by
  refine .keep rfl rfl (fun r' => ?_) fun r' h hh hne => ?_
  · rw [heap_setFederation]
    split
    · next hr => exact hr ▸ hname
    · rfl
  · rw [heap_setFederation]
    split
    · next hr =>
        subst hr
        exact hjoined h hh hne
    · exact hh

theorem start_change (hp : p.phase = .idle) (env : CallEnv) (r : FederationRequest) :
    s.Change p (some (env, r)) (s.start p env r).1.node := by
  cases r with
  | createFederationExecution form name modules =>
    rw [start]
    cases hc : s.node.createFederation env name modules with
    | error => exact .same
    | ok =>
      obtain ⟨fom, hfom, hn'⟩ := bind_eq_ok.mp hc
      cases hn'
      obtain ⟨_, _, hfom⟩ := bind_eq_ok.mp hfom
      obtain ⟨_, hnew, _⟩ := bind_eq_ok.mp hfom
      refine .create name (require_eq_ok.mp hnew) rfl rfl ?_ fun r hr => ?_
      · show (Function.update s.node.heap _ _ _).name = _
        rw [Function.update_self]
        rfl
      · exact Function.update_of_ne hr ..
  | destroyFederationExecution name =>
    rw [start]
    cases hd : s.node.destroyFederation name with
    | error => exact .same
    | ok =>
      obtain ⟨r, hr, hn'⟩ := bind_eq_ok.mp hd
      obtain ⟨_, hempty, hn'⟩ := bind_eq_ok.mp hn'
      cases hn'
      have hr := getOr_eq_ok.mp hr
      have hempty := require_eq_ok.mp hempty
      exact .destroy name r hr (by simp [destroys, hp, hr, hempty]) rfl rfl rfl
  | joinFederationExecution =>
    rw [start]
    split
    · exact .same
    · split <;> exact .same
  | resignFederationExecution =>
    rw [start]
    split <;> exact .same
  | listFederationExecutionMembers => exact .same
  | listFederationExecutions => exact .same

theorem sect_change (s : JoinShared) (p : JoinSession) (x : JoinInput) :
    s.Change p x (s.sect p x).1.node := by
  obtain ⟨session, phase⟩ := p
  cases phase with
  | idle =>
    cases x with
    | none => exact .same
    | some call => exact start_change rfl call.1 call.2
  | drawing => exact .set rfl fun _ hh _ => hh
  | checking =>
    rw [sect]
    dsimp only
    split <;> exact .same
  | entering =>
    refine .set rfl fun h hh _ => ?_
    exact (AList.mem_insert _).mpr (.inr hh)
  | seating => exact .same
  | removing m =>
    refine .set rfl fun h hh hne => ?_
    have hk : h ≠ m.federateHandle := fun hk => hne m rfl (by rw [hk])
    exact AList.mem_erase.mpr ⟨hk, hh⟩
  | returning => exact .same

end Change

end JoinShared

namespace Node

/-- The federation is the one found under its name. -/
def Registered (n : Node) (r : FedRef) : Prop := n.federations.lookup (n.heap r).name = some r

/-- What is found under a name bears it. -/
def Registers (n : Node) : Prop :=
  ∀ name r, n.federations.lookup name = some r → (n.heap r).name = name ∧ r < n.nextRef

/-- The federate of a membership is in a registered federation. -/
structure Holds (n : Node) (m : Membership) : Prop where
  registered : n.Registered m.federation
  joined : m.federateHandle ∈ (n.heap m.federation).federates

theorem Registered.lt {n : Node} {r : FedRef} (h : n.Registered r) (hn : n.Registers) :
    r < n.nextRef := (hn _ r h).2

end Node

namespace JoinShared.Change

variable {s : JoinShared} {p : JoinSession} {x : JoinInput} {n' : Node}

theorem registers (h : s.Change p x n') (hs : s.node.Registers) : n'.Registers := by
  intro name r hr
  cases h with
  | keep hf hn hname =>
    rw [hf] at hr
    rw [hn, hname]
    exact hs name r hr
  | create name' _ hf hn hname hheap =>
    rw [hf, HashMap.lookup_insert_eq] at hr
    split at hr
    · next heq =>
        cases hr
        exact ⟨hname.trans heq.symm, hn ▸ Nat.lt_succ_self _⟩
    · obtain ⟨hname', hlt⟩ := hs name r hr
      rw [hheap r (Nat.ne_of_lt hlt), hn]
      exact ⟨hname', Nat.lt_succ_of_lt hlt⟩
  | destroy name' r' _ _ hf hn hheap =>
    rw [hf, HashMap.lookup_erase_eq_some] at hr
    rw [hheap, hn]
    exact hs name r hr.2

/-- A federation stays registered unless it is the one destroyed. -/
theorem registered (h : s.Change p x n') (hs : s.node.Registers) {r : FedRef}
    (hr : s.node.Registered r) (hd : s.destroys p x ≠ some r) : n'.Registered r := by
  rw [Node.Registered]
  cases h with
  | keep hf _ hname =>
    rw [hf, hname]
    exact hr
  | create name hnew hf _ _ hheap =>
    -- the name is new, so it is not that of a registered federation
    have hne : (s.node.heap r).name ≠ name := by
      rintro rfl
      exact hnew (HashMap.mem_of_lookup hr)
    rw [hheap r (Nat.ne_of_lt (hr.lt hs)), hf, HashMap.lookup_insert_eq, if_neg hne]
    exact hr
  | destroy name r' hr' hd' hf _ hheap =>
    have hne : (s.node.heap r).name ≠ name := by
      rintro rfl
      exact hd (hd'.trans (hr'.symm.trans hr))
    rw [hheap, hf, HashMap.lookup_erase_eq, if_neg hne]
    exact hr

/-- So is the federation of a federate, which cannot be destroyed; and the
federate stays unless it is the one removed. -/
theorem holds (h : s.Change p x n') (hs : s.node.Registers) {m : Membership} (hm : s.node.Holds m)
    (hne : ∀ m', p.phase = .removing m' → m'.place ≠ m.place) : n'.Holds m := by
  have hd : s.destroys p x ≠ some m.federation := by
    intro hd
    have hmem := AList.mem_keys.mp hm.joined
    rw [destroys_empty hd] at hmem
    cases hmem
  refine ⟨h.registered hs hm.registered hd, ?_⟩
  cases h with
  | keep _ _ _ hjoined => exact hjoined _ _ hm.joined hne
  | create _ _ _ _ _ hheap =>
    rw [hheap _ (Nat.ne_of_lt (hm.registered.lt hs))]
    exact hm.joined
  | destroy _ _ _ _ _ _ hheap =>
    rw [hheap]
    exact hm.joined

end JoinShared.Change

/-! ## Sessions and their places -/

/-- What a call can rely on where it stands. -/
def JoinPhase.Sound (n : Node) (membership : Option Membership) : JoinPhase → Prop
  | drawing _ _ r => n.Registered r
  | checking _ _ r _ => n.Registered r
  | entering _ m _ => n.Registered m.federation
  | seating _ m => n.Holds m
  | removing _ => membership = none
  | _ => True

/-- What a session can rely on: its federate is in a registered federation, and
so is the one its call is about. -/
structure JoinSession.Sound (n : Node) (p : JoinSession) : Prop where
  member : ∀ m, p.session.membership = some m → n.Holds m
  phase : p.phase.Sound n p.session.membership

/-- No place is that of both. -/
def JoinSession.Disjoint (p q : JoinSession) : Prop := ∀ u, p.Has u → ¬ q.Has u

section Sections

variable {s : JoinShared} {p q : JoinSession} {x : JoinInput} {n n' : Node}

/-- Where a session stands after the first section of a call. -/
theorem start_session (s : JoinShared) (p : JoinSession) (env : CallEnv) (r : FederationRequest) :
    (∃ response, (s.start p env r).2 = p.returning response) ∨
    (∃ name r' form requested, s.node.federations.lookup name = some r' ∧
      s.start p env r = (s, p.goTo (.drawing form requested r'))) ∨
    (∃ m, p.session.membership = some m ∧
      (s.start p env r).2 = (p.setMembership none).goTo (.removing m)) ∨
    (s.start p env r).2 = p := by
  have hmanage : ∀ ack r, ∃ response, (s.manage p ack r).2 = p.returning response := by
    intro ack r
    cases r with
    | ok | error => exact ⟨_, rfl⟩
  cases r with
  | createFederationExecution | destroyFederationExecution => exact .inl (hmanage _ _)
  | joinFederationExecution form federateName federationName =>
    rw [JoinShared.start]
    split
    · exact .inl ⟨_, rfl⟩
    · cases hfed : s.node.federations.lookup federationName with
      | none => exact .inl ⟨_, rfl⟩
      | some r => exact .inr (.inl ⟨_, r, _, _, hfed, rfl⟩)
  | resignFederationExecution =>
    rw [JoinShared.start]
    cases hm : p.session.membership with
    | none => exact .inl ⟨_, rfl⟩
    | some m => exact .inr (.inr (.inl ⟨m, rfl, rfl⟩))
  | listFederationExecutionMembers | listFederationExecutions => exact .inr (.inr (.inr rfl))

theorem sound_start (hs : s.node.Registers) (hp : p.Sound s.node) (hidle : p.phase = .idle)
    (env : CallEnv) (r : FederationRequest) :
    (s.start p env r).2.Sound (s.start p env r).1.node := by
  have hmember : ∀ m, p.session.membership = some m → (s.start p env r).1.node.Holds m := by
    intro m hm
    refine (JoinShared.start_change hidle env r).holds hs (hp.member m hm) fun m' hm' => ?_
    rw [hidle] at hm'
    cases hm'
  rcases start_session s p env r with ⟨response, h⟩ | ⟨name, r', form, requested, hr', h⟩ |
    ⟨m, hm, h⟩ | h
  · rw [h]
    exact ⟨hmember, trivial⟩
  · rw [h]
    refine ⟨hp.member, ?_⟩
    show s.node.federations.lookup (s.node.heap r').name = some r'
    rw [(hs name r' hr').1, hr']
  · rw [h]
    exact ⟨nofun, rfl⟩
  · rw [h]
    exact ⟨hmember, by rw [hidle]; trivial⟩

/-- A section leads its own session to where it may rely on what it has. -/
theorem JoinSession.Sound.sect (hs : s.node.Registers) (hp : p.Sound s.node) :
    (s.sect p x).2.Sound (s.sect p x).1.node := by
  have hmember : ∀ m, p.session.membership = some m → (s.sect p x).1.node.Holds m := by
    intro m hm
    refine (JoinShared.sect_change s p x).holds hs (hp.member m hm) fun m' hm' => ?_
    have hleft := hp.phase
    rw [hm', JoinPhase.Sound, hm] at hleft
    cases hleft
  obtain ⟨session, phase⟩ := p
  cases phase with
  | idle =>
    cases x with
    | none => exact hp
    | some call => exact sound_start hs hp rfl call.1 call.2
  | drawing form requested r =>
    have hr : (s.sect ⟨session, .drawing form requested r⟩ x).1.node.Registered r :=
      (JoinShared.sect_change ..).registered hs hp.phase nofun
    cases requested with
    | none | some => exact ⟨hmember, hr⟩
  | checking =>
    rw [JoinShared.sect]
    dsimp only
    split
    · exact ⟨hp.member, trivial⟩
    · exact ⟨hp.member, hp.phase⟩
  | entering form m asked =>
    have hr : (s.sect ⟨session, .entering form m asked⟩ x).1.node.Registered m.federation :=
      (JoinShared.sect_change ..).registered hs hp.phase nofun
    refine ⟨hmember, hr, ?_⟩
    show _ ∈ (Function.update s.node.heap m.federation _ m.federation).federates
    rw [Function.update_self]
    exact (AList.mem_insert _).mpr (.inl rfl)
  | seating =>
    refine ⟨?_, trivial⟩
    rintro m' ⟨⟩
    exact hp.phase
  | removing => exact ⟨hmember, trivial⟩
  | returning => exact ⟨hp.member, trivial⟩

theorem has_start {u : FedRef × FederateHandle} {env : CallEnv} {r : FederationRequest}
    (h : (s.start p env r).2.Has u) : p.Has u := by
  rcases start_session s p env r with ⟨response, he⟩ | ⟨name, r', form, requested, _, he⟩ |
    ⟨m, hm, he⟩ | he
  · rw [he] at h
    exact h.elim .inl fun h => by cases h
  · rw [he] at h
    exact h.elim .inl fun h => by cases h
  · -- the place passes from the session to its call
    rw [he] at h
    rcases h with h | h
    · cases h
    · refine .inl ?_
      rw [hm]
      exact h
  · rwa [he] at h

/-- The places of a session after a section are those it had, and one whose
handle was drawn. -/
theorem has_sect {u : FedRef × FederateHandle} (h : (s.sect p x).2.Has u) :
    p.Has u ∨ s.draws p = some u := by
  obtain ⟨session, phase⟩ := p
  cases phase with
  | idle =>
    cases x with
    | none => exact .inl h
    | some => exact .inl (has_start h)
  | drawing form requested =>
    cases requested with
    | none | some => exact h.imp .inl id
  | checking =>
    rw [JoinShared.sect] at h
    dsimp only at h
    split at h
    · exact .inl (h.elim .inl fun h => by cases h)
    · exact .inl h
  | entering => exact .inl h
  | seating => exact .inl (h.elim .inr fun h => by cases h)
  | removing | returning => exact .inl (h.elim .inl fun h => by cases h)

/-- What a session relies on is not taken away, if its federate is not the one
removed and the federation it has looked up is not the one destroyed. -/
theorem JoinSession.Sound.change (hc : s.Change p x n') (hs : s.node.Registers)
    (hq : q.Sound s.node) (hleave : ∀ m, p.phase = .removing m → ¬ q.Has m.place)
    (hd : ∀ r ∈ s.destroys p x, q.phase.federation? ≠ some r) : q.Sound n' := by
  have hholds : ∀ m, q.Has m.place → s.node.Holds m → n'.Holds m :=
    fun m hm h => hc.holds hs h fun m' hm' he => hleave m' hm' (he ▸ hm)
  have hfound : ∀ r, q.phase.federation? = some r → s.node.Registered r → n'.Registered r :=
    fun r hr h => hc.registered hs h fun hd' => hd r hd' hr
  obtain ⟨session, phase⟩ := q
  refine ⟨fun m hm => hholds m (.inl (by rw [hm]; rfl)) (hq.member m hm), ?_⟩
  cases phase with
  | drawing _ _ r | checking _ _ r => exact hfound r rfl hq.phase
  | entering form m => exact hfound m.federation rfl hq.phase
  | seating form m => exact hholds m (.inr rfl) hq.phase
  | removing => exact hq.phase
  | idle => trivial
  | returning => trivial

/-- The other services change neither the name of a federation nor who is in
it. -/
theorem serves_change (r : FedRef) (c : Caller) (req : ServiceRequest) (sessionId : UInt64) :
    s.Change (.new sessionId) none (s.serves r c req).node := by
  refine .set ?_ fun h hh _ => (serve_mem_federates req h).mpr hh
  exact congrArg Prod.fst (serve_touches req .model (by decide))

end Sections

section Runs

variable {I : Type} [DecidableEq I]

/-- The federation that is destroyed is not one that a join has looked up, and
the handle that is drawn is not one that somebody has. -/
def KeepsLookedUp (s : JoinShared × (I → JoinSession)) : SectionEvent I JoinInput JoinAct → Prop
  | .go i x =>
    (∀ r ∈ s.1.destroys (s.2 i) x, ∀ j, (s.2 j).phase.federation? ≠ some r) ∧
    ∀ u ∈ s.1.draws (s.2 i), ∀ j, j ≠ i → ¬ (s.2 j).Has u
  | .act _ => True

instance [Fintype I] (s : JoinShared × (I → JoinSession)) :
    (e : SectionEvent I JoinInput JoinAct) → Decidable (KeepsLookedUp s e)
  | .go i x => inferInstanceAs (Decidable
      ((∀ r ∈ s.1.destroys (s.2 i) x, ∀ j, (s.2 j).phase.federation? ≠ some r) ∧
        ∀ u ∈ s.1.draws (s.2 i), ∀ j, j ≠ i → ¬ (s.2 j).Has u))
  | .act _ => .isTrue trivial

/-- **No federate in a destroyed federation**, in every interleaving in which no
federation is destroyed that a join has looked up and not yet entered, and no
handle is drawn that somebody has: whoever is a member of a federation is a
member of the one that is registered under its name. -/
theorem membership_registered (sessionIds : I → UInt64) {es : List (SectionEvent I JoinInput JoinAct)}
    (hok : StepsMeet joining.step KeepsLookedUp (.new, fun i => .new (sessionIds i)) es) :
    Always joining.step (fun s => ∀ i m, (s.2 i).session.membership = some m →
        s.1.node.federations.lookup (s.1.node.heap m.federation).name = some m.federation)
      (.new, fun i => .new (sessionIds i)) es := by
  have hinv := Sections.always_apart (m := joining) (J := fun s => s.node.Registers)
    (K := fun s p => p.Sound s.node) (R := JoinSession.Disjoint)
    (fun p q hpq u hq hp => hpq u hp hq)
    (fun s i x hs (hgo : KeepsLookedUp s (.go i x)) => ⟨(JoinShared.sect_change ..).registers hs.shared,
      JoinSession.Sound.sect hs.shared (hs.call i)⟩)
    (fun s i x j hs (hgo : KeepsLookedUp s (.go i x)) hj => ⟨?_, ?_⟩)
    (fun s a hs => ?_) hok ⟨?_, ?_, ?_⟩
  · exact fun done hd i m hm => ((hinv done hd).call i |>.member m hm).registered
  · refine (hs.call j).change (JoinShared.sect_change ..) hs.shared ?_ fun r hr => hgo.1 r hr j
    intro m hm
    exact hs.pair i j (Ne.symm hj) m.place (.inr (by rw [hm]; rfl))
  · intro u hu
    rcases has_sect hu with hold | hdrawn
    · exact hs.pair i j (Ne.symm hj) u hold
    · exact hgo.2 u hdrawn j hj
  · obtain ⟨r, c, req⟩ := a
    refine ⟨(serves_change r c req 0).registers hs, fun q hq => ?_⟩
    exact hq.change (serves_change r c req 0) hs nofun nofun
  · intro name r hr
    cases hr
  · exact fun i => ⟨nofun, trivial⟩
  · intro i j _ u hu
    rcases hu with hu | hu
    · cases hu
    · cases hu

end Runs

/-- The second one joins, is joined by the first, and resigns. -/
def joinedInTurn : JoinRun :=
  createF.startedBy .one :: joinGoesOn .one 1 ++ (joinAs "viewer").startedBy .two :: joinGoesOn .two 5 ++
    (joinAs "sender").startedBy .one :: joinGoesOn .one 5 ++
    FederationRequest.resignFederationExecution.startedBy .two :: joinGoesOn .two 2

theorem membership_registered_inTurn :
    ((joinPair joinedInTurn).2 .one).session.membership.map Membership.place = some (0, ⟨2⟩) ∧
    Always joining.step (fun s => ∀ i m, (s.2 i).session.membership = some m →
        s.1.node.federations.lookup (s.1.node.heap m.federation).name = some m.federation)
      (JoinShared.new, fun i : Two => JoinSession.new (pairIds i)) joinedInTurn :=
  ⟨by decide +kernel, membership_registered pairIds (by decide +kernel)⟩

/-- With the federation looked up by the second, the first destroys it, and may
create another. -/
def destroyedInBetween : List JoinRun :=
  let found := createF.startedBy .one :: joinGoesOn .one 1 ++ [(joinAs "viewer").startedBy .two]
  let destroyed := (FederationRequest.destroyFederationExecution "f").startedBy .one :: joinGoesOn .one 1
  [found ++ destroyed ++ joinGoesOn .two 5,
    found ++ destroyed ++ createF.startedBy .one :: joinGoesOn .one 1 ++ joinGoesOn .two 5]

/-- **A federate in a destroyed federation.**  The second is a member of the
first federation that was created, and this is not the one under its name. -/
theorem joined_unregistered : destroyedInBetween.Forall fun es =>
    ((joinPair es).2 .two).session.membership.map Membership.place = some (0, ⟨1⟩) ∧
    (joinPair es).1.node.federations.lookup ((joinPair es).1.node.heap 0).name ≠ some 0 := by
  decide +kernel

end Hla4
