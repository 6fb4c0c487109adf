/-
# `Hla4.Rti.Safety.Membership` — every federate has exactly one holder

A federate's entry in its federation is removed by whoever holds its
membership: a running session, or an entry of the suspended sessions.  The two
tables are seats handed around in the sense of `Lib.Custody`:

    a session joins                 sit      (the seat is new unless the handle
                                             counter has wrapped around)
    it resigns, or is torn down     leave
    it is suspended                 pass     to the entry of its session id
    it is resumed                   pass     to the new transport
    the janitor removes an entry    leave
    a resume is refused because the deadline has passed, or its status frame
    cannot be sent                  lose

`Node.move` is the move of a step; `Node.seat_step` and `Node.occupied_step` say
that it is all that happens to the tables and to the joined federates.  What a
call can come to is said once, in `Node.CallEffect`, and what a step can come to,
in `Node.StepEffect`.
-/
import Hla4.Lib.Custody
import Hla4.Rti.Node

namespace Hla4

open Lib

/-- What can hold a membership. -/
inductive Holder
  | running (t : Transport)
  | suspended (sessionId : UInt64)
deriving DecidableEq

/-- A federate's place in a federation. -/
abbrev Seat := FedRef × FederateHandle

def Membership.seat (m : Membership) : Seat := (m.federation, m.federateHandle)

/-- The seats held in the two tables. -/
def seatsOf (sessions : HashMap Transport Session) (suspended : HashMap UInt64 SuspendedSession) :
    Holder → Option Seat
  | .running t => ((sessions.lookup t).bind (·.membership)).map Membership.seat
  | .suspended sessionId => (suspended.lookup sessionId).map (·.membership.seat)

/-- The entries of the federates maps. -/
def OccupiedIn (heap : FedRef → Federation) (s : Seat) : Prop := s.2 ∈ (heap s.1).federates

namespace Node

variable (n : Node)

/-- The seat a holder has. -/
def seat : Holder → Option Seat := seatsOf n.sessions n.suspendedSessions

/-- The entries of the federates maps. -/
def Occupied : Seat → Prop := OccupiedIn n.heap

/-- The move of a call. -/
def callMove (t : Transport) (s : Session) : CallRequest → Move Holder Seat
  | .federation (.joinFederationExecution form federateName federationName) =>
    if s.membership.isSome then .stay
    else match n.federations.lookup federationName with
      | none => .stay
      | some r =>
        match ((n.heap r).join (requestedName form federateName) s.sessionId).2 with
        | .ok (h, _) => .sit (.running t) (r, h)
        | .error _ => .stay
  | .federation .resignFederationExecution => .leave (.running t)
  | _ => .stay

/-- The move of a step.  A transport that opens a session takes the place of
whatever the transport held; nothing, as transports are not reused. -/
def move : NodeEvent → Move Holder Seat
  | .accept (.newSession version) sent =>
    if version = federateProtocolVersion ∧ sent = true then .lose (.running n.nextTransport)
    else .stay
  | .accept (.resume sessionId) sent =>
    match n.suspendedSessions.lookup sessionId with
    | none => .stay
    | some s =>
      if n.clock < s.deadline ∧ sent = true then
        .pass (.suspended sessionId) (.running n.nextTransport)
      else .lose (.suspended sessionId)
  | .call t _ request =>
    match n.sessions.lookup t with
    | none => .stay
    | some s => n.callMove t s request
  | .close t =>
    match n.sessions.lookup t with
    | none => .stay
    | some s =>
      if s.membership.isSome ∧ 0 < s.reconnectWindow then
        .pass (.running t) (.suspended s.sessionId)
      else .leave (.running t)
  | .janitorRemove =>
    match n.expired with
    | [] => .stay
    | sessionId :: _ => .leave (.suspended sessionId)
  | _ => .stay

end Node

/-! ## What a call can come to -/

namespace Node

/-- What a call of session `s` on transport `t` can come to: its action on a
federation, its move, and the node it leaves. -/
inductive CallEffect (n : Node) (t : Transport) (s : Session) :
    Option (FedRef × FedAction) → Move Holder Seat → Node → Prop
  | nothing : CallEffect n t s none .stay n
  | serves (m : Membership) (c : Caller) (r : ServiceRequest)
      (disk : String × String → Option FederationSnapshot) :
      CallEffect n t s (some (m.federation, .serve c r)) .stay
        { n.setFederation m.federation (serve c (n.heap m.federation) r).federation with disk }
  | creates (name : String) (fom : Omt.MergedFom) :
      CallEffect n t s (some (n.nextRef, .create name fom)) .stay
        { n.setFederation n.nextRef (.new name fom) with
          federations := n.federations.insert name n.nextRef
          nextRef := n.nextRef + 1 }
  | destroys (name : String) :
      CallEffect n t s none .stay { n with federations := n.federations.erase name }
  | joins (federation : String) (r : FedRef) (requested : Option String) (name : String)
      (hm : s.membership = none) (hr : n.federations.lookup federation = some r) :
      CallEffect n t s (some (r, .join requested s.sessionId))
        (.sit (.running t) (r, (n.heap r).nextHandle))
        ((n.setFederation r ((n.heap r).enter name s.sessionId)).setMembership t
          (some ⟨r, (n.heap r).nextHandle, name⟩))
  /-- the name is in use, and the handle is drawn -/
  | turnedAway (r : FedRef) (requested : Option String) :
      CallEffect n t s (some (r, .join requested s.sessionId)) .stay
        (n.setFederation r (n.heap r).drawHandle)
  | resigns (m : Membership) (hm : s.membership = some m) :
      CallEffect n t s (some (m.federation, .leave m.federateHandle)) (.leave (.running t))
        ((n.removeFederate m).setMembership t none)
  | notJoined (hm : s.membership = none) : CallEffect n t s none (.leave (.running t)) n

theorem serveMember_effect (n : Node) (t : Transport) (s : Session) (m : Membership) (env : CallEnv)
    (r : ServiceRequest) :
    CallEffect n t s (some (m.federation, .serve (n.caller m env) r)) .stay
      (n.serveMember m env r).node := by
  rw [serveMember]
  cases (serve (n.caller m env) (n.heap m.federation) r).snapshot with
  | none => exact .serves m _ r _
  | some =>
    rw [writeSnapshot]
    split
    · exact .serves m _ r _
    · exact .serves m _ r _

theorem join_effect (n : Node) (t : Transport) (s : Session) (env : CallEnv) (form : JoinForm)
    (federateName federationName : String) :
    let request : CallRequest :=
      .federation (.joinFederationExecution form federateName federationName)
    CallEffect n t s (n.callAction s env request) (n.callMove t s request)
      (n.join t s form federateName federationName).node := by
  intro request
  rw [callAction, callMove, join]
  by_cases hm : s.membership.isSome
  · rw [if_pos hm, if_pos hm, if_pos hm]
    exact .nothing
  · rw [if_neg hm, if_neg hm, if_neg hm]
    cases hr : n.federations.lookup federationName with
    | none => exact .nothing
    | some r =>
      dsimp only [Option.map_some]
      rcases Federation.join_cases (n.heap r) (requestedName form federateName) s.sessionId with
        ⟨e, he⟩ | ⟨name, he⟩
      · rw [he]
        exact .turnedAway r _
      · rw [he]
        exact .joins federationName r _ name (Option.not_isSome_iff_eq_none.mp hm) hr

/-- **What a call comes to.** -/
theorem dispatchCall_effect (n : Node) (t : Transport) (s : Session) (env : CallEnv)
    (request : CallRequest) :
    CallEffect n t s (n.callAction s env request) (n.callMove t s request)
      (n.dispatchCall t s env request).node := by
  cases request with
  | malformed | unset => exact .nothing
  | stateless r =>
    rw [dispatchCall]
    cases statelessResponse r with
    | error | ok => exact .nothing
  | service r =>
    rw [dispatchCall, callAction]
    cases s.membership with
    | none => exact .nothing
    | some m => exact n.serveMember_effect t s m env r
  | federation r =>
    cases r with
    | createFederationExecution form name modules =>
      rw [dispatchCall, serveFederation, createFederation, callAction]
      cases n.fomForNew env name modules with
      | error => exact .nothing
      | ok fom => exact .creates name fom
    | destroyFederationExecution name =>
      rw [dispatchCall, serveFederation]
      cases hd : n.destroyFederation name with
      | error => exact .nothing
      | ok =>
        rw [destroyFederation_ok hd]
        exact .destroys name
    | listFederationExecutionMembers | listFederationExecutions => exact .nothing
    | joinFederationExecution form federateName federationName =>
      exact n.join_effect t s env form federateName federationName
    | resignFederationExecution =>
      rw [dispatchCall, serveFederation, resign, callAction, callMove]
      cases hm : s.membership with
      | none => exact .notJoined hm
      | some m => exact .resigns m hm

/-- The tables and the federations are as they were. -/
structure Quiet (n n' : Node) : Prop where
  heap : n'.heap = n.heap
  sessions : n'.sessions = n.sessions
  suspended : n'.suspendedSessions = n.suspendedSessions
  nextTransport : n'.nextTransport = n.nextTransport
  federations : n'.federations = n.federations
  nextRef : n'.nextRef = n.nextRef
  connections : n'.connections = n.connections
  closing : n'.closing = n.closing

/-- What a step can come to: its action on a federation, its move, and the node
it leaves. -/
inductive StepEffect (n : Node) :
    NodeEvent → Option (FedRef × FedAction) → Move Holder Seat → Node → Prop
  | quiet {e : NodeEvent} {n' : Node} (h : Quiet n n') : StepEffect n e none .stay n'
  | calls {t : Transport} {s : Session} {env : CallEnv} {request : CallRequest}
      {a : Option (FedRef × FedAction)} {m : Move Holder Seat} {n' : Node}
      (hs : n.sessions.lookup t = some s) (h : CallEffect n t s a m n') :
      StepEffect n (.call t env request) a m n'
  | opens {version : Int32} {sent : Bool}
      (hok : version = federateProtocolVersion ∧ sent = true) :
      StepEffect n (.accept (.newSession version) sent) none (.lose (.running n.nextTransport))
        ({ n with nextSessionId := n.nextSessionId + 1 }.openSession n.nextSessionId none)
  | resumes {sessionId : UInt64} {sent : Bool} {s : SuspendedSession}
      (hs : n.suspendedSessions.lookup sessionId = some s)
      (hok : n.clock < s.deadline ∧ sent = true) :
      StepEffect n (.accept (.resume sessionId) sent) none
        (.pass (.suspended sessionId) (.running n.nextTransport))
        ({ n with
          nextSessionId := n.nextSessionId + 1
          suspendedSessions := n.suspendedSessions.erase sessionId }.openSession sessionId
            (some s.membership))
  | refuses {sessionId : UInt64} {sent : Bool} {s : SuspendedSession}
      (hs : n.suspendedSessions.lookup sessionId = some s)
      (hlate : ¬ (n.clock < s.deadline ∧ sent = true)) :
      StepEffect n (.accept (.resume sessionId) sent) none (.lose (.suspended sessionId))
        { n with
          nextSessionId := n.nextSessionId + 1
          suspendedSessions := n.suspendedSessions.erase sessionId }
  | suspends {t : Transport} {s : Session} {m : Membership}
      (hs : n.sessions.lookup t = some s) (hm : s.membership = some m) :
      StepEffect n (.close t) none (.pass (.running t) (.suspended s.sessionId))
        { n with
          sessions := n.sessions.erase t
          closing := s.sessionId :: n.closing
          suspendedSessions :=
            n.suspendedSessions.insert s.sessionId ⟨m, n.clock + s.reconnectWindow⟩ }
  | ends {t : Transport} {s : Session} (hs : n.sessions.lookup t = some s)
      (hm : s.membership = none) :
      StepEffect n (.close t) none (.leave (.running t))
        { n with
          sessions := n.sessions.erase t
          closing := s.sessionId :: n.closing }
  | leaves {t : Transport} {s : Session} {m : Membership}
      (hs : n.sessions.lookup t = some s) (hm : s.membership = some m) :
      StepEffect n (.close t) (some (m.federation, .leave m.federateHandle)) (.leave (.running t))
        ({ n with
          sessions := n.sessions.erase t
          closing := s.sessionId :: n.closing }.removeFederate m)
  | disconnects {sessionId : UInt64} (hid : sessionId ∈ n.closing) :
      StepEffect n (.removeConnection sessionId) none .stay
        { n with
          connections := n.connections.erase sessionId
          closing := n.closing.erase sessionId }
  | expires {sessionId : UInt64} {rest : List UInt64} {s : SuspendedSession}
      (hs : n.suspendedSessions.lookup sessionId = some s) :
      StepEffect n .janitorRemove (some (s.membership.federation, .leave s.membership.federateHandle))
        (.leave (.suspended sessionId))
        ({ n with
          expired := rest
          suspendedSessions := n.suspendedSessions.erase sessionId }.removeFederate s.membership)
  /-- the entry is gone already -/
  | skips {sessionId : UInt64} {rest : List UInt64}
      (hs : n.suspendedSessions.lookup sessionId = none) :
      StepEffect n .janitorRemove none (.leave (.suspended sessionId)) { n with expired := rest }

theorem accept_effect (n : Node) (first : FirstFrame) (sent : Bool) :
    StepEffect n (.accept first sent) none (n.move (.accept first sent)) (n.accept first sent) := by
  cases first with
  | newSession =>
    rw [move, accept]
    split
    · next hok => exact .opens hok
    · exact .quiet ⟨rfl, rfl, rfl, rfl, rfl, rfl, rfl, rfl⟩
  | resume sessionId =>
    rw [move, accept]
    cases hs : n.suspendedSessions.lookup sessionId with
    | none => exact .quiet ⟨rfl, rfl, rfl, rfl, rfl, rfl, rfl, rfl⟩
    | some =>
      dsimp only
      split
      · next hok => exact .resumes hs hok
      · next hlate => exact .refuses hs hlate
  | other => exact .quiet ⟨rfl, rfl, rfl, rfl, rfl, rfl, rfl, rfl⟩

theorem close_effect (n : Node) (t : Transport) :
    StepEffect n (.close t) (n.action (.close t)) (n.move (.close t)) (n.close t) := by
  rw [action, move, close]
  cases hs : n.sessions.lookup t with
  | none => exact .quiet ⟨rfl, rfl, rfl, rfl, rfl, rfl, rfl, rfl⟩
  | some s =>
    rw [Option.bind_some]
    dsimp only
    cases hm : s.membership with
    | none =>
      rw [Option.map_none, ite_self, if_neg fun h => Bool.noConfusion h.1]
      exact .ends hs hm
    | some =>
      dsimp only
      by_cases hw : 0 < s.reconnectWindow
      · rw [if_pos hw, if_pos ⟨rfl, hw⟩, if_pos hw]
        exact .suspends hs hm
      · rw [if_neg hw, if_neg fun h => hw h.2, if_neg hw]
        exact .leaves hs hm

theorem janitorRemove_effect (n : Node) :
    StepEffect n .janitorRemove (n.action .janitorRemove) (n.move .janitorRemove)
      n.janitorRemove := by
  rw [action, move, janitorRemove]
  cases n.expired with
  | nil => exact .quiet ⟨rfl, rfl, rfl, rfl, rfl, rfl, rfl, rfl⟩
  | cons sessionId =>
    rw [List.head?_cons, Option.bind_some]
    dsimp only
    cases hs : n.suspendedSessions.lookup sessionId with
    | none => exact .skips hs
    | some => exact .expires hs

/-- **What a step comes to.** -/
theorem step_effect (n : Node) (e : NodeEvent) :
    StepEffect n e (n.action e) (n.move e) (n.step e) := by
  cases e with
  | accept first sent => exact n.accept_effect first sent
  | call t env request =>
    rw [action, move, step, outcome]
    cases hs : n.sessions.lookup t with
    | none => exact .quiet ⟨rfl, rfl, rfl, rfl, rfl, rfl, rfl, rfl⟩
    | some s => exact .calls hs (n.dispatchCall_effect t s env request)
  | close t => exact n.close_effect t
  | removeConnection =>
    rw [step, removeConnection]
    split
    · next hid => exact .disconnects hid
    · exact .quiet ⟨rfl, rfl, rfl, rfl, rfl, rfl, rfl, rfl⟩
  | janitorRemove => exact n.janitorRemove_effect
  | _ => exact .quiet ⟨rfl, rfl, rfl, rfl, rfl, rfl, rfl, rfl⟩

end Node

/-! ## What a step does to the tables -/

section Tables

variable {sessions : HashMap Transport Session} {suspended : HashMap UInt64 SuspendedSession}

theorem seatsOf_insert (t : Transport) (s : Session) :
    seatsOf (sessions.insert t s) suspended =
      Function.update (seatsOf sessions suspended) (.running t)
        (s.membership.map Membership.seat) := by
  refine Function.eq_update_iff.mpr ⟨?_, fun x hne => ?_⟩
  · rw [seatsOf, AList.lookup_insert]
    rfl
  · cases x with
    | running => rw [seatsOf, seatsOf, AList.lookup_insert_ne fun he => hne (congrArg _ he)]
    | suspended => rfl

theorem seatsOf_erase (t : Transport) :
    seatsOf (sessions.erase t) suspended =
      Function.update (seatsOf sessions suspended) (.running t) none := by
  refine Function.eq_update_iff.mpr ⟨?_, fun x hne => ?_⟩
  · rw [seatsOf, AList.lookup_erase]
    rfl
  · cases x with
    | running => rw [seatsOf, seatsOf, AList.lookup_erase_ne fun he => hne (congrArg _ he)]
    | suspended => rfl

theorem seatsOf_suspend (sessionId : UInt64) (e : SuspendedSession) :
    seatsOf sessions (suspended.insert sessionId e) =
      Function.update (seatsOf sessions suspended) (.suspended sessionId)
        (some e.membership.seat) := by
  refine Function.eq_update_iff.mpr ⟨?_, fun x hne => ?_⟩
  · rw [seatsOf, AList.lookup_insert]
    rfl
  · cases x with
    | running => rfl
    | suspended => rw [seatsOf, seatsOf, AList.lookup_insert_ne fun he => hne (congrArg _ he)]

theorem seatsOf_unsuspend (sessionId : UInt64) :
    seatsOf sessions (suspended.erase sessionId) =
      Function.update (seatsOf sessions suspended) (.suspended sessionId) none := by
  refine Function.eq_update_iff.mpr ⟨?_, fun x hne => ?_⟩
  · rw [seatsOf, AList.lookup_erase]
    rfl
  · cases x with
    | running => rfl
    | suspended => rw [seatsOf, seatsOf, AList.lookup_erase_ne fun he => hne (congrArg _ he)]

theorem seatsOf_update_none {x : Holder} (h : seatsOf sessions suspended x = none) :
    Function.update (seatsOf sessions suspended) x none = seatsOf sessions suspended := by
  rw [← h, Function.update_eq_self]

end Tables

namespace Node

variable {n n' : Node} {t : Transport} {s : Session} {a : Option (FedRef × FedAction)}
  {m : Move Holder Seat}

theorem seat_setMembership {t : Transport} {s : Session} (hs : n.sessions.lookup t = some s)
    (m : Option Membership) :
    (n.setMembership t m).seat = Function.update n.seat (.running t) (m.map Membership.seat) := by
  show seatsOf (n.sessions.modify t _) _ = _
  rw [HashMap.modify, hs]
  exact seatsOf_insert t _

theorem seat_of_session {t : Transport} {s : Session} (hs : n.sessions.lookup t = some s) :
    n.seat (.running t) = s.membership.map Membership.seat := by
  rw [seat, seatsOf, hs]
  rfl

theorem CallEffect.seat (h : CallEffect n t s a m n') (hs : n.sessions.lookup t = some s) :
    n'.seat = m.seat n.seat := by
  cases h with
  | joins => exact seat_setMembership hs _
  | resigns => exact seat_setMembership hs none
  | notJoined hm =>
    refine (seatsOf_update_none ?_).symm
    exact (seat_of_session hs).trans (by rw [hm]; rfl)
  | _ => rfl

theorem seat_of_suspended {sessionId : UInt64} {e : Option SuspendedSession}
    (h : n.suspendedSessions.lookup sessionId = e) :
    n.seat (.suspended sessionId) = e.map (·.membership.seat) := by
  rw [seat, seatsOf, h]

theorem StepEffect.seat {e : NodeEvent} (h : StepEffect n e a m n') : n'.seat = m.seat n.seat := by
  cases h with
  | quiet h =>
    show seatsOf _ _ = seatsOf _ _
    rw [h.sessions, h.suspended]
  | calls hs h => exact h.seat hs
  | opens => exact seatsOf_insert _ _
  | resumes hs =>
    show seatsOf (n.sessions.insert n.nextTransport _) (n.suspendedSessions.erase _) = _
    rw [seatsOf_insert, seatsOf_unsuspend, Move.seat, seat_of_suspended hs]
    rfl
  | refuses | expires => exact seatsOf_unsuspend _
  | suspends hs hm =>
    rw [Move.seat, seat_of_session hs, hm]
    show seatsOf (n.sessions.erase _) (n.suspendedSessions.insert _ _) = _
    rw [seatsOf_suspend, seatsOf_erase]
    rfl
  | ends | leaves => exact seatsOf_erase _
  | disconnects => rfl
  | skips hs => exact (seatsOf_update_none (seat_of_suspended hs)).symm

/-- **What a step does to the tables.** -/
theorem seat_step (n : Node) (e : NodeEvent) : (n.step e).seat = (n.move e).seat n.seat :=
  (n.step_effect e).seat

end Node

/-! ## What a step does to the federates maps -/

section Occupied

variable {heap : FedRef → Federation} {r : FedRef}

theorem occupiedIn_same {fed : Federation} (h : ∀ k, k ∈ fed.federates ↔ k ∈ (heap r).federates)
    (s : Seat) : OccupiedIn (Function.update heap r fed) s ↔ OccupiedIn heap s := by
  by_cases hr : s.1 = r
  · rw [OccupiedIn, OccupiedIn, hr, Function.update_self]
    exact h s.2
  · rw [OccupiedIn, OccupiedIn, Function.update_of_ne hr]

theorem occupiedIn_leave (k : FederateHandle) (s : Seat) :
    OccupiedIn (Function.update heap r ((heap r).leave k)) s ↔
      OccupiedIn heap s ∧ some (r, k) ≠ some s := by
  obtain ⟨r', h⟩ := s
  by_cases hr : r' = r
  · subst hr
    simp only [OccupiedIn, Function.update_self, Federation.leave, AList.mem_erase, ne_eq,
      Option.some.injEq, Prod.mk.injEq, true_and]
    exact ⟨fun ⟨hne, hin⟩ => ⟨hin, fun he => hne he.symm⟩, fun ⟨hin, hne⟩ => ⟨fun he => hne he.symm, hin⟩⟩
  · have hne : some (r, k) ≠ some (r', h) := fun he => hr (congrArg Prod.fst (Option.some.inj he)).symm
    simp only [OccupiedIn, Function.update_of_ne hr, hne, ne_eq, not_false_eq_true, and_true]

theorem occupiedIn_enter (name : String) (sessionId : UInt64) (s : Seat) :
    OccupiedIn (Function.update heap r ((heap r).enter name sessionId)) s ↔
      s = (r, (heap r).nextHandle) ∨ OccupiedIn heap s := by
  obtain ⟨r', h⟩ := s
  by_cases hr : r' = r
  · subst hr
    simp only [OccupiedIn, Function.update_self, Federation.enter, AList.mem_insert, Prod.mk.injEq,
      true_and]
  · simp only [OccupiedIn, Function.update_of_ne hr, Prod.mk.injEq, hr, false_and, false_or]

end Occupied

namespace Node

variable {n n' : Node} {t : Transport} {s : Session} {a : Option (FedRef × FedAction)}
  {m : Move Holder Seat}

/-- References given out are below the next one, and so are transports. -/
structure WellFormed (n : Node) : Prop where
  transports : ∀ t ∈ n.sessions, t < n.nextTransport
  refs : ∀ name r, n.federations.lookup name = some r → r < n.nextRef
  unused : ∀ r h, n.Occupied (r, h) → r < n.nextRef

theorem CallEffect.occupied (h : CallEffect n t s a m n') (hw : n.WellFormed)
    (hs : n.sessions.lookup t = some s) (u : Seat) :
    n'.Occupied u ↔ m.occupied n.seat n.Occupied u := by
  cases h with
  | nothing => rfl
  | serves m c r => exact occupiedIn_same (serve_mem_federates r) u
  | creates =>
    refine occupiedIn_same ?_ u
    intro k
    refine ⟨fun h => absurd h (AList.notMem_empty k), fun h => ?_⟩
    exact absurd (hw.unused n.nextRef k h) (lt_irrefl _)
  | destroys => rfl
  | joins federation r requested name => exact occupiedIn_enter name s.sessionId u
  | turnedAway r =>
    have hsame : ∀ k, k ∈ (n.heap r).drawHandle.federates ↔ k ∈ (n.heap r).federates :=
      fun _ => Iff.rfl
    exact occupiedIn_same hsame u
  | resigns m hm =>
    rw [Move.occupied, seat_of_session hs, hm]
    exact occupiedIn_leave m.federateHandle u
  | notJoined hm =>
    rw [Move.occupied, seat_of_session hs, hm]
    exact (and_iff_left (Option.some_ne_none u).symm).symm

theorem occupied_leave_none {x : Holder} (h : n.seat x = none) (u : Seat) :
    n.Occupied u ↔ (Move.leave x).occupied n.seat n.Occupied u := by
  rw [Move.occupied, h]
  exact (and_iff_left (Option.some_ne_none u).symm).symm

theorem StepEffect.occupied {e : NodeEvent} (h : StepEffect n e a m n') (hw : n.WellFormed)
    (u : Seat) : n'.Occupied u ↔ m.occupied n.seat n.Occupied u := by
  cases h with
  | quiet h =>
    show OccupiedIn _ _ ↔ OccupiedIn _ _
    rw [h.heap]
  | calls hs h => exact h.occupied hw hs u
  | opens => exact Iff.rfl
  | resumes => exact Iff.rfl
  | refuses => exact Iff.rfl
  | suspends => exact Iff.rfl
  | ends hs hm => exact occupied_leave_none ((seat_of_session hs).trans (by rw [hm]; rfl)) u
  | leaves hs hm =>
    rw [Move.occupied, seat_of_session hs, hm]
    exact occupiedIn_leave _ u
  | disconnects => exact Iff.rfl
  | expires hs =>
    rw [Move.occupied, seat_of_suspended hs]
    exact occupiedIn_leave _ u
  | skips hs => exact occupied_leave_none (seat_of_suspended hs) u

/-- **What a step does to the federates maps.** -/
theorem occupied_step (hw : n.WellFormed) (e : NodeEvent) (u : Seat) :
    (n.step e).Occupied u ↔ (n.move e).occupied n.seat n.Occupied u :=
  (n.step_effect e).occupied hw u

/-! ## References, transports and session ids -/

/-- No session is opened and none suspended; a reference in the registry was
there or is new. -/
structure Frame (n n' : Node) : Prop where
  nextTransport : n'.nextTransport = n.nextTransport
  suspended : ∀ k, k ∈ n'.suspendedSessions → k ∈ n.suspendedSessions
  sessions : ∀ t s', n'.sessions.lookup t = some s' →
    ∃ s, n.sessions.lookup t = some s ∧ s'.sessionId = s.sessionId
  nextRef : n.nextRef ≤ n'.nextRef
  refs : ∀ name r, n'.federations.lookup name = some r →
    n.federations.lookup name = some r ∨ r < n'.nextRef

/-- The tables are as they were, except that suspended entries may be gone. -/
theorem Frame.same {n' : Node} (hs : n'.sessions = n.sessions)
    (ht : n'.nextTransport = n.nextTransport)
    (hq : ∀ k, k ∈ n'.suspendedSessions → k ∈ n.suspendedSessions)
    (hf : n'.federations = n.federations) (hr : n'.nextRef = n.nextRef) : Frame n n' where
  nextTransport := ht
  suspended := hq
  sessions := fun _ s h => ⟨s, hs ▸ h, rfl⟩
  nextRef := le_of_eq hr.symm
  refs := fun _ _ h => .inl (hf ▸ h)

theorem Frame.refl (n : Node) : Frame n n := .same rfl rfl (fun _ h => h) rfl rfl

theorem Frame.setFederation (n : Node) (r : FedRef) (fed : Federation) :
    Frame n (n.setFederation r fed) := .same rfl rfl (fun _ h => h) rfl rfl

theorem Frame.setMembership {n' : Node} (h : Frame n n') (t : Transport)
    (m : Option Membership) : Frame n (n'.setMembership t m) where
  nextTransport := h.nextTransport
  suspended := h.suspended
  sessions := fun t' s' hs' => by
    change (n'.sessions.modify t _).lookup t' = some s' at hs'
    rw [HashMap.lookup_modify] at hs'
    split at hs'
    · next ht =>
        obtain ⟨s, hs, rfl⟩ := Option.map_eq_some_iff.mp hs'
        exact h.sessions t' s (ht ▸ hs)
    · exact h.sessions t' s' hs'
  nextRef := h.nextRef
  refs := h.refs

theorem CallEffect.connections (h : CallEffect n t s a m n') :
    n'.connections = n.connections ∧ n'.closing = n.closing := by
  cases h <;> exact ⟨rfl, rfl⟩

theorem CallEffect.frame (h : CallEffect n t s a m n') : Frame n n' := by
  cases h with
  | nothing => exact .refl n
  | notJoined => exact .refl n
  | serves => exact .same rfl rfl (fun _ h => h) rfl rfl
  | creates =>
    refine ⟨rfl, fun _ h => h, fun _ s hs => ⟨s, hs, rfl⟩, Nat.le_succ _, ?_⟩
    intro name' r hr
    rw [HashMap.lookup_insert_eq] at hr
    split at hr
    · cases hr
      exact .inr (Nat.lt_succ_self _)
    · exact .inl hr
  | destroys =>
    refine ⟨rfl, fun _ h => h, fun _ s hs => ⟨s, hs, rfl⟩, le_refl _, ?_⟩
    intro name' r hr
    exact .inl (HashMap.lookup_erase_eq_some.mp hr).2
  | joins | resigns => exact (Frame.setFederation n _ _).setMembership t _
  | turnedAway => exact .setFederation n _ _

theorem sit_step {e : NodeEvent} {x : Holder} {u : Seat} (h : n.move e = .sit x u) :
    (∃ t s, x = .running t ∧ n.sessions.lookup t = some s ∧ s.membership = none) ∧
      (∃ name, n.federations.lookup name = some u.1) ∧ u.2 = (n.heap u.1).nextHandle ∧
      ∃ requested sessionId, n.action e = some (u.1, .join requested sessionId) := by
  have heff := n.step_effect e
  rw [h] at heff
  generalize n.action e = a at heff ⊢
  generalize n.step e = n' at heff
  cases heff with
  | @calls t s _ _ _ _ _ hs hcall =>
    cases hcall with
    | joins federation r requested name hm hr =>
      exact ⟨⟨t, s, rfl, hs, hm⟩, ⟨federation, hr⟩, rfl, requested, s.sessionId, rfl⟩

/-- The id of the session a step opens. -/
def opened (n : Node) : NodeEvent → Option UInt64
  | .accept (.newSession version) sent =>
    if version = federateProtocolVersion ∧ sent = true then some n.nextSessionId else none
  | .accept (.resume sessionId) sent =>
    (n.suspendedSessions.lookup sessionId).bind fun s =>
      if n.clock < s.deadline ∧ sent = true then some sessionId else none
  | _ => none

/-- What a step can do to the tables. -/
inductive TableStep (n : Node) (e : NodeEvent) (n' : Node) : Prop
  | frame (h : Frame n n')
  | opens (id : UInt64) (m : Option Membership) (hid : n.opened e = some id)
      (hs : n'.sessions = n.sessions.insert n.nextTransport ⟨id, m, n.reconnectWindow⟩)
      (ht : n'.nextTransport = n.nextTransport + 1)
      (hq : n'.suspendedSessions = n.suspendedSessions.erase id ∨
        n'.suspendedSessions = n.suspendedSessions ∧ ∃ version sent, e = .accept (.newSession version) sent)
      (hf : n'.federations = n.federations) (hr : n'.nextRef = n.nextRef)
  | suspends (t : Transport) (s : Session) (entry : SuspendedSession)
      (hl : n.sessions.lookup t = some s) (hs : n'.sessions = n.sessions.erase t)
      (ht : n'.nextTransport = n.nextTransport)
      (hq : n'.suspendedSessions = n.suspendedSessions.insert s.sessionId entry)
      (hf : n'.federations = n.federations) (hr : n'.nextRef = n.nextRef)

theorem Frame.erase {n' : Node} {t : Transport} (hs : n'.sessions = n.sessions.erase t)
    (ht : n'.nextTransport = n.nextTransport) (hq : n'.suspendedSessions = n.suspendedSessions)
    (hf : n'.federations = n.federations) (hr : n'.nextRef = n.nextRef) : Frame n n' := by
  refine ⟨ht, fun k hk => hq ▸ hk, ?_, le_of_eq hr.symm, fun name r h => .inl (hf ▸ h)⟩
  intro t' s' hs'
  rw [hs, HashMap.lookup_erase_eq_some] at hs'
  exact ⟨s', hs'.2, rfl⟩

theorem Quiet.frame (h : Quiet n n') : Frame n n' :=
  .same h.sessions h.nextTransport (fun _ hk => h.suspended ▸ hk) h.federations h.nextRef

theorem StepEffect.table {e : NodeEvent} (h : StepEffect n e a m n') : TableStep n e n' := by
  cases h with
  | quiet h | calls _ h => exact .frame h.frame
  | opens hok => exact .opens _ _ (if_pos hok) rfl rfl (.inr ⟨rfl, _, _, rfl⟩) rfl rfl
  | @resumes sessionId _ _ hs hok =>
    refine .opens sessionId _ ?_ rfl rfl (.inl rfl) rfl rfl
    rw [opened, hs, Option.bind_some, if_pos hok]
  | refuses | expires => exact .frame (.same rfl rfl (fun _ h => (AList.mem_erase.mp h).2) rfl rfl)
  | suspends hs => exact .suspends _ _ _ hs rfl rfl rfl rfl rfl
  | ends | leaves => exact .frame (.erase rfl rfl rfl rfl rfl)
  | disconnects | skips => exact .frame (.same rfl rfl (fun _ h => h) rfl rfl)

theorem tableStep (n : Node) (e : NodeEvent) : TableStep n e (n.step e) := (n.step_effect e).table

theorem wellFormed_new : Node.new.WellFormed where
  transports := fun t ht => absurd ht (AList.notMem_empty t)
  refs := fun _ _ h => nomatch h
  unused := fun _ h hin => absurd hin (AList.notMem_empty h)

theorem wellFormed_step (hw : n.WellFormed) (e : NodeEvent) : (n.step e).WellFormed := by
  have htab := n.tableStep e
  have hle : n.nextRef ≤ (n.step e).nextRef := by
    cases htab with
    | frame h => exact h.nextRef
    | opens _ _ _ _ _ _ _ hr | suspends _ _ _ _ _ _ _ _ hr => exact le_of_eq hr.symm
  refine ⟨?_, ?_, ?_⟩
  · intro t ht
    cases htab with
    | frame h =>
      obtain ⟨s', hs'⟩ := HashMap.mem_iff_lookup.mp ht
      obtain ⟨s, hs, _⟩ := h.sessions t s' hs'
      exact h.nextTransport ▸ hw.transports t (HashMap.mem_of_lookup hs)
    | opens id m _ hs hnext =>
      rw [hs, AList.mem_insert] at ht
      rw [hnext]
      rcases ht with rfl | ht
      · exact Nat.lt_succ_self _
      · exact Nat.lt_succ_of_lt (hw.transports t ht)
    | suspends t' s entry _ hs hnext =>
      rw [hs, AList.mem_erase] at ht
      exact hnext ▸ hw.transports t ht.2
  · intro name r hr
    cases htab with
    | frame h =>
      rcases h.refs name r hr with hold | hnew
      · exact lt_of_lt_of_le (hw.refs name r hold) hle
      · exact hnew
    | opens _ _ _ _ _ _ hf | suspends _ _ _ _ _ _ _ hf =>
      exact lt_of_lt_of_le (hw.refs name r (hf ▸ hr)) hle
  · intro r h hocc
    rcases Move.occupied_cases ((occupied_step hw e (r, h)).mp hocc) with hold | ⟨x, hsit⟩
    · exact lt_of_lt_of_le (hw.unused r h hold) hle
    · obtain ⟨_, ⟨name, hname⟩, _⟩ := sit_step hsit
      exact lt_of_lt_of_le (hw.refs name r hname) hle

end Node

/-! ## Holders -/

/-- No join overwrites a federate: the handle drawn is not in use. -/
def FedAction.FreshJoin (fed : Federation) : FedAction → Prop
  | join _ _ => fed.nextHandle ∉ fed.federates
  | _ => True

instance (fed : Federation) : (a : FedAction) → Decidable (a.FreshJoin fed)
  | .create .. => .isTrue trivial
  | .join .. => inferInstanceAs (Decidable (¬ _))
  | .leave .. | .serve .. => .isTrue trivial

/-- A service is asked for by a joined federate. -/
def FedAction.CallerJoined (fed : Federation) : FedAction → Prop
  | serve c _ => c.federate ∈ fed.federates
  | _ => True

namespace Node

variable {n n' : Node} {t : Transport} {s : Session} {a : Option (FedRef × FedAction)}
  {m : Move Holder Seat}

theorem fresh_move {e : NodeEvent} (hok : n.Meets (fun fed a => a.FreshJoin fed) e) :
    (n.move e).Fresh n.Occupied := by
  cases hm : n.move e with
  | sit =>
    obtain ⟨_, _, hh, requested, sessionId, ha⟩ := sit_step hm
    intro hocc
    refine hok _ ha ?_
    rw [← hh]
    exact hocc
  | _ => trivial

/-- Whoever holds a membership holds an entry of a federates map, and no two
hold the same. -/
structure Rooted (n : Node) : Prop where
  wellFormed : n.WellFormed
  seated : Seated n.seat n.Occupied

theorem rooted_new : Node.new.Rooted where
  wellFormed := wellFormed_new
  seated := by
    refine ⟨?_, ?_⟩
    · intro x s hx
      cases x <;> cases hx
    · intro x y s hx
      cases x <;> cases hx

theorem rooted_step (n : Node) (e : NodeEvent) (h : n.Rooted)
    (hok : n.Meets (fun fed a => a.FreshJoin fed) e) : (n.step e).Rooted where
  wellFormed := wellFormed_step h.wellFormed e
  seated := by
    rw [seat_step]
    refine (h.seated.move (fresh_move hok)).mono ?_
    exact fun x s _ hocc => (occupied_step h.wellFormed e s).mpr hocc

/-- A caller's membership is its seat. -/
theorem Rooted.callerJoined (h : n.Rooted) (e : NodeEvent) :
    n.Meets (fun fed a => a.CallerJoined fed) e := by
  rintro ⟨r, a⟩ ha
  cases a with
  | serve =>
    obtain ⟨t, s, m, env, _, hs, hm, rfl, rfl⟩ := action_serve ha
    have hseat : n.seat (.running t) = some (m.federation, m.federateHandle) := by
      rw [seat_of_session hs, hm]
      rfl
    exact h.seated.occupied _ _ hseat
  | _ => trivial

/-! ## Exactly one holder -/

/-- No session, running or suspended, has the id. -/
def Unused (n : Node) (id : UInt64) : Prop :=
  id ∉ n.suspendedSessions ∧ ∀ t ∈ n.sessions.keys, ∀ s ∈ n.sessions.lookup t, s.sessionId ≠ id

instance (n : Node) (id : UInt64) : Decidable (n.Unused id) :=
  inferInstanceAs (Decidable (¬ _ ∧ ∀ t ∈ n.sessions.keys, ∀ s ∈ n.sessions.lookup t, ¬ _))

/-- The session events that keep hold of every membership: a new session's id
is unused, and an entry taken out of the suspended sessions is resumed, in time
and with its status frame sent. -/
def ResumesInTime (n : Node) : NodeEvent → Prop
  | .accept (.newSession _) _ => n.Unused n.nextSessionId
  | .accept (.resume sessionId) sent =>
    ∀ s ∈ n.suspendedSessions.lookup sessionId, n.clock < s.deadline ∧ sent = true
  | _ => True

instance (n : Node) : (e : NodeEvent) → Decidable (n.ResumesInTime e)
  | .accept (.newSession _) _ => inferInstanceAs (Decidable (n.Unused _))
  | .accept (.resume sessionId) sent =>
    inferInstanceAs (Decidable (∀ s ∈ n.suspendedSessions.lookup sessionId,
      n.clock < s.deadline ∧ sent = true))
  | .accept .other _ | .call .. | .close .. | .removeConnection .. | .janitorScan
  | .janitorRemove | .elapse .. | .setReconnectWindow .. | .setDefaultFom ..
  | .setSaveDir .. => .isTrue trivial

/-- And no join overwrites a federate. -/
def KeepsMemberships (n : Node) (e : NodeEvent) : Prop :=
  n.Meets (fun fed a => a.FreshJoin fed) e ∧ n.ResumesInTime e

instance (n : Node) (e : NodeEvent) : Decidable (n.KeepsMemberships e) :=
  inferInstanceAs (Decidable (_ ∧ _))

/-- Session ids are distinct, among the running and between the running and the
suspended. -/
structure DistinctIds (n : Node) : Prop where
  running : ∀ t t' s s', n.sessions.lookup t = some s → n.sessions.lookup t' = some s' →
    s.sessionId = s'.sessionId → t = t'
  apart : ∀ t s, n.sessions.lookup t = some s → s.sessionId ∉ n.suspendedSessions

/-- The id a step opens a session under is not that of a running session. -/
theorem opened_not_running (hd : n.DistinctIds) {e : NodeEvent} (hok : n.ResumesInTime e)
    {id : UInt64} (h : n.opened e = some id) {t : Transport} {s : Session}
    (hs : n.sessions.lookup t = some s) : s.sessionId ≠ id := by
  cases e with
  | accept first =>
    cases first with
    | newSession =>
      rw [opened] at h
      split at h
      · cases h
        exact hok.2 t (AList.mem_keys.mp (HashMap.mem_of_lookup hs)) s hs
      · cases h
    | resume =>
      obtain ⟨entry, hentry, h⟩ := Option.bind_eq_some_iff.mp h
      split at h
      · cases h
        rintro rfl
        exact hd.apart t s hs (HashMap.mem_of_lookup hentry)
      · cases h
    | other => cases h
  | _ => cases h

theorem DistinctIds.frame (hd : n.DistinctIds) (h : Frame n n') : n'.DistinctIds where
  running := by
    intro t t' s₁ s₁' hs₁ hs₁' hid
    obtain ⟨s, hs, he⟩ := h.sessions t s₁ hs₁
    obtain ⟨s', hs', he'⟩ := h.sessions t' s₁' hs₁'
    exact hd.running t t' s s' hs hs' (by rw [← he, ← he', hid])
  apart := by
    intro t s₁ hs₁ hin
    obtain ⟨s, hs, he⟩ := h.sessions t s₁ hs₁
    exact hd.apart t s hs (he ▸ h.suspended _ hin)

/-- A session starts under an id that is nobody's. -/
theorem DistinctIds.insert (hd : n.DistinctIds) {t₀ : Transport} {s₀ : Session}
    (hsess : n'.sessions = n.sessions.insert t₀ s₀)
    (hrun : ∀ t s, n.sessions.lookup t = some s → s.sessionId ≠ s₀.sessionId)
    (hold : ∀ k ∈ n'.suspendedSessions, k ∈ n.suspendedSessions ∧ k ≠ s₀.sessionId) :
    n'.DistinctIds where
  running := by
    intro t t' s s' hs hs' hsame
    rw [hsess, HashMap.lookup_insert_eq] at hs hs'
    split at hs <;> split at hs'
    · next ht ht' => rw [ht, ht']
    · cases hs
      exact absurd hsame.symm (hrun t' s' hs')
    · cases hs'
      exact absurd hsame (hrun t s hs)
    · exact hd.running t t' s s' hs hs' hsame
  apart := by
    intro t s hs hin
    rw [hsess, HashMap.lookup_insert_eq] at hs
    split at hs
    · cases hs
      exact (hold _ hin).2 rfl
    · exact hd.apart t s hs (hold _ hin).1

theorem DistinctIds.suspend (hd : n.DistinctIds) {t₀ : Transport} {s₀ : Session}
    {entry : SuspendedSession} (hl : n.sessions.lookup t₀ = some s₀)
    (hsess : n'.sessions = n.sessions.erase t₀)
    (hq : n'.suspendedSessions = n.suspendedSessions.insert s₀.sessionId entry) :
    n'.DistinctIds where
  running := by
    intro t t' s s' hs hs' hsame
    rw [hsess, HashMap.lookup_erase_eq_some] at hs hs'
    exact hd.running t t' s s' hs.2 hs'.2 hsame
  apart := by
    intro t s hs hin
    rw [hsess, HashMap.lookup_erase_eq_some] at hs
    obtain ⟨hne, hs⟩ := hs
    rw [hq, AList.mem_insert] at hin
    rcases hin with hid | hin
    · exact hne (hd.running t t₀ s s₀ hs hl hid)
    · exact hd.apart t s hs hin

theorem distinctIds_step (hd : n.DistinctIds) {e : NodeEvent} (hok : n.ResumesInTime e) :
    (n.step e).DistinctIds := by
  cases n.tableStep e with
  | frame h => exact hd.frame h
  | opens id m hid hsess _ hq =>
    refine hd.insert hsess (fun t s hs => opened_not_running hd hok hid hs) fun k hk => ?_
    rcases hq with hq | ⟨hq, version, sent, rfl⟩
    · rw [hq, AList.mem_erase] at hk
      exact ⟨hk.2, hk.1⟩
    · rw [hq] at hk
      refine ⟨hk, ?_⟩
      rintro rfl
      rw [opened] at hid
      split at hid
      · cases hid
        exact hok.1 hk
      · cases hid
  | suspends t₀ s₀ entry hl hsess _ hq => exact hd.suspend hl hsess hq

/-- A call gives nobody a second seat, and takes none but for good. -/
theorem CallEffect.careful (h : CallEffect n t s a m n') (hs : n.sessions.lookup t = some s) :
    m.Careful n.seat := by
  cases h with
  | joins federation r requested name hm =>
    show n.seat (.running t) = none
    rw [seat_of_session hs, hm]
    rfl
  | _ => trivial

theorem WellFormed.next_seat (hw : n.WellFormed) : n.seat (.running n.nextTransport) = none := by
  have hnone : n.sessions.lookup n.nextTransport = none := by
    rw [AList.lookup_eq_none]
    exact fun h => absurd (hw.transports _ h) (lt_irrefl _)
  rw [seat, seatsOf, hnone]
  rfl

theorem StepEffect.careful {e : NodeEvent} (h : StepEffect n e a m n') (hw : n.WellFormed)
    (hd : n.DistinctIds) (hok : n.ResumesInTime e) : m.Careful n.seat := by
  cases h with
  | calls hs h => exact h.careful hs
  | opens | resumes => exact hw.next_seat
  | refuses hs hlate => exact absurd (hok _ hs) hlate
  | suspends hs => exact seat_of_suspended (AList.lookup_eq_none.mpr (hd.apart _ _ hs))
  | _ => trivial

/-- The moves of such steps lose nothing. -/
theorem careful_move (hw : n.WellFormed) (hd : n.DistinctIds) {e : NodeEvent}
    (hok : n.ResumesInTime e) : (n.move e).Careful n.seat :=
  (n.step_effect e).careful hw hd hok

/-- Every entry of a federates map has exactly one holder: a running session,
or an entry of the suspended sessions. -/
def OneHolderEach (n : Node) : Prop :=
  ∀ r h, h ∈ (n.heap r).federates → ∃! x, n.seat x = some (r, h)

/-- **Membership conservation**, in a run whose steps keep hold of every
membership. -/
theorem one_holder_each {es : List NodeEvent}
    (h : StepsMeet Node.step Node.KeepsMemberships Node.new es) :
    Always Node.step Node.OneHolderEach Node.new es := by
  have hinv := h.always (P := fun n => n.Rooted ∧ n.DistinctIds ∧ Covered n.seat n.Occupied)
    (fun n e hn hok => by
      obtain ⟨hroot, hids, hcov⟩ := hn
      refine ⟨rooted_step n e hroot hok.1, distinctIds_step hids hok.2, ?_⟩
      rw [seat_step]
      intro u hu
      exact hcov.move (careful_move hroot.wellFormed hids hok.2) u
        ((occupied_step hroot.wellFormed e u).mp hu))
    ⟨rooted_new, ⟨fun _ _ _ _ hs => (nomatch hs), fun _ _ hs => (nomatch hs)⟩,
      fun u hu => absurd hu (AList.notMem_empty u.2)⟩
  intro done hdone r k hk
  obtain ⟨hroot, _, hcov⟩ := hinv done hdone
  exact hroot.seated.existsUnique hcov (s := (r, k)) hk

/-- A federate joins, is disconnected, resumes its session and resigns. -/
theorem one_holder_each_resumed :
    let es := .setReconnectWindow 2 :: pairJoined ++
      [.close 0, .elapse 1, .accept (.resume 1) true, .manages 2 .resignFederationExecution]
    Always Node.step Node.OneHolderEach Node.new es :=
  one_holder_each (by decide +kernel)

/-- Federate 1 is disconnected and tries to resume its session: after the
deadline, and in time but with the status frame not sent. -/
def lostMemberships : List (List NodeEvent) :=
  [.setReconnectWindow 1 :: pairJoined ++ [.close 0, .elapse 1, .accept (.resume 1) true],
    .setReconnectWindow 1 :: pairJoined ++ [.close 0, .accept (.resume 1) false]]

theorem holder_mem {x : Holder} {u : Seat} (h : n.seat x = some u) :
    (∃ t ∈ n.sessions.keys, x = .running t) ∨
      ∃ sessionId ∈ n.suspendedSessions.keys, x = .suspended sessionId := by
  cases x with
  | running t =>
    obtain ⟨m, hm, _⟩ := Option.map_eq_some_iff.mp h
    obtain ⟨s, hs, _⟩ := Option.bind_eq_some_iff.mp hm
    exact .inl ⟨t, AList.mem_keys.mp (HashMap.mem_of_lookup hs), rfl⟩
  | suspended sessionId =>
    obtain ⟨e, he, _⟩ := Option.map_eq_some_iff.mp h
    exact .inr ⟨sessionId, AList.mem_keys.mp (HashMap.mem_of_lookup he), rfl⟩

/-- **A lost membership.**  Federate 1 is joined, and nobody holds it. -/
theorem lostMemberships_fail :
    lostMemberships.Forall fun es => ¬ (run Node.step Node.new es).OneHolderEach := by
  have hlost : ∀ es ∈ lostMemberships,
      ⟨1⟩ ∈ ((run Node.step Node.new es).heap 0).federates ∧
      (∀ t ∈ (run Node.step Node.new es).sessions.keys,
        (run Node.step Node.new es).seat (.running t) ≠ some (0, ⟨1⟩)) ∧
      (run Node.step Node.new es).suspendedSessions.keys = [] := by
    decide +kernel
  rw [List.forall_iff_forall_mem]
  intro es hes hone
  obtain ⟨hjoined, hrunning, hnobody⟩ := hlost es hes
  obtain ⟨x, hx, _⟩ := hone 0 ⟨1⟩ hjoined
  rcases holder_mem hx with ⟨t, ht, rfl⟩ | ⟨sessionId, hid, rfl⟩
  · exact hrunning t ht hx
  · rw [hnobody] at hid
    exact List.not_mem_nil hid

end Node

end Hla4
