/-
# `Hla4.Rti.Safety.Resuming` — a new transport takes over a session

`handle_connection_via_transport` is one task for each transport.  The end of a
session loop and the removal of its connection are steps of the node already
(`close`, `removeConnection`); the beginning is `Node.accept` there, and here it
is what the source makes of it:

    idle          a transport is accepted, a session id is drawn
    greeting      the first frame; a resume request takes the entry out of the
                  suspended sessions
    judging       the deadline is compared with the clock, the status is sent
    opening       the reconnect window is read
    registering   the connection is inserted and the session loop starts

Everything else is a step of the node and may come in between.  A transport that
is accepted undisturbed does what `Node.accept` does (`leads_accept`).

The old transport of a session suspends it first and removes its connection
later, by session id.  A client that is back in between has its own connection
removed.  Where the old one is out of the way by the time the new one is
inserted, and no session is opened under an id in use, every running session is
found under its id with the channel of its own transport
(`running_is_connected`).

Until its window has passed, a session whose transport dropped is kept for its
client, whatever the node does for others (`dropped_session_resumes`).
-/
import Hla4.Lib.Sections
import Hla4.Rti.Safety.Membership

namespace Hla4

open Lib

/-! ## The model -/

/-- A transport, before its next section. -/
inductive Arrival
  | idle
  | greeting (candidate : UInt64)
  /-- a resume request, with the entry taken out -/
  | judging (requested : UInt64) (restored : Option SuspendedSession)
  | opening (sessionId : UInt64) (m : Option Membership)
  | registering (sessionId : UInt64) (m : Option Membership) (window : Nat)

/-- What the environment decides: the first frame, and whether an answer can be
sent. -/
structure ArrivalInput where
  first : FirstFrame
  sent : Bool

namespace Node

variable (n : Node)

/-- The connection is inserted and the session loop starts. -/
def register (sessionId : UInt64) (m : Option Membership) (window : Nat) : Node :=
  { n with
    sessions := n.sessions.insert n.nextTransport ⟨sessionId, m, window⟩
    connections := n.connections.insert sessionId ⟨sessionId, n.nextTransport⟩
    nextTransport := n.nextTransport + 1 }

/-- The first frame. -/
def greet (candidate : UInt64) (sent : Bool) : FirstFrame → Node × Arrival
  | .newSession version =>
    (n, if version = federateProtocolVersion ∧ sent = true then .opening candidate none else .idle)
  | .resume requested =>
    (n.suspendedSessions.lookup requested).elim (n, .judging requested none) fun s =>
      ({ n with suspendedSessions := n.suspendedSessions.erase requested },
        .judging requested (some s))
  | .other => (n, .idle)

/-- The next section of a transport. -/
def arrive (x : ArrivalInput) : Arrival → Node × Arrival
  | .idle => ({ n with nextSessionId := n.nextSessionId + 1 }, .greeting n.nextSessionId)
  | .greeting candidate => n.greet candidate x.sent x.first
  | .judging requested restored =>
    (n, restored.elim .idle fun s =>
      if n.clock < s.deadline ∧ x.sent = true then .opening requested (some s.membership)
      else .idle)
  | .opening sessionId m => (n, .registering sessionId m n.reconnectWindow)
  | .registering sessionId m window => (n.register sessionId m window, .idle)

end Node

/-- The step is not the acceptance of a transport. -/
def NodeEvent.accepts : NodeEvent → Bool
  | accept _ _ => true
  | _ => false

def resuming : Sections Node Arrival ArrivalInput NodeEvent where
  sect n p x := n.arrive x p
  act n e := if e.accepts then n else n.step e

/-- **A transport that is accepted undisturbed**, from its first frame on. -/
theorem leads_accept (n : Node) (x : ArrivalInput) :
    resuming.Leads x (n.arrive x .idle) (n.accept x.first x.sent, .idle) := by
  obtain ⟨first, sent⟩ := x
  have opens : ∀ (n' : Node) (id : UInt64) (m : Option Membership),
      resuming.Leads ⟨first, sent⟩ (n', .opening id m) (n'.openSession id m, .idle) :=
    fun n' id m => .head (.head .refl)
  refine .head ?_
  cases first with
  | newSession version =>
    show resuming.Leads _ (_, if version = federateProtocolVersion ∧ sent = true then _ else _) _
    rw [Node.accept]
    split
    · exact opens _ _ _
    · exact .refl
  | resume requested =>
    show resuming.Leads _ ((n.suspendedSessions.lookup requested).elim _ _) _
    rw [Node.accept]
    cases n.suspendedSessions.lookup requested with
    | none => exact .head .refl
    | some s =>
      refine .head ?_
      show resuming.Leads _ (_, if n.clock < s.deadline ∧ sent = true then _ else _) _
      dsimp only
      split
      · exact opens _ _ _
      · exact .refl
  | other => exact .refl

/-! ## What happens to the tables -/

namespace Node

/-- What the other steps can do to the tables. -/
inductive LoopStep (n n' : Node) : Prop
  | stays (h : Frame n n') (hc : n'.connections = n.connections) (hcl : n'.closing = n.closing)
  | ends (t : Transport) (s : Session) (hs : n.sessions.lookup t = some s)
      (hs' : n'.sessions = n.sessions.erase t) (ht : n'.nextTransport = n.nextTransport)
      (hq : ∀ k, k ∈ n'.suspendedSessions → k = s.sessionId ∨ k ∈ n.suspendedSessions)
      (hc : n'.connections = n.connections) (hcl : n'.closing = s.sessionId :: n.closing)
  | removes (id : UInt64) (hid : id ∈ n.closing) (hs' : n'.sessions = n.sessions)
      (ht : n'.nextTransport = n.nextTransport) (hq : n'.suspendedSessions = n.suspendedSessions)
      (hc : n'.connections = n.connections.erase id) (hcl : n'.closing = n.closing.erase id)

theorem loopStep (n : Node) {e : NodeEvent} (he : e.accepts = false) : LoopStep n (n.step e) := by
  have heff := n.step_effect e
  generalize n.action e = a, n.move e = m, n.step e = n' at heff ⊢
  cases heff with
  | quiet h => exact .stays h.frame h.connections h.closing
  | calls _ h => exact .stays h.frame h.connections.1 h.connections.2
  | opens => cases he
  | resumes => cases he
  | refuses => cases he
  | suspends hs => exact .ends _ _ hs rfl rfl (fun _ hk => (AList.mem_insert _).mp hk) rfl rfl
  | ends hs | leaves hs => exact .ends _ _ hs rfl rfl (fun _ hk => .inr hk) rfl rfl
  | disconnects hid => exact .removes _ hid rfl rfl rfl rfl rfl
  | expires =>
    exact .stays (.same rfl rfl (fun _ h => (AList.mem_erase.mp h).2) rfl rfl) rfl rfl
  | skips => exact .stays (.same rfl rfl (fun _ h => h) rfl rfl) rfl rfl

/-! ## A running session is connected -/

/-- Every running session is found under its id with the channel of its own
transport; it is not suspended, and its connection is not to be removed. -/
structure Attached (n : Node) : Prop where
  connected : ∀ t s, n.sessions.lookup t = some s →
    n.connections.lookup s.sessionId = some ⟨s.sessionId, t⟩
  awake : ∀ t s, n.sessions.lookup t = some s → s.sessionId ∉ n.suspendedSessions
  staying : ∀ t s, n.sessions.lookup t = some s → s.sessionId ∉ n.closing
  transports : ∀ t s, n.sessions.lookup t = some s → t < n.nextTransport

variable {n n' : Node} {id : UInt64}

theorem unused_iff : n.Unused id ↔
    id ∉ n.suspendedSessions ∧ ∀ t s, n.sessions.lookup t = some s → s.sessionId ≠ id := by
  refine and_congr_right fun _ => ⟨fun h t s hs => ?_, fun h t _ s hs => h t s hs⟩
  exact h t (AList.mem_keys.mp (HashMap.mem_of_lookup hs)) s hs

/-- Two sessions of one id would share a connection. -/
theorem Attached.running (h : n.Attached) {t t' : Transport} {s s' : Session}
    (hs : n.sessions.lookup t = some s) (hs' : n.sessions.lookup t' = some s')
    (hid : s.sessionId = s'.sessionId) : t = t' := by
  have hc := h.connected t s hs
  rw [hid, h.connected t' s' hs'] at hc
  cases hc
  rfl

theorem LoopStep.attached (h : LoopStep n n') (hn : n.Attached) : n'.Attached := by
  cases h with
  | stays h hc hcl =>
    refine ⟨?_, ?_, ?_, ?_⟩
    · intro t s' hs'
      obtain ⟨s, hs, hid⟩ := h.sessions t s' hs'
      rw [hc, hid]
      exact hn.connected t s hs
    · intro t s' hs' hin
      obtain ⟨s, hs, hid⟩ := h.sessions t s' hs'
      exact hn.awake t s hs (hid ▸ h.suspended _ hin)
    · intro t s' hs' hin
      obtain ⟨s, hs, hid⟩ := h.sessions t s' hs'
      exact hn.staying t s hs (hid ▸ hcl ▸ hin)
    · intro t s' hs'
      obtain ⟨s, hs, _⟩ := h.sessions t s' hs'
      exact h.nextTransport ▸ hn.transports t s hs
  | ends t₀ s₀ hs₀ hsess ht hq hc hcl =>
    have other : ∀ t s, n'.sessions.lookup t = some s →
        n.sessions.lookup t = some s ∧ s.sessionId ≠ s₀.sessionId := by
      intro t s hs
      rw [hsess, HashMap.lookup_erase_eq_some] at hs
      exact ⟨hs.2, fun hid => hs.1 (hn.running hs.2 hs₀ hid)⟩
    refine ⟨?_, ?_, ?_, ?_⟩
    · intro t s hs
      rw [hc]
      exact hn.connected t s (other t s hs).1
    · intro t s hs hin
      rcases hq _ hin with hid | hin
      · exact (other t s hs).2 hid
      · exact hn.awake t s (other t s hs).1 hin
    · intro t s hs hin
      rw [hcl, List.mem_cons] at hin
      rcases hin with hid | hin
      · exact (other t s hs).2 hid
      · exact hn.staying t s (other t s hs).1 hin
    · intro t s hs
      exact ht ▸ hn.transports t s (other t s hs).1
  | removes id hid hsess ht hq hc hcl =>
    refine ⟨?_, ?_, ?_, ?_⟩
    · intro t s hs
      rw [hsess] at hs
      have hne : s.sessionId ≠ id := fun he => hn.staying t s hs (he ▸ hid)
      rw [hc, HashMap.lookup_erase_eq, if_neg hne]
      exact hn.connected t s hs
    · intro t s hs
      rw [hq]
      exact hn.awake t s (hsess ▸ hs)
    · intro t s hs hin
      rw [hcl] at hin
      exact hn.staying t s (hsess ▸ hs) (List.mem_of_mem_erase hin)
    · intro t s hs
      exact ht ▸ hn.transports t s (hsess ▸ hs)

/-- An id that no session has is not taken up by a running one. -/
theorem LoopStep.unused (h : LoopStep n n') (hu : n.Unused id) : n'.Unused id := by
  rw [unused_iff] at hu ⊢
  cases h with
  | stays h =>
    refine ⟨fun hin => hu.1 (h.suspended _ hin), fun t s' hs' hid => ?_⟩
    obtain ⟨s, hs, hsame⟩ := h.sessions t s' hs'
    exact hu.2 t s hs (hsame ▸ hid)
  | ends t₀ s₀ hs₀ hsess _ hq =>
    refine ⟨fun hin => ?_, fun t s hs => ?_⟩
    · rcases hq _ hin with hid | hin
      · exact hu.2 t₀ s₀ hs₀ hid.symm
      · exact hu.1 hin
    · rw [hsess, HashMap.lookup_erase_eq_some] at hs
      exact hu.2 t s hs.2
  | removes _ _ hsess _ hq =>
    exact ⟨fun hin => hu.1 (hq ▸ hin), fun t s hs => hu.2 t s (hsess ▸ hs)⟩

end Node

namespace Arrival

/-- The session that a transport has taken upon itself to run. -/
def session? : Arrival → Option UInt64
  | .judging requested restored => restored.map fun _ => requested
  | .opening sessionId _ => some sessionId
  | .registering sessionId _ _ => some sessionId
  | _ => none

/-- The id under which the next section opens a new session. -/
def opens (x : ArrivalInput) : Arrival → Option UInt64
  | .greeting candidate =>
    match x.first with
    | .newSession _ => some candidate
    | _ => none
  | _ => none

/-- The id under which the next section inserts a connection. -/
def registers : Arrival → Option UInt64
  | .registering sessionId _ _ => some sessionId
  | _ => none

end Arrival

section Sections

variable {n : Node} {x : ArrivalInput} {p : Arrival} {id : UInt64}

/-- What a section can do: let the tables be, take an entry out of the suspended
sessions, or start a session loop. -/
inductive Node.Arrives (n : Node) (x : ArrivalInput) (p : Arrival) (a : Node × Arrival) : Prop
  | stays (hs : a.1.sessions = n.sessions) (ht : a.1.nextTransport = n.nextTransport)
      (hq : a.1.suspendedSessions = n.suspendedSessions) (hc : a.1.connections = n.connections)
      (hcl : a.1.closing = n.closing)
      (hid : ∀ id, a.2.session? = some id → p.session? = some id ∨ p.opens x = some id)
  | takes (requested : UInt64) (entry : SuspendedSession)
      (hentry : n.suspendedSessions.lookup requested = some entry)
      (ha : a.1 = { n with suspendedSessions := n.suspendedSessions.erase requested })
      (hid : a.2.session? = some requested)
  | registers (sessionId : UInt64) (m : Option Membership) (window : Nat)
      (hp : p = .registering sessionId m window) (ha : a.1 = n.register sessionId m window)
      (hid : a.2.session? = none)

theorem arrives (n : Node) (x : ArrivalInput) (p : Arrival) : n.Arrives x p (n.arrive x p) := by
  cases p with
  | idle => exact .stays rfl rfl rfl rfl rfl nofun
  | greeting candidate =>
    obtain ⟨first, sent⟩ := x
    cases first with
    | newSession version =>
      refine .stays rfl rfl rfl rfl rfl fun id hid => .inr ?_
      change (if version = federateProtocolVersion ∧ sent = true then Arrival.opening candidate none
        else .idle).session? = some id at hid
      split at hid
      · exact hid
      · cases hid
    | resume requested =>
      show n.Arrives _ _ ((n.suspendedSessions.lookup requested).elim _ _)
      cases hentry : n.suspendedSessions.lookup requested with
      | none => exact .stays rfl rfl rfl rfl rfl nofun
      | some s => exact .takes requested s hentry rfl rfl
    | other => exact .stays rfl rfl rfl rfl rfl nofun
  | judging requested restored =>
    refine .stays rfl rfl rfl rfl rfl fun id hid => .inl ?_
    cases restored with
    | none => cases hid
    | some s =>
      change (if n.clock < s.deadline ∧ x.sent = true then Arrival.opening requested (some s.membership)
        else .idle).session? = some id at hid
      split at hid
      · exact hid
      · cases hid
  | opening => exact .stays rfl rfl rfl rfl rfl fun id hid => .inl hid
  | registering sessionId m window => exact .registers sessionId m window rfl rfl rfl

/-- A transport whose session no other has. -/
def Arrival.Alone (n : Node) (p : Arrival) : Prop := ∀ id, p.session? = some id → n.Unused id

theorem Node.Attached.arrive (hn : n.Attached) (hp : p.Alone n)
    (hfree : ∀ id ∈ p.registers, id ∉ n.closing) : (n.arrive x p).1.Attached := by
  cases arrives n x p with
  | stays hs ht hq hc hcl =>
    exact ⟨by rw [hs, hc]; exact hn.connected, by rw [hs, hq]; exact hn.awake,
      by rw [hs, hcl]; exact hn.staying, by rw [hs, ht]; exact hn.transports⟩
  | takes requested entry _ ha =>
    rw [ha]
    exact ⟨hn.connected, fun t s hs hin => hn.awake t s hs (AList.mem_erase.mp hin).2, hn.staying,
      hn.transports⟩
  | registers id m window hreg ha =>
    subst hreg
    obtain ⟨hsusp, hrun⟩ := Node.unused_iff.mp (hp id rfl)
    rw [ha]
    -- the new session, or one that has another id
    have cases' : ∀ t s, (n.register id m window).sessions.lookup t = some s →
        (t = n.nextTransport ∧ s.sessionId = id) ∨
          (n.sessions.lookup t = some s ∧ s.sessionId ≠ id) := by
      intro t s hs
      change (n.sessions.insert n.nextTransport _).lookup t = some s at hs
      rw [HashMap.lookup_insert_eq] at hs
      split at hs
      · next ht =>
          cases hs
          exact .inl ⟨ht, rfl⟩
      · exact .inr ⟨hs, hrun t s hs⟩
    refine ⟨?_, ?_, ?_, ?_⟩
    · intro t s hs
      show (n.connections.insert id ⟨id, n.nextTransport⟩).lookup s.sessionId = _
      rw [HashMap.lookup_insert_eq]
      rcases cases' t s hs with ⟨ht, hid⟩ | ⟨hs, hne⟩
      · rw [if_pos hid, ht, hid]
      · rw [if_neg hne]
        exact hn.connected t s hs
    · intro t s hs
      rcases cases' t s hs with ⟨_, hid⟩ | ⟨hs, _⟩
      · rw [hid]
        exact hsusp
      · exact hn.awake t s hs
    · intro t s hs
      rcases cases' t s hs with ⟨_, hid⟩ | ⟨hs, _⟩
      · rw [hid]
        exact hfree id rfl
      · exact hn.staying t s hs
    · intro t s hs
      rcases cases' t s hs with ⟨ht, _⟩ | ⟨hs, _⟩
      · rw [ht]
        exact Nat.lt_succ_self _
      · exact Nat.lt_succ_of_lt (hn.transports t s hs)

/-- The sections of a transport leave alone the id of no session, unless it is
the one they register. -/
theorem Node.Unused.arrive (hu : n.Unused id) (hp : p.session? ≠ some id) :
    (n.arrive x p).1.Unused id := by
  rw [Node.unused_iff] at hu ⊢
  cases arrives n x p with
  | stays hs _ hq =>
    rw [hs, hq]
    exact hu
  | takes requested entry _ ha =>
    rw [ha]
    exact ⟨fun hin => hu.1 (AList.mem_erase.mp hin).2, hu.2⟩
  | registers sessionId m window hreg ha =>
    subst hreg
    rw [ha]
    refine ⟨hu.1, fun t s hs => ?_⟩
    change (n.sessions.insert n.nextTransport _).lookup t = some s at hs
    rw [HashMap.lookup_insert_eq] at hs
    split at hs
    · cases hs
      exact fun hid => hp (congrArg some hid)
    · exact hu.2 t s hs

/-- A session that a transport takes upon itself was opened by it, or was
suspended. -/
theorem session_arrive (hid : (n.arrive x p).2.session? = some id) :
    p.session? = some id ∨ p.opens x = some id ∨ id ∈ n.suspendedSessions := by
  cases arrives n x p with
  | stays _ _ _ _ _ hold =>
    rcases hold id hid with h | h
    · exact .inl h
    · exact .inr (.inl h)
  | takes requested entry hentry _ hreq =>
    rw [hreq] at hid
    cases hid
    exact .inr (.inr (HashMap.mem_of_lookup hentry))
  | registers _ _ _ _ _ hnone =>
    rw [hnone] at hid
    cases hid

theorem Arrival.Alone.arrive (hn : n.Attached) (hp : p.Alone n)
    (hopen : ∀ id ∈ p.opens x, n.Unused id) : (n.arrive x p).2.Alone (n.arrive x p).1 := by
  intro id hid
  rw [Node.unused_iff]
  cases arrives n x p with
  | stays hs _ hq _ _ hold =>
    rw [hs, hq, ← Node.unused_iff]
    rcases hold id hid with h | h
    · exact hp id h
    · exact hopen id h
  | takes requested entry hentry ha hreq =>
    rw [hreq] at hid
    cases hid
    rw [ha]
    refine ⟨fun hin => (AList.mem_erase.mp hin).1 rfl, fun t s hs he => ?_⟩
    exact hn.awake t s hs (he ▸ HashMap.mem_of_lookup hentry)
  | registers _ _ _ _ _ hnone =>
    rw [hnone] at hid
    cases hid

end Sections

section Runs

variable {I : Type} [DecidableEq I]

/-- A connection is inserted when no earlier transport of its session has one to
remove, and a new session's id is not in use. -/
def TakesOver (s : Node × (I → Arrival)) : SectionEvent I ArrivalInput NodeEvent → Prop
  | .go i x =>
    (∀ id ∈ (s.2 i).registers, id ∉ s.1.closing) ∧
    ∀ id ∈ (s.2 i).opens x, s.1.Unused id ∧ ∀ j, (s.2 j).session? ≠ some id
  | .act _ => True

instance [Fintype I] (s : Node × (I → Arrival)) :
    (e : SectionEvent I ArrivalInput NodeEvent) → Decidable (TakesOver s e)
  | .go _ _ => @instDecidableAnd _ _ (Option.decidableForallMem _) (Option.decidableForallMem _)
  | .act _ => .isTrue trivial

/-- **A running session keeps its connection.**  In every interleaving in which
an old transport has removed its connection by the time a new one of the session
inserts its own, and new sessions are opened under ids not in use, a session that
runs on transport `t` is connected by the handle of `t`. -/
theorem running_is_connected {es : List (SectionEvent I ArrivalInput NodeEvent)}
    (hok : StepsMeet resuming.step TakesOver (.new, fun _ => .idle) es) :
    Always resuming.step (fun s => ∀ t session, s.1.sessions.lookup t = some session →
        s.1.connections.lookup session.sessionId = some ⟨session.sessionId, t⟩)
      (.new, fun _ => .idle) es := by
  have hinv := Sections.always_apart (m := resuming) (J := Node.Attached)
    (K := fun n p => p.Alone n) (R := fun p q => ∀ id, p.session? = some id → q.session? ≠ some id)
    (fun p q hpq id hq hp => hpq id hp hq)
    (fun s i x hs (hgo : TakesOver s (.go i x)) => ⟨hs.shared.arrive (hs.call i) hgo.1,
      .arrive hs.shared (hs.call i) fun id hid => (hgo.2 id hid).1⟩)
    (fun s i x j hs (hgo : TakesOver s (.go i x)) hj => ⟨?_, ?_⟩)
    (fun n e hn => ?_) hok ⟨?_, ?_, ?_⟩
  · exact fun done hd => (hinv done hd).shared.connected
  · intro id hid
    exact (hs.call j id hid).arrive fun hi => hs.pair i j (Ne.symm hj) id hi hid
  · intro id hid hjd
    rcases session_arrive hid with hold | hnew | hsusp
    · exact hs.pair i j (Ne.symm hj) id hold hjd
    · exact (hgo.2 id hnew).2 j hjd
    · exact (hs.call j id hjd).1 hsusp
  · show (if e.accepts then n else n.step e).Attached ∧
      ∀ p : Arrival, p.Alone n → p.Alone (if e.accepts then n else n.step e)
    split
    · exact ⟨hn, fun _ hp => hp⟩
    · next he =>
        have hstep := n.loopStep (Bool.not_eq_true _ ▸ he)
        exact ⟨hstep.attached hn, fun p hp id hid => hstep.unused (hp id hid)⟩
  · exact ⟨nofun, nofun, nofun, nofun⟩
  · exact fun _ => nofun
  · exact fun _ _ _ => nofun

end Runs

/-! A session opens on the first transport and joins; its transport is lost, and
the client is back on a second one. -/

abbrev ArrivalRun := List (SectionEvent Two ArrivalInput NodeEvent)

/-- The next `k` sections of a transport. -/
def arriveOn (i : Two) (first : FirstFrame) (k : Nat) : ArrivalRun :=
  List.replicate k (.go i ⟨first, true⟩)

def joinedOnFirst : ArrivalRun :=
  .act (.setReconnectWindow 60) :: arriveOn .one (.newSession federateProtocolVersion) 4 ++
    [.act (.manages 0 (.createFederationExecution .withModules "f" [.file "m" []])),
      .act (.joins 0)]

def arrivalRun (es : ArrivalRun) : Node := (run resuming.step (Node.new, fun _ => Arrival.idle) es).1

/-- The old transport is torn down, then the session is resumed. -/
def resumedAfter : ArrivalRun :=
  joinedOnFirst ++ [.act (.close 0), .act (.removeConnection 1)] ++ arriveOn .two (.resume 1) 5

theorem running_is_connected_resumed :
    ((arrivalRun resumedAfter).sessions.lookup 1).map (·.sessionId) = some 1 ∧
    Always resuming.step (fun s => ∀ t session, s.1.sessions.lookup t = some session →
        s.1.connections.lookup session.sessionId = some ⟨session.sessionId, t⟩)
      (Node.new, fun _ : Two => Arrival.idle) resumedAfter :=
  ⟨by decide +kernel, running_is_connected (by decide +kernel)⟩

/-- **A running session without a connection.**  The session is resumed while
the teardown of its old transport has come as far as the suspended sessions; the
rest of it removes the new connection. -/
theorem resumed_is_disconnected :
    let n := arrivalRun (joinedOnFirst ++ .act (.close 0) :: arriveOn .two (.resume 1) 5 ++
      [.act (.removeConnection 1)])
    (n.sessions.lookup 1).map (·.sessionId) = some 1 ∧ n.connections.lookup 1 = none := by
  decide +kernel

/-! ## Back within the window -/

/-- No other transport takes up the id, and no other session of it ends. -/
def NodeEvent.LeavesAlone (n : Node) (id : UInt64) : NodeEvent → Prop
  | .accept (.resume requested) _ => requested ≠ id
  | .close t => ∀ s, n.sessions.lookup t = some s → s.sessionId ≠ id
  | _ => True

/-- The session is suspended, and not collected by the janitor before its time. -/
def Node.Suspended (n : Node) (id : UInt64) (e : SuspendedSession) : Prop :=
  n.suspendedSessions.lookup id = some e ∧ (id ∈ n.expired → e.deadline ≤ n.clock)

theorem Node.Suspended.step {n : Node} {id : UInt64} {e : SuspendedSession} {event : NodeEvent}
    (h : n.Suspended id e) (hin : n.clock < e.deadline) (hev : event.LeavesAlone n id) :
    (n.step event).Suspended id e := by
  have erased {k : UInt64} (hk : k ≠ id) : (n.suspendedSessions.erase k).lookup id = some e :=
    HashMap.lookup_erase_eq_some.mpr ⟨hk.symm, h.1⟩
  cases event with
  | accept first =>
    cases first with
    | newSession =>
      rw [Node.step, Node.accept]
      split <;> exact h
    | resume requested =>
      rw [Node.step, Node.accept]
      cases n.suspendedSessions.lookup requested with
      | none => exact h
      | some =>
        dsimp only
        split <;> exact ⟨erased hev, h.2⟩
    | other => exact h
  | call t env request =>
    rw [Node.step, Node.outcome]
    cases n.sessions.lookup t with
    | none => exact h
    | some s =>
      have heffect := n.dispatchCall_effect t s env request
      show (n.dispatchCall t s env request).node.Suspended id e
      generalize (n.dispatchCall t s env request).node = n' at heffect ⊢
      generalize n.callMove t s request = move, n.callAction s env request = action at heffect
      cases heffect <;> exact h
  | close t =>
    rw [Node.step, Node.close]
    cases hs : n.sessions.lookup t with
    | none => exact h
    | some s =>
      dsimp only
      cases s.membership with
      | none => exact h
      | some =>
        dsimp only
        split
        · refine ⟨?_, h.2⟩
          rw [HashMap.lookup_insert_eq, if_neg (hev s hs).symm, h.1]
        · exact h
  | removeConnection =>
    rw [Node.step, Node.removeConnection]
    split <;> exact h
  | janitorScan =>
    refine ⟨h.1, fun hm => (List.mem_append.mp hm).elim h.2 fun hf => ?_⟩
    have hlate := (List.mem_filter.mp hf).2
    rw [h.1] at hlate
    exact of_decide_eq_true hlate
  | janitorRemove =>
    rw [Node.step, Node.janitorRemove]
    cases hexp : n.expired with
    | nil => exact h
    | cons sid rest =>
      have hrest : id ∈ rest → e.deadline ≤ n.clock := fun hm =>
        h.2 (hexp ▸ List.mem_cons_of_mem _ hm)
      -- an id in hand is past its deadline, and this one is not
      have hne : sid ≠ id := fun heq =>
        absurd (h.2 (hexp ▸ heq ▸ List.mem_cons_self)) (Nat.not_le.mpr hin)
      dsimp only
      cases n.suspendedSessions.lookup sid with
      | none => exact ⟨h.1, hrest⟩
      | some => exact ⟨erased hne, hrest⟩
  | elapse => exact ⟨h.1, fun hm => (h.2 hm).trans (Nat.le_add_right ..)⟩
  | setReconnectWindow => exact h
  | setDefaultFom => exact h
  | setSaveDir => exact h

/-- **A dropped session is resumed** within its window, with the membership it
had, and once.  The janitor collects ids first and removes the entries later, so
an id that it had in hand when the transport dropped is not safe. -/
theorem dropped_session_resumes {n : Node} {t : Transport} {s : Session} {m : Membership}
    (hs : n.sessions.lookup t = some s) (hm : s.membership = some m) (hw : 0 < s.reconnectWindow)
    (hexp : s.sessionId ∉ n.expired) (es : List NodeEvent)
    (hok : StepsMeet Node.step (fun n' e =>
      n'.clock < n.clock + s.reconnectWindow ∧ e.LeavesAlone n' s.sessionId) (n.close t) es)
    (hin : (run Node.step (n.close t) es).clock < n.clock + s.reconnectWindow) :
    let n₁ := run Node.step (n.close t) es
    let n₂ := n₁.step (.accept (.resume s.sessionId) true)
    n₂.heap = n₁.heap ∧
    n₂.sessions.lookup n₁.nextTransport = some ⟨s.sessionId, some m, n₁.reconnectWindow⟩ ∧
    n₂.connections.lookup s.sessionId = some ⟨s.sessionId, n₁.nextTransport⟩ ∧
    s.sessionId ∉ n₂.suspendedSessions := by
  intro n₁ n₂
  have hclosed : (n.close t).Suspended s.sessionId ⟨m, n.clock + s.reconnectWindow⟩ := by
    simp only [Node.close, hs, hm, if_pos hw]
    exact ⟨AList.lookup_insert _, fun h => absurd h hexp⟩
  have hheld := StepsMeet.invariant
    (P := (Node.Suspended · s.sessionId ⟨m, n.clock + s.reconnectWindow⟩))
    (fun _ _ h hok => h.step hok.1 hok.2) hclosed hok
  simp only [n₂, n₁, Node.step, Node.accept, hheld.1]
  rw [if_pos ⟨hin, trivial⟩]
  exact ⟨rfl, AList.lookup_insert _, AList.lookup_insert _, fun h => (AList.mem_erase.mp h).1 rfl⟩

theorem dropped_session_resumes_joined :
    let n := run Node.step ((arrivalRun joinedOnFirst).close 0) [.elapse 59, .janitorScan]
    (n.step (.accept (.resume 1) true)).sessions.lookup 1 =
      some ⟨1, some ⟨0, ⟨1⟩, "federate-00000001"⟩, 60⟩ :=
  (dropped_session_resumes (n := arrivalRun joinedOnFirst) (t := 0)
    (s := ⟨1, some ⟨0, ⟨1⟩, "federate-00000001"⟩, 60⟩) rfl rfl (by decide)
    (by decide +kernel) [.elapse 59, .janitorScan]
    ⟨⟨by decide +kernel, trivial⟩, ⟨by decide +kernel, trivial⟩, trivial⟩ (by decide +kernel)).2.1

end Hla4
