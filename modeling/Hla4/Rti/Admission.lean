/-
# `Hla4.Rti.Admission` — accept loops and the count of connections per address

`check_limits`, `accept_loop`, `serve_ws` and `serve_tls`.  An accept loop takes a
peer, checks the limits, counts the peer's address in `connections_per_ip`, and
spawns a task; the task counts the address out when it ends.  The loops and the
tasks run side by side.  A step is what one of them does with one access to the
map:

    accept      a peer connects; the limits are read
    check       `connections_per_ip.get`; admit or turn away
    count       `*connections_per_ip.entry(ip).or_insert(0) += 1`; from here on the
                connection is live
    handshake   of a WebSocket or TLS connection; if it fails, the address is
                counted out and the task ends
    close       `connections_per_ip.get_mut`: the address is counted out; at zero
                the guard is dropped and the entry is still to be removed
    remove      `connections_per_ip.remove`

The entry guard of `close` is held from the look-up to the test for zero, so the
three are one step.  The removal is another: in between the map is anybody's.

The number of connections in `connections`, which `check_limits` compares with
`max_total`, is given with the step, whatever it is.  The metrics of accepted and
rejected connections, which nothing here reads, are left out.

`Effect` says once what a step can do to the tasks and the counts (`step_effect`).
-/
import Hla4.Lib.Checked
import Hla4.Lib.Counters
import Hla4.Lib.Run

namespace Hla4

open Lib

/-- Limits on connections; `none` is no limit. -/
structure ConnectionLimits where
  maxTotal : Option Nat
  maxPerIp : Option Nat
deriving DecidableEq

/-- The kinds of accept loops. -/
inductive ListenerKind
  | tcp
  | ws
  | tls
deriving DecidableEq

/-- Where an accept loop is. -/
inductive LoopState (Ip : Type)
  | waiting
  /-- The peer is there, and the limits are read. -/
  | checking (ip : Ip) (limits : ConnectionLimits)
  /-- The check has passed; the peer is still to be counted. -/
  | admitted (ip : Ip)
  | stopped
deriving DecidableEq

structure AcceptLoop (Ip : Type) where
  listener : ListenerKind
  state : LoopState Ip
deriving DecidableEq

/-- Where the task of a connection is. -/
inductive TaskState
  /-- In the WebSocket or TLS handshake. -/
  | opening
  /-- In `handle_connection`. -/
  | serving
  /-- Counted out, to zero; the entry is still to be removed. -/
  | emptied
  | ended
deriving DecidableEq

/-- The connection is not counted out yet. -/
def TaskState.live : TaskState → Bool
  | opening => true
  | serving => true
  | emptied => false
  | ended => false

structure ConnectionTask (Ip : Type) where
  ip : Ip
  listener : ListenerKind
  state : TaskState

/-- The server's limits and counts, with its accept loops and tasks. -/
structure Admission (Ip : Type) where
  limits : ConnectionLimits
  connectionsPerIp : Counters Ip
  loops : List (AcceptLoop Ip)
  tasks : List (ConnectionTask Ip)

/-- What an accept loop does. -/
inductive LoopAct (Ip : Type)
  | accept (peer : Ip)
  | check (total : Nat)
  | count
  /-- Shutdown, or an error of the listener. -/
  | stop

/-- What the task of a connection does. -/
inductive TaskAct
  | handshake (ok : Bool)
  | close
  | remove

inductive AdmissionEvent (Ip : Type)
  | setConnectionLimits (limits : ConnectionLimits)
  /-- An accept loop starts. -/
  | serve (listener : ListenerKind)
  | loop (l : Nat) (act : LoopAct Ip)
  | task (t : Nat) (act : TaskAct)

section

variable {Ip : Type} [DecidableEq Ip]

/-- One more connection from `ip` is within the limits, or the reason why not. -/
def checkLimits (limits : ConnectionLimits) (total : Nat) (connectionsPerIp : Counters Ip)
    (ip : Ip) : Except String Unit := do
  require (∀ max ∈ limits.maxTotal, total < max) "max_total"
  require (∀ max ∈ limits.maxPerIp, connectionsPerIp.get ip < max) "max_per_ip"

/-- Where a task starts: only TCP has no handshake. -/
def ListenerKind.firstState : ListenerKind → TaskState
  | tcp => .serving
  | ws => .opening
  | tls => .opening

namespace Admission

variable (s : Admission Ip)

/-- No loops, no limits, no connections. -/
def new : Admission Ip := ⟨⟨none, none⟩, ∅, [], []⟩

def setLoop (l : Nat) (a : AcceptLoop Ip) (state : LoopState Ip) : Admission Ip :=
  { s with loops := s.loops.set l { a with state } }

def setTask (t : Nat) (k : ConnectionTask Ip) (state : TaskState) : Admission Ip :=
  { s with tasks := s.tasks.set t { k with state } }

/-- The peer is counted, and its task spawned. -/
def spawn (l : Nat) (a : AcceptLoop Ip) (ip : Ip) : Admission Ip :=
  { s.setLoop l a .waiting with
    connectionsPerIp := s.connectionsPerIp.increment ip
    tasks := s.tasks ++ [⟨ip, a.listener, a.listener.firstState⟩] }

/-- A handshake has failed: the address is counted out, and its entry stays. -/
def abort (t : Nat) (k : ConnectionTask Ip) : Admission Ip :=
  { s.setTask t k .ended with connectionsPerIp := s.connectionsPerIp.decrement k.ip }

/-- A connection has ended: the address is counted out. -/
def countOut (t : Nat) (k : ConnectionTask Ip) : Admission Ip :=
  match s.connectionsPerIp.lookup k.ip with
  | none => s.setTask t k .ended
  | some n =>
    { s.setTask t k (if n - 1 = 0 then .emptied else .ended) with
      connectionsPerIp := s.connectionsPerIp.insert k.ip (n - 1) }

def removeEntry (t : Nat) (k : ConnectionTask Ip) : Admission Ip :=
  { s.setTask t k .ended with connectionsPerIp := s.connectionsPerIp.erase k.ip }

def stepLoop (l : Nat) (a : AcceptLoop Ip) : LoopAct Ip → Admission Ip
  | .accept peer =>
    match a.state with
    | .waiting => s.setLoop l a (.checking peer s.limits)
    | _ => s
  | .check total =>
    match a.state with
    | .checking ip limits =>
      match checkLimits limits total s.connectionsPerIp ip with
      | .ok _ => s.setLoop l a (.admitted ip)
      -- the peer is turned away
      | .error _ => s.setLoop l a .waiting
    | _ => s
  | .count =>
    match a.state with
    | .admitted ip => s.spawn l a ip
    | _ => s
  | .stop =>
    match a.state with
    | .waiting => s.setLoop l a .stopped
    | _ => s

def stepTask (t : Nat) (k : ConnectionTask Ip) : TaskAct → Admission Ip
  | .handshake ok =>
    match k.state with
    | .opening => if ok then s.setTask t k .serving else s.abort t k
    | _ => s
  | .close =>
    match k.state with
    | .serving => s.countOut t k
    | _ => s
  | .remove =>
    match k.state with
    | .emptied => s.removeEntry t k
    | _ => s

def step : AdmissionEvent Ip → Admission Ip
  | .setConnectionLimits limits => { s with limits }
  | .serve listener => { s with loops := s.loops ++ [⟨listener, .waiting⟩] }
  | .loop l act =>
    match s.loops[l]? with
    | some a => s.stepLoop l a act
    | none => s
  | .task t act =>
    match s.tasks[t]? with
    | some k => s.stepTask t k act
    | none => s

/-! ## What a step can do -/

/-- The address whose entry a step removes. -/
def removal : AdmissionEvent Ip → Option Ip
  | .task t .remove => s.tasks[t]?.bind fun k => if k.state = .emptied then some k.ip else none
  | _ => none

/-- What a step that removes the entry of `removed`, if any, can do to the tasks and
the counts. -/
inductive Effect (s : Admission Ip) : (removed : Option Ip) → (s' : Admission Ip) → Prop
  | quiet {s' : Admission Ip} (tasks : s'.tasks = s.tasks)
      (counts : s'.connectionsPerIp = s.connectionsPerIp) : Effect s none s'
  | enters (l : Nat) (a : AcceptLoop Ip) (ip : Ip) : Effect s none (s.spawn l a ip)
  | opens (t : Nat) (k : ConnectionTask Ip) (hk : s.tasks[t]? = some k)
      (state : k.state = .opening) : Effect s none (s.setTask t k .serving)
  | leaves (t : Nat) (k : ConnectionTask Ip) (hk : s.tasks[t]? = some k)
      (live : k.state.live = true) (state : TaskState) (dead : state.live = false) :
      Effect s none
        { s.setTask t k state with connectionsPerIp := s.connectionsPerIp.decrement k.ip }
  | removes (t : Nat) (k : ConnectionTask Ip) (hk : s.tasks[t]? = some k)
      (state : k.state = .emptied) : Effect s (some k.ip) (s.removeEntry t k)

variable {s}

theorem Effect.refl : s.Effect none s := .quiet rfl rfl

/-- With an entry or without, the address is counted out. -/
theorem effect_countOut {t : Nat} {k : ConnectionTask Ip} (hk : s.tasks[t]? = some k)
    (hlive : k.state.live = true) : s.Effect none (s.countOut t k) := by
  cases hn : s.connectionsPerIp.lookup k.ip with
  | none =>
    have hsame : s.connectionsPerIp.decrement k.ip = s.connectionsPerIp := by
      rw [Counters.decrement, HashMap.modify, hn]
    have hleaves := Effect.leaves t k hk hlive .ended rfl
    rw [hsame] at hleaves
    rw [countOut, hn]
    exact hleaves
  | some n =>
    have hdec : s.connectionsPerIp.decrement k.ip = s.connectionsPerIp.insert k.ip (n - 1) := by
      rw [Counters.decrement, HashMap.modify, hn]
    have hleaves := Effect.leaves t k hk hlive (if n - 1 = 0 then .emptied else .ended)
      (by split <;> rfl)
    rw [hdec] at hleaves
    rw [countOut, hn]
    exact hleaves

theorem effect_stepLoop (l : Nat) (a : AcceptLoop Ip) (act : LoopAct Ip) :
    s.Effect none (s.stepLoop l a act) := by
  cases act with
  | accept | stop =>
    rw [stepLoop]
    split <;> exact .quiet rfl rfl
  | check =>
    rw [stepLoop]
    split
    · split <;> exact .quiet rfl rfl
    · exact .refl
  | count =>
    rw [stepLoop]
    split
    · exact .enters l a _
    · exact .refl

theorem effect_stepTask {t : Nat} {k : ConnectionTask Ip} (hk : s.tasks[t]? = some k)
    (act : TaskAct) : s.Effect (s.removal (.task t act)) (s.stepTask t k act) := by
  cases act with
  | handshake =>
    rw [stepTask]
    split
    · next hstate =>
        split
        · exact .opens t k hk hstate
        · exact .leaves t k hk (by rw [hstate]; rfl) .ended rfl
    · exact .refl
  | close =>
    rw [stepTask]
    split
    · next hstate => exact effect_countOut hk (by rw [hstate]; rfl)
    · exact .refl
  | remove =>
    rw [stepTask, removal, hk, Option.bind_some]
    split
    · next hstate =>
        rw [hstate]
        exact .removes t k hk hstate
    · next hstate =>
        split
        · next hemptied => exact absurd hemptied hstate
        · exact .refl

/-- **What a step can do.** -/
theorem step_effect (s : Admission Ip) (e : AdmissionEvent Ip) :
    s.Effect (s.removal e) (s.step e) := by
  cases e with
  | setConnectionLimits | serve => exact .quiet rfl rfl
  | loop l act =>
    rw [step]
    split
    · exact effect_stepLoop l _ act
    · exact .refl
  | task t act =>
    rw [step]
    split
    · next k hk => exact effect_stepTask hk act
    · next hnone =>
        have hno : s.removal (.task t act) = none := by
          cases act with
          | remove => rw [removal, hnone, Option.bind_none]
          | handshake => rfl
          | close => rfl
        rw [hno]
        exact .refl

end Admission

end

end Hla4
