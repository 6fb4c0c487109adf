/-
# `Hla4.Rti.Dispatch.TimeMgmt` — the time services

Handlers of `time_mgmt.rs`.  Each one first checks the request and changes the
caller's own time state, in one section under the write lock (`timeSection`);
what follows depends on the service:

    role         enable/disable constrained, modify lookahead: nothing more
    regulation   enable/disable regulation: a pass of grants
    advance      the time advance requests: a pass of grants, before which the
                 queues of the federates ABOUT to be granted are drained

`timeSection_eq_ok` says what each section does; the passes are analysed in
`Hla4.Rti.Coordination`.  Note what the list says: only `advance` drains
queues, and it drains those of the first round of grants only.
-/
import Hla4.Rti.Dispatch.DataFlow
import Hla4.Rti.Time

namespace Hla4

open Lib

/-! ## Time states -/

namespace TimeState

def regulate (t : TimeState) (lookahead : { q : ℚ // 0 ≤ q }) : TimeState :=
  { t with isRegulating := true, lookahead := lookahead, lookahead_nonneg := lookahead.2 }

def unregulate (t : TimeState) : TimeState := { t with isRegulating := false }

def constrain (t : TimeState) : TimeState := { t with isConstrained := true }

def unconstrain (t : TimeState) : TimeState := { t with isConstrained := false }

def withLookahead (t : TimeState) (lookahead : { q : ℚ // 0 ≤ q }) : TimeState :=
  { t with lookahead := lookahead, lookahead_nonneg := lookahead.2 }

/-- Wait for a time that is not in the past. -/
def request (t : TimeState) (requested : { q : ℚ // t.currentTime ≤ q }) : TimeState :=
  { t with
    pendingAdvance := some requested
    current_le_pending := by rintro _ ⟨⟩; exact requested.2 }

end TimeState

/-- Replace a federate's time state. -/
def Federation.setTime (fed : Federation) (h : FederateHandle) (t : TimeState) : Federation :=
  fed.modifyFederate h fun fs => { fs with time := t }

variable (c : Caller) (fed : Federation)

/-! ## Arguments -/

/-- The number of a finite float that is at least `bound`. -/
def F64.atLeast? (v : F64) (bound : ℚ) : Option { q : ℚ // bound ≤ q } :=
  match v with
  | .fin q => if h : bound ≤ q then some ⟨q, h⟩ else none
  | _ => none

/-- A lookahead: finite and not negative. -/
def lookaheadArg (lookahead : WireField) : Except ExceptionData { q : ℚ // 0 ≤ q } := do
  let bytes ← getOr lookahead (HlaException.invalidLookahead.because "missing")
  let v ← getOr (decodeF64 bytes) HlaException.invalidLookahead.bare
  getOr (v.atLeast? 0) ⟨.invalidLookahead, .float v⟩

/-- The time of an advance request: finite. -/
def requestedTimeArg (time : WireField) : Except ExceptionData ℚ := do
  let v ← decodeLogicalTime time "missing"
  getOr v.finite? ⟨.logicalTimeAlreadyPassed, .float v⟩

/-! ## The locked sections -/

/-- The federation after a section, and the caller's record before it. -/
structure TimeSection where
  federation : Federation
  caller : FederateSession

def enableRegulationSection (lookahead : WireField) : Except ExceptionData TimeSection := do
  let lookahead ← lookaheadArg lookahead
  let fs ← callerSession c fed
  require (fs.time.isRegulating = false) HlaException.timeRegulationAlreadyEnabled.bare
  pure ⟨fed.setTime c.federate (fs.time.regulate lookahead), fs⟩

def disableRegulationSection : Except ExceptionData TimeSection := do
  let fs ← callerSession c fed
  require (fs.time.isRegulating = true) HlaException.timeRegulationIsNotEnabled.bare
  pure ⟨fed.setTime c.federate fs.time.unregulate, fs⟩

def enableConstrainedSection : Except ExceptionData TimeSection := do
  let fs ← callerSession c fed
  require (fs.time.isConstrained = false) HlaException.timeConstrainedAlreadyEnabled.bare
  pure ⟨fed.setTime c.federate fs.time.constrain, fs⟩

def disableConstrainedSection : Except ExceptionData TimeSection := do
  let fs ← callerSession c fed
  require (fs.time.isConstrained = true) HlaException.timeConstrainedIsNotEnabled.bare
  pure ⟨fed.setTime c.federate fs.time.unconstrain, fs⟩

/-- Any bad lookahead is reported alike here. -/
def modifyLookaheadSection (lookahead : WireField) : Except ExceptionData TimeSection := do
  let lookahead ← getOr ((lookahead.bind decodeF64).bind (·.atLeast? 0))
    HlaException.invalidLookahead.bare
  let fs ← callerSession c fed
  require (fs.time.isRegulating = true) HlaException.timeRegulationIsNotEnabled.bare
  pure ⟨fed.setTime c.federate (fs.time.withLookahead lookahead), fs⟩

/-- The section of an advance request, with the time asked for. -/
def advanceSection (time : WireField) : Except ExceptionData (TimeSection × ℚ) := do
  let requested ← requestedTimeArg time
  let fs ← callerSession c fed
  require (fs.time.pendingAdvance = none) HlaException.inTimeAdvancingState.bare
  let ahead ← getOr ((F64.fin requested).atLeast? fs.time.currentTime)
    HlaException.logicalTimeAlreadyPassed.bare
  pure (⟨fed.setTime c.federate (fs.time.request ahead), fs⟩, ahead)

/-! ## Handlers -/

def enableTimeRegulation (lookahead : WireField) : Outcome :=
  .ofExcept fed do
    let s ← enableRegulationSection c fed lookahead
    let own := fanOut (s.federation.ownConnection c c.federate)
      (.timeRegulationEnabled s.caller.time.currentTime)
    let pass := s.federation.tryGrantPendingAdvances c
    pure ⟨pass.federation, .ack .enableTimeRegulation, own ++ pass.callbacks, pass.grants, none⟩

def disableTimeRegulation : Outcome :=
  .ofExcept fed do
    let s ← disableRegulationSection c fed
    let pass := s.federation.tryGrantPendingAdvances c
    pure ⟨pass.federation, .ack .disableTimeRegulation, pass.callbacks, pass.grants, none⟩

def enableTimeConstrained : Outcome :=
  .ofExcept fed do
    let s ← enableConstrainedSection c fed
    pure (.reply s.federation (.ack .enableTimeConstrained)
      (fanOut (s.federation.ownConnection c c.federate)
        (.timeConstrainedEnabled s.caller.time.currentTime)))

def disableTimeConstrained : Outcome :=
  .ofExcept fed do
    let s ← disableConstrainedSection c fed
    pure (.reply s.federation (.ack .disableTimeConstrained) [])

def modifyLookahead (lookahead : WireField) : Outcome :=
  .ofExcept fed do
    let s ← modifyLookaheadSection c fed lookahead
    pure (.reply s.federation (.ack .modifyLookahead) [])

/-- The federates about to be granted: the pending ones that are unconstrained
or within the bound. -/
def aboutToBeGranted : List (FederateHandle × ℚ) :=
  ((fed.sessions c.env.federates).filterMap fun e => e.2.time.pendingAdvance.map (e.1, ·)).filter
    fun g =>
      match fed.federates.lookup g.1 with
      | none => false
      | some fs => decide (fs.time.isConstrained = false ∨ (g.2 : Timestamp) ≤ fed.lbts)

/-- Drain the queues of a list of federates, each up to its time. -/
def drainAll : Federation → List (FederateHandle × ℚ) → Federation × List OutboundCallback
  | fed, [] => (fed, [])
  | fed, (h, t) :: rest =>
    let first := drainTsoUpTo c fed h t
    let others := drainAll first.1 rest
    (others.1, first.2 ++ others.2)

def tryGrantPendingAdvancesWithTso : GrantPass :=
  let drained := drainAll c fed (aboutToBeGranted c fed)
  let pass := drained.1.tryGrantPendingAdvances c
  ⟨pass.federation, drained.2 ++ pass.callbacks, pass.grants⟩

/-- An unconstrained caller is granted at once: its queue is drained, it is
told, and then the others are looked at. -/
def grantAtOnce (waiting : Federation) (t : ℚ) : GrantPass :=
  let drained := drainTsoUpTo c (waiting.grant c.federate t) c.federate t
  let own := fanOut (drained.1.ownConnection c c.federate) (.timeAdvanceGrant t)
  let pass := tryGrantPendingAdvancesWithTso c drained.1
  ⟨pass.federation, drained.2 ++ own ++ pass.callbacks,
    ⟨waiting.net, c.federate, t⟩ :: pass.grants⟩

/-- What follows the section of an advance request. -/
def advancePass (s : TimeSection) (t : ℚ) : GrantPass :=
  if s.caller.time.isConstrained = false then grantAtOnce c s.federation t
  else tryGrantPendingAdvancesWithTso c s.federation

def timeAdvanceRequest (time : WireField) : Outcome :=
  .ofExcept fed do
    let s ← advanceSection c fed time
    let pass := advancePass c s.1 s.2
    pure ⟨pass.federation, .ack .timeAdvanceRequest, pass.callbacks, pass.grants, none⟩

/-- The time services. -/
def serveTime : TimeRequest → Outcome
  | .enableTimeRegulation lookahead => enableTimeRegulation c fed lookahead
  | .disableTimeRegulation => disableTimeRegulation c fed
  | .enableTimeConstrained => enableTimeConstrained c fed
  | .disableTimeConstrained => disableTimeConstrained c fed
  | .advance _ time => timeAdvanceRequest c fed time
  | .modifyLookahead lookahead => modifyLookahead c fed lookahead

/-! ## What a time service does -/

/-- What follows the section of a time request. -/
inductive TimeKind
  | role
  | regulation
  | advance
deriving DecidableEq

def TimeRequest.kind : TimeRequest → TimeKind
  | enableTimeRegulation _ => .regulation
  | disableTimeRegulation => .regulation
  | enableTimeConstrained => .role
  | disableTimeConstrained => .role
  | modifyLookahead _ => .role
  | advance .. => .advance

/-- The locked section of a time request. -/
def timeSection : TimeRequest → Except ExceptionData TimeSection
  | .enableTimeRegulation lookahead => enableRegulationSection c fed lookahead
  | .disableTimeRegulation => disableRegulationSection c fed
  | .enableTimeConstrained => enableConstrainedSection c fed
  | .disableTimeConstrained => disableConstrainedSection c fed
  | .modifyLookahead lookahead => modifyLookaheadSection c fed lookahead
  | .advance _ time => (advanceSection c fed time).map Prod.fst

/-- What an accepted request makes of its caller's time state. -/
def TimeRequest.change (p : TimeState) : TimeRequest → Option TimeState
  | enableTimeRegulation lookahead =>
    (lookaheadArg lookahead).toOption.bind fun l =>
      if p.isRegulating = false then some (p.regulate l) else none
  | disableTimeRegulation => if p.isRegulating = true then some p.unregulate else none
  | enableTimeConstrained => if p.isConstrained = false then some p.constrain else none
  | disableTimeConstrained => if p.isConstrained = true then some p.unconstrain else none
  | modifyLookahead lookahead =>
    ((lookahead.bind decodeF64).bind (·.atLeast? 0)).bind fun l =>
      if p.isRegulating = true then some (p.withLookahead l) else none
  | advance _ time =>
    (requestedTimeArg time).toOption.bind fun t =>
      if p.pendingAdvance = none then ((F64.fin t).atLeast? p.currentTime).map p.request
      else none

variable {c fed}

/-- A section replaces the caller's time state and nothing else. -/
structure TimeSection.Changes (s : TimeSection) (c : Caller) (fed : Federation) (t : TimeState) :
    Prop where
  caller : fed.federates.lookup c.federate = some s.caller
  federation : s.federation = fed.setTime c.federate t

theorem callerSession_eq_ok {fs : FederateSession} :
    callerSession c fed = .ok fs ↔ fed.federates.lookup c.federate = some fs :=
  getOr_eq_ok

/-- An advance request that passes its checks: the caller waits for nothing,
and from now on for `t`. -/
theorem advanceSection_ok {time : WireField} {s : TimeSection} {t : ℚ}
    (h : advanceSection c fed time = .ok (s, t)) :
    s.caller.time.pendingAdvance = none ∧
      ∃ ht : s.caller.time.currentTime ≤ t, s.Changes c fed (s.caller.time.request ⟨t, ht⟩) := by
  simp only [advanceSection, bind_eq_ok, callerSession_eq_ok, require_eq_ok, getOr_eq_ok] at h
  obtain ⟨_, _, fs, hfs, _, hpend, ahead, _, he⟩ := h
  cases he
  exact ⟨hpend, ahead.2, hfs, rfl⟩

/-- When a request is accepted, and what it makes of the caller then. -/
theorem TimeRequest.change_eq_some {r : TimeRequest} {p t : TimeState} :
    r.change p = some t ↔ match r with
    | .enableTimeRegulation lookahead =>
      ∃ l, lookaheadArg lookahead = .ok l ∧ p.isRegulating = false ∧ p.regulate l = t
    | .disableTimeRegulation => p.isRegulating = true ∧ p.unregulate = t
    | .enableTimeConstrained => p.isConstrained = false ∧ p.constrain = t
    | .disableTimeConstrained => p.isConstrained = true ∧ p.unconstrain = t
    | .modifyLookahead lookahead =>
      ∃ l, (lookahead.bind decodeF64).bind (·.atLeast? 0) = some l ∧ p.isRegulating = true ∧
        p.withLookahead l = t
    | .advance _ time =>
      ∃ q, requestedTimeArg time = .ok q ∧ p.pendingAdvance = none ∧
        ∃ ahead, (F64.fin q).atLeast? p.currentTime = some ahead ∧ p.request ahead = t := by
  cases r <;> simp [change, Option.bind_eq_some_iff, toOption_eq_some]

/-- **What a section does**: it replaces the caller's time state by what the
request makes of it. -/
theorem timeSection_eq_ok {r : TimeRequest} {s : TimeSection} :
    timeSection c fed r = .ok s ↔ ∃ t, r.change s.caller.time = some t ∧ s.Changes c fed t := by
  simp only [TimeRequest.change_eq_some]
  cases r with
  | enableTimeRegulation | modifyLookahead =>
    simp only [timeSection, enableRegulationSection, modifyLookaheadSection, bind_eq_ok,
      callerSession_eq_ok, require_eq_ok, getOr_eq_ok]
    constructor
    · rintro ⟨l, hl, fs, hfs, _, hreg, ⟨⟩⟩
      exact ⟨_, ⟨l, hl, hreg, rfl⟩, hfs, rfl⟩
    · rintro ⟨_, ⟨l, hl, hreg, rfl⟩, hfs, hfed⟩
      exact ⟨l, hl, _, hfs, (), hreg, congrArg Except.ok (hfed ▸ rfl)⟩
  | disableTimeRegulation | enableTimeConstrained | disableTimeConstrained =>
    simp only [timeSection, disableRegulationSection, enableConstrainedSection,
      disableConstrainedSection, bind_eq_ok, callerSession_eq_ok, require_eq_ok]
    constructor
    · rintro ⟨fs, hfs, _, hrole, ⟨⟩⟩
      exact ⟨_, ⟨hrole, rfl⟩, hfs, rfl⟩
    · rintro ⟨_, ⟨hrole, rfl⟩, hfs, hfed⟩
      exact ⟨_, hfs, (), hrole, congrArg Except.ok (hfed ▸ rfl)⟩
  | advance service time =>
    rw [timeSection]
    constructor
    · intro h
      cases ha : advanceSection c fed time with
      | error => rw [ha] at h; cases h
      | ok =>
        rw [ha] at h
        cases h
        simp only [advanceSection, bind_eq_ok, callerSession_eq_ok, require_eq_ok,
          getOr_eq_ok] at ha
        obtain ⟨q, hq, fs, hfs, _, hpend, ahead, hahead, ⟨⟩⟩ := ha
        exact ⟨_, ⟨q, hq, hpend, ahead, hahead, rfl⟩, hfs, rfl⟩
    · rintro ⟨_, ⟨q, hq, hpend, ahead, hahead, rfl⟩, hfs, hfed⟩
      have hsec : advanceSection c fed time = .ok (s, ahead.1) := by
        simp only [advanceSection, bind_eq_ok, callerSession_eq_ok, require_eq_ok, getOr_eq_ok]
        exact ⟨q, hq, _, hfs, (), hpend, ahead, hahead,
          congrArg (fun s => Except.ok (s, ahead.1)) (hfed ▸ rfl)⟩
      rw [hsec]
      rfl

/-- No request moves its caller in time, and only an advance request makes it
wait. -/
theorem TimeRequest.change_keeps {r : TimeRequest} {p t : TimeState} (h : r.change p = some t) :
    t.currentTime = p.currentTime ∧ (r.kind ≠ .advance → t.pendingAdvance = p.pendingAdvance) := by
  rw [change_eq_some] at h
  cases r with
  | enableTimeRegulation | modifyLookahead =>
    obtain ⟨_, _, _, rfl⟩ := h
    exact ⟨rfl, fun _ => rfl⟩
  | disableTimeRegulation | enableTimeConstrained | disableTimeConstrained =>
    obtain ⟨_, rfl⟩ := h
    exact ⟨rfl, fun _ => rfl⟩
  | advance =>
    obtain ⟨_, _, _, _, _, rfl⟩ := h
    exact ⟨rfl, fun hk => absurd rfl hk⟩

/-- What a service tells its caller of its role: nothing, or one callback. -/
inductive RoleNotice (c : Caller) (fed : Federation) : List OutboundCallback → Prop
  | nothing : RoleNotice c fed []
  | regulates (t : ℚ) :
      RoleNotice c fed (fanOut (fed.ownConnection c c.federate) (.timeRegulationEnabled t))
  | constrains (t : ℚ) :
      RoleNotice c fed (fanOut (fed.ownConnection c c.federate) (.timeConstrainedEnabled t))

theorem RoleNotice.untimed {own : List OutboundCallback} (h : RoleNotice c fed own) :
    ∀ cb ∈ own, cb.body.Untimed ∧ cb.body.On .time := by
  cases h with
  | nothing => exact List.forall_mem_nil _
  | regulates | constrains =>
    exact @forall_fanOut (fun body => body.Untimed ∧ body.On .time) _ _ ⟨trivial, rfl⟩

/-- What a time service can come to. -/
inductive TimeEffect (c : Caller) (fed : Federation) (r : TimeRequest) : Outcome → Prop
  | rejects {e : ExceptionData} (hs : timeSection c fed r = .error e) :
      TimeEffect c fed r (.reject fed e)
  | changes {s : TimeSection} {resp : Resp} {own : List OutboundCallback} (hk : r.kind = .role)
      (hs : timeSection c fed r = .ok s) (hown : RoleNotice c s.federation own) :
      TimeEffect c fed r (.reply s.federation resp own)
  | passes {s : TimeSection} {resp : Resp} {own : List OutboundCallback}
      (hk : r.kind = .regulation) (hs : timeSection c fed r = .ok s)
      (hown : RoleNotice c s.federation own) :
      TimeEffect c fed r
        ⟨(s.federation.tryGrantPendingAdvances c).federation, resp,
          own ++ (s.federation.tryGrantPendingAdvances c).callbacks,
          (s.federation.tryGrantPendingAdvances c).grants, none⟩
  | advances {s : TimeSection} {t : ℚ} {resp : Resp} {time : WireField} (hk : r.kind = .advance)
      (hs : timeSection c fed r = .ok s) (ha : advanceSection c fed time = .ok (s, t)) :
      TimeEffect c fed r
        ⟨(advancePass c s t).federation, resp, (advancePass c s t).callbacks,
          (advancePass c s t).grants, none⟩

/-- **What a time service comes to.** -/
theorem serveTime_effect (r : TimeRequest) : TimeEffect c fed r (serveTime c fed r) := by
  cases r with
  | enableTimeRegulation lookahead =>
    rw [serveTime, enableTimeRegulation]
    cases hs : enableRegulationSection c fed lookahead with
    | error => exact .rejects hs
    | ok => exact .passes rfl hs (.regulates _)
  | disableTimeRegulation =>
    rw [serveTime, disableTimeRegulation]
    cases hs : disableRegulationSection c fed with
    | error => exact .rejects hs
    | ok =>
      show TimeEffect c fed _ ⟨_, _, [] ++ _, _, none⟩
      exact .passes rfl hs .nothing
  | enableTimeConstrained =>
    rw [serveTime, enableTimeConstrained]
    cases hs : enableConstrainedSection c fed with
    | error => exact .rejects hs
    | ok => exact .changes rfl hs (.constrains _)
  | disableTimeConstrained =>
    rw [serveTime, disableTimeConstrained]
    cases hs : disableConstrainedSection c fed with
    | error => exact .rejects hs
    | ok => exact .changes rfl hs .nothing
  | modifyLookahead lookahead =>
    rw [serveTime, modifyLookahead]
    cases hs : modifyLookaheadSection c fed lookahead with
    | error => exact .rejects hs
    | ok => exact .changes rfl hs .nothing
  | advance service time =>
    rw [serveTime, timeAdvanceRequest]
    cases hs : advanceSection c fed time with
    | error => exact .rejects (by rw [timeSection, hs]; rfl)
    | ok => exact .advances rfl (by rw [timeSection, hs]; rfl) hs

end Hla4
