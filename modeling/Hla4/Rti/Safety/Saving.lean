/-
# `Hla4.Rti.Safety.Saving` — the end of a save, section by section

Elsewhere a call is one step.  The calls of a save are not: `save.rs` takes and
releases a lock several times in each, and other calls run in between.  Here
every section between two releases is a step, in the order of the source:

    request   read the participants · open the operation and note its label
              in `last_save_label` · resolve the connections · return
    report    record the result and, if it is the last, take the operation
              away · read the participants · resolve the connections · read
              `last_save_label` · read `save_dir` · make the snapshot · write
              it · return

Returning pushes the callbacks.  A call that runs undisturbed does what the
handler does in one step (`solo_serves`).

**History.**  Operations are numbered as they are opened.  A call that has taken
one away carries its number and label, which no function of the server reads;
the log records openings, writes, and what was announced for which operation.

FederationSaved is announced whatever the write returned, and the label written
is that of whoever asked last.  Where writes succeed and nobody opens a save
before the label of the last one is read, the announcement is true
(`saved_on_disk`).
-/
import Hla4.Lib.Sections
import Hla4.Lib.Watch
import Hla4.Rti.Safety.Reports

namespace Hla4

open Lib

/-! ## The model -/

/-- A save operation that was taken away (history). -/
structure EndedSave where
  number : Nat
  label : String
deriving DecidableEq

inductive SaveEvent
  | opened (op : EndedSave)
  | wrote (op : EndedSave) (label : String) (ok : Bool)
  /-- a call returned: the operation it ended, and whether it pushed
  FederationSaved -/
  | returned (op : Option EndedSave) (saved : Bool)
deriving DecidableEq

/-- What the calls share: the federation, the save directory and the files. -/
structure SaveShared where
  fed : Federation
  saveDir : String
  disk : String × String → Option FederationSnapshot
  /-- history: operations opened -/
  opened : Nat
  log : List SaveEvent
  /-- history: responses and callbacks, call by call -/
  sent : List (Resp × List OutboundCallback)

/-- A call, before its next section. -/
inductive SaveCall
  | idle
  | requesting (c : Caller) (label : String)
  | opening (c : Caller) (label : String) (participants : List FederateHandle)
  | announcing (c : Caller) (label : String) (participants : List FederateHandle)
  | beginning (c : Caller)
  | aborting
  | reporting (c : Caller) (successfully : Bool)
  | decided (c : Caller) (response : Resp) (op : EndedSave) (anyFailed : Bool)
  | resolving (c : Caller) (response : Resp) (op : EndedSave) (anyFailed : Bool)
      (participants : List FederateHandle)
  | persisting (c : Caller) (response : Resp) (op : EndedSave) (conns : List Recipient)
  | placing (c : Caller) (response : Resp) (op : EndedSave) (conns : List Recipient)
      (label : String)
  | capturing (c : Caller) (response : Resp) (op : EndedSave) (conns : List Recipient)
      (label dir : String)
  | writing (response : Resp) (op : EndedSave) (conns : List Recipient) (label dir : String)
      (snap : FederationSnapshot)
  | returning (response : Resp) (callbacks : List OutboundCallback) (op : Option EndedSave)

/-- What the environment decides: the call an idle session makes next, and what
the write returns. -/
structure SaveInput where
  call : Option (Caller × SaveRestoreRequest)
  writeFails : Bool

namespace SaveCall

/-- An early error return. -/
def rejecting (e : ExceptionData) : SaveCall := .returning (.exceptionData e) [] none

/-- A dispatched call, up to its first section. -/
def start (c : Caller) : SaveRestoreRequest → SaveCall
  | .requestFederationSave _ label =>
    if label = "" then rejecting HlaException.invalidSaveLabel.bare else .requesting c label
  | .federateSaveBegun => .beginning c
  | .federateSaveComplete => .reporting c true
  | .federateSaveNotComplete => .reporting c false
  | .abortFederationSave => .aborting
  | _ => .idle

end SaveCall

/-- FederationSaved is among the callbacks. -/
def pushesSaved (callbacks : List OutboundCallback) : Bool :=
  callbacks.any fun cb => cb.body.verdict? == some (.save, true)

namespace SaveShared

variable (s : SaveShared)

def setFed (fed : Federation) : SaveShared := { s with fed }

def record (e : SaveEvent) : SaveShared := { s with log := s.log ++ [e] }

/-- The section under `current_save` of a request. -/
def openSave (c : Caller) (label : String) (participants : List FederateHandle) :
    SaveShared × SaveCall :=
  match s.fed.currentSave with
  | some _ => (s, .rejecting HlaException.saveInProgress.bare)
  | none =>
    let fed := { s.fed with
      currentSave := some ⟨label, statusesOf participants .initiated⟩
      lastSaveLabel := some label }
    ({ s with fed, opened := s.opened + 1 }.record (.opened ⟨s.opened + 1, label⟩),
      .announcing c label participants)

/-- The section under `current_save` of a report. -/
def recordReport (c : Caller) (successfully : Bool) : SaveShared × SaveCall :=
  match s.fed.currentSave with
  | none => (s, .rejecting HlaException.saveNotInProgress.bare)
  | some save =>
    let response : Resp :=
      .ack (if successfully then .federateSaveComplete else .federateSaveNotComplete)
    let result := if successfully then SaveStatus.saveComplete else .saveNotComplete
    match recordResult save.statuses c.federate result SaveStatus.isDone (· == .saveNotComplete) with
    | (statuses, none) =>
      (s.setFed { s.fed with currentSave := some { save with statuses } },
        .returning response [] none)
    | (_, some anyFailed) =>
      (s.setFed { s.fed with currentSave := none },
        .decided c response ⟨s.opened, save.label⟩ anyFailed)

/-- The write. -/
def writeFile (op : EndedSave) (label dir : String) (snap : FederationSnapshot) (fails : Bool) :
    SaveShared :=
  let disk := if fails then s.disk
    else Function.update s.disk (dir, snapshotFile s.fed.name label) (some snap)
  { s with disk }.record (.wrote op label (!fails))

/-- The callbacks are pushed and the response is sent. -/
def push (response : Resp) (callbacks : List OutboundCallback) (op : Option EndedSave) : SaveShared :=
  { s with sent := s.sent ++ [(response, callbacks)] }.record
    (.returned op (pushesSaved callbacks))

/-- The next section of a call. -/
def sect (x : SaveInput) : SaveCall → SaveShared × SaveCall
  | .idle => (s, x.call.elim .idle fun cr => .start cr.1 cr.2)
  | .requesting c label => (s, .opening c label s.fed.federates.keys)
  | .opening c label participants => s.openSave c label participants
  | .announcing c label participants =>
    (s, .returning (.ack .requestFederationSave)
      (fanOut (s.fed.liveConnections c (HashSet.ofList participants))
        (.initiateFederateSave label)) none)
  | .beginning c =>
    (s.setFed (federateSaveBegun c s.fed).federation,
      .returning (federateSaveBegun c s.fed).response [] none)
  | .aborting =>
    (s.setFed (abortFederationSave s.fed).federation,
      .returning (abortFederationSave s.fed).response [] none)
  | .reporting c successfully => s.recordReport c successfully
  | .decided c response op anyFailed =>
    (s, .resolving c response op anyFailed s.fed.federates.keys)
  | .resolving c response op anyFailed participants =>
    let conns := s.fed.liveConnections c (HashSet.ofList participants)
    (s, if anyFailed then .returning response (fanOut conns (.federationNotSaved 0)) (some op)
      else .persisting c response op conns)
  | .persisting c response op conns =>
    match s.fed.lastSaveLabel with
    -- nothing is written
    | none => (s, .returning response (fanOut conns .federationSaved) (some op))
    | some label => (s, .placing c response op conns label)
  | .placing c response op conns label => (s, .capturing c response op conns label s.saveDir)
  | .capturing c response op conns label dir =>
    (s, .writing response op conns label dir (s.fed.snapshot c.env))
  | .writing response op conns label dir snap =>
    -- what the write returns is logged and not looked at
    (s.writeFile op label dir snap x.writeFails,
      .returning response (fanOut conns .federationSaved) (some op))
  | .returning response callbacks op => (s.push response callbacks op, .idle)

end SaveShared

/-- What else happens to the shared state. -/
inductive SaveAct
  | federation (a : FedAction)
  | setSaveDir (dir : String)

/-- The action is not part of a save, and not a new federation. -/
def FedAction.outsideSave : FedAction → Bool
  | create _ _ => false
  | serve _ (.saveRestore r) => r.orchestration == .restore
  | _ => true

def SaveShared.act (s : SaveShared) : SaveAct → SaveShared
  | .federation a => if a.outsideSave then s.setFed (a.apply s.fed) else s
  | .setSaveDir dir => { s with saveDir := dir }

def saving : Sections SaveShared SaveCall SaveInput SaveAct where
  sect s p x := s.sect x p
  act := SaveShared.act

/-- A new federation, no call under way. -/
def SaveShared.new (name : String) (fom : Omt.MergedFom) (dir : String) : SaveShared where
  fed := .new name fom
  saveDir := dir
  disk := fun _ => none
  opened := 0
  log := []
  sent := []

/-! ## One call by itself -/

/-- The shared state after a call is what the handler makes of it in one step,
and the files are what the node makes of them. -/
structure SaveShared.Serves (s s' : SaveShared) (o : Outcome) (fails : Bool) : Prop where
  fed : s'.fed = o.federation
  sent : s'.sent = s.sent ++ [(o.response, o.callbacks)]
  disk : ∀ (n : Node) (env : CallEnv), n.saveDir = s.saveDir → n.disk = s.disk →
    env.writeFails = fails → s'.disk = (n.writeSnapshot s.fed.name env o.snapshot).disk

section Solo

variable {s : SaveShared} {c : Caller} {fails : Bool}

theorem solo_succ (k : Nat) (x : SaveInput) (p : SaveCall) :
    saving.solo (List.replicate (k + 1) x) s p =
      saving.solo (List.replicate k x) (s.sect x p).1 (s.sect x p).2 :=
  rfl

theorem solo_idle (k : Nat) :
    saving.solo (List.replicate k ⟨none, fails⟩) s .idle = (s, .idle) := by
  induction k with
  | zero => rfl
  | succ k ih => exact ih

theorem solo_returning (k : Nat) (response : Resp) (callbacks : List OutboundCallback)
    (op : Option EndedSave) :
    saving.solo (List.replicate (k + 1) ⟨none, fails⟩) s (.returning response callbacks op) =
      (s.push response callbacks op, .idle) :=
  solo_idle k

/-- A call that ends without a snapshot to write. -/
theorem SaveShared.Serves.returning {s' : SaveShared} {o : Outcome} {response : Resp}
    {callbacks : List OutboundCallback} {op : Option EndedSave}
    (ho : o = .reply s'.fed response callbacks) (hsent : s'.sent = s.sent)
    (hdisk : s'.disk = s.disk) : s.Serves (s'.push response callbacks op) o fails := by
  subst ho
  exact ⟨rfl, congrArg (· ++ _) hsent, fun n env _ hn _ => hdisk.trans hn.symm⟩

theorem solo_request (label : String) :
    ∃ s', saving.solo (List.replicate 8 ⟨none, fails⟩) s
        (.start c (.requestFederationSave false label)) = (s', .idle) ∧
      s.Serves s' (requestFederationSave c s.fed label) fails := by
  rw [SaveCall.start, requestFederationSave, require, require]
  by_cases hl : label = ""
  · rw [if_pos hl, if_neg fun h => h hl]
    exact ⟨_, solo_returning 7 _ _ _, .returning rfl rfl rfl⟩
  · rw [if_neg hl, if_pos hl]
    show ∃ s', saving.solo (List.replicate 6 _) (s.openSave c label s.fed.federates.keys).1
      (s.openSave c label s.fed.federates.keys).2 = _ ∧ _
    rw [SaveShared.openSave]
    cases hop : s.fed.currentSave with
    | some => exact ⟨_, solo_returning 5 _ _ _, .returning rfl rfl rfl⟩
    | none => exact ⟨_, solo_returning 4 _ _ _, .returning rfl rfl rfl⟩

/-- A call that writes a snapshot before it ends. -/
theorem SaveShared.Serves.writing {s' : SaveShared} {o : Outcome} {response : Resp}
    {callbacks : List OutboundCallback} {ended : EndedSave} {op : Option EndedSave} {label : String}
    {snap : FederationSnapshot}
    (ho : o = { Outcome.reply s'.fed response callbacks with snapshot := some (label, snap) })
    (hsent : s'.sent = s.sent) (hdisk : s'.disk = s.disk) (hdir : s'.saveDir = s.saveDir)
    (hname : s'.fed.name = s.fed.name) :
    s.Serves ((s'.writeFile ended label s'.saveDir snap fails).push response callbacks op) o
      fails := by
  subst ho
  refine ⟨rfl, congrArg (· ++ _) hsent, ?_⟩
  rintro n env hndir hndisk rfl
  show (if env.writeFails then s'.disk else Function.update s'.disk _ _) = _
  rw [Node.writeSnapshot, hdisk, hdir, hname, ← hndisk, ← hndir]
  split <;> rfl

/-- The end of a save that went well. -/
theorem solo_persisting {s' : SaveShared} {response : Resp} {op : EndedSave} {conns : List Recipient}
    {o : Outcome}
    (ho : o = { Outcome.reply s'.fed response (fanOut conns .federationSaved) with
      snapshot := s'.fed.lastSaveLabel.map (·, s'.fed.snapshot c.env) })
    (hsent : s'.sent = s.sent) (hdisk : s'.disk = s.disk) (hdir : s'.saveDir = s.saveDir)
    (hname : s'.fed.name = s.fed.name) :
    ∃ s'', saving.solo (List.replicate 5 ⟨none, fails⟩) s' (.persisting c response op conns) =
      (s'', .idle) ∧ s.Serves s'' o fails := by
  rw [solo_succ, SaveShared.sect]
  cases hlabel : s'.fed.lastSaveLabel with
  | none =>
    rw [hlabel] at ho
    exact ⟨_, solo_returning 3 _ _ _, .returning ho hsent hdisk⟩
  | some =>
    rw [hlabel] at ho
    exact ⟨_, solo_returning 0 _ _ _, .writing ho hsent hdisk hdir hname⟩

theorem solo_report (successfully : Bool) :
    ∃ s', saving.solo (List.replicate 8 ⟨none, fails⟩) s (.reporting c successfully) = (s', .idle) ∧
      s.Serves s' (federateSaveProgressed c s.fed successfully) fails := by
  rw [federateSaveProgressed]
  show ∃ s', saving.solo (List.replicate 7 _) (s.recordReport c successfully).1
    (s.recordReport c successfully).2 = _ ∧ _
  rw [SaveShared.recordReport]
  cases hop : s.fed.currentSave with
  | none => exact ⟨_, solo_returning 6 _ _ _, .returning rfl rfl rfl⟩
  | some save =>
    dsimp only [getOr, bind, Except.bind]
    rcases hrec : recordResult save.statuses c.federate
      (if successfully then SaveStatus.saveComplete else .saveNotComplete) SaveStatus.isDone
      (· == .saveNotComplete) with ⟨statuses, _ | _ | _⟩
    · exact ⟨_, solo_returning 6 _ _ _, .returning rfl rfl rfl⟩
    · exact solo_persisting rfl rfl rfl rfl rfl
    · exact ⟨_, solo_returning 4 _ _ _, .returning rfl rfl rfl⟩

theorem solo_call {r : SaveRestoreRequest} (hr : r.orchestration = .save) :
    ∃ s', saving.solo (⟨some (c, r), fails⟩ :: List.replicate 8 ⟨none, fails⟩) s .idle = (s', .idle) ∧
      s.Serves s' (serveSaveRestore c s.fed r) fails := by
  let answers : Outcome → Prop := fun o => o = .reply o.federation o.response []
  cases r with
  | requestFederationSave withTime label => exact solo_request label
  | federateSaveBegun =>
    exact ⟨_, solo_returning 6 _ _ _, .returning (Outcome.ofExcept_of (Q := answers)
      (fun _ => rfl) (.bind fun _ _ => .bind fun _ _ => .bind fun _ _ => .pure rfl)) rfl rfl⟩
  | federateSaveComplete => exact solo_report true
  | federateSaveNotComplete => exact solo_report false
  | abortFederationSave =>
    exact ⟨_, solo_returning 6 _ _ _, .returning (Outcome.ofExcept_of (Q := answers)
      (fun _ => rfl) (.bind fun _ _ => .pure rfl)) rfl rfl⟩
  | _ => cases hr

/-- **A call that runs undisturbed** does what its handler does in one step,
whatever the other sessions are about. -/
theorem solo_serves {I : Type} [DecidableEq I] {calls : I → SaveCall} {i : I} (hidle : calls i = .idle)
    {r : SaveRestoreRequest} (hr : r.orchestration = .save) :
    ∃ s', run saving.step (s, calls)
        ((⟨some (c, r), fails⟩ :: List.replicate 8 ⟨none, fails⟩ : List SaveInput).map (.go i)) =
          (s', calls) ∧
      s.Serves s' (serveSaveRestore c s.fed r) fails := by
  obtain ⟨s', hsolo, hserves⟩ := @solo_call s c fails r hr
  refine ⟨s', ?_, hserves⟩
  rw [Sections.run_solo]
  dsimp only
  rw [hidle, hsolo, ← hidle, Function.update_eq_self]

end Solo

/-! Two sessions, of federates 1 and 2. -/

def saveCaller (i : Fin 2) : Caller where
  federate := ⟨i.val.toUInt32 + 1⟩
  connections := (AList.insert 1 ⟨1, 0⟩ ∅ : HashMap UInt64 ConnectionHandle).insert 2 ⟨2, 1⟩
  env := .plain
  saved := fun _ _ => none

/-- A session makes a call. -/
def SaveRestoreRequest.calledBy (r : SaveRestoreRequest) (i : Fin 2) :
    SectionEvent (Fin 2) SaveInput SaveAct :=
  .go i ⟨some (saveCaller i, r), false⟩

/-- The next `k` sections of a session's call. -/
def goesOn (i : Fin 2) (k : Nat) (fails : Bool) : List (SectionEvent (Fin 2) SaveInput SaveAct) :=
  List.replicate k (.go i ⟨none, fails⟩)

/-- Both federates join; the first asks for a save and completes its own. -/
def halfSaved : List (SectionEvent (Fin 2) SaveInput SaveAct) :=
  [.act (.federation (.join none 1)), .act (.federation (.join none 2)),
      SaveRestoreRequest.calledBy (.requestFederationSave false "a") 0] ++ goesOn 0 8 false ++
    SaveRestoreRequest.calledBy .federateSaveComplete 0 :: goesOn 0 8 false

/-- The first has then asked for the save to be aborted, and its call waits. -/
def abortAsked : SaveShared × (Fin 2 → SaveCall) :=
  run saving.step (SaveShared.new "f" .new "d", fun _ => SaveCall.idle)
    (halfSaved ++ [SaveRestoreRequest.calledBy .abortFederationSave 0])

theorem solo_serves_writes :
    let s := abortAsked
    let o := serveSaveRestore (saveCaller 1) s.1.fed .federateSaveComplete
    s.2 0 = .aborting ∧ pushesSaved o.callbacks = true ∧
    ∃ s', run saving.step s (SaveRestoreRequest.calledBy .federateSaveComplete 1 :: goesOn 1 8 false) =
        (s', s.2) ∧
      s.1.Serves s' o false ∧ (s'.disk ("d", snapshotFile "f" "a")).isSome = true := by
  obtain ⟨s', hrun, hserves⟩ := @solo_serves abortAsked.1 (saveCaller 1) false (Fin 2) _
    abortAsked.2 1 rfl .federateSaveComplete rfl
  refine ⟨rfl, by decide +kernel, s', hrun, hserves, ?_⟩
  rw [hserves.disk { Node.new with saveDir := "d", disk := abortAsked.1.disk } .plain rfl rfl rfl]
  decide +kernel

/-! ## Announced, and on disk -/

/-- FederationSaved is pushed only for an operation that was opened and whose
label was written well before. -/
def SavedOnDisk (log : List SaveEvent) : Prop :=
  ∀ l₁ op? l₂, log = l₁ ++ .returned op? true :: l₂ →
    ∃ op, op? = some op ∧ .opened op ∈ l₁ ∧ .wrote op op.label true ∈ l₁

theorem savedOnDisk_nil : SavedOnDisk [] := fun _ _ _ h => by simp at h

theorem SavedOnDisk.append {log : List SaveEvent} (h : SavedOnDisk log) {e : SaveEvent}
    (he : ∀ op?, e = .returned op? true →
      ∃ op, op? = some op ∧ .opened op ∈ log ∧ .wrote op op.label true ∈ log) :
    SavedOnDisk (log ++ [e]) := by
  intro l₁ op? l₂ hl
  rcases append_singleton_cases hl with ⟨_, hx, rfl⟩ | ⟨l₂', _, hl'⟩
  · exact he op? hx.symm
  · exact h l₁ op? l₂' hl'

namespace SaveCall

/-- The save has gone well, and its label is still to be read. -/
def awaitsLabel : SaveCall → Bool
  | decided _ _ _ anyFailed => !anyFailed
  | resolving _ _ _ anyFailed _ => !anyFailed
  | persisting .. => true
  | _ => false

/-- What a call can rely on where it stands, given the last label asked for and
the log. -/
def Relies (last : Option String) (log : List SaveEvent) : SaveCall → Prop
  | decided _ _ op anyFailed => .opened op ∈ log ∧ (anyFailed = false → last = some op.label)
  | resolving _ _ op anyFailed _ => .opened op ∈ log ∧ (anyFailed = false → last = some op.label)
  | persisting _ _ op _ => .opened op ∈ log ∧ last = some op.label
  | placing _ _ op _ label => .opened op ∈ log ∧ label = op.label
  | capturing _ _ op _ label _ => .opened op ∈ log ∧ label = op.label
  | writing _ op _ label _ _ => .opened op ∈ log ∧ label = op.label
  | returning _ callbacks op? => pushesSaved callbacks = true →
      ∃ op, op? = some op ∧ .opened op ∈ log ∧ .wrote op op.label true ∈ log
  | _ => True

/-- More is logged, and the last label is another only where none is awaited. -/
theorem Relies.mono {p : SaveCall} {last last' : Option String} {log log' : List SaveEvent}
    (h : p.Relies last log) (hlast : p.awaitsLabel = true → last' = last) (hlog : log ⊆ log') :
    p.Relies last' log' := by
  cases p with
  | decided | resolving =>
    refine ⟨hlog h.1, ?_⟩
    rintro rfl
    exact (hlast rfl).trans (h.2 rfl)
  | persisting => exact ⟨hlog h.1, (hlast rfl).trans h.2⟩
  | placing | capturing | writing => exact ⟨hlog h.1, h.2⟩
  | returning response callbacks op? =>
    intro hs
    obtain ⟨op, rfl, hopened, hwrote⟩ := h hs
    exact ⟨op, rfl, hlog hopened, hlog hwrote⟩
  | _ => trivial

end SaveCall

/-- The operation in progress, if there is one, was opened last, under the label
noted last. -/
structure SaveShared.Sound (s : SaveShared) : Prop where
  current : ∀ save, s.fed.currentSave = some save →
    s.fed.lastSaveLabel = some save.label ∧ .opened ⟨s.opened, save.label⟩ ∈ s.log
  saved : SavedOnDisk s.log

/-- From `fed` to `fed'` no save is opened. -/
structure Federation.OpensNoSave (fed fed' : Federation) : Prop where
  current : ∀ save', fed'.currentSave = some save' →
    ∃ save, fed.currentSave = some save ∧ save.label = save'.label
  label : fed'.lastSaveLabel = fed.lastSaveLabel

theorem Federation.OpensNoSave.refl {fed : Federation} : fed.OpensNoSave fed :=
  ⟨fun save h => ⟨save, h, rfl⟩, rfl⟩

theorem Federation.OpensNoSave.of_eq {fed fed' : Federation}
    (hs : fed'.currentSave = fed.currentSave) (hl : fed'.lastSaveLabel = fed.lastSaveLabel) :
    fed.OpensNoSave fed' :=
  ⟨fun save h => ⟨save, hs ▸ h, rfl⟩, hl⟩

theorem Federation.OpensNoSave.of_none {fed fed' : Federation} (hs : fed'.currentSave = none)
    (hl : fed'.lastSaveLabel = fed.lastSaveLabel) : fed.OpensNoSave fed' :=
  ⟨fun save h => (by rw [hs] at h; cases h), hl⟩

theorem SaveShared.Sound.setFed {s : SaveShared} {fed : Federation} (h : s.Sound)
    (hf : s.fed.OpensNoSave fed) : (s.setFed fed).Sound where
  current save hsave := by
    obtain ⟨save₀, h₀, hlabel⟩ := hf.current save hsave
    rw [← hlabel]
    exact ⟨hf.label.trans (h.current save₀ h₀).1, (h.current save₀ h₀).2⟩
  saved := h.saved

theorem federateSaveBegun_opensNoSave {c : Caller} {fed : Federation} :
    fed.OpensNoSave (federateSaveBegun c fed).federation := by
  refine Outcome.ofExcept_of (Q := fun o => fed.OpensNoSave o.federation) (fun _ => .refl)
    (.bind fun save hsave => .bind fun _ _ => .bind fun _ _ => .pure ⟨?_, rfl⟩)
  rintro save' ⟨⟩
  exact ⟨save, getOr_eq_ok.mp hsave, rfl⟩

theorem abortFederationSave_opensNoSave {fed : Federation} :
    fed.OpensNoSave (abortFederationSave fed).federation :=
  Outcome.ofExcept_of (Q := fun o => fed.OpensNoSave o.federation) (fun _ => .refl)
    (.bind fun _ _ => .pure (.of_none rfl rfl))

theorem serveRestore_opensNoSave {c : Caller} {fed : Federation} {r : SaveRestoreRequest}
    (hr : r.orchestration = .restore) : fed.OpensNoSave (serveSaveRestore c fed r).federation := by
  have hrej : ∀ e, fed.OpensNoSave (Outcome.reject fed e).federation := fun _ => .refl
  have hprogress : ∀ successfully,
      fed.OpensNoSave (federateRestoreProgressed c fed successfully).federation := by
    intro successfully
    refine Outcome.ofExcept_of (Q := fun o => fed.OpensNoSave o.federation) hrej
      (.bind fun _ _ => ?_)
    dsimp only
    split
    · exact .pure (.of_eq rfl rfl)
    · exact .pure (.of_eq rfl rfl)
  cases r with
  | requestFederationRestore =>
    exact requestFederationRestore_keeps (P := fed.OpensNoSave) .refl (.of_eq rfl rfl)
      fun _ _ => .of_eq currentSave_applySnapshot lastSaveLabel_applySnapshot
  | federateRestoreComplete => exact hprogress true
  | federateRestoreNotComplete => exact hprogress false
  | abortFederationRestore =>
    exact Outcome.ofExcept_of (Q := fun o => fed.OpensNoSave o.federation) hrej
      (.bind fun _ _ => .pure (.of_eq rfl rfl))
  | _ => cases hr

theorem FedAction.opensNoSave (fed : Federation) {a : FedAction} (ha : a.outsideSave = true) :
    fed.OpensNoSave (a.apply fed) := by
  by_cases hsr : ∃ c r, a = .serve c (.saveRestore r)
  · obtain ⟨c, r, rfl⟩ := hsr
    exact serveRestore_opensNoSave (beq_iff_eq.mp ha)
  · have hc : ∀ name fom, a ≠ .create name fom := by
      rintro name fom rfl
      cases ha
    have hsame := FedAction.records_of_quiet fed hc fun c r he => hsr ⟨c, r, he⟩
    exact .of_eq (congrArg (fun v => v.1) hsame) (congrArg (fun v => v.2.2) hsame)

/-! ## The sections -/

namespace SaveCall

/-- The next section opens a save. -/
def opens : SaveCall → Bool
  | opening .. => true
  | _ => false

/-- The next section writes. -/
def writes : SaveCall → Bool
  | writing .. => true
  | _ => false

end SaveCall

section Sections

variable {s : SaveShared} {x : SaveInput} {p : SaveCall}

theorem log_sect : s.log ⊆ (s.sect x p).1.log := by
  cases p with
  | opening =>
    rw [SaveShared.sect, SaveShared.openSave]
    split
    · exact List.Subset.refl _
    · exact List.subset_append_left _ _
  | reporting =>
    rw [SaveShared.sect, SaveShared.recordReport]
    split
    · exact List.Subset.refl _
    · dsimp only
      split <;> exact List.Subset.refl _
  | persisting =>
    rw [SaveShared.sect]
    split <;> exact List.Subset.refl _
  | writing | returning => exact List.subset_append_left _ _
  | _ => exact List.Subset.refl _

theorem lastSaveLabel_sect (hp : p.opens = false) :
    (s.sect x p).1.fed.lastSaveLabel = s.fed.lastSaveLabel := by
  cases p with
  | opening => cases hp
  | beginning => exact federateSaveBegun_opensNoSave.label
  | aborting => exact abortFederationSave_opensNoSave.label
  | reporting =>
    rw [SaveShared.sect, SaveShared.recordReport]
    split
    · rfl
    · dsimp only
      split <;> rfl
  | persisting =>
    rw [SaveShared.sect]
    split <;> rfl
  | _ => rfl

theorem pushesSaved_fanOut {conns : List Recipient} {body : CallbackRequest}
    {v : Option (Orchestration × Bool)} (hv : body.verdict? = v) (h : v ≠ some (.save, true)) :
    pushesSaved (fanOut conns body) ≠ true := by
  rw [pushesSaved, ne_eq, List.any_eq_true]
  rintro ⟨cb, hcb, hbody⟩
  obtain ⟨_, _, rfl⟩ := mem_fanOut.mp hcb
  exact h (hv.symm.trans (beq_iff_eq.mp hbody))

theorem relies_start {last : Option String} {log : List SaveEvent} (c : Caller)
    (r : SaveRestoreRequest) : (SaveCall.start c r).Relies last log := by
  cases r with
  | requestFederationSave =>
    rw [SaveCall.start]
    split
    · exact nofun
    · trivial
  | _ => trivial

theorem SaveShared.Sound.record {e : SaveEvent} (h : s.Sound)
    (he : ∀ op?, e = .returned op? true →
      ∃ op, op? = some op ∧ .opened op ∈ s.log ∧ .wrote op op.label true ∈ s.log) :
    (s.record e).Sound where
  current save hsave :=
    ⟨(h.current save hsave).1, List.mem_append_left _ (h.current save hsave).2⟩
  saved := h.saved.append he

/-- A section keeps the shared state sound and leads its call to where it may
rely on what it then has in hand. -/
theorem sound_sect (hw : p.writes = true → x.writeFails = false) (h : s.Sound)
    (hp : p.Relies s.fed.lastSaveLabel s.log) :
    (s.sect x p).1.Sound ∧
      (s.sect x p).2.Relies (s.sect x p).1.fed.lastSaveLabel (s.sect x p).1.log := by
  cases p with
  | idle =>
    refine ⟨h, ?_⟩
    rw [SaveShared.sect]
    cases x.call with
    | none => trivial
    | some cr => exact relies_start cr.1 cr.2
  | requesting => exact ⟨h, trivial⟩
  | opening =>
    rw [SaveShared.sect, SaveShared.openSave]
    cases s.fed.currentSave with
    | some => exact ⟨h, nofun⟩
    | none =>
      refine ⟨⟨?_, h.saved.append nofun⟩, trivial⟩
      rintro save ⟨⟩
      exact ⟨rfl, List.mem_append_right _ (List.mem_singleton_self _)⟩
  | announcing =>
    exact ⟨h, fun hs => absurd hs (pushesSaved_fanOut rfl nofun)⟩
  | beginning => exact ⟨h.setFed federateSaveBegun_opensNoSave, nofun⟩
  | aborting => exact ⟨h.setFed abortFederationSave_opensNoSave, nofun⟩
  | reporting =>
    rw [SaveShared.sect, SaveShared.recordReport]
    cases hsave : s.fed.currentSave with
    | none => exact ⟨h, nofun⟩
    | some save =>
      dsimp only
      split
      · refine ⟨h.setFed ⟨?_, rfl⟩, nofun⟩
        rintro save' ⟨⟩
        exact ⟨save, hsave, rfl⟩
      · have hcur := h.current save hsave
        exact ⟨h.setFed (.of_none rfl rfl), hcur.2, fun _ => hcur.1⟩
  | decided => exact ⟨h, hp⟩
  | resolving c response op anyFailed =>
    refine ⟨h, ?_⟩
    cases anyFailed with
    | true => exact fun hs => absurd hs (pushesSaved_fanOut rfl (by decide))
    | false => exact ⟨hp.1, hp.2 rfl⟩
  | persisting =>
    rw [SaveShared.sect, hp.2]
    exact ⟨h, hp.1, rfl⟩
  | placing => exact ⟨h, hp⟩
  | capturing => exact ⟨h, hp⟩
  | writing response op =>
    obtain ⟨hopened, rfl⟩ := hp
    refine ⟨.record ⟨h.current, h.saved⟩ nofun, fun _ => ⟨op, rfl, List.mem_append_left _ hopened, ?_⟩⟩
    refine List.mem_append_right _ (List.mem_singleton.mpr ?_)
    rw [hw rfl]
    rfl
  | returning response callbacks op? =>
    refine ⟨.record ⟨h.current, h.saved⟩ ?_, trivial⟩
    intro op?' he
    obtain ⟨rfl, hs⟩ := SaveEvent.returned.inj he
    exact hp hs

end Sections

/-! ## Whole runs -/

section Runs

variable {I : Type} [DecidableEq I]

/-- Writes succeed, and no save is opened while a call awaits its label. -/
def Undisturbed (s : SaveShared × (I → SaveCall)) : SectionEvent I SaveInput SaveAct → Prop
  | .go i x => ((s.2 i).writes = true → x.writeFails = false) ∧
      ((s.2 i).opens = true → ∀ j, (s.2 j).awaitsLabel = false)
  | .act _ => True

instance [Fintype I] (s : SaveShared × (I → SaveCall)) :
    (e : SectionEvent I SaveInput SaveAct) → Decidable (Undisturbed s e)
  | .go i x => inferInstanceAs (Decidable (((s.2 i).writes = true → x.writeFails = false) ∧
      ((s.2 i).opens = true → ∀ j, (s.2 j).awaitsLabel = false)))
  | .act _ => .isTrue trivial

omit [DecidableEq I] in
theorem relies_other {s : SaveShared × (I → SaveCall)} {i j : I} {x : SaveInput}
    (hok : Undisturbed s (.go i x)) (hj : (s.2 j).Relies s.1.fed.lastSaveLabel s.1.log) :
    (s.2 j).Relies (s.1.sect x (s.2 i)).1.fed.lastSaveLabel (s.1.sect x (s.2 i)).1.log := by
  refine hj.mono (fun hawaits => ?_) log_sect
  refine lastSaveLabel_sect ?_
  rw [← Bool.not_eq_true]
  intro hopens
  rw [hok.2 hopens j] at hawaits
  cases hawaits

theorem sound_act {s : SaveShared} (a : SaveAct) (h : s.Sound) :
    (s.act a).Sound ∧ ∀ p : SaveCall, p.Relies s.fed.lastSaveLabel s.log →
      p.Relies (s.act a).fed.lastSaveLabel (s.act a).log := by
  cases a with
  | federation =>
    rw [SaveShared.act]
    split
    · next ha =>
        have hf := FedAction.opensNoSave s.fed ha
        exact ⟨h.setFed hf, fun p hp => hp.mono (fun _ => hf.label) (List.Subset.refl _)⟩
    · exact ⟨h, fun _ hp => hp⟩
  | setSaveDir => exact ⟨⟨h.current, h.saved⟩, fun _ hp => hp⟩

/-- **Saved means on disk.**  In every interleaving of the sections of save
calls, and whatever else happens to the federation, in which writes succeed and
no save is opened between the section that ends one and the section that reads
its label: FederationSaved is pushed only for an operation that was requested
under a label of which a snapshot was then written well. -/
theorem saved_on_disk (name : String) (fom : Omt.MergedFom) (dir : String)
    {es : List (SectionEvent I SaveInput SaveAct)}
    (hok : StepsMeet saving.step Undisturbed (.new name fom dir, fun _ => .idle) es) :
    Always saving.step (fun s => SavedOnDisk s.1.log)
      (SaveShared.new name fom dir, fun _ : I => SaveCall.idle) es := by
  have hinv := Sections.always (m := saving) (J := SaveShared.Sound)
    (K := fun s p => p.Relies s.fed.lastSaveLabel s.log)
    (fun s i x hgo hJ hK => sound_sect hgo.1 hJ hK)
    (fun s i x j hgo _ hK => relies_other hgo hK)
    (fun s a hJ => sound_act a hJ) hok
    ⟨fun save hsave => (by cases hsave), savedOnDisk_nil⟩ (fun _ => trivial)
  exact fun done hd => (hinv done hd).1.saved

end Runs

/-- The second is about to report. -/
def saveAwaited : List (SectionEvent (Fin 2) SaveInput SaveAct) :=
  halfSaved ++ [SaveRestoreRequest.calledBy .federateSaveComplete 1]

/-- The log of a run on a new federation. -/
def saveLog (es : List (SectionEvent (Fin 2) SaveInput SaveAct)) : List SaveEvent :=
  (run saving.step (SaveShared.new "f" .new "d", fun _ => SaveCall.idle) es).1.log

theorem saved_on_disk_pair :
    saveLog (saveAwaited ++ goesOn 1 8 false) =
      [.opened ⟨1, "a"⟩, .returned none false, .returned none false, .wrote ⟨1, "a"⟩ "a" true,
        .returned (some ⟨1, "a"⟩) true] ∧
    Always saving.step (fun s => SavedOnDisk s.1.log)
      (SaveShared.new "f" .new "d", fun _ : Fin 2 => SaveCall.idle) (saveAwaited ++ goesOn 1 8 false) :=
  ⟨by decide +kernel, saved_on_disk "f" .new "d" (by decide +kernel)⟩

/-- The write fails; or, with the label still to be read, another save is asked
for under another label. -/
def unsavedRuns : List (List (SectionEvent (Fin 2) SaveInput SaveAct)) :=
  [saveAwaited ++ goesOn 1 8 true,
    saveAwaited ++ goesOn 1 3 false ++
      SaveRestoreRequest.calledBy (.requestFederationSave false "b") 0 :: goesOn 0 8 false ++
      goesOn 1 5 false]

/-- **Saved and not on disk.**  In each of these runs FederationSaved is pushed
for the save under `"a"`, and no write under `"a"` returned well. -/
theorem saved_not_on_disk : unsavedRuns.Forall fun es => ¬ SavedOnDisk (saveLog es) := by
  have hlogs : unsavedRuns.map saveLog =
      [[.opened ⟨1, "a"⟩, .returned none false, .returned none false, .wrote ⟨1, "a"⟩ "a" false,
          .returned (some ⟨1, "a"⟩) true],
        [.opened ⟨1, "a"⟩, .returned none false, .returned none false, .opened ⟨2, "b"⟩,
          .returned none false, .wrote ⟨1, "a"⟩ "b" true, .returned (some ⟨1, "a"⟩) true]] := by
    decide +kernel
  rw [List.forall_iff_forall_mem]
  intro es hes hsaved
  have hmem := List.mem_map_of_mem (f := saveLog) hes
  rw [hlogs] at hmem
  -- the announcement is the last entry of either log
  have hlast : ∀ log, saveLog es = log → log.getLast? = some (.returned (some ⟨1, "a"⟩) true) →
      .wrote ⟨1, "a"⟩ "a" true ∈ log.dropLast := by
    rintro log rfl hl
    obtain ⟨op, hop, _, hwrote⟩ := hsaved _ _ [] (List.dropLast_append_getLast? _ hl).symm
    cases hop
    exact hwrote
  rcases List.mem_cons.mp hmem with he | hmem
  · exact absurd (hlast _ he rfl) (by decide)
  · exact absurd (hlast _ (List.mem_singleton.mp hmem) rfl) (by decide)

end Hla4
