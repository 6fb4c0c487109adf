/-
# `Hla4.Rti.Dispatch.SaveRestore` — save, restore and synchronization points

Handlers of `save.rs`, `restore.rs` and `sync_points.rs`, and the snapshots of
`persistence.rs`.

A snapshot holds the object instances and the synchronization points, with
federates by name; time states, queues, subscriptions and regions are not in
it.  Applying one REPLACES instances and synchronization points.  Reading and
writing the file belong to the node: a save yields the snapshot to write
(`Outcome.snapshot`), and a restore reads `Caller.saved`.
-/
import Hla4.Rti.Dispatch.Declaration

namespace Hla4

open Lib

variable (c : Caller) (fed : Federation)

/-! ## Snapshots -/

namespace Federation

def handleToName (o : IterOrder FederateHandle) : HashMap FederateHandle String :=
  (fed.sessions o).foldl (fun m e => AList.insert e.2.handle e.2.name m) ∅

def nameToHandle (o : IterOrder FederateHandle) : HashMap String FederateHandle :=
  (fed.sessions o).foldl (fun m e => AList.insert e.2.name e.2.handle m) ∅

/-- The instance as saved: owners that are not joined any more are left out. -/
def saveInstance (names : HashMap FederateHandle String) (inst : ObjectInstance) : SerInstance where
  handle := inst.handle.raw
  cls := inst.cls.raw
  name := inst.name
  registrarName := (names.lookup inst.registrar).getD "<unknown>"
  attributeOwners := inst.attributeOwners.entries.filterMap fun e =>
    (names.lookup e.2).map (e.1.raw, ·)

def snapshot (env : Env) : FederationSnapshot :=
  let names := fed.handleToName env.federates
  { federationName := fed.name
    instances := (env.instances.order fed.objectInstances.keys).filterMap fun h =>
      (fed.objectInstances.lookup h).map (saveInstance names)
    syncPoints := fed.syncPoints.values.map fun sp =>
      ⟨sp.label, sp.tag, sp.participants.keys.filterMap names.lookup⟩ }

/-- The owners of a restored instance; unknown names are dropped. -/
def restoreOwners (names : HashMap String FederateHandle) (owners : List (UInt32 × String)) :
    HashMap AttributeHandle FederateHandle :=
  owners.foldl (fun m e =>
    match names.lookup e.2 with
    | none => m
    | some h => AList.insert ⟨e.1⟩ h m) ∅

/-- Restore one instance, unless its registrar is not joined; the counter moves
past its handle. -/
def restoreInstance (names : HashMap String FederateHandle) (ser : SerInstance) : Federation :=
  match names.lookup ser.registrarName with
  | none => fed
  | some registrar =>
    { fed with
      objectInstances := fed.objectInstances.insert ⟨ser.handle⟩
        ⟨⟨ser.handle⟩, ⟨ser.cls⟩, ser.name, registrar, restoreOwners names ser.attributeOwners, ∅⟩
      nextObjectId :=
        if fed.nextObjectId ≤ ser.handle then ser.handle + 1 else fed.nextObjectId }

def restoreSyncPoint (names : HashMap String FederateHandle) (points : HashMap String SyncPoint)
    (ser : SerSyncPoint) : HashMap String SyncPoint :=
  points.insert ser.label
    ⟨ser.label, ser.tag, HashSet.ofList (ser.participants.filterMap names.lookup), ∅, ∅⟩

def applySnapshot (o : IterOrder FederateHandle) (snap : FederationSnapshot) : Federation :=
  let names := fed.nameToHandle o
  let cleared := { fed with objectInstances := ∅ }
  let restored := snap.instances.foldl (fun fed ser => fed.restoreInstance names ser) cleared
  { restored with syncPoints := snap.syncPoints.foldl (restoreSyncPoint names) ∅ }

end Federation

/-! ## Progress of a save or a restore -/

/-- Record a federate's result; once everybody's is in, whether any failed. -/
def recordResult {S : Type} (statuses : HashMap FederateHandle S) (h : FederateHandle) (s : S)
    (isDone isFailed : S → Bool) : HashMap FederateHandle S × Option Bool :=
  let statuses : HashMap FederateHandle S := statuses.insert h s
  (statuses, if statuses.values.all isDone then some (statuses.values.any isFailed) else none)

/-- A map that gives every key of a list the same value. -/
def statusesOf {S : Type} (handles : List FederateHandle) (s : S) : HashMap FederateHandle S :=
  handles.foldl (fun m h => AList.insert h s m) ∅

/-- Push one body to every joined federate. -/
def broadcast (body : CallbackRequest) : List OutboundCallback :=
  fanOut (fed.liveConnections c (HashSet.ofList fed.federates.keys)) body

/-! ## Save -/

def requestFederationSave (label : String) : Outcome :=
  .ofExcept fed do
    require (label ≠ "") HlaException.invalidSaveLabel.bare
    require (fed.currentSave.isNone = true) HlaException.saveInProgress.bare
    let fed' := { fed with
      currentSave := some ⟨label, statusesOf fed.federates.keys .initiated⟩
      lastSaveLabel := some label }
    pure (.reply fed' (.ack .requestFederationSave) (broadcast c fed' (.initiateFederateSave label)))

def federateSaveBegun : Outcome :=
  .ofExcept fed do
    let save ← getOr fed.currentSave HlaException.saveNotInProgress.bare
    let status ← getOr (save.statuses.lookup c.federate) HlaException.federateNotInSaveSet.bare
    require (status = .initiated) HlaException.federateNotInSaveInitiated.bare
    let fed' := { fed with
      currentSave := some { save with statuses := save.statuses.insert c.federate .begunSave } }
    pure (.reply fed' (.ack .federateSaveBegun) [])

def SaveStatus.isDone : SaveStatus → Bool
  | saveComplete => true
  | saveNotComplete => true
  | _ => false

/-- A federate's save ended.  It need not be in the save set or have begun. -/
def federateSaveProgressed (successfully : Bool) : Outcome :=
  .ofExcept fed do
    let save ← getOr fed.currentSave HlaException.saveNotInProgress.bare
    let response : Resp := .ack (if successfully then .federateSaveComplete else .federateSaveNotComplete)
    let result := if successfully then SaveStatus.saveComplete else .saveNotComplete
    match recordResult save.statuses c.federate result SaveStatus.isDone (· == .saveNotComplete) with
    | (statuses, none) =>
      pure (.reply { fed with currentSave := some { save with statuses } } response [])
    | (_, some true) =>
      let fed' := { fed with currentSave := none }
      pure (.reply fed' response (broadcast c fed' (.federationNotSaved 0)))
    | (_, some false) =>
      let fed' := { fed with currentSave := none }
      -- the label is the one last asked for
      pure { Outcome.reply fed' response (broadcast c fed' .federationSaved) with
        snapshot := fed'.lastSaveLabel.map (·, fed'.snapshot c.env) }

def abortFederationSave : Outcome :=
  .ofExcept fed do
    require (fed.currentSave.isSome = true) HlaException.saveNotInProgress.bare
    pure (.reply { fed with currentSave := none } (.ack .abortFederationSave) [])

/-! ## Restore -/

/-- Everybody is told that the restore begins, and by which name and handle to
restore itself. -/
def announceRestore (label : String) (participants : List (FederateHandle × String)) :
    List OutboundCallback :=
  fanOut (fed.ownConnection c c.federate) (.requestFederationRestoreSucceeded label) ++
    fanOut (fed.liveConnections c (HashSet.ofList (participants.map Prod.fst)))
      .federationRestoreBegun ++
    participants.flatMap fun p =>
      fanOut (fed.ownConnection c p.1) (.initiateFederateRestore label p.2 p.1)

/-- The file is read before anything else is looked at; without one, the
restore goes on with the state as it is. -/
def requestFederationRestore (label : String) : Outcome :=
  .ofExcept fed do
    require (label ≠ "") HlaException.invalidRestoreLabel.bare
    if c.env.readFails then
      pure (.reply fed (.ack .requestFederationRestore)
        (fanOut (fed.ownConnection c c.federate) (.requestFederationRestoreFailed label)))
    else
      require (fed.currentRestore.isNone = true) HlaException.restoreInProgress.bare
      let participants := (fed.sessions c.env.federates).map fun e => (e.2.handle, e.2.name)
      let begun := { fed with
        currentRestore := some ⟨label, statusesOf (participants.map Prod.fst) .initiated⟩ }
      let fed' := match c.saved fed.name label with
        | none => begun
        | some snap => begun.applySnapshot c.env.federates snap
      pure (.reply fed' (.ack .requestFederationRestore) (announceRestore c fed' label participants))

def RestoreStatus.isDone : RestoreStatus → Bool
  | complete => true
  | notComplete => true
  | initiated => false

def federateRestoreProgressed (successfully : Bool) : Outcome :=
  .ofExcept fed do
    let restore ← getOr fed.currentRestore HlaException.restoreNotInProgress.bare
    let response : Resp :=
      .ack (if successfully then .federateRestoreComplete else .federateRestoreNotComplete)
    let result := if successfully then RestoreStatus.complete else .notComplete
    match recordResult restore.statuses c.federate result RestoreStatus.isDone (· == .notComplete) with
    | (statuses, none) =>
      pure (.reply { fed with currentRestore := some { restore with statuses } } response [])
    | (_, some anyFailed) =>
      let fed' := { fed with currentRestore := none }
      pure (.reply fed' response
        (broadcast c fed' (if anyFailed then .federationNotRestored 0 else .federationRestored)))

def abortFederationRestore : Outcome :=
  .ofExcept fed do
    require (fed.currentRestore.isSome = true) HlaException.restoreNotInProgress.bare
    pure (.reply { fed with currentRestore := none } (.ack .abortFederationRestore) [])

def serveSaveRestore : SaveRestoreRequest → Outcome
  | .requestFederationSave _ label => requestFederationSave c fed label
  | .federateSaveBegun => federateSaveBegun c fed
  | .federateSaveComplete => federateSaveProgressed c fed true
  | .federateSaveNotComplete => federateSaveProgressed c fed false
  | .abortFederationSave => abortFederationSave fed
  | .requestFederationRestore label => requestFederationRestore c fed label
  | .federateRestoreComplete => federateRestoreProgressed c fed true
  | .federateRestoreNotComplete => federateRestoreProgressed c fed false
  | .abortFederationRestore => abortFederationRestore fed

/-! ## Synchronization points -/

/-- The participants: those named, or everybody when nobody is. -/
def syncParticipants (subset : Option (HashSet FederateHandle)) : HashSet FederateHandle :=
  match subset with
  | some s => if s.keys.isEmpty then HashSet.ofList fed.federates.keys else s
  | none => HashSet.ofList fed.federates.keys

def registerSynchronizationPoint (label : String) (tag : Bytes)
    (subset : Option (HashSet FederateHandle)) : Outcome :=
  .ofExcept fed do
    require (label ≠ "")
      (HlaException.invalidSynchronizationPointLabel.because "label must not be empty")
    let participants := syncParticipants fed subset
    if label ∈ fed.syncPoints then
      -- 0 is LABEL_NOT_UNIQUE
      pure (.reply fed (.ack .registerFederationSynchronizationPoint)
        (fanOut (fed.ownConnection c c.federate) (.synchronizationPointRegistrationFailed label 0)))
    else
      let fed' := { fed with
        syncPoints := fed.syncPoints.insert label ⟨label, tag, participants, ∅, ∅⟩ }
      pure (.reply fed' (.ack .registerFederationSynchronizationPoint)
        (fanOut (fed'.ownConnection c c.federate) (.synchronizationPointRegistrationSucceeded label) ++
          fanOut (fed'.liveConnections c participants) (.announceSynchronizationPoint label tag)))

/-- A federate's arrival at a synchronization point. -/
def SyncPoint.achieve (sp : SyncPoint) (h : FederateHandle) (successfully : Bool) : SyncPoint :=
  { sp with
    achieved := sp.achieved.insert h
    failedToSync := if successfully then sp.failedToSync else sp.failedToSync.insert h }

def synchronizationPointAchieved (label : String) (successfully : Bool) : Outcome :=
  .ofExcept fed do
    let sp ← getOr (fed.syncPoints.lookup label)
      (HlaException.synchronizationPointLabelNotAnnounced.because label)
    require (c.federate ∈ sp.participants) (HlaException.federateNotInSynchronizationGroup.because
      ("federate " ++ toString c.federate.raw ++ " not in sync set for " ++ label))
    let sp := sp.achieve c.federate successfully
    if sp.achieved.keys.length = sp.participants.keys.length then
      let fed' := { fed with syncPoints := fed.syncPoints.erase label }
      pure (.reply fed' (.ack .synchronizationPointAchieved)
        (fanOut (fed'.liveConnections c sp.participants)
          (.federationSynchronized label sp.failedToSync.keys)))
    else
      pure (.reply { fed with syncPoints := fed.syncPoints.insert label sp }
        (.ack .synchronizationPointAchieved) [])

def serveSyncPoint : SyncPointRequest → Outcome
  | .registerFederationSynchronizationPoint label tag =>
    registerSynchronizationPoint c fed label tag none
  | .registerFederationSynchronizationPointWithSet label tag set =>
    registerSynchronizationPoint c fed label tag
      (some (HashSet.ofList ((set.getD []).filterMap decodeFederate)))
  | .synchronizationPointAchieved label successfully =>
    synchronizationPointAchieved c fed label successfully

/-! ## What the handlers can change -/

variable {c fed} {label : String}

theorem touches_restoreInstance {names : HashMap String FederateHandle} {ser : SerInstance} :
    Federation.Touches [.instances, .counters] fed (fed.restoreInstance names ser) := by
  rw [Federation.restoreInstance]
  split
  · exact .refl
  · intro p hp
    cases p <;> first | rfl | exact absurd (by decide) hp

theorem touches_applySnapshot {o : IterOrder FederateHandle} {snap : FederationSnapshot} :
    Federation.Touches [.instances, .counters, .syncPoints] fed (fed.applySnapshot o snap) := by
  have hcleared : Federation.Touches [.instances, .counters, .syncPoints] fed
      { fed with objectInstances := ∅ } := Federation.touches_instances.mono (by decide)
  refine (hcleared.trans ?_).trans (.mono ?_ Federation.touches_syncPoints)
  · exact .foldl (fun _ _ => touches_restoreInstance.mono (by decide)) _
  · decide

theorem forall_broadcast {kind : CallbackRequest → Prop} {body : CallbackRequest} (h : kind body) :
    ∀ cb ∈ broadcast c fed body, kind cb.body :=
  forall_fanOut h

theorem forall_announceRestore {participants : List (FederateHandle × String)} :
    ∀ cb ∈ announceRestore c fed label participants, cb.body.On .saveRestore := by
  refine forall_append (forall_append (forall_fanOut rfl) (forall_fanOut rfl)) ?_
  intro cb hcb
  obtain ⟨p, _, hcb⟩ := List.mem_flatMap.mp hcb
  obtain ⟨_, _, rfl⟩ := mem_fanOut.mp hcb
  rfl

/-- The parts a save or restore service may change. -/
def saveRestoreParts : List Part := [.saveRestore, .instances, .counters, .syncPoints]

theorem touches_currentSave {s : Option SaveOperation} {l : Option String} :
    Federation.Touches [.saveRestore] fed { fed with currentSave := s, lastSaveLabel := l } :=
  Federation.touches_saveRestore

theorem touches_currentRestore {r : Option RestoreOperation} :
    Federation.Touches [.saveRestore] fed { fed with currentRestore := r } :=
  Federation.touches_saveRestore

theorem federateSaveProgressed_confined {successfully : Bool} :
    (federateSaveProgressed c fed successfully).Confined [.saveRestore]
      (CallbackRequest.On .saveRestore) fed := by
  refine .ofExcept (.bind fun save _ => ?_)
  dsimp only
  split
  · exact .pure (.silent touches_currentSave)
  · exact .pure (.reply touches_currentSave (forall_broadcast rfl))
  · refine .pure ⟨touches_currentSave, rfl, ?_⟩
    exact forall_broadcast (show CallbackRequest.On .saveRestore .federationSaved from rfl)

/-- The federation with a restore begun, and otherwise as it is. -/
def Federation.restoreBegun (c : Caller) (fed : Federation) (label : String) : Federation :=
  { fed with
    currentRestore := some ⟨label, statusesOf
      (((fed.sessions c.env.federates).map fun e => (e.2.handle, e.2.name)).map Prod.fst) .initiated⟩ }

/-- The federation a restore goes on with. -/
inductive Federation.RestoresTo (c : Caller) (fed : Federation) (label : String) : Federation → Prop
  | unsaved : c.saved fed.name label = none → RestoresTo c fed label (fed.restoreBegun c label)
  | saved (snap : FederationSnapshot) : c.saved fed.name label = some snap →
      RestoresTo c fed label ((fed.restoreBegun c label).applySnapshot c.env.federates snap)

theorem requestFederationRestore_cases {Q : Outcome → Prop}
    (unlabelled : label = "" → ∀ e, Q (.reject fed e))
    (unread : label ≠ "" → c.env.readFails = true →
      Q (.reply fed (.ack .requestFederationRestore)
        (fanOut (fed.ownConnection c c.federate) (.requestFederationRestoreFailed label))))
    (busy : label ≠ "" → c.env.readFails ≠ true → ∀ op, fed.currentRestore = some op →
      ∀ e, Q (.reject fed e))
    (begins : label ≠ "" → c.env.readFails ≠ true → fed.currentRestore = none →
      ∀ fed' participants, fed.RestoresTo c label fed' →
        Q (.reply fed' (.ack .requestFederationRestore)
          (announceRestore c fed' label participants))) :
    Q (requestFederationRestore c fed label) := by
  rw [requestFederationRestore, require, require]
  by_cases hl : label = ""
  · rw [if_neg fun h => h hl]
    exact unlabelled hl _
  · rw [if_pos hl]
    by_cases hread : c.env.readFails = true
    · rw [if_pos hread]
      exact unread hl hread
    · rw [if_neg hread]
      cases hop : fed.currentRestore with
      | some op => exact busy hl hread op hop _
      | none =>
        refine begins hl hread hop _ _ ?_
        split
        · next hsaved => exact .unsaved hsaved
        · next snap hsaved => exact .saved snap hsaved

/-- What a restore keeps: it begins, and may load a snapshot. -/
theorem requestFederationRestore_keeps {P : Federation → Prop} (h : P fed)
    (begun : P (fed.restoreBegun c label)) (loads : ∀ snap, c.saved fed.name label = some snap →
      P ((fed.restoreBegun c label).applySnapshot c.env.federates snap)) :
    P (requestFederationRestore c fed label).federation := by
  refine requestFederationRestore_cases (Q := fun o => P o.federation) (fun _ _ => h) (fun _ _ => h)
    (fun _ _ _ _ _ => h) fun _ _ _ fed' _ hto => ?_
  cases hto with
  | unsaved => exact begun
  | saved snap hs => exact loads snap hs

theorem requestFederationRestore_confined :
    (requestFederationRestore c fed label).Confined saveRestoreParts (CallbackRequest.On .saveRestore) fed := by
  have hbegun : Federation.Touches saveRestoreParts fed (fed.restoreBegun c label) :=
    touches_currentRestore.mono (by decide)
  refine requestFederationRestore_cases (fun _ _ => .reject .refl)
    (fun _ _ => .reply .refl (forall_fanOut rfl)) (fun _ _ _ _ _ => .reject .refl)
    fun _ _ _ fed' _ hto => .reply ?_ forall_announceRestore
  cases hto with
  | unsaved => exact hbegun
  | saved => exact hbegun.trans (touches_applySnapshot.mono (by decide))

theorem federateRestoreProgressed_confined {successfully : Bool} :
    (federateRestoreProgressed c fed successfully).Confined [.saveRestore]
      (CallbackRequest.On .saveRestore) fed := by
  refine .ofExcept (.bind fun restore _ => ?_)
  dsimp only
  split
  · exact .pure (.silent touches_currentRestore)
  · next anyFailed _ =>
      refine .pure (.reply touches_currentRestore (forall_broadcast ?_))
      cases anyFailed with
      | false => rfl
      | true => rfl

/-- Whether the request is for a restore, and so may replace the instances and
the synchronization points. -/
def SaveRestoreRequest.restores : SaveRestoreRequest → Bool
  | requestFederationRestore _ => true
  | _ => false

/-- The other services change the records of the save and the restore only. -/
theorem serveSaveRestore_records {r : SaveRestoreRequest} (hr : r.restores = false) :
    (serveSaveRestore c fed r).Confined [.saveRestore] (CallbackRequest.On .saveRestore) fed := by
  cases r with
  | requestFederationSave =>
    exact .ofExcept (.bind fun _ _ => .bind fun _ _ =>
      .pure (.reply touches_currentSave (forall_broadcast rfl)))
  | federateSaveBegun =>
    exact .ofExcept (.bind fun _ _ => .bind fun _ _ => .bind fun _ _ =>
      .pure (.silent touches_currentSave))
  | federateSaveComplete | federateSaveNotComplete => exact federateSaveProgressed_confined
  | abortFederationSave => exact .ofExcept (.bind fun _ _ => .pure (.silent touches_currentSave))
  | requestFederationRestore => cases hr
  | federateRestoreComplete | federateRestoreNotComplete => exact federateRestoreProgressed_confined
  | abortFederationRestore =>
    exact .ofExcept (.bind fun _ _ => .pure (.silent touches_currentRestore))

theorem serveSaveRestore_confined (r : SaveRestoreRequest) :
    (serveSaveRestore c fed r).Confined saveRestoreParts (CallbackRequest.On .saveRestore) fed := by
  cases hr : r.restores with
  | false => exact (serveSaveRestore_records hr).mono (by decide)
  | true =>
    cases r with
    | requestFederationRestore => exact requestFederationRestore_confined
    | _ => cases hr

theorem registerSynchronizationPoint_confined {tag : Bytes}
    {subset : Option (HashSet FederateHandle)} :
    (registerSynchronizationPoint c fed label tag subset).Confined [.syncPoints]
      (CallbackRequest.On .syncPoint) fed := by
  refine .ofExcept (.bind fun _ _ => ?_)
  split
  · exact .pure (.reply .refl (forall_fanOut rfl))
  · exact .pure (.reply Federation.touches_syncPoints
      (forall_append (forall_fanOut rfl) (forall_fanOut rfl)))

theorem serveSyncPoint_confined (r : SyncPointRequest) :
    (serveSyncPoint c fed r).Confined [.syncPoints] (CallbackRequest.On .syncPoint) fed := by
  cases r with
  | registerFederationSynchronizationPoint | registerFederationSynchronizationPointWithSet =>
    exact registerSynchronizationPoint_confined
  | synchronizationPointAchieved =>
    refine .ofExcept (.bind fun _ _ => .bind fun _ _ => ?_)
    dsimp only
    split
    · exact .pure (.reply Federation.touches_syncPoints (forall_fanOut rfl))
    · exact .pure (.silent Federation.touches_syncPoints)

end Hla4
