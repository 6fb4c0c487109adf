/-
# `Hla4.Rti.Safety.Waiting` — what is waited for can still come

A pending synchronization point, a save and a restore each wait for reports of
some federates.  They can still end that way as long as one of those federates
is joined.  The server sees to that nowhere: the participants of a point are
not checked, and a federate that leaves is not looked for in what is pending.

The invariant is `Lib.Awaits`: somebody is waited for, and EVERYBODY waited for
is joined.  It is stronger than what is wanted, and is kept as long as nobody
leaves who is waited for.
-/
import Hla4.Rti.Safety.Reports
import Hla4.Rti.Safety.Snapshot
import Hla4.Rti.Safety.SyncPoints

namespace Hla4

open Lib

variable {c : Caller} {fed fed' : Federation} {label : String}

theorem mem_join {requested : Option String} {sessionId : UInt64} {f : FederateHandle}
    (hf : f ∈ fed.federates) : f ∈ (fed.join requested sessionId).1.federates :=
  Federation.join_keeps (P := fun fed => f ∈ fed.federates) hf fun _ =>
    (AList.mem_insert _).mpr (.inr hf)

/-! ## Synchronization points -/

/-- The joined federates. -/
def Federation.joined (fed : Federation) : Set FederateHandle := { f | f ∈ fed.federates }

/-- The participants a point waits for. -/
def SyncPoint.waiting (sp : SyncPoint) : Set FederateHandle :=
  { f | f ∈ sp.participants ∧ f ∉ sp.achieved }

/-- The point waits for somebody, and only for federates that are present. -/
structure SyncPoint.Open (present : Set FederateHandle) (sp : SyncPoint) : Prop where
  achieved : ∀ f ∈ sp.achieved, f ∈ sp.participants
  awaits : Awaits present sp.waiting

namespace SyncPoint.Open

variable {present present' : Set FederateHandle} {sp : SyncPoint}

theorem of_new {tag : Bytes} {s : HashSet FederateHandle} (hne : s.keys ≠ [])
    (hs : ∀ f ∈ s.keys, f ∈ present) : Open present ⟨label, tag, s, ∅, ∅⟩ where
  achieved f hf := absurd hf (AList.notMem_empty f)
  awaits := by
    obtain ⟨f, hf⟩ := List.exists_mem_of_ne_nil _ hne
    exact ⟨⟨f, AList.mem_keys.mpr hf, AList.notMem_empty f⟩,
      fun g hg => hs g (AList.mem_keys.mp hg.1)⟩

theorem change (h : Open present sp) (hp : ∀ f ∈ sp.waiting, f ∈ present → f ∈ present') :
    Open present' sp :=
  ⟨h.achieved, h.awaits.change hp⟩

/-- After a report that does not complete it, the point waits for somebody
else. -/
theorem achieve (h : Open present sp) {f : FederateHandle} (hf : f ∈ sp.participants)
    (successfully : Bool)
    (hlen : (sp.achieve f successfully).achieved.keys.length ≠
      (sp.achieve f successfully).participants.keys.length) :
    Open present (sp.achieve f successfully) := by
  have hsub : ∀ g ∈ (sp.achieve f successfully).achieved, g ∈ sp.participants := by
    intro g hg
    rcases SyncPoint.mem_achieved.mp hg with rfl | hg
    · exact hf
    · exact h.achieved g hg
  refine ⟨hsub, h.awaits.shrink ?_ ?_⟩
  · rintro g ⟨hg, hnot⟩
    exact ⟨hg, fun hach => hnot (SyncPoint.mem_achieved.mpr (.inr hach))⟩
  · have hnot := mt (HashSet.keys_length_eq_iff hsub).mpr hlen
    push Not at hnot
    exact hnot

end SyncPoint.Open

/-- Every pending point can still be completed by reports. -/
def Federation.Completable (fed : Federation) : Prop :=
  ∀ label sp, fed.syncPoints.lookup label = some sp → sp.Open fed.joined

namespace Federation.Completable

theorem of_points (h : fed.Completable) (hs : fed'.syncPoints = fed.syncPoints)
    (hp : ∀ f, f ∈ fed.federates → f ∈ fed'.federates) : fed'.Completable := by
  intro label sp hsp
  rw [hs] at hsp
  exact (h label sp hsp).change fun f _ hf => hp f hf

theorem insert (h : fed.Completable) {sp : SyncPoint} (hsp : sp.Open fed.joined) :
    Completable { fed with syncPoints := fed.syncPoints.insert label sp } := by
  intro l sp' hl
  have hl' := (HashMap.lookup_insert_eq fed.syncPoints label l sp).symm.trans hl
  split at hl'
  · cases hl'
    exact hsp
  · exact h l sp' hl'

theorem erase (h : fed.Completable) :
    Completable { fed with syncPoints := fed.syncPoints.erase label } := by
  intro l sp' hl
  have hl' := (HashMap.lookup_erase_eq fed.syncPoints label l).symm.trans hl
  split at hl'
  · cases hl'
  · exact h l sp' hl'

end Federation.Completable

/-! The condition: points are registered for joined federates, a federate a
point waits for stays, and a restored point names a joined federate. -/

def SyncPointRequest.ForJoined (fed : Federation) (r : SyncPointRequest) : Prop :=
  ∀ reg ∈ r.registers?, (syncParticipants fed reg.2).keys ≠ [] ∧
    ∀ f ∈ (syncParticipants fed reg.2).keys, f ∈ fed.federates

def FederationSnapshot.ForJoined (fed : Federation) (snap : FederationSnapshot) : Prop :=
  ∀ sp ∈ snap.syncPoints, ∃ name ∈ sp.participants, name ∈ fed.names

/-- The label a request restores. -/
def SaveRestoreRequest.restored? : SaveRestoreRequest → Option String
  | requestFederationRestore label => some label
  | _ => none

def SaveRestoreRequest.ForJoined (c : Caller) (fed : Federation) (r : SaveRestoreRequest) : Prop :=
  ∀ label ∈ r.restored?, ∀ snap ∈ c.saved fed.name label, snap.ForJoined fed

def ServiceRequest.ForJoined (c : Caller) (fed : Federation) : ServiceRequest → Prop
  | .syncPoint r => r.ForJoined fed
  | .saveRestore r => r.ForJoined c fed
  | _ => True

def FedAction.KeepsAwaited (fed : Federation) : FedAction → Prop
  | create _ _ => True
  | join _ _ => True
  | leave h => ∀ sp ∈ fed.syncPoints.values, h ∈ sp.participants → h ∈ sp.achieved
  | serve c req => req.ForJoined c fed

instance (fed : Federation) (r : SyncPointRequest) : Decidable (r.ForJoined fed) :=
  inferInstanceAs (Decidable (∀ reg ∈ r.registers?, (syncParticipants fed reg.2).keys ≠ [] ∧
    ∀ f ∈ (syncParticipants fed reg.2).keys, f ∈ fed.federates))

instance (fed : Federation) (snap : FederationSnapshot) : Decidable (snap.ForJoined fed) :=
  inferInstanceAs (Decidable (∀ sp ∈ snap.syncPoints, ∃ name ∈ sp.participants, name ∈ fed.names))

instance (c : Caller) (fed : Federation) (r : SaveRestoreRequest) : Decidable (r.ForJoined c fed) :=
  inferInstanceAs (Decidable
    (∀ label ∈ r.restored?, ∀ snap ∈ c.saved fed.name label, snap.ForJoined fed))

instance (c : Caller) (fed : Federation) : (req : ServiceRequest) → Decidable (req.ForJoined c fed)
  | .syncPoint r => inferInstanceAs (Decidable (r.ForJoined fed))
  | .saveRestore r => inferInstanceAs (Decidable (r.ForJoined c fed))
  | .declaration _ | .region _ | .directed _ | .object _ | .ownership _ | .time _ | .switch _
  | .lookup _ => .isTrue trivial

instance (fed : Federation) : (a : FedAction) → Decidable (a.KeepsAwaited fed)
  | .create .. | .join .. => .isTrue trivial
  | .leave h => inferInstanceAs (Decidable
      (∀ sp ∈ fed.syncPoints.values, h ∈ sp.participants → h ∈ sp.achieved))
  | .serve c req => inferInstanceAs (Decidable (req.ForJoined c fed))

theorem registerSynchronizationPoint_completable {tag : Bytes}
    {subset : Option (HashSet FederateHandle)} (h : fed.Completable)
    (hne : (syncParticipants fed subset).keys ≠ [])
    (hs : ∀ f ∈ (syncParticipants fed subset).keys, f ∈ fed.federates) :
    (registerSynchronizationPoint c fed label tag subset).federation.Completable := by
  rcases registerSynchronizationPoint_cases c fed label tag subset with
    ⟨_, e, he⟩ | ⟨_, _, he⟩ | ⟨_, _, _, _, he⟩
  · rw [he]; exact h
  · rw [he]; exact h
  · rw [he]; exact h.insert (.of_new hne hs)

theorem synchronizationPointAchieved_completable {successfully : Bool} (h : fed.Completable) :
    (synchronizationPointAchieved c fed label successfully).federation.Completable := by
  rcases synchronizationPointAchieved_cases c fed label successfully with
    ⟨_, e, he⟩ | ⟨sp, sp', hsp, hm, rfl, ⟨_, he⟩ | ⟨hlen, he⟩⟩
  · rw [he]; exact h
  · rw [he]; exact h.erase
  · rw [he]; exact h.insert ((h label sp hsp).achieve hm successfully hlen)

theorem serveSyncPoint_completable {r : SyncPointRequest} (h : fed.Completable)
    (hr : r.ForJoined fed) : (serveSyncPoint c fed r).federation.Completable := by
  cases r with
  | registerFederationSynchronizationPoint | registerFederationSynchronizationPointWithSet =>
    obtain ⟨hne, hs⟩ := hr _ rfl
    exact registerSynchronizationPoint_completable h hne hs
  | synchronizationPointAchieved =>
    exact synchronizationPointAchieved_completable h

/-- Restored points are for joined federates only: the others are dropped. -/
theorem applySnapshot_completable {o : IterOrder FederateHandle} {snap : FederationSnapshot}
    (hk : fed.Keyed) (hsnap : snap.ForJoined fed) : (fed.applySnapshot o snap).Completable := by
  intro label sp hsp
  rw [syncPoints_applySnapshot] at hsp
  rcases HashMap.lookup_collect_eq_some hsp with ⟨ser, hser, _, hv⟩ | hnone
  · cases hv
    have hjoined : ∀ f, f ∈ (fed.applySnapshot o snap).federates ↔ f ∈ fed.federates :=
      touches_applySnapshot.mem_federates (by decide)
    refine .of_new ?_ ?_
    · obtain ⟨name, hname, hjoin⟩ := hsnap ser hser
      obtain ⟨f, hf⟩ := HashMap.mem_iff_lookup.mp (mem_nameToHandle (o := o) hjoin)
      have hmem : f ∈ ser.participants.filterMap (fed.nameToHandle o).lookup :=
        List.mem_filterMap.mpr ⟨name, hname, hf⟩
      exact List.ne_nil_of_mem (AList.mem_keys.mp (HashSet.mem_ofList.mpr hmem))
    · intro f hf
      obtain ⟨name, _, hf⟩ := List.mem_filterMap.mp (HashSet.mem_ofList.mp (AList.mem_keys.mpr hf))
      obtain ⟨fs, hfs, _⟩ := joined_of_nameToHandle hk hf
      exact (hjoined f).mpr (HashMap.mem_of_lookup hfs)
  · cases hnone

theorem requestFederationRestore_completable (hk : fed.Keyed) (h : fed.Completable)
    (hsnap : ∀ snap ∈ c.saved fed.name label, snap.ForJoined fed) :
    (requestFederationRestore c fed label).federation.Completable := by
  have hbegun : (fed.restoreBegun c label).Keyed := ⟨hk.federates, hk.instances, hk.syncPoints⟩
  exact requestFederationRestore_keeps (P := Federation.Completable) h h
    fun snap hsaved => applySnapshot_completable hbegun (hsnap snap hsaved)

theorem serve_completable (req : ServiceRequest) (hk : fed.Keyed) (h : fed.Completable)
    (hok : req.ForJoined c fed) : (serve c fed req).federation.Completable := by
  by_cases hs : ∃ r, req = .syncPoint r
  · obtain ⟨r, rfl⟩ := hs
    exact serveSyncPoint_completable h hok
  · cases hr : (FedAction.serve c req).restores with
    | false =>
      exact h.of_points (serve_syncPoints req hr (not_exists.mp hs))
        fun f => (serve_mem_federates req f).mpr
    | true =>
      obtain ⟨label, rfl⟩ := FedAction.eq_of_restores hr
      exact requestFederationRestore_completable hk h (hok label rfl)

theorem completable_apply (fed : Federation) (a : FedAction) (h : fed.Keyed ∧ fed.Completable)
    (hok : a.KeepsAwaited fed) : (a.apply fed).Keyed ∧ (a.apply fed).Completable := by
  refine ⟨keyed_apply fed a h.1, ?_⟩
  cases a with
  | create => exact fun label sp hsp => by cases hsp
  | join =>
    exact h.2.of_points (FedAction.join_syncPoints ..) fun f hf => mem_join hf
  | leave k =>
    intro label sp hsp
    refine (h.2 label sp hsp).change ?_
    intro f hwait hf
    have hne : f ≠ k := by
      rintro rfl
      exact hwait.2 (hok sp (HashMap.mem_values.mpr ⟨label, hsp⟩) hwait.1)
    exact AList.mem_erase.mpr ⟨hne, hf⟩
  | serve c req => exact serve_completable req h.1 h.2 hok

/-- **Pending points can be completed.**  In every run whose actions register
points for joined federates only, let nobody leave whom a point waits for, and
restore only points that name a joined federate: in every state, every pending
point has a participant that is joined and has not reported. -/
theorem Node.syncPoints_completable {es : List NodeEvent}
    (hok : StepsMeet Node.step (Node.Meets fun fed a => a.KeepsAwaited fed) Node.new es) :
    Always Node.step
      (fun n => ∀ r label sp, (n.heap r).syncPoints.lookup label = some sp →
        ∃ f ∈ sp.participants.keys, f ∈ (n.heap r).federates ∧ f ∉ sp.achieved)
      Node.new es := by
  have hinv := Node.heap_always (P := fun fed => fed.Keyed ∧ fed.Completable)
    (fun name fom => ⟨Federation.keyed_new name fom, fun label sp hsp => by cases hsp⟩)
    completable_apply hok
  intro done hd r label sp hsp
  obtain ⟨f, ⟨hf, hnot⟩, hjoined⟩ := ((hinv done hd r).2 label sp hsp).awaits.exists_present
  exact ⟨f, AList.mem_keys.mp hf, hjoined, hnot⟩

theorem Node.syncPoints_completable_pair :
    "s" ∈ ((run Node.step Node.new pairSynchronizing).heap 0).syncPoints ∧
    Always Node.step
      (fun n => ∀ r label sp, (n.heap r).syncPoints.lookup label = some sp →
        ∃ f ∈ sp.participants.keys, f ∈ (n.heap r).federates ∧ f ∉ sp.achieved)
      Node.new pairSynchronizing :=
  ⟨by decide +kernel, Node.syncPoints_completable (by decide +kernel)⟩

/-- A point is registered for a federate that does not exist; the federate a
point waits for resigns; and a point is restored for a federate that has
resigned since it was saved. -/
def stuckRuns : List (List NodeEvent) :=
  [pairJoined ++ [.serves 0 (.syncPoint (.registerFederationSynchronizationPointWithSet "s" []
      (some [[0, 0, 0, 9]])))],
    pairSynchronizing ++ [.manages 1 .resignFederationExecution],
    pairJoined ++
      [.serves 0 (.syncPoint (.registerFederationSynchronizationPointWithSet "s" []
          (some [[0, 0, 0, 2]]))),
        .serves 0 (.saveRestore (.requestFederationSave false "l")),
        .serves 0 (.saveRestore .federateSaveComplete),
        .serves 1 (.saveRestore .federateSaveComplete),
        .serves 1 (.syncPoint (.synchronizationPointAchieved "s" true)),
        .manages 1 .resignFederationExecution,
        .serves 0 (.saveRestore (.requestFederationRestore "l"))]]

/-- **Stuck points.**  After each of these runs a point is pending, and no
joined federate is a participant of it that has not reported. -/
theorem Node.syncPoint_stuck :
    stuckRuns.Forall fun es =>
      ∃ sp ∈ ((run Node.step Node.new es).heap 0).syncPoints.lookup "s",
        ¬ ∃ f ∈ sp.participants.keys,
          f ∈ ((run Node.step Node.new es).heap 0).federates ∧ f ∉ sp.achieved := by
  rw [List.forall_iff_forall_mem]
  decide +kernel

/-! ## Saves and restores -/

/-- An operation in progress has a joined federate that has not finished. -/
def Federation.Endable (fed : Federation) : Prop :=
  (∀ op ∈ fed.currentSave, ∃ f ∈ fed.federates.keys, ∃ s ∈ op.statuses.lookup f,
    s.isDone = false) ∧
  ∀ op ∈ fed.currentRestore, ∃ f ∈ fed.federates.keys, ∃ s ∈ op.statuses.lookup f,
    s.isDone = false

instance (fed : Federation) : Decidable fed.Endable := inferInstanceAs (Decidable (_ ∧ _))

/-- The operations in progress wait for somebody, and only for joined
federates. -/
def Federation.Awaited (fed : Federation) : Prop :=
  ∀ k : Orchestration, ∀ t ∈ k.tally fed, Awaits fed.joined t.waiting

theorem Federation.Awaited.endable (h : fed.Awaited) : fed.Endable := by
  have pending : ∀ {S : Type} {standing : S → Standing} {statuses : HashMap FederateHandle S},
      Awaits fed.joined (tallyOf standing statuses).waiting →
        ∃ f ∈ fed.federates.keys, ∃ s ∈ statuses.lookup f, standing s = .pending := by
    intro S standing statuses hawaits
    obtain ⟨f, hwait, hjoined⟩ := hawaits.exists_present
    obtain ⟨s, hs, hp⟩ := Option.map_eq_some_iff.mp hwait
    exact ⟨f, AList.mem_keys.mp hjoined, s, hs, hp⟩
  constructor
  · intro op hop
    obtain ⟨f, hf, s, hs, hp⟩ := pending (h .save _ (Option.mem_map_of_mem _ hop))
    refine ⟨f, hf, s, hs, ?_⟩
    rw [← Bool.not_eq_true, s.isDone_iff, not_not]
    exact hp
  · intro op hop
    obtain ⟨f, hf, s, hs, hp⟩ := pending (h .restore _ (Option.mem_map_of_mem _ hop))
    refine ⟨f, hf, s, hs, ?_⟩
    rw [← Bool.not_eq_true, s.isDone_iff, not_not]
    exact hp

/-- Nobody leaves who has not finished, and services are asked for while
somebody is joined. -/
def FedAction.KeepsReporters (fed : Federation) : FedAction → Prop
  | create _ _ => True
  | join _ _ => True
  | leave h => (∀ t ∈ Orchestration.save.tally fed, t h ≠ some .pending) ∧
      ∀ t ∈ Orchestration.restore.tally fed, t h ≠ some .pending
  | serve _ _ => fed.federates.keys ≠ []

instance (fed : Federation) : (a : FedAction) → Decidable (a.KeepsReporters fed)
  | .create .. | .join .. => .isTrue trivial
  | .leave h => inferInstanceAs (Decidable
      ((∀ t ∈ Orchestration.save.tally fed, t h ≠ some .pending) ∧
        ∀ t ∈ Orchestration.restore.tally fed, t h ≠ some .pending))
  | .serve .. => inferInstanceAs (Decidable (fed.federates.keys ≠ []))

theorem FedAction.startsAwaited {a : FedAction} (hne : fed.federates.keys ≠ []) (k : Orchestration) :
    Tally.StartsAwaited fed.joined (a.ask fed k) := by
  cases a with
  | serve c req =>
    cases req with
    | saveRestore r =>
      rw [FedAction.ask]
      cases hq : r.ask c fed k with
      | start =>
        rw [SaveRestoreRequest.members_of_ask hq]
        exact ⟨hne, fun f hf => AList.mem_keys.mpr hf⟩
      | _ => trivial
    | _ => trivial
  | _ => trivial

theorem awaited_apply (fed : Federation) (a : FedAction) (h : fed.Keyed ∧ fed.Awaited)
    (hok : a.KeepsReporters fed) : (a.apply fed).Keyed ∧ (a.apply fed).Awaited := by
  refine ⟨keyed_apply fed a h.1, ?_⟩
  intro k t ht
  cases a with
  | create => cases k <;> cases ht
  | join =>
    rw [FedAction.tally_of_quiet (fun _ _ => FedAction.noConfusion)
      (fun _ _ => FedAction.noConfusion)] at ht
    exact (h.2 k t ht).change fun f _ hf => mem_join hf
  | leave g =>
    rw [FedAction.tally_of_quiet (fun _ _ => FedAction.noConfusion)
      (fun _ _ => FedAction.noConfusion)] at ht
    have hg : t g ≠ some .pending := by
      cases k with
      | save => exact hok.1 t ht
      | restore => exact hok.2 t ht
    refine (h.2 k t ht).change ?_
    intro f hwait hf
    have hne : f ≠ g := by
      rintro rfl
      exact hg hwait
    exact AList.mem_erase.mpr ⟨hne, hf⟩
  | serve c req =>
    obtain ⟨v, hserves, _⟩ :=
      FedAction.serves (a := .serve c req) h.1 (fun _ _ => FedAction.noConfusion) k
    have hawaits := hserves.awaits (FedAction.startsAwaited hok k) (h.2 k) t ht
    exact hawaits.change fun f _ hf => (serve_mem_federates req f).mpr hf

/-- **Operations can end.**  In every run in which nobody leaves a federation
who has not finished a save or restore in progress there, and services are
asked for while somebody is joined: in every state, an operation in progress
has a joined federate that has not finished. -/
theorem Node.operations_endable {es : List NodeEvent}
    (hok : StepsMeet Node.step (Node.Meets fun fed a => a.KeepsReporters fed) Node.new es) :
    Always Node.step (fun n => ∀ r, (n.heap r).Endable) Node.new es := by
  have hnew : ∀ name fom, (Federation.new name fom).Keyed ∧ (Federation.new name fom).Awaited := by
    refine fun name fom => ⟨Federation.keyed_new name fom, ?_⟩
    intro k t ht
    cases k <;> cases ht
  have hinv := Node.heap_always (P := fun fed => fed.Keyed ∧ fed.Awaited) hnew awaited_apply hok
  exact fun done hd r => (hinv done hd r).2.endable

theorem Node.operations_endable_pair :
    ((run Node.step Node.new pairSaving).heap 0).currentSave.isSome = true ∧
    Always Node.step (fun n => ∀ r, (n.heap r).Endable) Node.new pairSaving :=
  ⟨by decide +kernel, Node.operations_endable (by decide +kernel)⟩

/-- The last federate that has not finished leaves: it resigns from a save, it
resigns from a restore, its connection is lost, or its suspended session
expires. -/
def abandonedRuns : List (List NodeEvent) :=
  let waiting := pairSaving ++ [.serves 0 (.saveRestore .federateSaveComplete)]
  [waiting ++ [.manages 1 .resignFederationExecution],
    pairJoined ++
      [.serves 0 (.saveRestore (.requestFederationRestore "l")),
        .serves 0 (.saveRestore .federateRestoreComplete), .manages 1 .resignFederationExecution],
    waiting ++ [.close 1],
    .setReconnectWindow 5 :: waiting ++ [.close 1, .elapse 5, .janitorScan, .janitorRemove]]

/-- **Abandoned operations.**  After each of these runs an operation is in
progress, and all that are joined have finished. -/
theorem Node.operation_abandoned :
    abandonedRuns.Forall fun es => ¬ ((run Node.step Node.new es).heap 0).Endable := by
  rw [List.forall_iff_forall_mem]
  decide +kernel

end Hla4
