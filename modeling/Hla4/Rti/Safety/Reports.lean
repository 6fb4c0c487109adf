/-
# `Hla4.Rti.Safety.Reports` — the verdict on a save or a restore

`save.rs` and `restore.rs` go about it alike: a request opens an operation with
a status for every joined federate; reports overwrite statuses; the report that
leaves nobody unfinished ends the operation, and decides it.  Seen through
`Orchestration.tally` both are the coordinator of `Lib.Tally`
(`serveSaveRestore_follows`), and what is proved of that one is proved of both.

What SHOULD decide is a poll among the federates joined at the request.  The
statuses are not that: a federate may take its failure back, and one that
joined later may report.  Under the condition that nobody does
(`FedAction.InTurn`) they are.
-/
import Hla4.Lib.Tally
import Hla4.Rti.Safety.Keyed

namespace Hla4

open Lib

variable {c : Caller} {fed fed' : Federation} {label : String} {f : FederateHandle}

/-! ## Statuses as a tally -/

inductive Orchestration
  | save
  | restore
deriving DecidableEq

def SaveStatus.standing : SaveStatus → Standing
  | initiated => .pending
  | begunSave => .pending
  | saveComplete => .complete
  | saveNotComplete => .notComplete

def RestoreStatus.standing : RestoreStatus → Standing
  | initiated => .pending
  | complete => .complete
  | notComplete => .notComplete

section TallyOf

variable {S : Type} (standing : S → Standing)

def tallyOf (statuses : HashMap FederateHandle S) : Tally FederateHandle :=
  fun f => (statuses.lookup f).map standing

variable {standing} {statuses : HashMap FederateHandle S} {isDone isFailed : S → Bool}

theorem tallyOf_insert (h : FederateHandle) (s : S) :
    tallyOf standing (statuses.insert h s) =
      Function.update (tallyOf standing statuses) h (some (standing s)) := by
  funext f
  rw [tallyOf, HashMap.lookup_insert_eq, Function.update_apply]
  split <;> rfl

theorem tallyOf_statusesOf (handles : List FederateHandle) {s : S} (hs : standing s = .pending) :
    tallyOf standing (statusesOf handles s) = Tally.ofMembers handles := by
  funext f
  rw [tallyOf, statusesOf, HashMap.lookup_foldl_insert, Tally.ofMembers]
  split
  · rw [Option.map_some, hs]
  · rfl

theorem settled_tallyOf (hd : ∀ s, isDone s = true ↔ standing s ≠ .pending) :
    (tallyOf standing statuses).Settled ↔ statuses.values.all isDone = true := by
  rw [List.all_eq_true]
  constructor
  · intro hs s hmem
    obtain ⟨f, hf⟩ := HashMap.mem_values.mp hmem
    refine (hd s).mpr fun hp => hs f ?_
    rw [tallyOf, hf, Option.map_some, hp]
  · intro hall f hf
    obtain ⟨s, hs, hp⟩ := Option.map_eq_some_iff.mp hf
    exact (hd s).mp (hall s (HashMap.mem_values.mpr ⟨f, hs⟩)) hp

theorem clean_tallyOf (hf : ∀ s, isFailed s = true ↔ standing s = .notComplete) :
    (tallyOf standing statuses).Clean ↔ statuses.values.any isFailed = false := by
  rw [← Bool.not_eq_true, List.any_eq_true]
  constructor
  · rintro hc ⟨s, hmem, hs⟩
    obtain ⟨f, hlook⟩ := HashMap.mem_values.mp hmem
    refine hc f ?_
    rw [tallyOf, hlook, Option.map_some, (hf s).mp hs]
  · intro hnone f hlook
    obtain ⟨s, hs, hp⟩ := Option.map_eq_some_iff.mp hlook
    exact hnone ⟨s, HashMap.mem_values.mpr ⟨f, hs⟩, (hf s).mpr hp⟩

/-- A result is recorded, and the operation goes on or is decided. -/
theorem recordResult_cases (hd : ∀ s, isDone s = true ↔ standing s ≠ .pending)
    (hf : ∀ s, isFailed s = true ↔ standing s = .notComplete)
    (statuses : HashMap FederateHandle S) (h : FederateHandle) {s : S} {well : Bool}
    (hs : standing s = .ofReport well) :
    tallyOf standing (statuses.insert h s) = (tallyOf standing statuses).report h well ∧
    ((recordResult statuses h s isDone isFailed = (statuses.insert h s, none) ∧
        ¬ ((tallyOf standing statuses).report h well).Settled) ∨
      ∃ failed, recordResult statuses h s isDone isFailed = (statuses.insert h s, some failed) ∧
        ((tallyOf standing statuses).report h well).Settled ∧
        (failed = false ↔ ((tallyOf standing statuses).report h well).Clean)) := by
  have htally : tallyOf standing (statuses.insert h s) = (tallyOf standing statuses).report h well := by
    rw [tallyOf_insert, hs]
    rfl
  refine ⟨htally, ?_⟩
  rw [recordResult, ← htally, settled_tallyOf hd, clean_tallyOf hf]
  split
  · next hall => exact .inr ⟨_, rfl, hall, Iff.rfl⟩
  · next hall => exact .inl ⟨rfl, hall⟩

end TallyOf

theorem SaveStatus.isDone_iff (s : SaveStatus) : s.isDone = true ↔ s.standing ≠ .pending := by
  cases s <;> decide

theorem SaveStatus.isFailed_iff (s : SaveStatus) :
    (s == saveNotComplete) = true ↔ s.standing = .notComplete := by
  cases s <;> decide

theorem RestoreStatus.isDone_iff (s : RestoreStatus) : s.isDone = true ↔ s.standing ≠ .pending := by
  cases s <;> decide

theorem RestoreStatus.isFailed_iff (s : RestoreStatus) :
    (s == notComplete) = true ↔ s.standing = .notComplete := by
  cases s <;> decide

/-- The tally of an operation in progress. -/
def Orchestration.tally (fed : Federation) : Orchestration → Option (Tally FederateHandle)
  | save => fed.currentSave.map fun op => tallyOf SaveStatus.standing op.statuses
  | restore => fed.currentRestore.map fun op => tallyOf RestoreStatus.standing op.statuses

theorem Orchestration.tally_congr (hs : fed'.currentSave = fed.currentSave)
    (hr : fed'.currentRestore = fed.currentRestore) (k : Orchestration) : k.tally fed' = k.tally fed := by
  cases k with
  | save => rw [tally, hs]; rfl
  | restore => rw [tally, hr]; rfl

/-! ## What the services do -/

/-- The operation a callback announces the end of, and whether it ended well. -/
def CallbackRequest.verdict? : CallbackRequest → Option (Orchestration × Bool)
  | federationSaved => some (.save, true)
  | federationNotSaved _ => some (.save, false)
  | federationRestored => some (.restore, true)
  | federationNotRestored _ => some (.restore, false)
  | _ => none

/-- The operation a request reports on, and how. -/
def SaveRestoreRequest.report? : SaveRestoreRequest → Option (Orchestration × Bool)
  | federateSaveComplete => some (.save, true)
  | federateSaveNotComplete => some (.save, false)
  | federateRestoreComplete => some (.restore, true)
  | federateRestoreNotComplete => some (.restore, false)
  | _ => none

/-- The operation a request is about. -/
def SaveRestoreRequest.orchestration : SaveRestoreRequest → Orchestration
  | requestFederationSave _ _ => .save
  | federateSaveBegun => .save
  | federateSaveComplete => .save
  | federateSaveNotComplete => .save
  | abortFederationSave => .save
  | requestFederationRestore _ => .restore
  | federateRestoreComplete => .restore
  | federateRestoreNotComplete => .restore
  | abortFederationRestore => .restore

/-- What a request asks of an operation. -/
def SaveRestoreRequest.ask (c : Caller) (fed : Federation) :
    SaveRestoreRequest → Orchestration → Poll.Ask FederateHandle
  | .requestFederationSave _ label, .save =>
    if label = "" then .nothing else .start fed.federates.keys
  | .federateSaveComplete, .save => .report c.federate true
  | .federateSaveNotComplete, .save => .report c.federate false
  | .abortFederationSave, .save => .abort
  | .requestFederationRestore label, .restore =>
    if label = "" ∨ c.env.readFails = true then .nothing else .start fed.federates.keys
  | .federateRestoreComplete, .restore => .report c.federate true
  | .federateRestoreNotComplete, .restore => .report c.federate false
  | .abortFederationRestore, .restore => .abort
  | _, _ => .nothing

/-- The outcome is that of a coordinator that is asked `q`, and announces no
other verdict. -/
def Orchestration.Follows (k : Orchestration) (q : Poll.Ask FederateHandle) (fed : Federation)
    (o : Outcome) : Prop :=
  ∃ v, Tally.Serves q (k.tally fed) (k.tally o.federation) v ∧
    ∀ cb ∈ o.callbacks, ∀ w, cb.body.verdict? = some (k, w) → v = some w

namespace Orchestration.Follows

variable {k : Orchestration} {q : Poll.Ask FederateHandle} {o : Outcome}

theorem silent (h : Tally.Serves q (k.tally fed) (k.tally o.federation) none)
    (hcb : ∀ cb ∈ o.callbacks, ∀ w, cb.body.verdict? ≠ some (k, w)) : k.Follows q fed o :=
  ⟨none, h, fun cb hb w hw => absurd hw (hcb cb hb w)⟩

theorem other (ht : k.tally o.federation = k.tally fed)
    (hcb : ∀ cb ∈ o.callbacks, ∀ w, cb.body.verdict? ≠ some (k, w)) : k.Follows .nothing fed o :=
  silent (ht.symm ▸ .nothing _) hcb

theorem reject (hq : Tally.Serves q (k.tally fed) (k.tally fed) none) (e : ExceptionData) :
    k.Follows q fed (.reject fed e) :=
  silent hq fun _ hcb => by cases hcb

theorem decided {t : Tally FederateHandle} {well failed : Bool} (hopen : k.tally fed = some t)
    (hclosed : k.tally o.federation = none) (hset : (t.report f well).Settled)
    (hclean : failed = false ↔ (t.report f well).Clean)
    (hcb : ∀ cb ∈ o.callbacks, cb.body.verdict? = some (k, !failed)) :
    k.Follows (.report f well) fed o := by
  refine ⟨some (!failed), ?_, ?_⟩
  · rw [hopen, hclosed]
    exact .ends hset (by rw [← hclean, Bool.not_eq_true'])
  · intro cb hmem w hw
    cases (hcb cb hmem).symm.trans hw
    rfl

end Orchestration.Follows

variable {k : Orchestration}

theorem abort_follows {α : Type} {op : Option α} {e : ExceptionData} {response : Resp}
    (hop : op = none → k.tally fed = none) (hclosed : k.tally fed' = none) :
    k.Follows .abort fed
      (.ofExcept fed do require (op.isSome = true) e; pure (.reply fed' response [])) := by
  cases op with
  | none =>
    refine .reject ?_ _
    rw [hop rfl]
    exact .aborts _
  | some =>
    refine .silent ?_ fun _ hcb => by cases hcb
    show Tally.Serves .abort _ (k.tally fed') none
    rw [hclosed]
    exact .aborts _

theorem body_of_broadcast {body : CallbackRequest} {cb : OutboundCallback}
    (h : cb ∈ broadcast c fed body) : cb.body = body := by
  obtain ⟨_, _, rfl⟩ := mem_fanOut.mp h
  rfl

theorem verdict_broadcast {body : CallbackRequest} (h : ∀ w, body.verdict? ≠ some (k, w)) :
    ∀ cb ∈ broadcast c fed body, ∀ w, cb.body.verdict? ≠ some (k, w) := by
  intro cb hcb
  rw [body_of_broadcast hcb]
  exact h

theorem requestFederationSave_follows (label : String) :
    Orchestration.save.Follows (if label = "" then .nothing else .start fed.federates.keys) fed
      (requestFederationSave c fed label) := by
  rw [requestFederationSave, require, require]
  by_cases hl : label = ""
  · rw [if_pos hl, if_neg fun h => h hl]
    exact .reject (.nothing _) _
  · rw [if_neg hl, if_pos hl]
    cases hop : fed.currentSave with
    | some =>
      refine .reject ?_ _
      rw [Orchestration.tally, hop]
      exact .busy _ _
    | none =>
      refine .silent ?_ (verdict_broadcast fun _ h => by cases h)
      rw [Orchestration.tally, hop]
      show Tally.Serves _ none
        (some (tallyOf SaveStatus.standing (statusesOf fed.federates.keys .initiated))) none
      rw [tallyOf_statusesOf _ rfl]
      exact .starts _

/-- A federate that begins is still waited for. -/
theorem federateSaveBegun_follows :
    Orchestration.save.Follows .nothing fed (federateSaveBegun c fed) := by
  refine Outcome.ofExcept_of (Q := Orchestration.save.Follows .nothing fed)
    (fun e => .reject (.nothing _) e) (.bind fun op hop => .bind fun status hst => .bind fun _ hini =>
      .pure (.other ?_ fun _ hcb => by cases hcb))
  rw [getOr_eq_ok] at hop hst
  rw [require_eq_ok] at hini
  subst hini
  rw [Orchestration.tally, Orchestration.tally, hop]
  show some (tallyOf _ (op.statuses.insert c.federate .begunSave)) = some (tallyOf _ op.statuses)
  rw [tallyOf_insert, Function.update_eq_self_iff.mpr]
  rw [tallyOf, hst]
  rfl

/-- A result is recorded under the caller's handle, and what comes of it is told
as it should be. -/
theorem report_follows {S : Type} {standing : S → Standing} {isDone isFailed : S → Bool}
    {statuses : HashMap FederateHandle S} {s : S} {well : Bool} {o : Outcome}
    (hd : ∀ s, isDone s = true ↔ standing s ≠ .pending)
    (hf : ∀ s, isFailed s = true ↔ standing s = .notComplete) (hs : standing s = .ofReport well)
    (hopen : k.tally fed = some (tallyOf standing statuses))
    (hgoes : ∀ statuses', recordResult statuses f s isDone isFailed = (statuses', none) →
      k.tally o.federation = some (tallyOf standing statuses') ∧ o.callbacks = [])
    (hends : ∀ statuses' failed,
      recordResult statuses f s isDone isFailed = (statuses', some failed) →
        k.tally o.federation = none ∧ ∀ cb ∈ o.callbacks, cb.body.verdict? = some (k, !failed)) :
    k.Follows (.report f well) fed o := by
  obtain ⟨htally, ⟨hrec, hset⟩ | ⟨failed, hrec, hset, hclean⟩⟩ :=
    recordResult_cases hd hf statuses f hs
  · obtain ⟨hnow, hnone⟩ := hgoes _ hrec
    refine .silent ?_ fun cb hcb => by rw [hnone] at hcb; cases hcb
    rw [hopen, hnow, htally]
    exact .goesOn hset
  · obtain ⟨hclosed, htold⟩ := hends _ _ hrec
    exact .decided hopen hclosed hset hclean htold

theorem SaveStatus.standing_of_report (well : Bool) :
    (if well then saveComplete else saveNotComplete).standing = .ofReport well := by
  cases well <;> rfl

theorem RestoreStatus.standing_of_report (well : Bool) :
    (if well then complete else notComplete).standing = .ofReport well := by
  cases well <;> rfl

theorem federateSaveProgressed_follows (successfully : Bool) :
    Orchestration.save.Follows (.report c.federate successfully) fed
      (federateSaveProgressed c fed successfully) := by
  rw [federateSaveProgressed]
  cases hop : fed.currentSave with
  | none =>
    refine .reject ?_ _
    rw [Orchestration.tally, hop]
    exact .refuses _ _
  | some =>
    dsimp only [getOr, bind, Except.bind]
    refine report_follows SaveStatus.isDone_iff SaveStatus.isFailed_iff
      (SaveStatus.standing_of_report successfully) (congrArg (Option.map _) hop) ?_ ?_
    · intro statuses' hrec
      rw [hrec]
      exact ⟨rfl, rfl⟩
    · intro statuses' failed hrec
      rw [hrec]
      cases failed with
      | true | false => exact ⟨rfl, fun cb hcb => congrArg _ (body_of_broadcast hcb)⟩

/-! The same for a restore, which has no separate beginning. -/

theorem announceRestore_verdict {participants : List (FederateHandle × String)} :
    ∀ cb ∈ announceRestore c fed label participants, ∀ w, cb.body.verdict? ≠ some (k, w) := by
  intro cb hcb w
  rcases List.mem_append.mp hcb with hcb | hcb
  · rcases List.mem_append.mp hcb with hcb | hcb
    · rw [(Federation.mem_fanOut_own hcb).1]
      exact nofun
    · obtain ⟨_, _, rfl⟩ := mem_fanOut.mp hcb
      exact nofun
  · obtain ⟨p, _, hcb⟩ := List.mem_flatMap.mp hcb
    rw [(Federation.mem_fanOut_own hcb).1]
    exact nofun

/-- The statuses of a restore go by the handles in the records. -/
theorem mem_restoreParticipants (hk : fed.Keyed) {o : IterOrder FederateHandle} :
    f ∈ ((fed.sessions o).map fun e => (e.2.handle, e.2.name)).map Prod.fst ↔
      f ∈ fed.federates.keys := by
  rw [List.map_map, List.mem_map, ← AList.mem_keys]
  constructor
  · rintro ⟨e, he, rfl⟩
    have hlook := Federation.mem_sessions.mp he
    show e.2.handle ∈ fed.federates
    rw [hk.federates e.1 e.2 hlook]
    exact HashMap.mem_of_lookup hlook
  · intro hf
    obtain ⟨fs, hfs⟩ := HashMap.mem_iff_lookup.mp hf
    exact ⟨(f, fs), Federation.mem_sessions.mpr hfs, hk.federates f fs hfs⟩

section ApplySnapshot

variable {o : IterOrder FederateHandle} {snap : FederationSnapshot}

theorem records_applySnapshot : (fed.applySnapshot o snap).view .saveRestore = fed.view .saveRestore :=
  touches_applySnapshot .saveRestore (by decide)

theorem currentSave_applySnapshot : (fed.applySnapshot o snap).currentSave = fed.currentSave :=
  congrArg (fun v => v.1) records_applySnapshot

theorem currentRestore_applySnapshot :
    (fed.applySnapshot o snap).currentRestore = fed.currentRestore :=
  congrArg (fun v => v.2.1) records_applySnapshot

theorem lastSaveLabel_applySnapshot : (fed.applySnapshot o snap).lastSaveLabel = fed.lastSaveLabel :=
  congrArg (fun v => v.2.2) records_applySnapshot

end ApplySnapshot

theorem restoreBegun_tally (hk : fed.Keyed) :
    Orchestration.restore.tally (fed.restoreBegun c label) = some (.ofMembers fed.federates.keys) :=
  congrArg some ((tallyOf_statusesOf _ rfl).trans
    (Tally.ofMembers_congr fun _ => mem_restoreParticipants hk))

theorem Federation.RestoresTo.tally_restore (hk : fed.Keyed) (h : fed.RestoresTo c label fed') :
    Orchestration.restore.tally fed' = some (.ofMembers fed.federates.keys) := by
  have hbegun : Orchestration.restore.tally (fed.restoreBegun c label) = _ := restoreBegun_tally hk
  cases h with
  | unsaved => exact hbegun
  | saved => exact (congrArg (Option.map _) currentRestore_applySnapshot).trans hbegun

theorem Federation.RestoresTo.tally_save (h : fed.RestoresTo c label fed') :
    Orchestration.save.tally fed' = Orchestration.save.tally fed := by
  cases h with
  | unsaved => rfl
  | saved => exact congrArg (Option.map _) currentSave_applySnapshot

theorem readFailed_verdict :
    ∀ cb ∈ fanOut (fed.ownConnection c c.federate) (.requestFederationRestoreFailed label),
      ∀ w, cb.body.verdict? ≠ some (k, w) := by
  intro cb hcb w
  rw [(Federation.mem_fanOut_own hcb).1]
  exact nofun

theorem requestFederationRestore_follows (hk : fed.Keyed) (label : String) :
    Orchestration.restore.Follows
      (if label = "" ∨ c.env.readFails = true then .nothing else .start fed.federates.keys) fed
      (requestFederationRestore c fed label) := by
  apply requestFederationRestore_cases
  · intro hl e
    rw [if_pos (.inl hl)]
    exact .reject (.nothing _) e
  · intro _ hread
    rw [if_pos (.inr hread)]
    exact .other rfl readFailed_verdict
  · intro hl hread op hop e
    rw [if_neg (not_or.mpr ⟨hl, hread⟩)]
    refine .reject ?_ e
    rw [Orchestration.tally, hop]
    exact .busy _ _
  · intro hl hread hop fed' _ hto
    rw [if_neg (not_or.mpr ⟨hl, hread⟩)]
    refine .silent ?_ announceRestore_verdict
    show Tally.Serves _ _ (Orchestration.restore.tally fed') none
    rw [hto.tally_restore hk, Orchestration.tally, hop]
    exact .starts _

theorem federateRestoreProgressed_follows (successfully : Bool) :
    Orchestration.restore.Follows (.report c.federate successfully) fed
      (federateRestoreProgressed c fed successfully) := by
  rw [federateRestoreProgressed]
  cases hop : fed.currentRestore with
  | none =>
    refine .reject ?_ _
    rw [Orchestration.tally, hop]
    exact .refuses _ _
  | some =>
    dsimp only [getOr, bind, Except.bind]
    refine report_follows RestoreStatus.isDone_iff RestoreStatus.isFailed_iff
      (RestoreStatus.standing_of_report successfully) (congrArg (Option.map _) hop) ?_ ?_
    · intro statuses' hrec
      rw [hrec]
      exact ⟨rfl, rfl⟩
    · intro statuses' failed hrec
      rw [hrec]
      refine ⟨rfl, fun cb hcb => ?_⟩
      rw [body_of_broadcast hcb]
      cases failed <;> rfl

theorem federateSaveProgressed_other {successfully : Bool} :
    Orchestration.restore.Follows .nothing fed (federateSaveProgressed c fed successfully) := by
  refine Outcome.ofExcept_of (Q := Orchestration.restore.Follows .nothing fed)
    (fun e => .reject (.nothing _) e) (.bind fun _ _ => ?_)
  dsimp only
  split
  · exact .pure (.other rfl fun _ hcb => by cases hcb)
  · exact .pure (.other rfl (verdict_broadcast fun _ h => by cases h))
  · exact .pure (.other rfl (verdict_broadcast fun _ h => by cases h))

theorem federateRestoreProgressed_other {successfully : Bool} :
    Orchestration.save.Follows .nothing fed (federateRestoreProgressed c fed successfully) := by
  refine Outcome.ofExcept_of (Q := Orchestration.save.Follows .nothing fed)
    (fun e => .reject (.nothing _) e) (.bind fun _ _ => ?_)
  dsimp only
  split
  · exact .pure (.other rfl fun _ hcb => by cases hcb)
  · next failed _ =>
      refine .pure (.other rfl (verdict_broadcast ?_))
      cases failed with
      | true => exact nofun
      | false => exact nofun

theorem requestFederationRestore_other :
    Orchestration.save.Follows .nothing fed (requestFederationRestore c fed label) :=
  requestFederationRestore_cases (fun _ => .reject (.nothing _)) (fun _ _ => .other rfl readFailed_verdict)
    (fun _ _ _ _ => .reject (.nothing _))
    fun _ _ _ _ _ hto => .other hto.tally_save announceRestore_verdict

/-- A service for the one operation does not concern the other. -/
theorem serveSaveRestore_other {r : SaveRestoreRequest} (hr : r.orchestration ≠ k) :
    k.Follows .nothing fed (serveSaveRestore c fed r) := by
  have hrej : ∀ e, k.Follows .nothing fed (.reject fed e) := fun e => .reject (.nothing _) e
  cases k with
  | restore =>
    cases r with
    | requestFederationSave =>
      exact Outcome.ofExcept_of hrej (.bind fun _ _ => .bind fun _ _ =>
        .pure (.other rfl (verdict_broadcast fun _ h => by cases h)))
    | federateSaveBegun =>
      exact Outcome.ofExcept_of hrej (.bind fun _ _ => .bind fun _ _ => .bind fun _ _ =>
        .pure (.other rfl fun _ hcb => by cases hcb))
    | federateSaveComplete | federateSaveNotComplete => exact federateSaveProgressed_other
    | abortFederationSave =>
      exact Outcome.ofExcept_of hrej (.bind fun _ _ =>
        .pure (.other rfl fun _ hcb => by cases hcb))
    | _ => exact absurd rfl hr
  | save =>
    cases r with
    | requestFederationRestore => exact requestFederationRestore_other
    | federateRestoreComplete | federateRestoreNotComplete =>
      exact federateRestoreProgressed_other
    | abortFederationRestore =>
      exact Outcome.ofExcept_of hrej (.bind fun _ _ =>
        .pure (.other rfl fun _ hcb => by cases hcb))
    | _ => exact absurd rfl hr

/-- **Both operations are coordinators.** -/
theorem serveSaveRestore_follows (hk : fed.Keyed) (r : SaveRestoreRequest) (k : Orchestration) :
    k.Follows (r.ask c fed k) fed (serveSaveRestore c fed r) := by
  by_cases hr : r.orchestration = k
  · subst hr
    cases r with
    | requestFederationSave withTime label => exact requestFederationSave_follows label
    | federateSaveBegun => exact federateSaveBegun_follows
    | federateSaveComplete => exact federateSaveProgressed_follows true
    | federateSaveNotComplete => exact federateSaveProgressed_follows false
    | abortFederationSave | abortFederationRestore =>
      exact abort_follows Option.map_eq_none_iff.mpr rfl
    | requestFederationRestore label => exact requestFederationRestore_follows hk label
    | federateRestoreComplete => exact federateRestoreProgressed_follows true
    | federateRestoreNotComplete => exact federateRestoreProgressed_follows false
  · have hask : r.ask c fed k = .nothing := by
      cases r <;> cases k <;> first | rfl | exact absurd rfl hr
    rw [hask]
    exact serveSaveRestore_other hr

theorem SaveRestoreRequest.report?_of_ask {r : SaveRestoreRequest} {well : Bool}
    (h : r.ask c fed k = .report f well) :
    r.report? = some (k, well) ∧ c.federate = f := by
  cases k with
  | save =>
    cases r with
    | requestFederationSave =>
      rw [ask] at h
      split at h <;> cases h
    | federateSaveComplete | federateSaveNotComplete => cases h; exact ⟨rfl, rfl⟩
    | _ => cases h
  | restore =>
    cases r with
    | requestFederationRestore =>
      rw [ask] at h
      split at h <;> cases h
    | federateRestoreComplete | federateRestoreNotComplete => cases h; exact ⟨rfl, rfl⟩
    | _ => cases h

/-- An operation is started for the joined federates. -/
theorem SaveRestoreRequest.members_of_ask {r : SaveRestoreRequest} {members : List FederateHandle}
    (h : r.ask c fed k = .start members) :
    members = fed.federates.keys := by
  cases k with
  | save =>
    cases r with
    | requestFederationSave =>
      rw [ask] at h
      split at h <;> cases h
      rfl
    | _ => cases h
  | restore =>
    cases r with
    | requestFederationRestore =>
      rw [ask] at h
      split at h <;> cases h
      rfl
    | _ => cases h

/-! ## Actions -/

namespace FedAction

variable {a : FedAction}

def ask (fed : Federation) (k : Orchestration) : FedAction → Poll.Ask FederateHandle
  | serve c (.saveRestore r) => r.ask c fed k
  | _ => .nothing

/-- The report the action is: on which operation, of whom, and how. -/
def report? : FedAction → Option (Orchestration × FederateHandle × Bool)
  | serve c (.saveRestore r) => r.report?.map fun kw => (kw.1, c.federate, kw.2)
  | _ => none

/-- The verdicts the action announces. -/
def verdicts (fed : Federation) : FedAction → List (Orchestration × Bool)
  | serve c req => (Hla4.serve c fed req).callbacks.filterMap fun cb => cb.body.verdict?
  | _ => []

/-- A report comes from a federate with a status, and takes no failure back. -/
def InTurn (fed : Federation) (a : FedAction) : Prop :=
  ∀ rep ∈ a.report?, ∀ t ∈ rep.1.tally fed, t.InTurn rep.2.1 rep.2.2

instance (fed : Federation) (a : FedAction) : Decidable (a.InTurn fed) :=
  inferInstanceAs (Decidable (∀ rep ∈ a.report?, ∀ t ∈ rep.1.tally fed, t.InTurn rep.2.1 rep.2.2))

theorem InTurn.ask (h : a.InTurn fed) (k : Orchestration) :
    Tally.AskInTurn (k.tally fed) (a.ask fed k) := by
  cases a with
  | serve c req =>
    cases req with
    | saveRestore r =>
      rw [FedAction.ask]
      cases hq : r.ask c fed k with
      | report f well =>
        obtain ⟨hrep, rfl⟩ := SaveRestoreRequest.report?_of_ask hq
        exact h (k, c.federate, well) (by rw [report?, hrep]; rfl)
      | _ => trivial
    | _ => trivial
  | _ => trivial

/-- An action other than a save or restore service leaves the records of both
alone. -/
theorem records_of_quiet (fed : Federation) (hc : ∀ name fom, a ≠ .create name fom)
    (ha : ∀ c r, a ≠ .serve c (.saveRestore r)) :
    (a.apply fed).view .saveRestore = fed.view .saveRestore := by
  cases a with
  | create name fom => exact absurd rfl (hc name fom)
  | join requested sessionId => exact fed.join_view requested sessionId (by simp) (by simp)
  | leave => rfl
  | serve c req =>
    refine serve_footprint req .saveRestore ?_
    cases req with
    | saveRestore r => exact absurd rfl (ha c r)
    | _ => simp [ServiceRequest.parts]

theorem tally_of_quiet (hc : ∀ name fom, a ≠ .create name fom)
    (ha : ∀ c r, a ≠ .serve c (.saveRestore r)) (k : Orchestration) :
    k.tally (a.apply fed) = k.tally fed := by
  have hsame := records_of_quiet fed hc ha
  exact Orchestration.tally_congr (congrArg (fun v => v.1) hsame)
    (congrArg (fun v => v.2.1) hsame) k

theorem verdicts_of_quiet (ha : ∀ c r, a ≠ .serve c (.saveRestore r)) :
    a.verdicts fed = [] := by
  cases a with
  | serve c req =>
    rw [verdicts, List.filterMap_eq_nil_iff]
    intro cb hcb
    have htopic := serve_topics req cb hcb
    cases hbody : cb.body.verdict? with
    | none => rfl
    | some =>
      have hon : cb.body.topic = .saveRestore := by
        revert hbody
        cases cb.body <;> first | exact fun _ => rfl | exact nofun
      rw [hon] at htopic
      cases req with
      | saveRestore r => exact absurd rfl (ha c r)
      | _ => simp [ServiceRequest.topics] at htopic
  | _ => rfl

/-- **What an action does to an operation**: what a coordinator does, with no
other verdict. -/
theorem serves (hk : fed.Keyed) (hc : ∀ name fom, a ≠ .create name fom) (k : Orchestration) :
    ∃ v, Tally.Serves (a.ask fed k) (k.tally fed) (k.tally (a.apply fed)) v ∧
      ∀ w, (k, w) ∈ a.verdicts fed → v = some w := by
  by_cases ha : ∃ c r, a = .serve c (.saveRestore r)
  · obtain ⟨c, r, rfl⟩ := ha
    obtain ⟨v, hserves, hv⟩ := serveSaveRestore_follows (c := c) hk r k
    refine ⟨v, hserves, ?_⟩
    intro w hw
    obtain ⟨cb, hcb, hbody⟩ := List.mem_filterMap.mp hw
    exact hv cb hcb w hbody
  · have ha' : ∀ c r, a ≠ .serve c (.saveRestore r) := fun c r he => ha ⟨c, r, he⟩
    have hask : a.ask fed k = .nothing := by
      cases a with
      | serve c req =>
        cases req with
        | saveRestore r => exact absurd rfl (ha' c r)
        | _ => rfl
      | _ => rfl
    refine ⟨none, ?_, ?_⟩
    · rw [hask, tally_of_quiet hc ha']
      exact .nothing _
    · rw [verdicts_of_quiet ha']
      exact nofun

end FedAction

/-! ## The verdict -/

/-- The operations in progress, as polls among the federates that were joined
when they were asked for. -/
abbrev ReportLog := Polls Orchestration FederateHandle

def ReportLog.record (fed : Federation) (a : FedAction) (g : ReportLog) : ReportLog :=
  match a with
  | .create _ _ => .closed
  | _ => fun k => Poll.after (g k) (a.ask fed k)

/-- The statuses are what the members reported. -/
def ReportLog.Mirrored (fed : Federation) (g : ReportLog) : Prop :=
  ∀ k : Orchestration, Option.Rel Tally.Mirrors (k.tally fed) (g k)

theorem ReportLog.mirrored_apply (fed : Federation) (g : ReportLog) (a : FedAction)
    (h : fed.Keyed ∧ g.Mirrored fed) (hturn : a.InTurn fed) :
    (a.apply fed).Keyed ∧ (record fed a g).Mirrored (a.apply fed) := by
  refine ⟨keyed_apply fed a h.1, ?_⟩
  by_cases hc : ∃ name fom, a = .create name fom
  · obtain ⟨name, fom, rfl⟩ := hc
    intro k
    cases k with
    | save => exact .none
    | restore => exact .none
  · have hrecord : record fed a g = fun k => Poll.after (g k) (a.ask fed k) := by
      cases a with
      | create name fom => exact absurd ⟨name, fom, rfl⟩ hc
      | _ => rfl
    intro k
    rw [hrecord]
    obtain ⟨v, hserves, _⟩ := FedAction.serves h.1 (fun name fom he => hc ⟨name, fom, he⟩) k
    exact hserves.mirrors (hturn.ask k) (h.2 k)

instance : DecidableEq SaveOperation := fun op op' =>
  decidable_of_iff (op.label = op'.label ∧ op.statuses.entries = op'.statuses.entries) (by
    cases op
    cases op'
    rw [SaveOperation.mk.injEq, ← AList.ext_iff])

instance : DecidableEq RestoreOperation := fun op op' =>
  decidable_of_iff (op.label = op'.label ∧ op.statuses.entries = op'.statuses.entries) (by
    cases op
    cases op'
    rw [RestoreOperation.mk.injEq, ← AList.ext_iff])

/-- A good verdict is one on reports of all members, none of them bad; and a
report from outside changes nothing. -/
def ReportsDecide (fed : Federation) (g : ReportLog) (a : FedAction) : Prop :=
  (∀ v ∈ a.verdicts fed, v.2 = true → ∃ p ∈ Poll.completed (g v.1) (a.ask fed v.1),
    (∀ f ∈ p.members, (f, true) ∈ p.reports) ∧ ∀ f ∈ p.members, (f, false) ∉ p.reports) ∧
  ∀ rep ∈ a.report?, ∀ p ∈ g rep.1, rep.2.1 ∉ p.members →
    (a.apply fed).currentSave = fed.currentSave ∧
      (a.apply fed).currentRestore = fed.currentRestore ∧ a.verdicts fed = []

instance (fed : Federation) (g : ReportLog) (a : FedAction) : Decidable (ReportsDecide fed g a) :=
  inferInstanceAs (Decidable (_ ∧ _))

theorem reportsDecide {g : ReportLog} {a : FedAction} (hk : fed.Keyed) (hm : g.Mirrored fed)
    (hturn : a.InTurn fed) : ReportsDecide fed g a := by
  constructor
  · rintro ⟨k, w⟩ hv rfl
    have hc : ∀ name fom, a ≠ .create name fom := by
      rintro name fom rfl
      cases hv
    obtain ⟨v, hserves, hverdict⟩ := FedAction.serves hk hc k
    cases hverdict true hv
    obtain ⟨p, hp, hcomplete, hnot⟩ := hserves.verdict (hturn.ask k) (hm k)
    refine ⟨p, hp, ?_, fun f _ => hnot f⟩
    intro f hf
    obtain ⟨well, hrep⟩ := hcomplete f hf
    cases well with
    | true => exact hrep
    | false => exact absurd hrep (hnot f)
  · rintro ⟨k, f, well⟩ hrep p hp hout
    have hrel := hm k
    rw [show g k = some p from hp] at hrel
    cases ht : k.tally fed with
    | none => rw [ht] at hrel; cases hrel
    | some t =>
      rw [ht] at hrel
      obtain ⟨hmirrors⟩ := hrel
      exact absurd ((hmirrors.members f).mpr (hturn _ hrep t ht).1) hout

/-- **The reports of the members decide.**  In every run in which, in federation
`r`, reports on an operation in progress come from federates that have a status
in it, and none reports completion after a failure: every step announces a good
verdict only on reports of all members of which none is bad, and no report from
outside changes anything. -/
theorem Node.reports_decide (r : FedRef) {es : List NodeEvent}
    (hturn : StepsMeet Node.step (Node.MeetsAt r fun fed a => a.InTurn fed) Node.new es) :
    StepsMeet (logged Node.step (Node.track r ReportLog.record)) (Node.MeetsWith r ReportsDecide)
      (Node.new, .closed) es := by
  refine Node.track_each (I := fun fed g => fed.Keyed ∧ ReportLog.Mirrored fed g) ?_
    ReportLog.mirrored_apply (fun fed g a h hok => reportsDecide h.1 h.2 hok) hturn
  refine ⟨Federation.keyed_new _ _, fun k => ?_⟩
  cases k with
  | save => exact .none
  | restore => exact .none

/-- Federate 1 asks for a save. -/
def pairSaving : List NodeEvent :=
  pairJoined ++ [.serves 0 (.saveRestore (.requestFederationSave false "l"))]

/-- A save that both federates complete. -/
theorem Node.reports_decide_pair :
    let rest : List NodeEvent :=
      [.serves 0 (.saveRestore .federateSaveComplete), .serves 1 (.saveRestore .federateSaveComplete)]
    ([0, 1, 2].map fun k => ((run (logged Node.step (Node.track 0 ReportLog.record))
        (Node.new, .closed) (pairSaving ++ rest.take k)).2 .save).map Poll.reports) =
      [some [], some [(⟨1⟩, true)], none] ∧
    StepsMeet (logged Node.step (Node.track 0 ReportLog.record)) (Node.MeetsWith 0 ReportsDecide)
      (Node.new, .closed) (pairSaving ++ rest) :=
  ⟨by decide +kernel, Node.reports_decide 0 (by decide +kernel)⟩

/-- A failure is taken back, in a save and in a restore; and a federate reports
that joined after the request, of a save and of a restore. -/
def unfairRuns : List (List NodeEvent) :=
  let alone := pairJoined.take 4
  [pairSaving ++
      [.serves 0 (.saveRestore .federateSaveNotComplete),
        .serves 0 (.saveRestore .federateSaveComplete),
        .serves 1 (.saveRestore .federateSaveComplete)],
    pairJoined ++ [.serves 0 (.saveRestore (.requestFederationRestore "l")),
        .serves 0 (.saveRestore .federateRestoreNotComplete),
        .serves 0 (.saveRestore .federateRestoreComplete),
        .serves 1 (.saveRestore .federateRestoreComplete)],
    alone ++ [.serves 0 (.saveRestore (.requestFederationSave false "l")), .joins 1,
      .serves 1 (.saveRestore .federateSaveNotComplete)],
    alone ++ [.serves 0 (.saveRestore (.requestFederationRestore "l")), .joins 1,
      .serves 1 (.saveRestore .federateRestoreNotComplete)]]

/-- **Unfair verdicts.**  The last step of each of these runs announces a good
verdict on a bad report, or counts a report from outside. -/
theorem Node.reports_miscounted :
    unfairRuns.Forall fun es =>
      StepsMeet (logged Node.step (Node.track 0 ReportLog.record)) (Node.MeetsWith 0 ReportsDecide)
        (Node.new, .closed) es.dropLast ∧
      ¬ StepsMeet (logged Node.step (Node.track 0 ReportLog.record)) (Node.MeetsWith 0 ReportsDecide)
        (Node.new, .closed) es := by
  rw [List.forall_iff_forall_mem]
  decide +kernel

end Hla4
