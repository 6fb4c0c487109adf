/-
# `Hla4.Rti.Safety.SyncPoints` — synchronization points are polls

A registration opens a poll among its participants.  `SyncLog` keeps the polls
of the registrations that have not been synchronized, and is made from the
requests alone: who registered what with whom, and who reported how.  The
server keeps three sets a point instead, and compares the sizes of two.

    the log          the server                       related by
    a poll           participants, achieved, failed   `SyncPoint.Reflects`
    the open polls   `sync_points`                    `SyncLog.Agrees`

As long as nothing is restored the two agree (`agrees_apply`), and what the
server broadcasts is what the log says (`tells_synchronized`).
-/
import Hla4.Lib.Poll
import Hla4.Rti.Node
import Mathlib.Data.Option.Basic

namespace Hla4

open Lib

variable {c : Caller} {fed fed' : Federation} {label : String}

/-! ## What the two services do -/

theorem registerSynchronizationPoint_cases (c : Caller) (fed : Federation) (label : String)
    (tag : Bytes) (subset : Option (HashSet FederateHandle)) :
    (label = "" ∧ ∃ e, registerSynchronizationPoint c fed label tag subset = .reject fed e) ∨
    (label ≠ "" ∧ label ∈ fed.syncPoints ∧ registerSynchronizationPoint c fed label tag subset =
      .reply fed (.ack .registerFederationSynchronizationPoint)
        (fanOut (fed.ownConnection c c.federate) (.synchronizationPointRegistrationFailed label 0))) ∨
    (label ≠ "" ∧ label ∉ fed.syncPoints ∧ ∃ callbacks,
      (∀ cb ∈ callbacks, ∀ l failed, cb.body ≠ .federationSynchronized l failed) ∧
      registerSynchronizationPoint c fed label tag subset = .reply
        { fed with syncPoints :=
            fed.syncPoints.insert label ⟨label, tag, syncParticipants fed subset, ∅, ∅⟩ }
        (.ack .registerFederationSynchronizationPoint) callbacks) := by
  rw [registerSynchronizationPoint, require]
  by_cases hl : label = ""
  · rw [if_neg fun h => h hl]
    exact .inl ⟨hl, _, rfl⟩
  · rw [if_pos hl]
    by_cases hp : label ∈ fed.syncPoints
    · refine .inr (.inl ⟨hl, hp, ?_⟩)
      rw [if_pos hp]
      rfl
    · refine .inr (.inr ⟨hl, hp, ?_⟩)
      rw [if_neg hp]
      refine ⟨_, ?_, rfl⟩
      intro cb hcb l failed
      rcases List.mem_append.mp hcb with hcb | hcb
      · rw [(Federation.mem_fanOut_own hcb).1]
        exact CallbackRequest.noConfusion
      · obtain ⟨_, _, rfl⟩ := mem_fanOut.mp hcb
        exact CallbackRequest.noConfusion

/-- The last member has reported: the point is gone, and the members are told. -/
def pointSynchronized (c : Caller) (fed : Federation) (label : String) (sp : SyncPoint) : Outcome :=
  let fed' := { fed with syncPoints := fed.syncPoints.erase label }
  .reply fed' (.ack .synchronizationPointAchieved)
    (fanOut (fed'.liveConnections c sp.participants)
      (.federationSynchronized label sp.failedToSync.keys))

/-- A report is counted. -/
def pointReported (fed : Federation) (label : String) (sp : SyncPoint) : Outcome :=
  .reply { fed with syncPoints := fed.syncPoints.insert label sp }
    (.ack .synchronizationPointAchieved) []

theorem synchronizationPointAchieved_cases (c : Caller) (fed : Federation) (label : String)
    (successfully : Bool) :
    ((∀ sp, fed.syncPoints.lookup label = some sp → c.federate ∉ sp.participants) ∧
      ∃ e, synchronizationPointAchieved c fed label successfully = .reject fed e) ∨
    ∃ sp sp', fed.syncPoints.lookup label = some sp ∧ c.federate ∈ sp.participants ∧
      sp' = sp.achieve c.federate successfully ∧
      ((sp'.achieved.keys.length = sp'.participants.keys.length ∧
          synchronizationPointAchieved c fed label successfully = pointSynchronized c fed label sp') ∨
        (sp'.achieved.keys.length ≠ sp'.participants.keys.length ∧
          synchronizationPointAchieved c fed label successfully = pointReported fed label sp')) := by
  rw [synchronizationPointAchieved]
  cases hsp : fed.syncPoints.lookup label with
  | none => exact .inl ⟨nofun, _, rfl⟩
  | some sp =>
    by_cases hm : c.federate ∈ sp.participants
    · refine .inr ⟨sp, _, rfl, hm, rfl, ?_⟩
      dsimp only [getOr, bind, Except.bind]
      rw [require, if_pos hm]
      dsimp only
      split
      · next hlen => exact .inl ⟨hlen, rfl⟩
      · next hlen => exact .inr ⟨hlen, rfl⟩
    · refine .inl ⟨fun _ he => by cases he; exact hm, ?_⟩
      dsimp only [getOr, bind, Except.bind]
      rw [require, if_neg hm]
      exact ⟨_, rfl⟩

/-! ## A point and its poll -/

theorem SyncPoint.mem_achieved {sp : SyncPoint} {h f : FederateHandle} {successfully : Bool} :
    f ∈ (sp.achieve h successfully).achieved ↔ f = h ∨ f ∈ sp.achieved :=
  HashSet.mem_insert

theorem SyncPoint.mem_failedToSync {sp : SyncPoint} {h f : FederateHandle} {successfully : Bool} :
    f ∈ (sp.achieve h successfully).failedToSync ↔
      (f = h ∧ successfully = false) ∨ f ∈ sp.failedToSync := by
  cases successfully with
  | false | true => simp [achieve]

/-- The sets of a point are what the reports make of them, and only members
have reported. -/
structure SyncPoint.Reflects (sp : SyncPoint) (p : Poll FederateHandle) : Prop where
  participants : ∀ f, f ∈ sp.participants ↔ f ∈ p.members
  achieved : ∀ f, f ∈ sp.achieved ↔ p.Reported f
  failed : ∀ f, f ∈ sp.failedToSync ↔ p.Failed f
  heard : ∀ f, p.Reported f → f ∈ p.members

namespace SyncPoint.Reflects

variable {p : Poll FederateHandle} {sp : SyncPoint} {h : FederateHandle}

theorem ofMembers {tag : Bytes} {s : HashSet FederateHandle} :
    Reflects ⟨label, tag, s, ∅, ∅⟩ (.ofMembers s.keys) where
  participants _ := AList.mem_keys
  achieved _ := iff_of_false (AList.notMem_empty _) Poll.not_reported_ofMembers
  failed _ := iff_of_false (AList.notMem_empty _) Poll.not_failed_ofMembers
  heard _ hf := absurd hf Poll.not_reported_ofMembers

theorem achieve (hr : Reflects sp p) (successfully : Bool) (hm : h ∈ sp.participants) :
    Reflects (sp.achieve h successfully) (p.report h successfully) where
  participants := hr.participants
  achieved f := by rw [mem_achieved, Poll.reported_report, hr.achieved]
  failed f := by rw [mem_failedToSync, Poll.failed_report, hr.failed]
  heard f hf := by
    rcases Poll.reported_report.mp hf with rfl | hf
    · exact (hr.participants _).mp hm
    · exact hr.heard f hf

theorem achieved_sub (hr : Reflects sp p) : ∀ f ∈ sp.achieved, f ∈ sp.participants :=
  fun f hf => (hr.participants f).mpr (hr.heard f ((hr.achieved f).mp hf))

theorem failed_sub (hr : Reflects sp p) : ∀ f ∈ sp.failedToSync, f ∈ sp.achieved :=
  fun f hf => (hr.achieved f).mpr ((hr.failed f).mp hf).reported

/-- The sizes are equal when everybody has reported. -/
theorem complete_iff (hr : Reflects sp p) :
    sp.achieved.keys.length = sp.participants.keys.length ↔ p.Complete := by
  rw [HashSet.keys_length_eq_iff hr.achieved_sub]
  simp only [hr.participants, hr.achieved]
  rfl

end SyncPoint.Reflects

/-! ## The log -/

/-- The registrations that have not been synchronized, with the reports since. -/
abbrev SyncLog := Polls String FederateHandle

/-- The label a request registers, and the federates it names. -/
def SyncPointRequest.registers? :
    SyncPointRequest → Option (String × Option (HashSet FederateHandle))
  | .registerFederationSynchronizationPoint label _ => some (label, none)
  | .registerFederationSynchronizationPointWithSet label _ set =>
    some (label, some (HashSet.ofList ((set.getD []).filterMap decodeFederate)))
  | .synchronizationPointAchieved _ _ => none

/-- A registration, whichever form it has. -/
theorem SyncPointRequest.serve_registers (c : Caller) (fed : Federation) {r : SyncPointRequest}
    {subset : Option (HashSet FederateHandle)} (h : r.registers? = some (label, subset)) :
    ∃ tag, serveSyncPoint c fed r = registerSynchronizationPoint c fed label tag subset := by
  cases r with
  | registerFederationSynchronizationPoint _ tag
  | registerFederationSynchronizationPointWithSet _ tag => cases h; exact ⟨tag, rfl⟩
  | synchronizationPointAchieved l ok => cases h

namespace SyncLog

variable (g : SyncLog)

/-- A registration; without a label it is none. -/
def register (fed : Federation) (label : String) (subset : Option (HashSet FederateHandle)) :
    SyncLog :=
  if label = "" then g else g.ask label (.start (syncParticipants fed subset).keys)

def request (c : Caller) (fed : Federation) (r : SyncPointRequest) : SyncLog :=
  match r with
  | .synchronizationPointAchieved label successfully =>
    g.ask label (.report c.federate successfully)
  | _ =>
    match r.registers? with
    | some (label, subset) => g.register fed label subset
    | none => g

/-- The log after an action. -/
def record (fed : Federation) (a : FedAction) (g : SyncLog) : SyncLog :=
  match a with
  | .create _ _ => .closed
  | .serve c (.syncPoint r) => g.request c fed r
  | _ => g

/-- The poll of `label`, if the action is the report that completes it. -/
def synchronized (a : FedAction) (label : String) : Option (Poll FederateHandle) :=
  match a with
  | .serve c (.syncPoint (.synchronizationPointAchieved l successfully)) =>
    if l = label then Poll.completed (g label) (.report c.federate successfully) else none
  | _ => none

/-- The pending points are the open polls; none is without a label. -/
structure Agrees (fed : Federation) : Prop where
  points : ∀ label, Option.Rel SyncPoint.Reflects (fed.syncPoints.lookup label) (g label)
  unlabelled : g "" = none

variable {g}

theorem Agrees.congr (hg : g.Agrees fed) (h : fed'.syncPoints = fed.syncPoints) : g.Agrees fed' :=
  ⟨fun label => h ▸ hg.points label, hg.unlabelled⟩

theorem Agrees.of_lookup (hg : g.Agrees fed) {sp : SyncPoint}
    (hsp : fed.syncPoints.lookup label = some sp) : ∃ p, g label = some p ∧ sp.Reflects p := by
  have hrel := hg.points label
  rw [hsp] at hrel
  generalize g label = p? at hrel
  cases hrel with
  | some hr => exact ⟨_, rfl, hr⟩

theorem Agrees.of_open (hg : g.Agrees fed) {p : Poll FederateHandle} (hp : g label = some p) :
    ∃ sp, fed.syncPoints.lookup label = some sp ∧ sp.Reflects p := by
  have hrel := hg.points label
  rw [hp] at hrel
  generalize fed.syncPoints.lookup label = sp? at hrel
  cases hrel with
  | some hr => exact ⟨_, rfl, hr⟩

theorem Agrees.pending_iff (hg : g.Agrees fed) : (g label).isSome = true ↔ label ∈ fed.syncPoints := by
  rw [Option.isSome_iff_exists, HashMap.mem_iff_lookup]
  constructor
  · rintro ⟨p, hp⟩
    obtain ⟨sp, hsp, _⟩ := hg.of_open hp
    exact ⟨sp, hsp⟩
  · rintro ⟨sp, hsp⟩
    obtain ⟨p, hp, _⟩ := hg.of_lookup hsp
    exact ⟨p, hp⟩

/-- One entry changes, on both sides alike. -/
theorem Agrees.update (hg : g.Agrees fed) {sp? : Option SyncPoint}
    {p? : Option (Poll FederateHandle)} (hl : label ≠ "")
    (hsame : ∀ l ≠ label, fed'.syncPoints.lookup l = fed.syncPoints.lookup l)
    (hat : fed'.syncPoints.lookup label = sp?) (hrel : Option.Rel SyncPoint.Reflects sp? p?) :
    Agrees (Function.update g label p?) fed' := by
  refine ⟨fun l => ?_, ?_⟩
  · by_cases hll : l = label
    · subst hll
      rw [Function.update_self, hat]
      exact hrel
    · rw [Function.update_of_ne hll, hsame l hll]
      exact hg.points l
  · rw [Function.update_of_ne (Ne.symm hl)]
    exact hg.unlabelled

theorem Agrees.register (hg : g.Agrees fed) (tag : Bytes) (subset : Option (HashSet FederateHandle)) :
    (g.register fed label subset).Agrees
      (registerSynchronizationPoint c fed label tag subset).federation := by
  rw [SyncLog.register]
  rcases registerSynchronizationPoint_cases c fed label tag subset with
    ⟨hl, e, he⟩ | ⟨hl, hp, he⟩ | ⟨hl, hp, _, _, he⟩
  · rw [he, if_pos hl]
    exact hg
  · obtain ⟨p, hp⟩ := Option.isSome_iff_exists.mp (hg.pending_iff.mpr hp)
    rw [he, if_neg hl, Polls.ask_eq_self (by rw [hp]; rfl)]
    exact hg
  · have hclosed : g label = none := by
      rw [← Option.not_isSome_iff_eq_none]
      exact fun h => hp (hg.pending_iff.mp h)
    rw [he, if_neg hl, Polls.ask, hclosed]
    exact hg.update hl (fun l hll => AList.lookup_insert_ne hll) (AList.lookup_insert _)
      (.some .ofMembers)

/-- A report, seen from the log: it is refused and not counted, or a member's;
and then the point is gone exactly when the poll is complete. -/
theorem Agrees.achieved_cases (hg : g.Agrees fed) (c : Caller) (label : String)
    (successfully : Bool) :
    (Poll.after (g label) (.report c.federate successfully) = g label ∧
      Poll.completed (g label) (.report c.federate successfully) = none ∧
      ∃ e, synchronizationPointAchieved c fed label successfully = .reject fed e) ∨
    ∃ p sp', g label = some p ∧ c.federate ∈ p.members ∧ label ≠ "" ∧
      sp'.Reflects (p.report c.federate successfully) ∧
      (((p.report c.federate successfully).Complete ∧
          synchronizationPointAchieved c fed label successfully = pointSynchronized c fed label sp') ∨
        (¬ (p.report c.federate successfully).Complete ∧
          synchronizationPointAchieved c fed label successfully = pointReported fed label sp')) := by
  rcases synchronizationPointAchieved_cases c fed label successfully with
    ⟨hout, hrej⟩ | ⟨sp, sp', hsp, hm, rfl, hcase⟩
  · left
    cases hp : g label with
    | none => exact ⟨rfl, rfl, hrej⟩
    | some p =>
      obtain ⟨sp, hsp, hr⟩ := hg.of_open hp
      have hne : c.federate ∉ p.members := fun hm => hout sp hsp ((hr.participants _).mpr hm)
      exact ⟨Poll.after_outsider hne, Poll.completed_outsider hne, hrej⟩
  · right
    obtain ⟨p, hp, hr⟩ := hg.of_lookup hsp
    have hl : label ≠ "" := by
      rintro rfl
      cases hg.unlabelled.symm.trans hp
    have hr' := hr.achieve successfully hm
    refine ⟨p, _, hp, (hr.participants _).mp hm, hl, hr', ?_⟩
    simp only [ne_eq, hr'.complete_iff] at hcase
    exact hcase

theorem Agrees.report (hg : g.Agrees fed) (successfully : Bool) :
    Agrees (g.ask label (.report c.federate successfully))
      (synchronizationPointAchieved c fed label successfully).federation := by
  rcases hg.achieved_cases c label successfully with
    ⟨hsame, _, e, he⟩ | ⟨p, sp', hp, hm, hl, hr, ⟨hc, he⟩ | ⟨hc, he⟩⟩
  · rw [he, Polls.ask_eq_self hsame]
    exact hg
  · rw [he, Polls.ask, hp, Poll.after_member hm, if_pos hc]
    exact hg.update hl (fun l hll => AList.lookup_erase_ne hll) (AList.lookup_erase ..) .none
  · rw [he, Polls.ask, hp, Poll.after_member hm, if_neg hc]
    exact hg.update hl (fun l hll => AList.lookup_insert_ne hll) (AList.lookup_insert _) (.some hr)

theorem Agrees.serveSyncPoint (hg : g.Agrees fed) (r : SyncPointRequest) :
    (g.request c fed r).Agrees (serveSyncPoint c fed r).federation := by
  cases r with
  | registerFederationSynchronizationPoint label tag => exact hg.register tag none
  | registerFederationSynchronizationPointWithSet label tag => exact hg.register tag _
  | synchronizationPointAchieved label successfully => exact hg.report successfully

end SyncLog

/-- Only the synchronization services and a restore change the points. -/
theorem serve_syncPoints (req : ServiceRequest) (hr : (FedAction.serve c req).restores = false)
    (hs : ∀ r, req ≠ .syncPoint r) : (serve c fed req).federation.syncPoints = fed.syncPoints := by
  cases req with
  | saveRestore => exact (serveSaveRestore_records hr).touches .syncPoints (by decide)
  | syncPoint r => exact absurd rfl (hs r)
  | _ => exact serve_footprint _ .syncPoints (by simp [ServiceRequest.parts])

theorem FedAction.join_syncPoints (fed : Federation) (requested : Option String)
    (sessionId : UInt64) : (fed.join requested sessionId).1.syncPoints = fed.syncPoints :=
  fed.join_view requested sessionId (p := .syncPoints) (by simp) (by simp)

theorem SyncLog.agrees_apply (fed : Federation) (g : SyncLog) (a : FedAction) (hg : g.Agrees fed)
    (hr : a.restores = false) : (record fed a g).Agrees (a.apply fed) := by
  cases a with
  | create => exact ⟨fun _ => .none, rfl⟩
  | join => exact hg.congr (FedAction.join_syncPoints ..)
  | leave => exact hg.congr rfl
  | serve c req =>
    by_cases hs : ∃ r, req = .syncPoint r
    · obtain ⟨r, rfl⟩ := hs
      exact hg.serveSyncPoint r
    · have hsame : g.Agrees (serve c fed req).federation :=
        hg.congr (serve_syncPoints req hr (not_exists.mp hs))
      cases req with
      | syncPoint r => exact absurd ⟨r, rfl⟩ hs
      | _ => exact hsame

/-! ## What is broadcast -/

/-- Of `label`, the callbacks tell its participants that are connected, once
each and with the participants that failed, when the poll of `label` is
complete, and nobody anything otherwise. -/
def TellsSynchronized (c : Caller) (fed : Federation) (label : String)
    (callbacks : List OutboundCallback) : Option (Poll FederateHandle) → Prop
  | some p => ∃ failed, (∀ f, f ∈ failed ↔ f ∈ p.members ∧ p.Failed f) ∧
      ∀ h, bodiesFor h callbacks =
        if h ∈ p.members ∧ (fed.recipient c h).isSome = true then
          [.federationSynchronized label failed]
        else []
  | none => ∀ cb ∈ callbacks, ∀ failed, cb.body ≠ .federationSynchronized label failed

theorem TellsSynchronized.of_topics (req : ServiceRequest) (hs : ∀ r, req ≠ .syncPoint r) :
    TellsSynchronized c fed label (serve c fed req).callbacks none := by
  intro cb hcb failed hbody
  have htopic := serve_topics req cb hcb
  rw [hbody, CallbackRequest.topic] at htopic
  cases req with
  | syncPoint r => exact hs r rfl
  | _ => simp [ServiceRequest.topics] at htopic

theorem SyncLog.Agrees.tells_achieved {g : SyncLog} (hg : g.Agrees fed) (successfully : Bool) :
    TellsSynchronized c fed label (synchronizationPointAchieved c fed label successfully).callbacks
      (Poll.completed (g label) (.report c.federate successfully)) := by
  rcases hg.achieved_cases c label successfully with
    ⟨_, hnone, e, he⟩ | ⟨p, sp', hp, hm, _, hr, ⟨hc, he⟩ | ⟨hc, he⟩⟩
  · rw [he, hnone]
    exact fun cb hcb => by cases hcb
  · rw [he, hp, Poll.completed_member hm, if_pos hc]
    refine ⟨sp'.failedToSync.keys, ?_, ?_⟩
    · intro f
      rw [← AList.mem_keys, hr.failed]
      exact ⟨fun hf => ⟨hr.heard f hf.reported, hf⟩, And.right⟩
    · intro h
      refine Federation.bodiesFor_live.trans ?_
      simp only [hr.participants]
      rfl
  · rw [he, hp, Poll.completed_member hm, if_neg hc]
    exact fun cb hcb => by cases hcb

theorem registerSynchronizationPoint_tells {tag : Bytes} {subset : Option (HashSet FederateHandle)}
    {l : String} :
    TellsSynchronized c fed l (registerSynchronizationPoint c fed label tag subset).callbacks
      none := by
  rcases registerSynchronizationPoint_cases c fed label tag subset with
    ⟨_, e, he⟩ | ⟨_, _, he⟩ | ⟨_, _, callbacks, hnot, he⟩
  · rw [he]
    exact fun cb hcb => by cases hcb
  · rw [he]
    intro cb hcb failed
    rw [(Federation.mem_fanOut_own hcb).1]
    exact CallbackRequest.noConfusion
  · rw [he]
    exact fun cb hcb => hnot cb hcb l

/-- A report of one label says nothing of another. -/
theorem synchronizationPointAchieved_tells_other {successfully : Bool} {l : String}
    (hl : label ≠ l) :
    TellsSynchronized c fed l (synchronizationPointAchieved c fed label successfully).callbacks
      none := by
  rcases synchronizationPointAchieved_cases c fed label successfully with
    ⟨_, e, he⟩ | ⟨sp, sp', _, _, _, ⟨_, he⟩ | ⟨_, he⟩⟩
  · rw [he]
    exact fun cb hcb => by cases hcb
  · rw [he]
    intro cb hcb failed hbody
    obtain ⟨_, _, rfl⟩ := mem_fanOut.mp hcb
    exact hl (CallbackRequest.federationSynchronized.inj hbody).1
  · rw [he]
    exact fun cb hcb => by cases hcb

/-- **What is broadcast** is what the log says. -/
theorem SyncLog.Agrees.tells_synchronized {g : SyncLog} (hg : g.Agrees fed) (req : ServiceRequest)
    (label : String) :
    TellsSynchronized c fed label (serve c fed req).callbacks
      (g.synchronized (.serve c req) label) := by
  by_cases hs : ∃ r, req = .syncPoint r
  · obtain ⟨r, rfl⟩ := hs
    cases r with
    | registerFederationSynchronizationPoint | registerFederationSynchronizationPointWithSet =>
      exact registerSynchronizationPoint_tells
    | synchronizationPointAchieved l successfully =>
      rw [SyncLog.synchronized]
      split
      · next hl =>
          subst hl
          exact hg.tells_achieved successfully
      · next hl => exact synchronizationPointAchieved_tells_other hl
  · have hnone : g.synchronized (.serve c req) label = none := by
      cases req with
      | syncPoint r => exact absurd ⟨r, rfl⟩ hs
      | _ => rfl
    rw [hnone]
    exact .of_topics req (not_exists.mp hs)

/-! ## Agreement -/

/-- The agreement on one action, in view of the log. -/
structure SyncAgreement (fed : Federation) (g : SyncLog) (a : FedAction) : Prop where
  /-- the server's pending points are those of the log -/
  pending : ∀ label, label ∈ fed.syncPoints ↔ (g label).isSome = true
  /-- a point is declared synchronized by the report that completes its poll -/
  synchronized : ∀ c req, a = .serve c req → ∀ label,
    TellsSynchronized c fed label (serve c fed req).callbacks (g.synchronized a label)
  /-- a label that is pending is not registered again -/
  refused : ∀ c r label subset, a = .serve c (.syncPoint r) → r.registers? = some (label, subset) →
    (g label).isSome = true →
      (serveSyncPoint c fed r).federation = fed ∧
      (serveSyncPoint c fed r).callbacks = fanOut (fed.ownConnection c c.federate)
        (.synchronizationPointRegistrationFailed label 0)

theorem SyncLog.Agrees.agreement {g : SyncLog} (hg : g.Agrees fed) (a : FedAction) :
    SyncAgreement fed g a where
  pending _ := hg.pending_iff.symm
  synchronized c req ha label := by
    subst ha
    exact hg.tells_synchronized req label
  refused c r label subset _ hreg hp := by
    obtain ⟨tag, hserve⟩ := SyncPointRequest.serve_registers c fed hreg
    rw [hserve]
    rcases registerSynchronizationPoint_cases c fed label tag subset with
      ⟨rfl, _⟩ | ⟨_, _, he⟩ | ⟨_, hnot, _⟩
    · rw [hg.unlabelled] at hp
      cases hp
    · rw [he]
      exact ⟨rfl, rfl⟩
    · exact absurd (hg.pending_iff.mp hp) hnot

/-- **Synchronization point agreement.**  In every run that restores nothing in
federation `r`: a point that is pending counts as having achieved it only
participants, and as failed only those; and at every step the agreement holds,
in view of the registrations and reports so far. -/
theorem Node.synchronization_agreement (r : FedRef) {es : List NodeEvent}
    (hrest : StepsMeet Node.step (Node.MeetsAt r fun _ a => a.restores = false) Node.new es) :
    Always Node.step
      (fun n => ∀ label sp, (n.heap r).syncPoints.lookup label = some sp →
        (∀ f ∈ sp.achieved, f ∈ sp.participants) ∧ ∀ f ∈ sp.failedToSync, f ∈ sp.achieved)
      Node.new es ∧
    StepsMeet (logged Node.step (Node.track r SyncLog.record)) (Node.MeetsWith r SyncAgreement)
      (Node.new, .closed) es := by
  have hnew : SyncLog.Agrees .closed (.new "" .new) := ⟨fun _ => .none, rfl⟩
  constructor
  · intro done hd label sp hsp
    have hinv := Node.track_always (I := fun fed g => SyncLog.Agrees g fed) hnew
      SyncLog.agrees_apply hrest done hd
    dsimp only at hinv
    rw [run_logged_fst] at hinv
    obtain ⟨p, _, hr⟩ := hinv.of_lookup hsp
    exact ⟨hr.achieved_sub, hr.failed_sub⟩
  · exact Node.track_each (I := fun fed g => SyncLog.Agrees g fed) hnew SyncLog.agrees_apply
      (fun fed g a hg _ => hg.agreement a) hrest

/-- Federate 1 registers a point for everybody and fails to reach it. -/
def pairSynchronizing : List NodeEvent := pairJoined ++
  [.serves 0 (.syncPoint (.registerFederationSynchronizationPoint "s" [])),
    .serves 0 (.syncPoint (.synchronizationPointAchieved "s" false))]

/-- The point is pending until federate 2 reports, and may then be registered
again. -/
theorem Node.synchronization_agreement_pair :
    let rest : List NodeEvent :=
      [.serves 1 (.syncPoint (.registerFederationSynchronizationPoint "s" [])),
        .serves 1 (.syncPoint (.synchronizationPointAchieved "s" true)),
        .serves 1 (.syncPoint (.registerFederationSynchronizationPoint "s" []))]
    ([0, 1, 2, 3].map fun k => (((run (logged Node.step (Node.track 0 SyncLog.record))
        (Node.new, .closed) (pairSynchronizing ++ rest.take k)).2 "s").map Poll.reports)) =
      [some [(⟨1⟩, false)], some [(⟨1⟩, false)], none, some []] ∧
    StepsMeet (logged Node.step (Node.track 0 SyncLog.record)) (Node.MeetsWith 0 SyncAgreement)
      (Node.new, .closed) (pairSynchronizing ++ rest) :=
  ⟨by decide +kernel, (Node.synchronization_agreement 0 (by decide +kernel)).2⟩

end Hla4
