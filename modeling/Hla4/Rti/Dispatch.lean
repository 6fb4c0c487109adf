/-
# `Hla4.Rti.Dispatch` — the services of a federation, together

`serve` is the part of `dispatch_call` that works on the federation the caller
is joined to.  What every property starts from:

    service      may change                                       sends
    declaration  published, subscribed, matrix                    relevance advisories
    region       regions, counters, subscribed, matrix            relevance advisories
    directed     directed interactions                            directed interactions
    object       instances, counters, discovered, queues          data
    ownership    instances                                        ownership
    save/restore saves, instances, counters, sync points          save and restore
    sync point   sync points                                      sync points
    switch       switches                                         nothing
    lookup       nothing                                          nothing
    time         times, queues                                    grants, and queued data

No service changes who is joined, or the object model (`serve_touches`); only
the time services change times or grant (`serve_confined`).  The two columns
are `serve_footprint` and `serve_topics`.
-/
import Hla4.Rti.Coordination
import Hla4.Rti.Dispatch.Lookup
import Hla4.Rti.Dispatch.Ownership
import Hla4.Rti.Dispatch.Region
import Hla4.Rti.Dispatch.SaveRestore

namespace Hla4

open Lib

/-- The service part of `dispatch_call`. -/
def serve (c : Caller) (fed : Federation) : ServiceRequest → Outcome
  | .declaration r => serveDeclaration c fed r
  | .region r => serveRegion c fed r
  | .directed r => serveDirected c fed r
  | .object r => serveObject c fed r
  | .ownership r => serveOwnership c fed r
  | .saveRestore r => serveSaveRestore c fed r
  | .syncPoint r => serveSyncPoint c fed r
  | .time r => serveTime c fed r
  | .switch r => serveSwitch c fed r
  | .lookup r => serveLookup c fed r

/-- The exception for a caller that is not joined. -/
def ServiceRequest.notJoined : ServiceRequest → ExceptionData
  | .lookup r => r.missingHandle.getD HlaException.federateNotExecutionMember.bare
  | _ => HlaException.federateNotExecutionMember.bare

/-- The time request, if it is one. -/
def ServiceRequest.timeRequest? : ServiceRequest → Option TimeRequest
  | .time r => some r
  | _ => none

variable {c : Caller} {fed : Federation}

/-! ## Footprints -/

/-- What the services other than the time services may change. -/
def untimedParts : List Part :=
  [.federate .published, .federate .subscribed, .federate .discovered, .federate .subscribedRegions,
    .federate .directed, .federate .switches, .federate .queue, .instances, .subscriptions,
    .syncPoints, .regions, .saveRestore, .counters]

theorem serve_confined {r : ServiceRequest} (hr : ∀ t, r ≠ .time t) :
    (serve c fed r).Confined untimedParts CallbackRequest.NotGrant fed := by
  have untimed : ∀ {ps : List Part} {t : CallbackTopic} {o : Outcome}, ps ⊆ untimedParts →
      t ∉ [.object, .interaction, .time] → o.Confined ps (CallbackRequest.On t) fed →
      o.Confined untimedParts CallbackRequest.NotGrant fed :=
    fun hs ht h => (h.mono hs).weaken fun _ hb => (hb.untimed ht).notGrant
  cases r with
  | declaration r => exact untimed (by decide) (by decide) (serveDeclaration_confined r)
  | region r => exact untimed (by decide) (by decide) (serveRegion_confined r)
  | directed r => exact untimed (by decide) (by decide) (serveDirected_confined r)
  | object r =>
    exact ((serveObject_confined r).mono (by decide)).weaken fun _ => CallbackRequest.Data.notGrant
  | ownership r => exact untimed (by decide) (by decide) (serveOwnership_confined r)
  | saveRestore r => exact untimed (by decide) (by decide) (serveSaveRestore_confined r)
  | syncPoint r => exact untimed (by decide) (by decide) (serveSyncPoint_confined r)
  | time r => exact absurd rfl (hr r)
  | switch r => exact ((serveSwitch_confined r).mono (by decide)).weaken fun _ => False.elim
  | lookup r => exact ((serveLookup_confined c fed r).mono (by decide)).weaken fun _ => False.elim

/-- The topics a request's callbacks can have. -/
def ServiceRequest.topics : ServiceRequest → List CallbackTopic
  | .declaration _ => [.relevance]
  | .region _ => [.relevance]
  | .directed _ => [.directed]
  | .object _ => [.object, .interaction]
  | .ownership _ => [.ownership]
  | .saveRestore _ => [.saveRestore]
  | .syncPoint _ => [.syncPoint]
  | .time _ => [.time, .object, .interaction]
  | .switch _ => []
  | .lookup _ => []

theorem serveTime_topics (r : TimeRequest) :
    ∀ cb ∈ (serveTime c fed r).callbacks, cb.body.On .time ∨ cb.body.Data := by
  rcases serveTime_cases c fed r with ⟨e, _, he⟩ | ⟨s, resp, own, hs, hown, hcase⟩
  · rw [he]
    exact List.forall_mem_nil _
  · rcases hcase with ⟨_, he⟩ | ⟨_, pass, hpass, he⟩
    · rw [he]
      exact fun cb hcb => .inl (hown cb hcb).2
    · rw [he]
      intro cb hcb
      rcases List.mem_append.mp hcb with hcb | hcb
      · exact .inl (hown cb hcb).2
      · rcases hpass.callbacks cb hcb with ⟨g, _, hbody, _⟩ | ⟨_, _, m, _, _, _, hbody, _⟩
        · rw [hbody]
          exact .inl rfl
        · rw [hbody]
          exact .inr (CallbackRequest.data_of_timestamp m.stamped)

/-- **Who sends what.** -/
theorem serve_topics (r : ServiceRequest) :
    ∀ cb ∈ (serve c fed r).callbacks, cb.body.topic ∈ r.topics := by
  have data : ∀ {body : CallbackRequest}, body.Data → body.topic ∈ [.object, .interaction] :=
    fun h => by simpa [CallbackRequest.Data, CallbackRequest.On] using h
  have one : ∀ {ps : List Part} {t : CallbackTopic} {o : Outcome},
      o.Confined ps (CallbackRequest.On t) fed → ∀ cb ∈ o.callbacks, cb.body.topic ∈ [t] :=
    fun ho cb hcb => List.mem_singleton.mpr (ho.bodies cb hcb)
  cases r with
  | declaration r => exact one (serveDeclaration_confined r)
  | region r => exact one (serveRegion_confined r)
  | directed r => exact one (serveDirected_confined r)
  | object r => exact fun cb hcb => data ((serveObject_confined r).bodies cb hcb)
  | ownership r => exact one (serveOwnership_confined r)
  | saveRestore r => exact one (serveSaveRestore_confined r)
  | syncPoint r => exact one (serveSyncPoint_confined r)
  | time r =>
    intro cb hcb
    rcases serveTime_topics r cb hcb with h | h
    · exact List.mem_cons.mpr (.inl h)
    · exact List.mem_cons_of_mem _ (data h)
  | switch r => exact fun cb hcb => ((serveSwitch_confined r).bodies cb hcb).elim
  | lookup r => exact fun cb hcb => ((serveLookup_confined c fed r).bodies cb hcb).elim

theorem touches_section {r : TimeRequest} {s : TimeSection} (h : timeSection c fed r = .ok s) :
    Federation.Touches [.federate .time] fed s.federation := by
  obtain ⟨t, _, hs⟩ := timeSection_eq_ok.mp h
  rw [hs.federation]
  refine Federation.touches_modifyFederate [.time] ?_
  intro fs q hq
  cases q <;> first | rfl | exact absurd (List.mem_singleton_self _) hq

theorem serveTime_touches (r : TimeRequest) :
    Federation.Touches [.federate .time, .federate .queue] fed (serveTime c fed r).federation := by
  rcases serveTime_cases c fed r with ⟨e, _, he⟩ | ⟨s, resp, own, hs, _, hcase⟩
  · rw [he]
    exact .refl
  · have hsec := (touches_section hs).mono (show _ ⊆ [.federate .time, .federate .queue] by decide)
    rcases hcase with ⟨_, he⟩ | ⟨_, pass, hpass, he⟩
    · rw [he]
      exact hsec
    · rw [he]
      exact hsec.trans hpass.touches

/-- The parts a request may change. -/
def ServiceRequest.parts : ServiceRequest → List Part
  | .declaration _ => [.federate .published, .federate .subscribed, .subscriptions]
  | .region _ =>
    [.federate .subscribed, .subscriptions, .regions, .counters, .federate .subscribedRegions]
  | .directed _ => [.federate .directed]
  | .object _ => [.federate .queue, .counters, .instances, .federate .discovered]
  | .ownership _ => [.instances]
  | .saveRestore _ => [.saveRestore, .instances, .counters, .syncPoints]
  | .syncPoint _ => [.syncPoints]
  | .time _ => [.federate .time, .federate .queue]
  | .switch _ => [.federate .switches]
  | .lookup _ => []

/-- **Who changes what.** -/
theorem serve_footprint (r : ServiceRequest) :
    Federation.Touches r.parts fed (serve c fed r).federation := by
  cases r with
  | declaration r => exact (serveDeclaration_confined r).touches
  | region r => exact (serveRegion_confined r).touches
  | directed r => exact (serveDirected_confined r).touches
  | object r => exact (serveObject_confined r).touches
  | ownership r => exact (serveOwnership_confined r).touches
  | saveRestore r => exact (serveSaveRestore_confined r).touches
  | syncPoint r => exact (serveSyncPoint_confined r).touches
  | time r => exact serveTime_touches r
  | switch r => exact (serveSwitch_confined r).touches
  | lookup r => exact (serveLookup_confined c fed r).touches

/-- Outside the time services queues only gain messages, each ahead of its
receiver. -/
theorem serve_queuesGain {r : ServiceRequest} (hr : ∀ t, r ≠ .time t) :
    fed.QueuesGain (serve c fed r).federation := by
  cases r with
  | object r => exact serveObject_queue r
  | time r => exact absurd rfl (hr r)
  | _ =>
    exact .of_touches (serve_footprint _) (by simp [ServiceRequest.parts])
      (by simp [ServiceRequest.parts])

/-- What any service may change: not the identities of the joined federates,
and not the object model. -/
def serviceParts : List Part := .federate .time :: untimedParts

theorem serve_touches (r : ServiceRequest) :
    Federation.Touches serviceParts fed (serve c fed r).federation := by
  by_cases hr : ∃ t, r = .time t
  · obtain ⟨t, rfl⟩ := hr
    exact (serveTime_touches t).mono (by decide)
  · exact (serve_confined (not_exists.mp hr)).touches.mono (by decide)

theorem serve_mem_federates (r : ServiceRequest) (h : FederateHandle) :
    h ∈ (serve c fed r).federation.federates ↔ h ∈ fed.federates :=
  (serve_touches r).mem_federates (by decide) h

end Hla4
