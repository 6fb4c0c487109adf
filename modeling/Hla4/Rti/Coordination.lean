/-
# `Hla4.Rti.Coordination` — passes of grants and the queues they drain

What the three passes of `time_mgmt.rs` have in common (`Coordinates`), read
off the code once:

  * their grants are a run of grants of the network, and leave nobody to grant;
  * a callback tells of a grant or is a message that was queued at the start;
  * the federates in `drains` get their queue drained, and get the messages
    before they are told of the grant.

The passes differ in `drains`, and that is all the difference there is:

    tryGrantPendingAdvances          nobody
    tryGrantPendingAdvancesWithTso   whoever may be granted at the start
    grantAtOnce                      these, and whoever may be granted once the
                                     caller is
-/
import Hla4.Rti.Dispatch.TimeMgmt

namespace Hla4

open Lib

variable {c : Caller} {fed fed' fed'' : Federation} {h : FederateHandle} {q : TsoQueue}
  {cb : OutboundCallback}

/-! ## Drains -/

namespace Federation

/-- From `fed` to `fed'` queues lost messages only, and what is left is ahead
of the drains. -/
def Drained (drains : FederateHandle → ℚ → Prop) (fed fed' : Federation) : Prop :=
  ∀ h q', fed'.queue h = some q' → ∃ q, fed.queue h = some q ∧
    q'.messages.Sublist q.messages ∧ ∀ m ∈ q'.messages, ∀ t, drains h t → (t : Timestamp) < m.time

namespace Drained

variable {drains drains' : FederateHandle → ℚ → Prop}

theorem of_queue_eq (h : fed'.queue = fed.queue) : Drained (fun _ _ => False) fed fed' := by
  intro k q' hq'
  rw [h] at hq'
  exact ⟨q', hq', .refl _, fun _ _ _ hf => hf.elim⟩

theorem trans (h : Drained drains fed fed') (h' : Drained drains' fed' fed'') :
    Drained (fun k t => drains k t ∨ drains' k t) fed fed'' := by
  intro k q'' hq''
  obtain ⟨q', hq', hsub', hleft'⟩ := h' k q'' hq''
  obtain ⟨q, hq, hsub, hleft⟩ := h k q' hq'
  refine ⟨q, hq, hsub'.trans hsub, fun m hm t ht => ?_⟩
  exact ht.elim (hleft m (hsub'.subset hm) t) (hleft' m hm t)

theorem mono (hs : ∀ k t, drains' k t → drains k t) (h : Drained drains fed fed') :
    Drained drains' fed fed' := by
  intro k q' hq'
  obtain ⟨q, hq, hsub, hleft⟩ := h k q' hq'
  exact ⟨q, hq, hsub, fun m hm t ht => hleft m hm t (hs k t ht)⟩

end Drained

end Federation

theorem queue_drain (h k : FederateHandle) (t : ℚ) :
    (drainTsoUpTo c fed h t).1.queue k =
      if k = h then (fed.queue h).map (·.drain t) else fed.queue k := by
  rw [drainTsoUpTo]
  split
  · next hnone =>
      split
      · next hk => rw [hk, Federation.queue, hnone]; rfl
      · rfl
  · show ((fed.federates.modify h _).lookup k).map _ = _
    rw [HashMap.lookup_modify]
    split
    · show ((fed.federates.lookup h).map _).map _ = ((fed.federates.lookup h).map _).map _
      rw [Option.map_map, Option.map_map]
      rfl
    · rfl

theorem drainTsoUpTo_drained (h : FederateHandle) (t : ℚ) :
    fed.Drained (fun k u => k = h ∧ u = t) (drainTsoUpTo c fed h t).1 := by
  intro k q' hq'
  rw [queue_drain] at hq'
  split at hq'
  · next hk =>
      subst hk
      obtain ⟨q, hq, rfl⟩ := Option.map_eq_some_iff.mp hq'
      refine ⟨q, hq, q.after_sublist t, fun m hm u hu => ?_⟩
      exact hu.2 ▸ (SortedQueue.mem_drain.mp hm).2
  · next hk => exact ⟨q', hq', .refl _, fun m hm u hu => absurd hu.1 hk⟩

/-- A callback that brings a message queued in `fed`; its receiver is where it
was in `fed`, or is not constrained. -/
def OutboundCallback.FromQueue (fed : Federation) (cb : OutboundCallback) : Prop :=
  ∃ h fs m p, fed.federates.lookup h = some fs ∧ m ∈ fs.tsoQueue.messages ∧
    cb.body = m.callback ∧ cb.receiver = some (h, p) ∧ (p = fs.time ∨ p.isConstrained = false)

theorem OutboundCallback.FromQueue.notGrant (h : cb.FromQueue fed) :
    cb.body.NotGrant := by
  obtain ⟨_, _, m, _, _, _, hbody, _⟩ := h
  rw [hbody]
  exact CallbackRequest.notGrant_of_timestamp m.stamped

/-- The callbacks of one drain: the messages up to the time, in order, if the
receiver is connected. -/
theorem drainTsoUpTo_callbacks (h : FederateHandle) (t : ℚ) :
    (drainTsoUpTo c fed h t).2 =
      match fed.federates.lookup h with
      | none => []
      | some fs => (fs.tsoQueue.upTo t).flatMap fun msg =>
        fanOut (fed.recipient c h).toList msg.callback := by
  have hrec := (touches_drain : Federation.Touches _ fed (drainTsoUpTo c fed h t).1).recipient_eq
    (c := c) (by decide) (by decide) h
  rw [drainTsoUpTo] at hrec ⊢
  cases hfs : fed.federates.lookup h with
  | none => rfl
  | some =>
    rw [hfs] at hrec
    simp only [Federation.ownConnection_eq, hrec]

theorem drainTsoUpTo_fromQueue {t : ℚ} (hcb : cb ∈ (drainTsoUpTo c fed h t).2) :
    cb.FromQueue fed ∧ ∃ fs, fed.federates.lookup h = some fs ∧ cb.receiver = some (h, fs.time) := by
  rw [drainTsoUpTo_callbacks] at hcb
  cases hfs : fed.federates.lookup h with
  | none => rw [hfs] at hcb; cases hcb
  | some fs =>
    rw [hfs] at hcb
    obtain ⟨m, hm, hcb⟩ := List.mem_flatMap.mp hcb
    obtain ⟨r, hr, rfl⟩ := mem_fanOut.mp hcb
    obtain ⟨hh, fs', hfs', _, htime⟩ := Federation.recipient_eq_some.mp (Option.mem_toList.mp hr)
    cases hfs.symm.trans hfs'
    have hrecv : some (r.federate, r.time) = some (h, fs.time) := by rw [hh, htime]
    refine ⟨⟨h, fs, m, fs.time, hfs, ?_, rfl, hrecv, .inl rfl⟩, fs, rfl, hrecv⟩
    exact (List.takeWhile_prefix _).subset hm

/-- A connected receiver gets all it had up to the time, in order. -/
theorem bodiesFor_drain {t : ℚ} (hq : fed.queue h = some q) {r : Recipient}
    (hr : fed.recipient c h = some r) :
    bodiesFor h (drainTsoUpTo c fed h t).2 = (q.upTo t).map TsoMessage.callback := by
  obtain ⟨fs, hfs, rfl⟩ := Option.map_eq_some_iff.mp hq
  obtain ⟨hh, _⟩ := Federation.recipient_eq_some.mp hr
  rw [drainTsoUpTo_callbacks, hfs, hr]
  dsimp only
  induction fs.tsoQueue.upTo t with
  | nil => rfl
  | cons m l ih =>
    rw [List.flatMap_cons, bodiesFor_append, ih, List.map_cons]
    simp [bodiesFor, fanOut, OutboundCallback.federate, hh]

/-! A list of drains.  Each federate is drained once, so the queue a drain
finds is the queue at the start. -/

theorem touches_drainAll (l : List (FederateHandle × ℚ)) :
    Federation.Touches [.federate .queue] fed (drainAll c fed l).1 := by
  induction l generalizing fed with
  | nil => exact .refl
  | cons e l ih => exact touches_drain.trans ih

theorem drainAll_drained (l : List (FederateHandle × ℚ)) :
    fed.Drained (fun h t => (h, t) ∈ l) (drainAll c fed l).1 := by
  induction l generalizing fed with
  | nil => exact (Federation.Drained.of_queue_eq rfl).mono fun _ _ h => nomatch h
  | cons e l ih =>
    refine ((drainTsoUpTo_drained e.1 e.2).trans ih).mono ?_
    intro h t hmem
    rcases List.mem_cons.mp hmem with he | hmem
    · exact .inl ⟨congrArg Prod.fst he, congrArg Prod.snd he⟩
    · exact .inr hmem

theorem OutboundCallback.FromQueue.of_drained {drains : FederateHandle → ℚ → Prop}
    (hd : fed.Drained drains fed')
    (hnet : ∀ h p, fed'.net h = some p → fed.net h = some p ∨ p.isConstrained = false)
    (h : cb.FromQueue fed') : cb.FromQueue fed := by
  obtain ⟨h, fs', m, p, hfs', hm, hbody, hrecv, hp⟩ := h
  obtain ⟨q, hq, hsub, _⟩ := hd h fs'.tsoQueue (by rw [Federation.queue, hfs']; rfl)
  obtain ⟨fs, hfs, rfl⟩ := Option.map_eq_some_iff.mp hq
  refine ⟨h, fs, m, p, hfs, hsub.subset hm, hbody, hrecv, ?_⟩
  rcases hp with rfl | hfree
  · refine (hnet h fs'.time (Federation.net_eq_some.mpr ⟨fs', hfs', rfl⟩)).imp ?_ id
    intro htime
    obtain ⟨_, hfs₂, htime⟩ := Federation.net_eq_some.mp htime
    cases hfs.symm.trans hfs₂
    exact htime.symm
  · exact .inr hfree

theorem drainAll_fromQueue {l : List (FederateHandle × ℚ)} (hcb : cb ∈ (drainAll c fed l).2) :
    cb.FromQueue fed := by
  induction l generalizing fed with
  | nil => cases hcb
  | cons e l ih =>
    rcases List.mem_append.mp hcb with hcb | hcb
    · exact (drainTsoUpTo_fromQueue hcb).1
    · refine (ih hcb).of_drained (drainTsoUpTo_drained e.1 e.2) ?_
      intro h p hp
      exact .inl (touches_drain.net (by decide) ▸ hp)

theorem sublist_bodiesFor_drainAll {l : List (FederateHandle × ℚ)} (hd : (l.map Prod.fst).Nodup)
    {t : ℚ} (hmem : (h, t) ∈ l) (hq : fed.queue h = some q) {r : Recipient}
    (hr : fed.recipient c h = some r) :
    ((q.upTo t).map TsoMessage.callback).Sublist (bodiesFor h (drainAll c fed l).2) := by
  induction l generalizing fed with
  | nil => cases hmem
  | cons e l ih =>
    rw [List.map_cons, List.nodup_cons] at hd
    show List.Sublist _ (bodiesFor h ((drainTsoUpTo c fed e.1 e.2).2 ++ _))
    rw [bodiesFor_append]
    rcases List.mem_cons.mp hmem with rfl | hmem
    · rw [bodiesFor_drain hq hr]
      exact List.sublist_append_left _ _
    · have hne : h ≠ e.1 := fun he => hd.1 (List.mem_map.mpr ⟨(h, t), hmem, he⟩)
      refine (ih hd.2 hmem ?_ ?_).trans (List.sublist_append_right _ _)
      · rw [queue_drain, if_neg hne, hq]
      · rw [touches_drain.recipient_eq (by decide) (by decide), hr]

/-! ## Who is drained -/

theorem mem_aboutToBeGranted {t : ℚ} :
    (h, t) ∈ aboutToBeGranted c fed ↔ fed.net.Grantable h t := by
  simp only [Federation.grantable_iff, aboutToBeGranted, List.mem_filter, List.mem_filterMap,
    Option.map_eq_some_iff]
  constructor
  · rintro ⟨⟨⟨h', fs⟩, he, t', ht', hpair⟩, hok⟩
    cases hpair
    have hfs := Federation.mem_sessions.mp he
    rw [hfs] at hok
    exact ⟨fs, hfs, ht', of_decide_eq_true hok⟩
  · rintro ⟨fs, hfs, hpend, hok⟩
    refine ⟨⟨(h, fs), Federation.mem_sessions.mpr hfs, t, hpend, rfl⟩, ?_⟩
    rw [hfs]
    exact decide_eq_true hok

theorem nodup_aboutToBeGranted : ((aboutToBeGranted c fed).map Prod.fst).Nodup := by
  refine Federation.nodup_sessions.sublist
    ((List.filter_sublist.map Prod.fst).trans
      (filterMap_keys_sublist Prod.fst Prod.fst ?_ (fed.sessions c.env.federates)))
  intro e g hg
  obtain ⟨_, _, rfl⟩ := Option.map_eq_some_iff.mp hg
  rfl

/-! ## Passes -/

/-- A callback that tells of one of the grants. -/
def OutboundCallback.Tells (grants : List (Net.GrantStep FederateHandle ℚ))
    (cb : OutboundCallback) : Prop :=
  ∃ g ∈ grants, cb.body = .timeAdvanceGrant g.time ∧ cb.federate = some g.party

/-- Whoever is in `drains` gets the messages queued at the start, up to its
grant, before it is told of the grant. -/
def DrainsFirst (start : Federation) (drains : FederateHandle → ℚ → Prop)
    (callbacks : List OutboundCallback) : Prop :=
  ∀ pre cb post h t q, callbacks = pre ++ cb :: post → cb.body = .timeAdvanceGrant t →
    cb.federate = some h → drains h t → start.queue h = some q →
    ((q.upTo t).map TsoMessage.callback).Sublist (bodiesFor h pre)

/-- What a pass of grants from `start` does. -/
structure GrantPass.Coordinates (start : Federation) (drains : FederateHandle → ℚ → Prop)
    (pass : GrantPass) : Prop where
  touches : start.Touches [.federate .time, .federate .queue] pass.federation
  run : Net.GrantRun start.net pass.grants pass.federation.net
  quiescent : pass.federation.net.Quiescent
  callbacks : ∀ cb ∈ pass.callbacks, cb.Tells pass.grants ∨ cb.FromQueue start
  drained : start.Drained drains pass.federation
  first : DrainsFirst start drains pass.callbacks

theorem tryGrantPendingAdvances_coordinates :
    (fed.tryGrantPendingAdvances c).Coordinates fed fun _ _ => False where
  touches := Federation.tryGrantPendingAdvances_touches.mono (by decide)
  run := Federation.tryGrantPendingAdvances_run
  quiescent := Federation.tryGrantPendingAdvances_quiescent
  callbacks := fun _ hcb => by
    obtain ⟨g, hg, hbody, hfed, _⟩ := Federation.tryGrantPendingAdvances_callbacks hcb
    exact .inl ⟨g, hg, hbody, hfed⟩
  drained := .of_queue_eq (Federation.tryGrantPendingAdvances_touches.queue (by decide))
  first := fun _ _ _ _ _ _ _ _ _ hf => hf.elim

theorem append_eq_of_forall_not {α : Type} {P : α → Prop} {l l' pre post : List α} {a : α}
    (hl : ∀ b ∈ l, ¬ P b) (ha : P a) (h : l ++ l' = pre ++ a :: post) :
    ∃ mid, pre = l ++ mid ∧ l' = mid ++ a :: post := by
  rcases List.append_eq_append_iff.mp h with ⟨mid, hpre, hl'⟩ | ⟨rest, hpre, hrest⟩
  · exact ⟨mid, hpre, hl'⟩
  · cases rest with
    | nil =>
      refine ⟨[], ?_, hrest.symm⟩
      rw [hpre, List.append_nil, List.append_nil]
    | cons =>
      cases hrest
      exact absurd ha (hl a (by rw [hpre]; simp))

theorem tryGrantPendingAdvancesWithTso_coordinates :
    (tryGrantPendingAdvancesWithTso c fed).Coordinates fed fed.net.Grantable := by
  have htouch : Federation.Touches [.federate .queue] fed
      (drainAll c fed (aboutToBeGranted c fed)).1 := touches_drainAll _
  have hnet := htouch.net (by decide)
  have hpass : ((drainAll c fed (aboutToBeGranted c fed)).1.tryGrantPendingAdvances c).Coordinates
      (drainAll c fed (aboutToBeGranted c fed)).1 fun _ _ => False :=
    tryGrantPendingAdvances_coordinates
  refine ⟨(htouch.mono (by decide)).trans hpass.touches, hnet ▸ hpass.run, hpass.quiescent,
    ?_, ?_, ?_⟩
  · intro cb hcb
    rcases List.mem_append.mp hcb with hcb | hcb
    · exact .inr (drainAll_fromQueue hcb)
    · exact (hpass.callbacks cb hcb).imp id fun h =>
        h.of_drained (drainAll_drained _) fun _ _ hp => .inl (hnet ▸ hp)
  · refine ((drainAll_drained _).trans hpass.drained).mono ?_
    exact fun h t hg => .inl (mem_aboutToBeGranted.mpr hg)
  · intro pre cb post h t q hsplit hbody hfed hg hq
    have hnot : ∀ cb ∈ (drainAll c fed (aboutToBeGranted c fed)).2, cb.body ≠ .timeAdvanceGrant t :=
      fun cb hcb => (drainAll_fromQueue hcb).notGrant t
    obtain ⟨mid, rfl, hrest⟩ :=
      append_eq_of_forall_not (P := fun cb => cb.body = .timeAdvanceGrant t) hnot hbody hsplit
    -- being told of the grant, the federate is connected, so the drain reached it
    have hmem : cb ∈ ((drainAll c fed (aboutToBeGranted c fed)).1.tryGrantPendingAdvances c).callbacks := by
      rw [hrest]; simp
    obtain ⟨g, _, _, hparty, r, hr⟩ := Federation.tryGrantPendingAdvances_callbacks hmem
    cases hfed.symm.trans hparty
    obtain ⟨r, hr⟩ := htouch.reaches (by decide) hr
    rw [bodiesFor_append]
    exact (sublist_bodiesFor_drainAll nodup_aboutToBeGranted (mem_aboutToBeGranted.mpr hg) hq hr).trans
      (List.sublist_append_left _ _)

/-! The caller's own grant, when it is not constrained, and what follows. -/

section AtOnce

variable {t : ℚ} {p : TimeState}

private theorem atOnce_net :
    (drainTsoUpTo c (fed.grant c.federate t) c.federate t).1.net = fed.net.grant c.federate t :=
  (touches_drain.net (by decide)).trans (Federation.net_grant _ _)

private theorem atOnce_queue_grant : (fed.grant c.federate t).queue = fed.queue :=
  (Federation.touches_grant _ _).queue (by decide)

private theorem atOnce_queue (hne : h ≠ c.federate) :
    (drainTsoUpTo c (fed.grant c.federate t) c.federate t).1.queue h = fed.queue h := by
  rw [queue_drain, if_neg hne, atOnce_queue_grant]

private theorem atOnce_drained :
    fed.Drained (fun h u => h = c.federate ∧ u = t)
      (drainTsoUpTo c (fed.grant c.federate t) c.federate t).1 :=
  ((Federation.Drained.of_queue_eq atOnce_queue_grant).trans (drainTsoUpTo_drained _ _)).mono
    fun _ _ h => .inr h

/-- Whoever moved is the caller, and it is not constrained. -/
private theorem atOnce_moved (hp : fed.net c.federate = some p) (hfree : p.isConstrained = false)
    (h : FederateHandle) (q : TimeState) (hq : fed.net.grant c.federate t h = some q) :
    fed.net h = some q ∨ q.isConstrained = false := by
  rw [Net.grant] at hq
  split at hq
  · rw [hp, Option.map_some, Option.some.injEq] at hq
    subst hq
    exact .inr hfree
  · exact .inl hq

/-- The messages for the caller come before its grant. -/
private theorem atOnce_bodies (hq : fed.queue c.federate = some q) {r : Recipient}
    (hr : (drainTsoUpTo c (fed.grant c.federate t) c.federate t).1.recipient c c.federate =
      some r) :
    bodiesFor c.federate (drainTsoUpTo c (fed.grant c.federate t) c.federate t).2 =
      (q.upTo t).map TsoMessage.callback := by
  obtain ⟨r', hr'⟩ := touches_drain.reaches (by decide) hr
  exact bodiesFor_drain (by rw [atOnce_queue_grant, hq]) hr'

/-- The pass for the others starts where the caller has its grant. -/
private theorem atOnce_pass (c : Caller) (fed : Federation) (t : ℚ) :
    (tryGrantPendingAdvancesWithTso c
      (drainTsoUpTo c (fed.grant c.federate t) c.federate t).1).Coordinates
      (drainTsoUpTo c (fed.grant c.federate t) c.federate t).1
      (fed.net.grant c.federate t).Grantable := by
  rw [← atOnce_net (c := c)]
  exact tryGrantPendingAdvancesWithTso_coordinates

/-- The others are drained in their own pass, the caller before that. -/
private theorem atOnce_first {drains : FederateHandle → ℚ → Prop}
    (hcaller : ∀ u, drains c.federate u → u = t)
    (hothers : ∀ h u, h ≠ c.federate → drains h u → (fed.net.grant c.federate t).Grantable h u) :
    DrainsFirst fed drains (grantAtOnce c fed t).callbacks := by
  intro pre cb post h u q hsplit hbody hfed hg hq
  have hpass := atOnce_pass c fed t
  have hnot : ∀ cb ∈ (drainTsoUpTo c (fed.grant c.federate t) c.federate t).2,
      cb.body ≠ .timeAdvanceGrant u := fun cb hcb => (drainTsoUpTo_fromQueue hcb).1.notGrant u
  obtain ⟨mid, rfl, hrest⟩ := append_eq_of_forall_not (P := fun cb => cb.body = .timeAdvanceGrant u)
    hnot hbody ((List.append_assoc _ _ _).symm.trans hsplit)
  rw [bodiesFor_append]
  by_cases hh : h = c.federate
  · subst hh
    obtain rfl := hcaller u hg
    have hmem := List.mem_append_right mid (List.mem_cons_self (a := cb) (l := post))
    rw [← hrest] at hmem
    -- the caller is told once, by the callback of its own grant
    obtain ⟨r, hr⟩ : ∃ r, (drainTsoUpTo c (fed.grant c.federate u) c.federate u).1.recipient c
        c.federate = some r := by
      rcases List.mem_append.mp hmem with hown | hlater
      · exact (Federation.mem_fanOut_own hown).2.2
      · rcases hpass.callbacks cb hlater with ⟨g, hgm, _, hparty⟩ | hqueue
        · have hagain : c.federate = g.party := Option.some.inj (hfed.symm.trans hparty)
          refine absurd hgm (hpass.run.not_granted ?_)
          rw [atOnce_net, ← hagain]
          exact fun _ => Net.grant_pending
        · exact absurd hbody (hqueue.notGrant u)
    rw [atOnce_bodies hq hr]
    exact List.sublist_append_left _ _
  · have hown : ∀ cb ∈ fanOut
        ((drainTsoUpTo c (fed.grant c.federate t) c.federate t).1.ownConnection c c.federate)
        (.timeAdvanceGrant t), cb.federate ≠ some h := by
      intro cb hcb he
      exact hh (Option.some.inj (he.symm.trans (Federation.mem_fanOut_own hcb).2.1))
    obtain ⟨mid, rfl, hlater⟩ :=
      append_eq_of_forall_not (P := fun cb => cb.federate = some h) hown hfed hrest
    have hsub := hpass.first mid cb post h u q hlater hbody hfed (hothers h u hh hg)
      ((atOnce_queue hh).trans hq)
    rw [bodiesFor_append]
    exact hsub.trans ((List.sublist_append_right _ _).trans (List.sublist_append_right _ _))

theorem grantAtOnce_coordinates (hp : fed.net c.federate = some p)
    (hpend : p.pendingAdvance = some t) (hfree : p.isConstrained = false) :
    (grantAtOnce c fed t).Coordinates fed fun h u =>
      fed.net.Grantable h u ∨ (fed.net.grant c.federate t).Grantable h u := by
  have hown : fed.net.Grantable c.federate t := ⟨p, hp, hpend, .inl hfree⟩
  have hcaller : ∀ u, fed.net.Grantable c.federate u → u = t := by
    rintro u ⟨q, hq, hu, _⟩
    cases hp.symm.trans hq
    exact Option.some.inj (hu.symm.trans hpend)
  have hothers : ∀ h u, h ≠ c.federate →
      fed.net.Grantable h u ∨ (fed.net.grant c.federate t).Grantable h u →
      (fed.net.grant c.federate t).Grantable h u :=
    fun h u hne hg => hg.elim (fun hg => hown.after_grant hg hne) id
  have hpass := atOnce_pass c fed t
  refine ⟨?_, ?_, hpass.quiescent, ?_, ?_, ?_⟩
  · refine .trans (.mono ?_ (Federation.touches_grant c.federate t))
      (.trans (.mono ?_ touches_drain) hpass.touches)
    · decide
    · decide
  · have hrun := hpass.run
    rw [atOnce_net] at hrun
    exact .grant hown hrun
  · intro cb hcb
    rcases List.mem_append.mp hcb with hcb | hcb
    · rcases List.mem_append.mp hcb with hcb | hcb
      · refine .inr ((drainTsoUpTo_fromQueue hcb).1.of_drained
          (Federation.Drained.of_queue_eq atOnce_queue_grant) ?_)
        rw [Federation.net_grant]
        exact atOnce_moved hp hfree
      · obtain ⟨hbody, hfed, _⟩ := Federation.mem_fanOut_own hcb
        exact .inl ⟨_, List.mem_cons_self, hbody, hfed⟩
    · rcases hpass.callbacks cb hcb with ⟨g, hg, htells⟩ | hqueue
      · exact .inl ⟨g, List.mem_cons_of_mem _ hg, htells⟩
      · refine .inr (hqueue.of_drained atOnce_drained ?_)
        rw [atOnce_net]
        exact atOnce_moved hp hfree
  · refine (atOnce_drained.trans hpass.drained).mono ?_
    intro h u hg
    by_cases hne : h = c.federate
    · subst hne
      rcases hg with hg | hg
      · exact .inl ⟨rfl, hcaller u hg⟩
      · exact .inr hg
    · exact .inr (hothers h u hne hg)
  · refine atOnce_first ?_ hothers
    intro u hg
    rcases hg with hg | ⟨q, hq, hpend, _⟩
    · exact hcaller u hg
    · rw [Net.grant_pending hq] at hpend
      cases hpend

end AtOnce

/-! ## The services -/

/-- Whose queues the pass after a section drains. -/
def TimeSection.Drains (s : TimeSection) (c : Caller) : TimeKind → FederateHandle → ℚ → Prop
  | .advance, h, t => s.federation.net.Grantable h t ∨
      (s.caller.time.isConstrained = false ∧
        ∃ own, s.federation.Waits c.federate own ∧
          (s.federation.net.grant c.federate own).Grantable h t)
  | _, _, _ => False

theorem net_setTime {fs : FederateSession} (hfs : fed.federates.lookup c.federate = some fs)
    (t : TimeState) (h : FederateHandle) :
    (fed.setTime c.federate t).net h = if h = c.federate then some t else fed.net h := by
  show ((fed.federates.modify c.federate _).lookup h).map _ = _
  rw [HashMap.lookup_modify]
  split
  · rw [hfs]; rfl
  · rfl

theorem advancePass_coordinates {time : WireField} {s : TimeSection} {t : ℚ}
    (h : advanceSection c fed time = .ok (s, t)) :
    (advancePass c s t).Coordinates s.federation (s.Drains c .advance) := by
  obtain ⟨_, ht, hs⟩ := advanceSection_ok h
  have hcaller : s.federation.net c.federate = some (s.caller.time.request ⟨t, ht⟩) := by
    rw [hs.federation, net_setTime hs.caller, if_pos rfl]
  rw [advancePass]
  split
  · next hfree =>
      have hpass := grantAtOnce_coordinates hcaller rfl hfree
      have hsame : (fun h u => s.federation.net.Grantable h u ∨
          (s.federation.net.grant c.federate t).Grantable h u) = s.Drains c .advance := by
        funext h u
        refine propext ⟨fun hg => hg.imp id fun hg => ⟨hfree, t, ?_, hg⟩, fun hg => hg.imp id ?_⟩
        · exact Federation.waits_iff.mpr ⟨_, hcaller, rfl⟩
        · rintro ⟨_, own, hwaits, hg⟩
          obtain ⟨p, hp, hpend⟩ := Federation.waits_iff.mp hwaits
          cases hcaller.symm.trans hp
          cases hpend
          exact hg
      exact hsame ▸ hpass
  · next hcon =>
      have hsame : s.federation.net.Grantable = s.Drains c .advance := by
        funext h u
        exact propext ⟨.inl, fun hg => hg.elim id fun hg => absurd hg.1 hcon⟩
      exact hsame ▸ tryGrantPendingAdvancesWithTso_coordinates

/-- **What a time service does**: nothing, or its section, a callback of its
own, and, unless it only changes a role, a pass of grants. -/
theorem serveTime_cases (c : Caller) (fed : Federation) (r : TimeRequest) :
    (∃ e, timeSection c fed r = .error e ∧ serveTime c fed r = .reject fed e) ∨
    ∃ s resp own, timeSection c fed r = .ok s ∧
      (∀ cb ∈ own, cb.body.Untimed ∧ cb.body.On .time) ∧
      ((r.kind = .role ∧ serveTime c fed r = .reply s.federation resp own) ∨
       (r.kind ≠ .role ∧ ∃ pass : GrantPass, pass.Coordinates s.federation (s.Drains c r.kind) ∧
          serveTime c fed r = ⟨pass.federation, resp, own ++ pass.callbacks, pass.grants, none⟩)) := by
  have heff := @serveTime_effect c fed r
  generalize serveTime c fed r = o at heff ⊢
  cases heff with
  | rejects hs => exact .inl ⟨_, hs, rfl⟩
  | changes hk hs hown => exact .inr ⟨_, _, _, hs, hown.untimed, .inl ⟨hk, rfl⟩⟩
  | passes hk hs hown =>
    refine .inr ⟨_, _, _, hs, hown.untimed, .inr ⟨?_, _, ?_, rfl⟩⟩
    · rw [hk]
      exact TimeKind.noConfusion
    · rw [hk]
      exact tryGrantPendingAdvances_coordinates (c := c)
  | advances hk hs ha =>
    refine .inr ⟨_, _, [], hs, List.forall_mem_nil _, .inr ⟨?_, _, ?_, rfl⟩⟩
    · rw [hk]
      exact TimeKind.noConfusion
    · rw [hk]
      exact advancePass_coordinates ha

/-! ## Who is granted -/

/-- Whom a request lets go: the least closed set of the federation in which the
caller's time state is what the request makes of it. -/
def TimeRequest.Grants (r : TimeRequest) (c : Caller) (fed : Federation) (h : FederateHandle) :
    Prop :=
  r.kind ≠ .role ∧ ∃ fs ∈ fed.federates.lookup c.federate, ∃ t ∈ r.change fs.time,
    h ∈ (fed.setTime c.federate t).net.leastGranted

/-- **Who is granted is known beforehand.** -/
theorem serveTime_granted {r : TimeRequest} :
    (∃ g ∈ (serveTime c fed r).grants, g.party = h) ↔ r.Grants c fed h := by
  rcases serveTime_cases c fed r with ⟨e, hs, he⟩ | ⟨s, resp, own, hs, _, hcase⟩
  · rw [he]
    refine iff_of_false (fun ⟨_, hg, _⟩ => nomatch hg) ?_
    rintro ⟨_, fs, hfs, t, ht, _⟩
    have hok : timeSection c fed r = .ok ⟨fed.setTime c.federate t, fs⟩ :=
      timeSection_eq_ok.mpr ⟨t, ht, hfs, rfl⟩
    cases hs.symm.trans hok
  · obtain ⟨t, ht, hch⟩ := timeSection_eq_ok.mp hs
    rcases hcase with ⟨hk, he⟩ | ⟨hk, pass, hpass, he⟩
    · rw [he]
      exact iff_of_false (fun ⟨_, hg, _⟩ => nomatch hg) fun hg => hg.1 hk
    · have hleast := hpass.run.granted_eq hpass.quiescent
      rw [hch.federation] at hleast
      rw [he]
      show h ∈ Net.granted pass.grants ↔ _
      rw [hleast]
      refine ⟨fun hmem => ⟨hk, s.caller, hch.caller, t, ht, hmem⟩, ?_⟩
      rintro ⟨_, fs, hfs, t', ht', hmem⟩
      cases hch.caller.symm.trans hfs
      cases ht.symm.trans ht'
      exact hmem

end Hla4
