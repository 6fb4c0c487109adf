/-
# `Hla4.Rti.Safety.TsoOrder` — messages before grants

A federate that is granted a time should have got every message queued for it
up to that time.  `advance` sees to that for the federates it finds grantable
when its pass begins; nothing sees to it for the federates that the pass makes
grantable, nor for those granted by a change of regulation.

    DrainsGranted   the calls that need no more than that, by the state before
    MessagesFirst   the messages come before the grant
    QueuesAhead     what is queued is ahead of the receiver
-/
import Hla4.Rti.Safety.Grants

namespace Hla4

open Lib

variable {c : Caller} {fed fed' : Federation}

/-! ## The condition -/

instance (fed : Federation) (h : FederateHandle) (t : ℚ) : Decidable (fed.net.Grantable h t) :=
  decidable_of_iff
    (∃ fs ∈ fed.federates.lookup h, fs.time.pendingAdvance = some t ∧
      (fs.time.isConstrained = false ∨ (t : Timestamp) ≤ fed.lbts)) <| by
    constructor
    · rintro ⟨fs, hfs, hpend, hok⟩
      exact ⟨fs.time, Federation.net_eq_some.mpr ⟨fs, hfs, rfl⟩, hpend,
        hok.imp id Federation.coe_le_lbts.mp⟩
    · rintro ⟨p, hp, hpend, hok⟩
      obtain ⟨fs, hfs, rfl⟩ := Federation.net_eq_some.mp hp
      exact ⟨fs, hfs, hpend, hok.imp id Federation.coe_le_lbts.mpr⟩

instance (s : TimeSection) (c : Caller) (h : FederateHandle) (t : ℚ) :
    (kind : TimeKind) → Decidable (s.Drains c kind h t)
  | .role => .isFalse id
  | .regulation => .isFalse id
  | .advance =>
    have : ∀ own, Decidable ((s.federation.net.grant c.federate own).Grantable h t) := fun own =>
      decidable_of_iff ((s.federation.grant c.federate own).net.Grantable h t)
        (by rw [Federation.net_grant])
    inferInstanceAs (Decidable (_ ∨ (_ ∧ ∃ own ∈ Option.bind _ _, _)))

/-- Membership in the least closed set is decided by a pass of grants. -/
instance (fed : Federation) (h : FederateHandle) : Decidable (h ∈ fed.net.leastGranted) :=
  let c : Caller := ⟨h, ∅, .plain, fun _ _ => none⟩
  decidable_of_iff (∃ g ∈ (fed.tryGrantPendingAdvances c).grants, g.party = h) <| by
    have hpass : (fed.tryGrantPendingAdvances c).Coordinates fed fun _ _ => False :=
      tryGrantPendingAdvances_coordinates
    rw [← hpass.run.granted_eq hpass.quiescent]
    rfl

/-- In the federation with the caller's time state as the request makes it:
whoever waits for a time and is in the least closed set is drained by the
request's pass, or has nothing queued up to that time. -/
def TimeRequest.DrainsGranted (c : Caller) (fed : Federation) (r : TimeRequest) : Prop :=
  r.kind ≠ .role → ∀ fs ∈ fed.federates.lookup c.federate, ∀ p ∈ r.change fs.time,
    ∀ h ∈ fed.federates.keys, ∀ t ∈ (fed.setTime c.federate p).net.wait h,
      h ∈ (fed.setTime c.federate p).net.leastGranted →
        TimeSection.Drains ⟨fed.setTime c.federate p, fs⟩ c r.kind h t ∨
          ∀ q ∈ fed.queue h, q.upTo t = []

instance (c : Caller) (fed : Federation) (r : TimeRequest) : Decidable (r.DrainsGranted c fed) :=
  inferInstanceAs (Decidable (_ → ∀ fs ∈ fed.federates.lookup c.federate,
    ∀ p ∈ r.change fs.time, ∀ h ∈ _, ∀ t ∈ (fed.setTime c.federate p).net.wait h,
      _ → _ ∨ ∀ q ∈ _, SortedQueue.upTo q _ = []))

/-- The same for any action. -/
def FedAction.DrainsGranted (fed : Federation) : FedAction → Prop
  | serve c r => ∀ t ∈ r.timeRequest?, t.DrainsGranted c fed
  | _ => True

instance (fed : Federation) : (a : FedAction) → Decidable (a.DrainsGranted fed)
  | .create .. | .join .. | .leave .. => .isTrue trivial
  | .serve c r => inferInstanceAs (Decidable (∀ t ∈ r.timeRequest?, t.DrainsGranted c fed))

/-! ## Messages first -/

theorem queue_section {r : TimeRequest} {s : TimeSection} (h : timeSection c fed r = .ok s) :
    s.federation.queue = fed.queue :=
  (touches_section h).queue (by decide)

/-- Whoever a pass grants is drained, or has nothing queued. -/
theorem TimeRequest.DrainsGranted.pass {r : TimeRequest} (hok : r.DrainsGranted c fed)
    {s : TimeSection} (hs : timeSection c fed r = .ok s) (hkind : r.kind ≠ .role)
    {pass : GrantPass} {drains : FederateHandle → ℚ → Prop}
    (hpass : pass.Coordinates s.federation drains) {g : Net.GrantStep FederateHandle ℚ} (hg : g ∈ pass.grants) :
    s.Drains c r.kind g.party g.time ∨ ∀ q ∈ fed.queue g.party, q.upTo g.time = [] := by
  obtain ⟨p, hp, hch⟩ := timeSection_eq_ok.mp hs
  obtain ⟨start, caller⟩ := s
  obtain rfl : start = fed.setTime c.federate p := hch.federation
  obtain ⟨hmem, t, ht, hpend, _⟩ := hpass.run.mem_leastGranted hg
  have hkey : g.party ∈ fed.federates.keys := by
    rw [net_setTime hch.caller] at ht
    split at ht
    · next hh => exact hh ▸ Federation.mem_keys_of_net hch.net_caller
    · exact Federation.mem_keys_of_net ht
  refine hok hkind caller hch.caller p hp g.party hkey g.time ?_ hmem
  exact Federation.wait_eq_some.mpr (Federation.waits_iff.mpr ⟨t, ht, hpend⟩)

/-- Whoever is told of a grant has got the messages queued for it up to then. -/
theorem serve_first {req : ServiceRequest} (hok : ∀ r ∈ req.timeRequest?, r.DrainsGranted c fed) :
    DrainsFirst fed (fun _ _ => True) (serve c fed req).callbacks := by
  intro pre cb post h t q hsplit hbody hfed _ hq
  have hmem : cb ∈ (serve c fed req).callbacks := by rw [hsplit]; simp
  by_cases hr : ∃ r, req = .time r
  · obtain ⟨r, rfl⟩ := hr
    have hok := hok r rfl
    rw [serve] at hsplit hmem
    rcases serveTime_cases c fed r with ⟨e, _, he⟩ | ⟨s, resp, own, hs, hown, hcase⟩
    · rw [he] at hmem
      cases hmem
    · have hnot : ∀ cb ∈ own, cb.body ≠ .timeAdvanceGrant t :=
        fun cb hcb => (hown cb hcb).1.notGrant t
      rcases hcase with ⟨_, he⟩ | ⟨hkind, pass, hpass, he⟩
      · rw [he] at hmem
        exact absurd hbody (hnot cb hmem)
      · rw [he] at hsplit
        obtain ⟨mid, rfl, hrest⟩ := append_eq_of_forall_not
          (P := fun cb => cb.body = .timeAdvanceGrant t) hnot hbody hsplit
        have hcb : cb ∈ pass.callbacks := by rw [hrest]; simp
        rw [bodiesFor_append]
        refine List.Sublist.trans ?_ (List.sublist_append_right _ _)
        rcases hpass.callbacks cb hcb with ⟨g, hg, hgbody, hgfed⟩ | hqueue
        · cases hbody.symm.trans hgbody
          cases hfed.symm.trans hgfed
          rcases hok.pass hs hkind hpass hg with hdrain | hempty
          · exact hpass.first mid cb post _ _ q hrest hbody hfed hdrain
              ((congrFun (queue_section hs) _).trans hq)
          · rw [hempty q hq]
            exact List.nil_sublist _
        · exact absurd hbody (hqueue.notGrant t)
  · exact absurd hbody ((serve_confined (not_exists.mp hr)).bodies cb hmem t)

theorem serve_grants_joined {req : ServiceRequest} {g : Net.GrantStep FederateHandle ℚ}
    (hg : g ∈ (serve c fed req).grants) : ∃ fs, fed.federates.lookup g.party = some fs := by
  obtain ⟨⟨p, hp, _⟩, hadv⟩ := (serve_run req).step_mem hg
  rcases hadv g.party with ⟨hnone, _⟩ | ⟨_, p', _, hp', _⟩
  · rw [hp] at hnone
    cases hnone
  · obtain ⟨fs, hfs, _⟩ := Federation.net_eq_some.mp hp'
    exact HashMap.mem_iff_lookup.mp ((serve_mem_federates req _).mp (HashMap.mem_of_lookup hfs))

/-- Before each grant callback stand, for its receiver, all the messages that
receiver had queued up to the time granted, in order. -/
def Node.MessagesFirst (n : Node) (e : NodeEvent) : Prop :=
  ∀ t env request o, e = .call t env request → n.outcome t env request = some o →
    ∀ pre cb post, ∀ T : ℚ, o.callbacks = pre ++ cb :: post → cb.body = .timeAdvanceGrant T →
      ∃ r a h fs, n.action e = some (r, a) ∧ cb.federate = some h ∧
        (n.heap r).federates.lookup h = some fs ∧
        ((fs.tsoQueue.messages.filter fun m => m.time ≤ (T : Timestamp)).map
          TsoMessage.callback).Sublist (bodiesFor h pre)

theorem Node.messagesFirst_step {n : Node} {e : NodeEvent}
    (hok : n.Meets (fun fed a => a.DrainsGranted fed) e) : n.MessagesFirst e := by
  rintro t env request o rfl ho pre cb post T hsplit hbody
  have hmem : cb ∈ o.callbacks := by rw [hsplit]; simp
  rcases Node.outcome_cases ho with ⟨r, c, req, ha, hcb⟩ | hreports
  · rw [hcb] at hmem hsplit
    rcases serve_tells req cb hmem with ⟨g, hg, _, hfed⟩ | hnot
    · obtain ⟨fs, hfs⟩ := serve_grants_joined hg
      refine ⟨r, _, g.party, fs, ha, hfed, hfs, ?_⟩
      rw [← SortedQueue.upTo_eq_filter]
      refine serve_first (hok _ ha) pre cb post g.party T fs.tsoQueue hsplit hbody hfed trivial ?_
      rw [Federation.queue, hfs]
      rfl
    · exact absurd hbody (hnot T)
  · exact absurd hbody ((hreports.quiet.2 cb hmem).notGrant T)

/-! ## Queues ahead -/

/-- Every queued message is ahead of its receiver. -/
def Federation.QueuesAhead (fed : Federation) : Prop :=
  ∀ h fs, fed.federates.lookup h = some fs → ∀ m ∈ fs.tsoQueue.messages,
    (fs.time.currentTime : Timestamp) < m.time

/-- A pass that drains whoever it grants and has something queued. -/
theorem GrantPass.Coordinates.queuesAhead {start : Federation} {drains : FederateHandle → ℚ → Prop}
    {pass : GrantPass} (hpass : pass.Coordinates start drains)
    (hok : ∀ g ∈ pass.grants, drains g.party g.time ∨ ∀ q ∈ start.queue g.party, q.upTo g.time = [])
    (h : start.QueuesAhead) : pass.federation.QueuesAhead := by
  intro k fs' hfs' m hm
  obtain ⟨q, hq, hsub, hleft⟩ := hpass.drained k fs'.tsoQueue (by rw [Federation.queue, hfs']; rfl)
  have hmem := hsub.subset hm
  obtain ⟨fs, hfs, rfl⟩ := Option.map_eq_some_iff.mp hq
  have hnet : start.net k = some fs.time := Federation.net_eq_some.mpr ⟨fs, hfs, rfl⟩
  have hnet' : pass.federation.net k = some fs'.time :=
    Federation.net_eq_some.mpr ⟨fs', hfs', rfl⟩
  rcases hpass.run.eq_or_granted k with he | ⟨g, hg, rfl, he⟩
  · rw [hnet', hnet, Option.some.injEq] at he
    rw [he]
    exact h k fs hfs m hmem
  · rw [hnet', hnet, Option.map_some, Option.some.injEq] at he
    rw [he]
    rcases hok g hg with hdrain | hempty
    · exact hleft m hm g.time hdrain
    · by_contra hle
      have hin : m ∈ fs.tsoQueue.upTo g.time := by
        rw [SortedQueue.upTo_eq_filter, List.mem_filter]
        exact ⟨hmem, decide_eq_true (not_lt.mp hle)⟩
      rw [hempty _ hq] at hin
      cases hin

theorem queuesAhead_section {r : TimeRequest} {s : TimeSection} (hs : timeSection c fed r = .ok s)
    (h : fed.QueuesAhead) : s.federation.QueuesAhead := by
  obtain ⟨t, ht, hch⟩ := timeSection_eq_ok.mp hs
  intro k fs' hfs' m hm
  rw [hch.federation] at hfs'
  rw [Federation.setTime, Federation.modifyFederate, HashMap.lookup_modify] at hfs'
  split at hfs'
  · rw [hch.caller, Option.map_some, Option.some.injEq] at hfs'
    subst hfs'
    rw [(TimeRequest.change_keeps ht).1]
    exact h _ s.caller hch.caller m hm
  · exact h k fs' hfs' m hm

theorem queuesAhead_serve {req : ServiceRequest}
    (hok : ∀ r ∈ req.timeRequest?, r.DrainsGranted c fed) (h : fed.QueuesAhead) :
    (serve c fed req).federation.QueuesAhead := by
  by_cases hr : ∃ r, req = .time r
  · obtain ⟨r, rfl⟩ := hr
    have hok := hok r rfl
    rw [serve]
    rcases serveTime_cases c fed r with ⟨e, _, he⟩ | ⟨s, resp, own, hs, _, hcase⟩
    · rw [he]
      exact h
    · rcases hcase with ⟨_, he⟩ | ⟨hkind, pass, hpass, he⟩
      · rw [he]
        exact queuesAhead_section hs h
      · rw [he]
        refine hpass.queuesAhead ?_ (queuesAhead_section hs h)
        rw [queue_section hs]
        exact fun g => hok.pass hs hkind hpass
  · intro k fs' hfs' m hm
    obtain ⟨fs, hfs, htime, hgain⟩ := serve_queuesGain (not_exists.mp hr) k fs' hfs'
    rw [htime]
    rcases hgain m hm with hold | ⟨_, hnew⟩
    · exact h k fs hfs m hold
    · exact hnew

theorem queuesAhead_apply (fed : Federation) (a : FedAction) (h : fed.QueuesAhead)
    (hok : a.DrainsGranted fed) : (a.apply fed).QueuesAhead := by
  cases a with
  | create =>
    intro k fs hfs
    cases hfs
  | join =>
    refine Federation.join_keeps (P := Federation.QueuesAhead) h fun name => ?_
    intro k fs hfs m hm
    rw [Federation.lookup_enter] at hfs
    split at hfs
    · cases hfs
      cases hm
    · exact h k fs hfs m hm
  | leave =>
    intro k' fs hfs m hm
    exact h k' fs (HashMap.lookup_erase_eq_some.mp hfs).2 m hm
  | serve => exact queuesAhead_serve hok h

/-- **Messages before grants**, in a run in which whoever is granted is drained
or has nothing to drain: at every step the messages come first, and in every
state the queues are ahead. -/
theorem Node.messages_before_grants {es : List NodeEvent}
    (h : StepsMeet Node.step (Node.Meets fun fed a => a.DrainsGranted fed) Node.new es) :
    StepsMeet Node.step Node.MessagesFirst Node.new es ∧
      Always Node.step (fun n => ∀ r, (n.heap r).QueuesAhead) Node.new es :=
  ⟨h.mono fun _ _ => Node.messagesFirst_step,
    Node.heap_always (fun _ _ _ _ hfs => nomatch hfs) queuesAhead_apply h⟩

/-- Federate 1 sends for time 3 and goes to time 5; federate 2 gets the
message, then its grant. -/
theorem Node.messages_before_grants_pair :
    let es := pairWaiting ++ [.serves 0 (.time (.advance .timeAdvanceRequest wireFive))]
    StepsMeet Node.step Node.MessagesFirst Node.new es ∧
      Always Node.step (fun n => ∀ r, (n.heap r).QueuesAhead) Node.new es :=
  Node.messages_before_grants (by decide +kernel)

def wireTen : WireField := some [0x40, 0x24, 0, 0, 0, 0, 0, 0]

/-- Federates 1 and 2 regulate, with lookaheads 1 and 5; federates 2 and 3 are
constrained and wait for 5 and 10; federate 3 holds an interaction of time 3.
When federate 1 is granted 10 the bound is 5, and federate 2 may be granted;
when federate 2 is, the bound is 10, and so may federate 3. -/
def trioWaiting : List NodeEvent := pairJoined ++
  [.opens, .joins 2,
    .serves 0 (.declaration (.publishInteractionClass (wire32 1))),
    .serves 2 (.declaration (.subscribeInteractionClass false (wire32 1))),
    .serves 0 (.time (.enableTimeRegulation wireOne)),
    .serves 1 (.time (.enableTimeRegulation wireFive)),
    .serves 1 (.time .enableTimeConstrained),
    .serves 2 (.time .enableTimeConstrained),
    .serves 0 (.object (.sendInteractionWithTime false (wire32 1) none [] wireThree)),
    .serves 1 (.time (.advance .timeAdvanceRequest wireFive)),
    .serves 2 (.time (.advance .timeAdvanceRequest wireTen))]

/-- A grant by a change of regulation, and a cascaded grant. -/
def undrainedCalls : List (List NodeEvent × TimeRequest) :=
  [(pairWaiting, .disableTimeRegulation), (trioWaiting, .advance .timeAdvanceRequest wireTen)]

/-- **The message is left behind.**  In both calls a federate is told of a grant
without having got the message of time 3, and the message stays in its queue,
in its past. -/
theorem Node.undrainedCalls_fail :
    undrainedCalls.Forall fun call =>
      ¬ (run Node.step Node.new call.1).MessagesFirst (.serves 0 (.time call.2)) ∧
      ¬ (((run Node.step Node.new call.1).step (.serves 0 (.time call.2))).heap 0).QueuesAhead := by
  have hlast : ∀ call ∈ undrainedCalls,
      ∃ o ∈ (run Node.step Node.new call.1).outcome 0 .plain (.service (.time call.2)),
        ∃ cb ∈ o.callbacks.getLast?, ∃ h ∈ cb.federate, ∃ T ∈ cb.body.grantTime?,
          bodiesFor h o.callbacks.dropLast = [] ∧
          ((run Node.step Node.new call.1).action (.serves 0 (.time call.2))).map Prod.fst = some 0 ∧
          ∃ fs ∈ ((run Node.step Node.new call.1).heap 0).federates.lookup h,
            ∃ m ∈ fs.tsoQueue.messages, m.time ≤ ((T : ℚ) : Timestamp) := by
    decide +kernel
  have hleft : ∀ call ∈ undrainedCalls,
      ∃ h ∈ (((run Node.step Node.new call.1).step
          (.serves 0 (.time call.2))).heap 0).federates.keys,
        ∃ fs ∈ (((run Node.step Node.new call.1).step
            (.serves 0 (.time call.2))).heap 0).federates.lookup h,
          ∃ m ∈ fs.tsoQueue.messages, m.time ≤ (fs.time.currentTime : Timestamp) := by
    decide +kernel
  rw [List.forall_iff_forall_mem]
  intro call hcall
  constructor
  · intro hfirst
    obtain ⟨o, ho, cb, hcb, h, hh, T, hT, hnone, hact, fs, hfs, m, hm, hle⟩ := hlast call hcall
    have hsplit : o.callbacks = o.callbacks.dropLast ++ cb :: [] :=
      (List.dropLast_append_getLast? cb hcb).symm
    obtain ⟨r, a, h', fs', ha, hh', hfs', hsub⟩ := hfirst 0 .plain _ o rfl ho _ cb [] T hsplit
      (CallbackRequest.eq_of_grantTime? hT)
    cases hh.symm.trans hh'
    rw [ha, Option.map_some, Option.some.injEq] at hact
    subst hact
    cases hfs.symm.trans hfs'
    rw [hnone, List.sublist_nil, List.map_eq_nil_iff] at hsub
    exact absurd (decide_eq_true hle) (List.filter_eq_nil_iff.mp hsub m hm)
  · intro hahead
    obtain ⟨h, _, fs, hfs, m, hm, hle⟩ := hleft call hcall
    exact absurd (hahead h fs hfs m hm) (not_lt.mpr hle)

end Hla4
