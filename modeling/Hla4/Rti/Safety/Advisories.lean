/-
# `Hla4.Rti.Safety.Advisories` — publishers are told of their subscribers

A publisher of a class is told when the class gets its first subscriber and when
it loses its last one:

    object classes        StartRegistrationForObjectClass / StopRegistration…
    interaction classes   TurnInteractionsOn / TurnInteractionsOff

The services find those edges by asking the matrix before and after a
subscription.  Two ways to lose a subscriber do not ask: `unsubscribeObjectClass`
takes the class out of the matrix without a word, and a federate that leaves, by
resigning, with its connection or by the janitor, stays in the matrix
(`silentRuns`).

Where neither happens to a subscribed class, the matrix has a row for the class
exactly when a joined federate has it in its record (`Truthful`), what a call
sends to a publisher is the edge of that level (`serve_edge`), and the advisories
of a run follow it (`advisories_track`).
-/
import Hla4.Lib.Edges
import Hla4.Rti.Safety.Keyed
import Hla4.Rti.Safety.Subscribers

namespace Hla4

open Lib

/-! ## Classes and their advisories -/

/-- A class whose publishers are told of its subscribers. -/
inductive Advised
  | object (c : ObjectClassHandle)
  | interaction (k : InteractionClassHandle)
deriving DecidableEq

/-- The class of what is subscribed to. -/
def Topic.cls : Topic → Advised
  | attr c _ => .object c
  | interaction k => .interaction k

namespace Advised

/-- What can be subscribed to in the class. -/
def topics (x : Advised) : Set Topic := {t | t.cls = x}

/-- The matrix has a subscriber of the class: what a service asks before and
after it changes the matrix. -/
def level (fed : Federation) : Advised → Bool
  | object c => fed.subscriptions.classHasSubscribers c
  | interaction k => interactionHasSubscribers fed k

/-- What a callback says of the class: subscribers came (`true`) or went. -/
def reads : Advised → CallbackRequest → Option Bool
  | object c, .startRegistrationForObjectClass cls => if cls = c then some true else none
  | object c, .stopRegistrationForObjectClass cls => if cls = c then some false else none
  | interaction k, .turnInteractionsOn cls => if cls = k then some true else none
  | interaction k, .turnInteractionsOff cls => if cls = k then some false else none
  | _, _ => none

theorem reads_eq_none {x : Advised} {body : CallbackRequest} (h : body.topic ≠ .relevance) :
    x.reads body = none := by
  cases body <;> first | exact absurd rfl h | cases x <;> rfl

end Advised

/-- The federate publishes the class and has the switch for its advisories on. -/
def FederateSession.listensFor (fs : FederateSession) : Advised → Bool
  | .object c => fs.switches.objectClassRelevanceAdvisory && decide (c ∈ fs.pubSub.publishedAttrs)
  | .interaction k =>
    fs.switches.interactionRelevanceAdvisory && decide (k ∈ fs.pubSub.publishedInteractions)

/-- The federate is subscribed to an attribute of the object class, or to the
interaction class. -/
def FederateSession.SubscribedTo (fs : FederateSession) : Advised → Prop
  | .object c => (fs.pubSub.subscribedAttrs.get c).keys ≠ []
  | .interaction k => k ∈ fs.pubSub.subscribedInteractions

instance (fs : FederateSession) : (x : Advised) → Decidable (fs.SubscribedTo x)
  | .object _ => inferInstanceAs (Decidable (_ ≠ []))
  | .interaction _ => inferInstanceAs (Decidable (_ ∈ _))

theorem FederateSession.subscribedTo_iff {fs : FederateSession} {x : Advised} :
    fs.SubscribedTo x ↔ ∃ t ∈ x.topics, t ∈ fs.topics := by
  cases x with
  | object c =>
    constructor
    · intro h
      by_contra hnone
      exact h (HashSet.keys_eq_nil_iff.mpr fun a ha => hnone ⟨.attr c a, rfl, ha⟩)
    · rintro ⟨t, ht, hown⟩ hnil
      cases t with
      | attr d a =>
        cases ht
        exact HashSet.keys_eq_nil_iff.mp hnil a hown
      | interaction => cases ht
  | interaction k =>
    constructor
    · exact fun h => ⟨.interaction k, rfl, h⟩
    · rintro ⟨t, ht, hown⟩
      cases t with
      | attr => cases ht
      | interaction =>
        cases ht
        exact hown

/-- A joined federate is subscribed to the class. -/
def Federation.Interested (fed : Federation) (x : Advised) : Prop :=
  ∃ f ∈ fed.federates.keys, ∃ fs ∈ fed.federates.lookup f, fs.SubscribedTo x

instance (fed : Federation) (x : Advised) : Decidable (fed.Interested x) :=
  inferInstanceAs (Decidable (∃ f ∈ fed.federates.keys, ∃ fs ∈ fed.federates.lookup f, _))

/-! ## The index under the services -/

namespace SubscriptionMatrix

variable {m : SubscriptionMatrix} {c : ObjectClassHandle} {f : FederateHandle}
  {attrs : List AttributeHandle}

/-- The attributes of the class that have subscribers. -/
def subscribed (m : SubscriptionMatrix) (c : ObjectClassHandle) : Finset AttributeHandle :=
  ((m.byAttribute.keys.filter fun k => k.1 = c).map Prod.snd).toFinset

/-- The index counts, and nothing empty is kept. -/
structure Sound (m : SubscriptionMatrix) : Prop where
  indexed : m.Indexed
  interactions : m.byInteraction.NoEmpty

theorem Subscribes.mem_keys {a : AttributeHandle} (h : m.Subscribes f c a) :
    (c, a) ∈ m.byAttribute.keys := by
  rw [← AList.mem_keys]
  by_contra hnot
  rw [Subscribes, MultiMap.get, AList.lookup_eq_none.mpr hnot] at h
  exact AList.notMem_empty f h

theorem attributesOf_subscribeAll_subset : (m.subscribeAll c attrs f).attributesOf c f ⊆
    ((m.subscribed c ∪ attrs.toFinset : Finset AttributeHandle) : Set AttributeHandle) := by
  intro a ha
  rw [Finset.mem_coe, Finset.mem_union, subscribed, List.mem_toFinset, List.mem_toFinset]
  rcases subscribes_subscribeAll.mp ha with ⟨_, _, ha⟩ | ha
  · exact .inr ha
  · refine .inl (List.mem_map.mpr ⟨(c, a), List.mem_filter.mpr ⟨ha.mem_keys, ?_⟩, rfl⟩)
    exact decide_eq_true rfl

/-- No counter wraps on the way if none has at the end. -/
theorem Indexed.subscribeAll (h : m.Indexed)
    (hfew : ((m.subscribeAll c attrs f).attributesOf c f).ncard < 2 ^ 32) :
    (m.subscribeAll c attrs f).Indexed := by
  induction attrs generalizing m with
  | nil => exact h
  | cons a attrs ih =>
    have hgrows : (m.subscribeAttribute c a f).1.attributesOf c f ⊆
        ((m.subscribeAttribute c a f).1.subscribeAll c attrs f).attributesOf c f :=
      fun b hb => subscribes_subscribeAll.mpr (.inr hb)
    have hnow := (Set.ncard_le_ncard hgrows (Set.toFinite _)).trans_lt hfew
    exact ih (h.subscribeAttribute hnow) hfew

theorem Indexed.unsubscribeAll (h : m.Indexed) : (m.unsubscribeAll c attrs f).Indexed := by
  induction attrs generalizing m with
  | nil => exact h
  | cons a attrs ih => exact ih h.unsubscribeAttribute

theorem sound_empty : SubscriptionMatrix.empty.Sound where
  indexed := .empty
  interactions := by
    intro k s hs
    cases hs

/-- **The index counts** through every change of the services that has room for its
attributes. -/
theorem Sound.change (h : m.Sound) {ch : SubscriptionChange}
    (hroom : ∀ cls attrs, ch = .mark cls attrs →
      (m.subscribed cls ∪ attrs.toFinset).card < 2 ^ 32) : (ch.matrix f m).Sound := by
  cases ch with
  | keep => exact h
  | mark cls attrs =>
    refine ⟨h.indexed.subscribeAll ?_, ?_⟩
    · refine (Set.ncard_le_ncard attributesOf_subscribeAll_subset (Set.toFinite _)).trans_lt ?_
      rw [Set.ncard_coe_finset]
      exact hroom cls attrs rfl
    · rw [SubscriptionChange.matrix, byInteraction_subscribeAll]
      exact h.interactions
  | strike =>
    refine ⟨h.indexed.unsubscribeAll, ?_⟩
    rw [SubscriptionChange.matrix, byInteraction_unsubscribeAll]
    exact h.interactions
  | clear => exact ⟨h.indexed.removeClass, h.interactions⟩
  | markInteraction =>
    exact ⟨⟨h.indexed.count_eq, h.indexed.count_ne_zero, h.indexed.no_empty_set,
      h.indexed.no_empty_class⟩, h.interactions.add (List.cons_ne_nil f [])⟩
  | strikeInteraction =>
    exact ⟨⟨h.indexed.count_eq, h.indexed.count_ne_zero, h.indexed.no_empty_set,
      h.indexed.no_empty_class⟩, h.interactions.remove⟩

end SubscriptionMatrix

/-- What a service asks is whether a row of the matrix has the class. -/
theorem Advised.level_iff {fed : Federation} (h : fed.subscriptions.Sound) {x : Advised} :
    x.level fed = true ↔ fed.ledger.Listed x.topics := by
  cases x with
  | object c =>
    rw [level, h.indexed.classHasSubscribers_iff]
    constructor
    · rintro ⟨a, f, hs⟩
      exact ⟨f, .attr c a, rfl, hs⟩
    · rintro ⟨f, t, ht, hrow⟩
      cases t with
      | attr d a =>
        cases ht
        exact ⟨a, f, hrow⟩
      | interaction => cases ht
  | interaction k =>
    rw [level, interactionHasSubscribers, decide_eq_true_iff, h.interactions.mem_iff]
    constructor
    · rintro ⟨f, hf⟩
      exact ⟨f, .interaction k, rfl, hf⟩
    · rintro ⟨f, t, ht, hrow⟩
      cases t with
      | attr => cases ht
      | interaction =>
        cases ht
        exact ⟨f, hrow⟩

/-! ## What a publisher is told -/

/-- The advisories of a class among the callbacks for one federate, in order. -/
def advisories (p : FederateHandle) (x : Advised) (callbacks : List OutboundCallback) : List Bool :=
  (bodiesFor p callbacks).filterMap x.reads

section Advisories

variable {p : FederateHandle} {x : Advised} {c : Caller} {fed fed' : Federation}

theorem advisories_eq_nil {callbacks : List OutboundCallback}
    (h : ∀ cb ∈ callbacks, x.reads cb.body = none) : advisories p x callbacks = [] := by
  refine List.filterMap_eq_nil_iff.mpr fun body hbody => ?_
  obtain ⟨cb, hcb, rfl⟩ := List.mem_map.mp hbody
  exact h cb (List.mem_of_mem_filter hcb)

theorem advisories_append (l l' : List OutboundCallback) :
    advisories p x (l ++ l') = advisories p x l ++ advisories p x l' := by
  rw [advisories, bodiesFor_append, List.filterMap_append]
  rfl

theorem advisories_filter (callbacks : List OutboundCallback) :
    advisories p x (callbacks.filter fun cb => decide (cb.body.topic = .relevance)) =
      advisories p x callbacks := by
  induction callbacks with
  | nil => rfl
  | cons cb callbacks ih =>
    rw [← List.singleton_append, List.filter_append, advisories_append, advisories_append, ih]
    by_cases ht : cb.body.topic = .relevance
    · rw [List.filter_singleton, decide_eq_true ht]
      rfl
    · have hnone : ∀ cb' ∈ [cb], x.reads cb'.body = none := by
        intro cb' hcb'
        rw [List.mem_singleton.mp hcb']
        exact Advised.reads_eq_none ht
      rw [List.filter_singleton, decide_eq_false ht, advisories_eq_nil hnone]
      rfl

/-- A connected federate that is concerned is told once. -/
theorem advisories_emitAdvisory {concerns : FederateSession → Bool} {body : CallbackRequest}
    {fs : FederateSession} {b : Bool} (hk : fed.federates.KeyedBy FederateSession.handle)
    (hfs : fed.federates.lookup p = some fs) (hconn : fs.sessionId ∈ c.connections)
    (hcon : concerns fs = true) (hreads : x.reads body = some b) :
    advisories p x (emitAdvisory c fed concerns body) = [b] := by
  have htarget : p ∈ HashSet.ofList ((fed.federates.values.filter concerns).map (·.handle)) := by
    rw [HashSet.mem_ofList]
    exact List.mem_map.mpr ⟨fs, List.mem_filter.mpr ⟨HashMap.mem_values.mpr ⟨p, hfs⟩, hcon⟩,
      hk p fs hfs⟩
  rw [advisories, emitAdvisory, Federation.bodiesFor_live,
    if_pos ⟨htarget, (Federation.isSome_recipient hfs).mpr hconn⟩]
  simp [hreads]

/-- A federate that listens for the class, does not subscribe to it, and is
connected. -/
structure Listener (p : FederateHandle) (x : Advised) (c : Caller) (fed : Federation)
    (fs : FederateSession) : Prop where
  joined : fed.federates.lookup p = some fs
  connected : fs.sessionId ∈ c.connections
  listens : fs.listensFor x = true
  notSubscribed : ¬ fs.SubscribedTo x

namespace SubscriptionChange

variable {ch : SubscriptionChange} {fs : FederateSession}

/-- The class a change is about. -/
def subject? : SubscriptionChange → Option Advised
  | keep => none
  | mark cls _ => some (.object cls)
  | strike cls _ => some (.object cls)
  | clear cls => some (.object cls)
  | markInteraction k => some (.interaction k)
  | strikeInteraction k => some (.interaction k)

theorem subject?_of_mem {h : FederateHandle} {t : Topic} (ht : t ∈ (ch.posting h).topics) :
    ch.subject? = some t.cls := by
  cases ch with
  | keep => exact absurd ht (Set.notMem_empty t)
  | mark | strike =>
    cases t with
    | attr => exact congrArg (some ∘ Advised.object) ht.1.symm
    | interaction => exact ht.elim
  | clear =>
    cases t with
    | attr => exact congrArg (some ∘ Advised.object) ht.symm
    | interaction => exact ht.elim
  | markInteraction | strikeInteraction =>
    cases t with
    | attr => exact ht.elim
    | interaction => exact congrArg (some ∘ Advised.interaction) ht.symm

theorem advisories_advice_other (hx : ch.subject? ≠ some x) :
    advisories p x (ch.advice c fed fed') = [] := by
  refine advisories_eq_nil ?_
  have silent : ∀ {body : CallbackRequest} {b : Bool} {concerns : FederateSession → Bool},
      x.reads body = none →
        ∀ cb ∈ (if b then emitAdvisory c fed' concerns body else []), x.reads cb.body = none := by
    intro body b concerns hbody cb hcb
    split at hcb
    · obtain ⟨r, _, rfl⟩ := mem_fanOut.mp hcb
      exact hbody
    · cases hcb
  cases ch with
  | keep | clear => exact List.forall_mem_nil _
  | mark | strike =>
    refine silent ?_
    cases x with
    | object => exact if_neg fun hd => hx (by rw [hd]; rfl)
    | interaction => rfl
  | markInteraction | strikeInteraction =>
    refine silent ?_
    cases x with
    | object => rfl
    | interaction => exact if_neg fun hj => hx (by rw [hj]; rfl)

/-- Whoever marks something in the class has it in the record. -/
theorem Makes.listed_of_marker {h : FederateHandle} {xs : Set Topic} (hm : ch.Makes h fed fed')
    (hpost : ch.posting h = .mark h xs) (hfs : fed'.federates.lookup h = some fs)
    (hnot : ¬ fs.SubscribedTo x) : fed'.ledger.Listed x.topics ↔ fed.ledger.Listed x.topics := by
  have hown : (fed.ledger.post (.mark h xs)).own h = some fs.topics := by
    rw [← hpost, ← hm.ledger]
    simp only [Federation.ledger, hfs, Option.map_some]
  rw [hm.ledger, hpost]
  refine Ledger.listed_post fun t ht hxs => ?_
  exact hnot (FederateSession.subscribedTo_iff.mpr ⟨t, ht, Ledger.subset_of_own_mark hown hxs⟩)

theorem Makes.listed_of_other {h : FederateHandle} (hm : ch.Makes h fed fed')
    (hx : ch.subject? ≠ some x) : fed'.ledger.Listed x.topics ↔ fed.ledger.Listed x.topics := by
  rw [hm.ledger]
  refine Ledger.listed_post fun t ht hpost => hx ?_
  rw [subject?_of_mem hpost, show t.cls = x from ht]

variable {body : CallbackRequest} {concerns : FederateSession → Bool} {xs : Set Topic}

/-- A listener is told that the first subscriber came. -/
theorem Makes.told_of_mark (hm : ch.Makes c.federate fed fed') (hs : fed.subscriptions.Sound)
    (hs' : fed'.subscriptions.Sound) (hk : fed'.federates.KeyedBy FederateSession.handle)
    (hp : Listener p x c fed' fs) (hpost : ch.posting c.federate = .mark c.federate xs)
    (hadvice : ch.advice c fed fed' =
      if !x.level fed && x.level fed' then emitAdvisory c fed' concerns body else [])
    (hcon : fs.handle ≠ c.federate → concerns fs = true) (hreads : x.reads body = some true) :
    advisories p x (ch.advice c fed fed') = edge (x.level fed) (x.level fed') := by
  rw [hadvice, edge_of_rise]
  · split
    · next hup =>
        rw [Bool.and_eq_true, Bool.not_eq_true'] at hup
        refine advisories_emitAdvisory hk hp.joined hp.connected (hcon fun hself => ?_) hreads
        -- the listener itself has subscribed to nothing
        obtain rfl : p = c.federate := (hk p fs hp.joined).symm.trans hself
        have hsame := hm.listed_of_marker hpost hp.joined hp.notSubscribed
        rw [← Advised.level_iff hs, ← Advised.level_iff hs', hup.1, hup.2] at hsame
        exact absurd (hsame.mp rfl) Bool.false_ne_true
    · rfl
  · intro hup
    rw [Advised.level_iff hs', hm.ledger, hpost]
    exact ((Advised.level_iff hs).mp hup).mark

/-- A listener is told that the last subscriber went. -/
theorem Makes.told_of_strike (hm : ch.Makes c.federate fed fed') (hs : fed.subscriptions.Sound)
    (hs' : fed'.subscriptions.Sound) (hk : fed'.federates.KeyedBy FederateSession.handle)
    (hp : Listener p x c fed' fs) (hpost : ch.posting c.federate = .strike c.federate xs)
    (hadvice : ch.advice c fed fed' =
      if x.level fed && !x.level fed' then emitAdvisory c fed' concerns body else [])
    (hcon : concerns fs = true) (hreads : x.reads body = some false) :
    advisories p x (ch.advice c fed fed') = edge (x.level fed) (x.level fed') := by
  rw [hadvice, edge_of_fall]
  · split
    · exact advisories_emitAdvisory hk hp.joined hp.connected hcon hreads
    · rfl
  · intro hup
    rw [Advised.level_iff hs', hm.ledger, hpost] at hup
    exact (Advised.level_iff hs).mpr hup.of_strike

/-- **What a listener is told of a change is the edge of the level**, unless the
change withdraws the class from its subscribers. -/
theorem Makes.edge (hm : ch.Makes c.federate fed fed') (hs : fed.subscriptions.Sound)
    (hs' : fed'.subscriptions.Sound) (hk : fed'.federates.KeyedBy FederateSession.handle)
    (hp : Listener p x c fed' fs)
    (hclear : ∀ cls, ch = .clear cls → x = .object cls → ¬ fed.ledger.Listed x.topics) :
    advisories p x (ch.advice c fed fed') = edge (x.level fed) (x.level fed') := by
  have same : (fed'.ledger.Listed x.topics ↔ fed.ledger.Listed x.topics) →
      x.level fed' = x.level fed := by
    intro h
    rw [Bool.eq_iff_iff, Advised.level_iff hs', Advised.level_iff hs, h]
  by_cases hx : ch.subject? = some x
  · have hlistens := hp.listens
    cases ch with
    | keep => cases hx
    | mark | markInteraction =>
      cases hx
      exact hm.told_of_mark hs hs' hk hp rfl rfl
        (fun hne => by simpa [hne] using Bool.and_eq_true_iff.mp hlistens) (if_pos rfl)
    | strike | strikeInteraction =>
      cases hx
      exact hm.told_of_strike hs hs' hk hp rfl rfl hlistens (if_pos rfl)
    | clear cls =>
      cases hx
      have hnone := hclear cls rfl rfl
      rw [same, edge_self]
      · rfl
      · refine iff_of_false (fun hlisted => hnone ?_) hnone
        rw [hm.ledger] at hlisted
        exact hlisted.of_clear
  · rw [advisories_advice_other hx, same (hm.listed_of_other hx), edge_self]

end SubscriptionChange

end Advisories

/-! ## Rows and records -/

/-- The matrix counts, and has a row for the class where a joined federate has it
in its record, and nowhere else. -/
structure Federation.Truthful (x : Advised) (fed : Federation) : Prop where
  sound : fed.subscriptions.Sound
  rows : fed.ledger.ExactOn x.topics

/-- What keeps a federation truthful of a class: whoever leaves is not subscribed
to it, the class is withdrawn as a whole only if nobody is, and no counter wraps:
the attributes of a class that have subscribers are fewer than 2³², with those that a
request adds. -/
def FedAction.Orderly (x : Advised) (fed : Federation) : FedAction → Prop
  | leave h => ∀ fs ∈ fed.federates.lookup h, ¬ fs.SubscribedTo x
  | serve _ r => (∀ cls ∈ r.wholeClass?, x = .object cls → ¬ fed.Interested x) ∧
      ∀ new ∈ r.marks?, (fed.subscriptions.subscribed new.1 ∪ new.2.toFinset).card < 2 ^ 32
  | _ => True

instance (x : Advised) (fed : Federation) : (a : FedAction) → Decidable (a.Orderly x fed)
  | .create .. | .join .. => .isTrue trivial
  | .leave h => inferInstanceAs (Decidable (∀ fs ∈ fed.federates.lookup h, _))
  | .serve _ r => inferInstanceAs (Decidable ((∀ cls ∈ r.wholeClass?, _) ∧ ∀ new ∈ r.marks?, _))

namespace Federation

variable {fed : Federation} {x : Advised}

theorem own_eq_some {f : FederateHandle} {s : Set Topic} (h : fed.ledger.own f = some s) :
    ∃ fs, fed.federates.lookup f = some fs ∧ fs.topics = s :=
  Option.map_eq_some_iff.mp h

theorem interested_iff : fed.Interested x ↔
    ∃ f s, fed.ledger.own f = some s ∧ ∃ t ∈ x.topics, t ∈ s := by
  constructor
  · rintro ⟨f, _, fs, hfs, hsub⟩
    exact ⟨f, fs.topics, Option.map_eq_some_iff.mpr ⟨fs, hfs, rfl⟩,
      FederateSession.subscribedTo_iff.mp hsub⟩
  · rintro ⟨f, s, hs, hsub⟩
    obtain ⟨fs, hfs, rfl⟩ := own_eq_some hs
    exact ⟨f, AList.mem_keys.mp (HashMap.mem_of_lookup hfs), fs, hfs,
      FederateSession.subscribedTo_iff.mpr hsub⟩

/-- What the services ask is whether a joined federate is subscribed. -/
theorem Truthful.level_iff (h : fed.Truthful x) : x.level fed = true ↔ fed.Interested x := by
  rw [Advised.level_iff h.sound, h.rows.listed_iff, interested_iff]

theorem truthful_new (name : String) (fom : Omt.MergedFom) :
    (Federation.new name fom).Truthful x where
  sound := SubscriptionMatrix.sound_empty
  rows := by
    intro f t _
    refine iff_of_false ?_ ?_
    · cases t with
      | attr | interaction => exact AList.notMem_empty f
    · rintro ⟨s, hs, _⟩
      cases hs

theorem tidy_posting {ch : SubscriptionChange} {h : FederateHandle} (hjoined : h ∈ fed.federates)
    (hclear : ∀ cls, ch = .clear cls → x = .object cls → ¬ fed.Interested x) :
    fed.ledger.Tidy x.topics (ch.posting h) := by
  have hown : ∃ s, fed.ledger.own h = some s := by
    obtain ⟨fs, hfs⟩ := HashMap.mem_iff_lookup.mp hjoined
    exact ⟨fs.topics, Option.map_eq_some_iff.mpr ⟨fs, hfs, rfl⟩⟩
  cases ch with
  | keep => trivial
  | mark => exact hown
  | strike => trivial
  | clear cls =>
    intro f s _ hs t ht hts hcls
    have hx : (SubscriptionChange.clear cls).subject? = some t.cls :=
      SubscriptionChange.subject?_of_mem (h := h) hcls
    rw [show t.cls = x from ht] at hx
    exact hclear cls rfl (Option.some.inj hx).symm (interested_iff.mpr ⟨f, s, hs, t, ht, hts⟩)
  | markInteraction => exact hown
  | strikeInteraction => trivial

/-- **Orderly actions keep a federation truthful.** -/
theorem Truthful.apply (h : fed.Truthful x) {a : FedAction} (ha : a.Orderly x fed)
    (hf : a.FreshJoin fed) (hc : a.CallerJoined fed) : (a.apply fed).Truthful x := by
  cases a with
  | create name fom => exact truthful_new name fom
  | join =>
    refine Federation.join_keeps (P := fun fed => fed.Truthful x) ?_ fun name => ?_
    · exact ⟨h.sound, h.rows⟩
    · refine ⟨h.sound, ?_⟩
      rw [ledger_enter]
      refine h.rows.post ?_
      show (fed.federates.lookup fed.nextHandle).map _ = none
      rw [AList.lookup_eq_none.mpr hf, Option.map_none]
  | leave k =>
    refine ⟨h.sound, ?_⟩
    show (fed.leave k).ledger.ExactOn x.topics
    rw [ledger_leave]
    refine h.rows.post fun s hs t ht hts => ?_
    obtain ⟨fs, hfs, rfl⟩ := own_eq_some hs
    exact ha fs hfs (FederateSession.subscribedTo_iff.mpr ⟨t, ht, hts⟩)
  | serve c r =>
    obtain ⟨ch, hm, hasked, _⟩ := serve_changes c fed r
    refine ⟨?_, ?_⟩
    · show (Hla4.serve c fed r).federation.subscriptions.Sound
      rw [hm.matrix]
      refine h.sound.change ?_
      rintro cls attrs rfl
      exact ha.2 (cls, attrs) hasked
    · show (Hla4.serve c fed r).federation.ledger.ExactOn x.topics
      rw [hm.ledger]
      refine h.rows.post (tidy_posting hc ?_)
      rintro cls rfl
      exact ha.1 cls hasked

end Federation

/-! ## Whole runs -/

/-- What one federate has been told of a class. -/
def adviceLog (p : FederateHandle) (x : Advised) (fed : Federation) :
    FedAction → List Bool → List Bool
  | .serve c r, told => told ++ advisories p x (serve c fed r).callbacks
  | _, told => told

/-- After the action the federate listens still. -/
def FedAction.HeardBy (p : FederateHandle) (x : Advised) (fed : Federation) : FedAction → Prop
  | create _ _ => False
  | serve c r => ∃ fs, Listener p x c (Hla4.serve c fed r).federation fs
  | _ => True

section Listening

variable {fed : Federation} {x : Advised} {p : FederateHandle} {c : Caller}

/-- **What a listener is told by a call is the edge of the level.** -/
theorem serve_edge {r : ServiceRequest} {fs : FederateSession} (h : fed.Truthful x)
    (h' : (serve c fed r).federation.Truthful x) (hk : fed.Keyed)
    (hwhole : ∀ cls ∈ r.wholeClass?, x = .object cls → ¬ fed.Interested x)
    (hp : Listener p x c (serve c fed r).federation fs) :
    advisories p x (serve c fed r).callbacks =
      edge (x.level fed) (x.level (serve c fed r).federation) := by
  obtain ⟨ch, hm, hasked, hadvice⟩ := serve_changes c fed r
  rw [← advisories_filter, hadvice]
  refine hm.edge h.sound h'.sound (serve_keyed r hk).federates hp ?_
  rintro cls rfl hx
  rw [h.rows.listed_iff, ← Federation.interested_iff]
  exact hwhole cls hasked hx

theorem follows_apply {a : FedAction} {told : List Bool} (h : fed.Truthful x)
    (h' : (a.apply fed).Truthful x) (hk : fed.Keyed) (ha : a.Orderly x fed) (hp : a.HeardBy p x fed)
    (hl : Follows told (x.level fed)) :
    Follows (adviceLog p x fed a told) (x.level (a.apply fed)) := by
  cases a with
  | create => exact hp.elim
  | join =>
    refine Federation.join_keeps (P := fun fed => Follows told (x.level fed)) hl fun name => ?_
    cases x <;> exact hl
  | leave => cases x <;> exact hl
  | serve =>
    obtain ⟨fs, hp⟩ := hp
    rw [adviceLog, serve_edge h h' hk ha.1 hp]
    exact hl.edge

end Listening

namespace Node

variable {n : Node} {e : NodeEvent} {r : FedRef} {p : FederateHandle} {x : Advised}

/-- The federate is joined and connected, publishes the class with the advisory
switch on, and is not subscribed to it. -/
def Attends (r : FedRef) (p : FederateHandle) (x : Advised) (n : Node) : Prop :=
  ∃ fs ∈ (n.heap r).federates.lookup p,
    fs.sessionId ∈ n.connections ∧ fs.listensFor x = true ∧ ¬ fs.SubscribedTo x

instance (r : FedRef) (p : FederateHandle) (x : Advised) (n : Node) : Decidable (n.Attends r p x) :=
  inferInstanceAs (Decidable (∃ fs ∈ (n.heap r).federates.lookup p, _))

theorem connections_serve {c : Caller} {req : ServiceRequest}
    (ha : n.action e = some (r, .serve c req)) : c.connections = (n.step e).connections := by
  have hc : c.connections = n.connections := by
    obtain ⟨_, _, _, _, _, _, _, _, rfl⟩ := action_serve ha
    rfl
  rw [hc]
  have heff := n.step_effect e
  rw [ha] at heff
  generalize n.move e = mv at heff
  generalize n.step e = n' at heff
  cases heff with
  | calls _ hcall => exact hcall.connections.1.symm

/-- Who attends after a step has heard what it said. -/
theorem Attends.heardBy (h : (n.step e).Attends r p x) :
    n.MeetsAt r (fun fed a => a.HeardBy p x fed) e := by
  rintro ⟨r', a⟩ ha rfl
  obtain ⟨fs, hfs, hconn, hlistens, hnot⟩ := h
  have hheap : (n.step e).heap r' = a.apply (n.heap r') := by
    rw [heap_step, ha]
    exact Function.update_self ..
  rw [hheap] at hfs
  cases a with
  | create => cases hfs
  | serve => exact ⟨fs, hfs, connections_serve ha ▸ hconn, hlistens, hnot⟩
  | _ => trivial

/-- The step is orderly for the class in federation `r`, and a join overwrites
nobody. -/
def StaysOrderly (r : FedRef) (x : Advised) (n : Node) (e : NodeEvent) : Prop :=
  n.Meets (fun fed a => a.FreshJoin fed) e ∧ n.MeetsAt r (fun fed a => a.Orderly x fed) e

instance (r : FedRef) (x : Advised) (n : Node) (e : NodeEvent) : Decidable (n.StaysOrderly r x e) :=
  inferInstanceAs (Decidable (_ ∧ _))

/-- What orderly steps keep. -/
structure Informed (r : FedRef) (x : Advised) (n : Node) : Prop where
  rooted : n.Rooted
  keyed : (n.heap r).Keyed
  truthful : (n.heap r).Truthful x

theorem informed_new : Node.new.Informed r x :=
  ⟨rooted_new, Federation.keyed_new _ _, Federation.truthful_new _ _⟩

theorem Informed.step (h : n.Informed r x) (hok : n.StaysOrderly r x e) :
    (n.step e).Informed r x := by
  have hfed : ((n.step e).heap r).Keyed ∧ ((n.step e).heap r).Truthful x := by
    rcases n.heap_cases e r with hsame | ⟨a, ha, hact⟩
    · rw [hsame]
      exact ⟨h.keyed, h.truthful⟩
    · rw [hact]
      exact ⟨keyed_apply _ a h.keyed, h.truthful.apply (hok.2 (r, a) ha rfl) (hok.1 (r, a) ha)
        (h.rooted.callerJoined e (r, a) ha)⟩
  exact ⟨rooted_step n e h.rooted hok.1, hfed.1, hfed.2⟩

/-- An orderly step after which the federate attends has told it the edge. -/
theorem Informed.follows (h : n.Informed r x) (hok : n.StaysOrderly r x e)
    (hp : (n.step e).Attends r p x) {told : List Bool} (hl : Follows told (x.level (n.heap r))) :
    Follows (n.track r (adviceLog p x) e told) (x.level ((n.step e).heap r)) := by
  have h' := h.step hok
  rw [track]
  cases ha : n.action e with
  | none =>
    rw [heap_step, ha]
    exact hl
  | some ra =>
    obtain ⟨r', a⟩ := ra
    by_cases hr : r' = r
    · subst hr
      have hheap : (n.step e).heap r' = a.apply (n.heap r') := by
        rw [heap_step, ha]
        exact Function.update_self ..
      have htruth := h'.truthful
      rw [hheap] at htruth ⊢
      simp only [if_true]
      exact follows_apply h.truthful htruth h.keyed (hok.2 (r', a) ha rfl)
        (hp.heardBy (r', a) ha rfl) hl
    · rw [heap_step, ha, heapAfter, Function.update_of_ne (Ne.symm hr)]
      simp only [hr, if_false]
      exact hl

/-- **Advisories track the subscribers.**  Let federate `p` of federation `r` attend
to a class from the end of `pre` on: joined, connected, publishing the class with
the switch on, not subscribed to it; and let nobody be subscribed to the class at
that time.  If every step is orderly, then after every step of `post` what `p`
has been told since alternates, beginning with a Start (or On), and it ends with
one exactly when some joined federate is subscribed to the class. -/
theorem advisories_track {pre post : List NodeEvent}
    (hok : StepsMeet Node.step (StaysOrderly r x) Node.new (pre ++ post))
    (hnobody : ¬ ((run Node.step Node.new pre).heap r).Interested x)
    (hattends : Always Node.step (Attends r p x) (run Node.step Node.new pre) post) :
    Always (logged Node.step (track r (adviceLog p x)))
      (fun s => Alternates true s.2 ∧ (latest false s.2 = true ↔ (s.1.heap r).Interested x))
      (run Node.step Node.new pre, []) post := by
  obtain ⟨hpre, hpost⟩ := stepsMeet_append.mp hok
  have hstart : (run Node.step Node.new pre).Informed r x :=
    hpre.invariant (fun _ _ h he => h.step he) informed_new
  have hdown : x.level ((run Node.step Node.new pre).heap r) = false := by
    rw [← Bool.not_eq_true, hstart.truthful.level_iff]
    exact hnobody
  have hsteps : StepsMeet (logged Node.step (track r (adviceLog p x)))
      (fun s e => StaysOrderly r x s.1 e ∧ (s.1.step e).Attends r p x)
      (run Node.step Node.new pre, []) post :=
    (hpost.and (always_iff.mp hattends).2).logged []
  have hinv := hsteps.always
    (P := fun s => s.1.Informed r x ∧ Follows s.2 (x.level (s.1.heap r)))
    (fun s e h he => ⟨h.1.step he.1, h.1.follows he.1 he.2 h.2⟩) ⟨hstart, hdown ▸ .start⟩
  intro done hd
  obtain ⟨hinf, hl⟩ := hinv done hd
  exact ⟨hl.alternates, by rw [hl.latest, hinf.truthful.level_iff]⟩

/-- Federate 1 publishes the small classes. -/
def pairPublishing : List NodeEvent := pairJoined ++
  [.serves 0 (.declaration (.publishObjectClassAttributes (wire32 1) (some [[0, 0, 0, 1]]))),
    .serves 0 (.declaration (.publishInteractionClass (wire32 1)))]

/-- Federate 2 subscribes, unsubscribes and resigns: federate 1 is told Start and
Stop. -/
theorem advisories_track_pair :
    let post := [subscribes 1, .serves 1 (.declaration (.unsubscribeObjectClassAttributes (wire32 1)
        (some [[0, 0, 0, 1]]))), .manages 1 .resignFederationExecution]
    (run (logged Node.step (track 0 (adviceLog ⟨1⟩ (.object ⟨1⟩))))
      (run Node.step Node.new pairPublishing, []) post).2 = [true, false] ∧
    Always (logged Node.step (track 0 (adviceLog ⟨1⟩ (.object ⟨1⟩))))
      (fun s => Alternates true s.2 ∧ (latest false s.2 = true ↔ (s.1.heap 0).Interested (.object ⟨1⟩)))
      (run Node.step Node.new pairPublishing, []) post :=
  ⟨by decide +kernel, advisories_track (by decide +kernel) (by decide +kernel) (by decide +kernel)⟩

/-- The ways federate 2 can stop being a subscriber, and federate 1 not be told:
it withdraws the whole class, it resigns, its transport drops. -/
def silentRuns : List (Advised × List NodeEvent) :=
  let subscribesInteraction := .serves 1 (.declaration (.subscribeInteractionClass false (wire32 1)))
  [(.object ⟨1⟩, [subscribes 1, withdrawsClass 1]),
    (.object ⟨1⟩, [subscribes 1, .manages 1 .resignFederationExecution]),
    (.object ⟨1⟩, [subscribes 1, .close 1]),
    (.interaction ⟨1⟩, [subscribesInteraction, .manages 1 .resignFederationExecution]),
    (.interaction ⟨1⟩, [subscribesInteraction, .close 1])]

/-- **Not told.**  In each of these runs federate 1 attends throughout, nobody is
subscribed at the end, and the last it was told is that somebody is. -/
theorem advisories_silent :
    silentRuns.Forall fun (x, post) =>
      ¬ ((run Node.step Node.new pairPublishing).heap 0).Interested x ∧
      Always Node.step (Attends 0 ⟨1⟩ x) (run Node.step Node.new pairPublishing) post ∧
      let s := run (logged Node.step (track 0 (adviceLog ⟨1⟩ x)))
        (run Node.step Node.new pairPublishing, []) post
      latest false s.2 = true ∧ ¬ (s.1.heap 0).Interested x := by
  rw [List.forall_iff_forall_mem]
  decide +kernel

end Node

end Hla4
