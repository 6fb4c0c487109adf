/-
# `Hla4.Rti.Safety.Subscribers` — who subscribes, recorded twice

A subscription stands in the federate's own record and in the federation's
matrix.  The matrix names a federate in three places: under an attribute, under
an interaction class, and in the index of classes.

    RecordsAgree   of every joined federate, record and matrix say the same
    NoGhosts       the matrix names joined federates only

Both are broken by what the code does on its own.  `unsubscribeObjectClass`
strikes a class in the matrix for everybody and in the caller's record alone;
a federate that leaves, in whichever of the three ways, stays in the matrix.
Nothing else breaks either: a service makes one `SubscriptionChange`, in both
places and with the advisories that go with it (`serve_changes`), and runs that
avoid the two keep both (`records_agree`, `no_ghosts`).
-/
import Hla4.Lib.Ledger
import Hla4.Rti.Safety.Membership

namespace Hla4

open Lib

/-! ## The matrix and the federates it names -/

namespace SubscriptionMatrix

/-- The matrix names `f`: under an attribute, under an interaction class, or in
the index. -/
def Names (m : SubscriptionMatrix) (f : FederateHandle) : Prop :=
  (∃ k ∈ m.byAttribute.keys, f ∈ m.byAttribute.get k) ∨
    (∃ k ∈ m.byInteraction.keys, f ∈ m.byInteraction.get k) ∨
    ∃ c ∈ m.classSubscribers.keys, (m.count c f).isSome = true

instance (m : SubscriptionMatrix) (f : FederateHandle) : Decidable (m.Names f) :=
  inferInstanceAs (Decidable (_ ∨ _ ∨ _))

variable {m : SubscriptionMatrix} {c c' : ObjectClassHandle} {a a' : AttributeHandle}
  {f g : FederateHandle} {attrs : List AttributeHandle}

theorem names_iff : m.Names g ↔ (∃ c a, m.Subscribes g c a) ∨
    (∃ k, g ∈ m.byInteraction.get k) ∨ ∃ c, (m.count c g).isSome = true := by
  have hkey : ∀ {K : Type} [DecidableEq K] {t : MultiMap K FederateHandle} {k : K},
      g ∈ t.get k → k ∈ t.keys := by
    intro K _ t k hg
    cases hk : t.lookup k with
    | none =>
      rw [MultiMap.get, hk] at hg
      exact absurd hg (AList.notMem_empty g)
    | some => exact AList.mem_keys.mp (HashMap.mem_of_lookup hk)
  constructor
  · rintro (⟨⟨c, a⟩, _, h⟩ | ⟨k, _, h⟩ | ⟨c, _, h⟩)
    · exact .inl ⟨c, a, h⟩
    · exact .inr (.inl ⟨k, h⟩)
    · exact .inr (.inr ⟨c, h⟩)
  · rintro (⟨c, a, h⟩ | ⟨k, h⟩ | ⟨c, h⟩)
    · exact .inl ⟨(c, a), hkey h, h⟩
    · exact .inr (.inl ⟨k, hkey h, h⟩)
    · refine .inr (.inr ⟨c, ?_, h⟩)
      obtain ⟨n, hn⟩ := Option.isSome_iff_exists.mp h
      obtain ⟨cm, hcm, _⟩ := Option.bind_eq_some_iff.mp hn
      exact AList.mem_keys.mp (HashMap.mem_of_lookup hcm)

/-- Whoever stands in each of the three places only where it stood before was
named before. -/
theorem Names.of_places {m' : SubscriptionMatrix} (h : m'.Names g)
    (hattr : ∀ c a, m'.Subscribes g c a → m.Subscribes g c a)
    (hint : ∀ k, g ∈ m'.byInteraction.get k → g ∈ m.byInteraction.get k)
    (hindex : ∀ c, (m'.count c g).isSome = true → (m.count c g).isSome = true) : m.Names g := by
  refine names_iff.mpr ((names_iff.mp h).imp ?_ (Or.imp ?_ ?_))
  · exact fun ⟨c, a, h⟩ => ⟨c, a, hattr c a h⟩
  · exact fun ⟨k, h⟩ => ⟨k, hint k h⟩
  · exact fun ⟨c, h⟩ => ⟨c, hindex c h⟩

theorem byInteraction_subscribeAttribute :
    (m.subscribeAttribute c a f).1.byInteraction = m.byInteraction := by
  unfold subscribeAttribute
  split <;> rfl

theorem byInteraction_unsubscribeAttribute :
    (m.unsubscribeAttribute c a f).1.byInteraction = m.byInteraction := by
  unfold unsubscribeAttribute
  split <;> rfl

theorem names_subscribeAttribute (hg : g ≠ f) (h : (m.subscribeAttribute c a f).1.Names g) :
    m.Names g := by
  refine h.of_places ?_ ?_ ?_
  · exact fun c' a' h => (subscribes_subscribeAttribute.mp h).resolve_left fun hgf => hg hgf.1
  · exact fun k h => byInteraction_subscribeAttribute ▸ h
  · intro c' h
    by_cases hold : m.Subscribes f c a
    · rw [subscribeAttribute, if_pos hold] at h
      exact h
    · rw [count_subscribeAttribute hold, if_neg fun hcg => hg hcg.2] at h
      exact h

theorem isSome_count_unsubscribeAttribute
    (h : ((m.unsubscribeAttribute c a f).1.count c' g).isSome = true) :
    (m.count c' g).isSome = true := by
  by_cases hold : m.Subscribes f c a
  · cases hn : m.count c f with
    | none =>
      -- nothing is counted down
      have hsame : (m.decrement c f).1 = m.classSubscribers := by
        unfold decrement
        split
        · rfl
        · next cm hcm =>
            have hf : cm.lookup f = none := by simpa [count, hcm] using hn
            rw [hf]
      rw [unsubscribeAttribute, if_pos hold] at h
      simpa [count, hsame] using h
    | some =>
      rw [count_unsubscribeAttribute hold hn] at h
      split at h
      · next hcg =>
          rw [hcg.1, hcg.2, hn]
          rfl
      · exact h
  · rw [count_unsubscribeAttribute_of_not hold] at h
    exact h

theorem names_unsubscribeAttribute (h : (m.unsubscribeAttribute c a f).1.Names g) : m.Names g :=
  h.of_places (fun _ _ h => (subscribes_unsubscribeAttribute.mp h).1)
    (fun _ h => byInteraction_unsubscribeAttribute ▸ h)
    fun _ h => isSome_count_unsubscribeAttribute h

theorem names_removeClass (h : (m.removeClass c).Names g) : m.Names g := by
  refine h.of_places (fun _ _ h => (subscribes_removeClass.mp h).2) (fun _ h => h) ?_
  intro c' h
  rw [count_removeClass] at h
  split at h
  · exact absurd h Bool.false_ne_true
  · exact h

theorem names_byInteraction {t : MultiMap InteractionClassHandle FederateHandle}
    (ht : ∀ k, g ∈ t.get k → g ∈ m.byInteraction.get k)
    (h : Names { m with byInteraction := t } g) : m.Names g :=
  h.of_places (fun _ _ h => h) ht fun _ h => h

/-! ## Attribute by attribute -/

theorem byInteraction_subscribeAll :
    (m.subscribeAll c attrs f).byInteraction = m.byInteraction := by
  unfold subscribeAll
  induction attrs generalizing m with
  | nil => rfl
  | cons a attrs ih => rw [List.foldl_cons, ih, byInteraction_subscribeAttribute]

theorem byInteraction_unsubscribeAll :
    (m.unsubscribeAll c attrs f).byInteraction = m.byInteraction := by
  unfold unsubscribeAll
  induction attrs generalizing m with
  | nil => rfl
  | cons a attrs ih => rw [List.foldl_cons, ih, byInteraction_unsubscribeAttribute]

theorem subscribes_subscribeAll :
    (m.subscribeAll c attrs f).Subscribes g c' a' ↔
      (g = f ∧ c' = c ∧ a' ∈ attrs) ∨ m.Subscribes g c' a' := by
  unfold subscribeAll
  induction attrs generalizing m with
  | nil => simp
  | cons a attrs ih =>
    rw [List.foldl_cons, ih, subscribes_subscribeAttribute, List.mem_cons]
    tauto

theorem subscribes_unsubscribeAll :
    (m.unsubscribeAll c attrs f).Subscribes g c' a' ↔
      m.Subscribes g c' a' ∧ ¬ (g = f ∧ c' = c ∧ a' ∈ attrs) := by
  unfold unsubscribeAll
  induction attrs generalizing m with
  | nil => simp
  | cons a attrs ih =>
    rw [List.foldl_cons, ih, subscribes_unsubscribeAttribute, List.mem_cons]
    tauto

theorem names_subscribeAll (hg : g ≠ f) (h : (m.subscribeAll c attrs f).Names g) : m.Names g := by
  unfold subscribeAll at h
  induction attrs generalizing m with
  | nil => exact h
  | cons a attrs ih => exact names_subscribeAttribute hg (ih h)

theorem names_unsubscribeAll (h : (m.unsubscribeAll c attrs f).Names g) : m.Names g := by
  unfold unsubscribeAll at h
  induction attrs generalizing m with
  | nil => exact h
  | cons a attrs ih => exact names_unsubscribeAttribute (ih h)

end SubscriptionMatrix

/-! ## Record and matrix as a ledger -/

/-- What can be subscribed to. -/
inductive Topic
  | attr (c : ObjectClassHandle) (a : AttributeHandle)
  | interaction (k : InteractionClassHandle)

/-- The topics of a federate's own record. -/
def FederateSession.topics (fs : FederateSession) : Set Topic
  | .attr c a => a ∈ fs.pubSub.subscribedAttrs.get c
  | .interaction k => k ∈ fs.pubSub.subscribedInteractions

/-- The topics the matrix has a federate under. -/
def SubscriptionMatrix.topics (m : SubscriptionMatrix) (f : FederateHandle) : Set Topic
  | .attr c a => m.Subscribes f c a
  | .interaction k => f ∈ m.byInteraction.get k

/-- Some attributes of a class. -/
def attributeTopics (cls : ObjectClassHandle) (attrs : List AttributeHandle) : Set Topic
  | .attr c a => c = cls ∧ a ∈ attrs
  | .interaction _ => False

/-- All attributes of a class. -/
def classTopics (cls : ObjectClassHandle) : Set Topic
  | .attr c _ => c = cls
  | .interaction _ => False

/-- One interaction class. -/
def interactionTopic (cls : InteractionClassHandle) : Set Topic
  | .attr _ _ => False
  | .interaction k => k = cls

/-- A set of topics, attribute by attribute and interaction by interaction. -/
theorem Topic.ext_set {s t : Set Topic} (hattr : ∀ c a, s (.attr c a) ↔ t (.attr c a))
    (hint : ∀ k, s (.interaction k) ↔ t (.interaction k)) : s = t := by
  ext x
  cases x with
  | attr c a => exact hattr c a
  | interaction k => exact hint k

theorem Topic.eq_empty {s : Set Topic} (hattr : ∀ c a, ¬ s (.attr c a))
    (hint : ∀ k, ¬ s (.interaction k)) : s = ∅ :=
  Topic.ext_set (fun c a => iff_false_intro (hattr c a)) fun k => iff_false_intro (hint k)

namespace Federation

/-- The federates' records and the matrix. -/
def ledger (fed : Federation) : Ledger FederateHandle Topic where
  own f := (fed.federates.lookup f).map FederateSession.topics
  table := fed.subscriptions.topics

variable {fed fed' : Federation} {h : FederateHandle} {ps : List Part}

theorem ledger_of_touches (ht : Touches ps fed fed') (hs : Part.federate .subscribed ∉ ps)
    (hm : Part.subscriptions ∉ ps) : fed'.ledger = fed.ledger := by
  have htable : fed'.subscriptions = fed.subscriptions := ht .subscriptions hm
  have hown : ∀ f, fed'.ledger.own f = fed.ledger.own f := by
    intro f
    -- the topics of a record are read off the part
    let read : FederatePart.subscribed.Carrier → Set Topic := fun v x => match x with
      | .attr c a => a ∈ MultiMap.get v.1 c
      | .interaction k => k ∈ v.2
    have hread : FederateSession.topics = read ∘ FederatePart.subscribed.get := by
      funext fs
      exact Topic.ext_set (fun _ _ => Iff.rfl) fun _ => Iff.rfl
    simp only [ledger, hread, ← Option.map_map, ht.federate hs f]
  rw [show fed'.ledger = ⟨fed'.ledger.own, fed'.ledger.table⟩ from rfl, funext hown]
  simp only [ledger, htable]

/-- What `resubscribe` does, when it does to the record what `g` does to
topics. -/
theorem ledger_resubscribe
    {attrs : MultiMap ObjectClassHandle AttributeHandle → MultiMap ObjectClassHandle AttributeHandle}
    {interactions : HashSet InteractionClassHandle → HashSet InteractionClassHandle}
    {matrix : SubscriptionMatrix} {g : Set Topic → Set Topic}
    (hattr : ∀ fs c a, a ∈ (attrs fs.pubSub.subscribedAttrs).get c ↔
      g (FederateSession.topics fs) (.attr c a))
    (hint : ∀ fs k, k ∈ interactions fs.pubSub.subscribedInteractions ↔
      g (FederateSession.topics fs) (.interaction k)) :
    (fed.resubscribe h attrs interactions matrix).ledger =
      ⟨fed.ledger.rewrite h g, matrix.topics⟩ := by
  have hown : (fed.resubscribe h attrs interactions matrix).ledger.own = fed.ledger.rewrite h g := by
    simp only [ledger, resubscribe, modifyPubSub, modifyFederate, HashMap.lookup_modify]
    refine Function.eq_update_iff.mpr ⟨?_, fun f hf => by rw [if_neg hf]⟩
    rw [if_pos rfl, Option.map_map, Option.map_map]
    refine Option.map_congr fun fs _ => ?_
    exact Topic.ext_set (hattr fs) (hint fs)
  rw [← hown]
  rfl

end Federation

namespace SubscriptionMatrix

variable {m : SubscriptionMatrix} {f : FederateHandle} {cls : ObjectClassHandle}
  {attrs : List AttributeHandle}

theorem topics_attributes {m' : SubscriptionMatrix} {s : Set Topic}
    (hsame : m'.byInteraction = m.byInteraction)
    (hattr : ∀ c a, m'.Subscribes f c a ↔ s (.attr c a))
    (hint : ∀ k, f ∈ m.byInteraction.get k ↔ s (.interaction k))
    (hg : ∀ g c a, g ≠ f → (m'.Subscribes g c a ↔ m.Subscribes g c a)) :
    m'.topics = Function.update m.topics f s := by
  have same : ∀ g k, m'.topics g (.interaction k) ↔ m.topics g (.interaction k) :=
    fun g k => iff_of_eq (congrArg (g ∈ MultiMap.get · k) hsame)
  exact Function.eq_update_iff.mpr ⟨Topic.ext_set hattr fun k => (same f k).trans (hint k),
    fun g hgf => Topic.ext_set (fun c a => hg g c a hgf) (same g)⟩

theorem topics_subscribeAll : (m.subscribeAll cls attrs f).topics =
    Function.update m.topics f (m.topics f ∪ attributeTopics cls attrs) := by
  refine topics_attributes byInteraction_subscribeAll ?_ (fun _ => (or_iff_left not_false).symm) ?_
  · intro c a
    refine subscribes_subscribeAll.trans ?_
    simp only [true_and]
    exact or_comm
  · intro g c a hg
    refine subscribes_subscribeAll.trans ?_
    simp only [hg, false_and, false_or]

theorem topics_unsubscribeAll : (m.unsubscribeAll cls attrs f).topics =
    Function.update m.topics f (m.topics f \ attributeTopics cls attrs) := by
  refine topics_attributes byInteraction_unsubscribeAll ?_
    (fun _ => (and_iff_left not_false).symm) ?_
  · intro c a
    refine subscribes_unsubscribeAll.trans ?_
    simp only [true_and]
    rfl
  · intro g c a hg
    refine subscribes_unsubscribeAll.trans ?_
    simp only [hg, false_and, not_false_iff, and_true]

theorem topics_removeClass :
    (m.removeClass cls).topics = fun g => m.topics g \ classTopics cls := by
  funext g
  refine Topic.ext_set ?_ ?_
  · intro c a
    exact subscribes_removeClass.trans and_comm
  · intro k
    exact (and_iff_left not_false).symm

theorem topics_byInteraction {t : MultiMap InteractionClassHandle FederateHandle} {s : Set Topic}
    (hattr : ∀ c a, m.Subscribes f c a ↔ s (.attr c a))
    (hint : ∀ k, f ∈ t.get k ↔ s (.interaction k))
    (hg : ∀ g k, g ≠ f → (g ∈ t.get k ↔ g ∈ m.byInteraction.get k)) :
    topics { m with byInteraction := t } = Function.update m.topics f s :=
  Function.eq_update_iff.mpr ⟨Topic.ext_set hattr hint, fun g hgf =>
    Topic.ext_set (fun _ _ => Iff.rfl) fun k => hg g k hgf⟩

end SubscriptionMatrix

/-! ## What the services do -/

/-- Nobody but `h` has attributes of the class in its own record. -/
def Federation.NobodyElse (fed : Federation) (h : FederateHandle) (cls : ObjectClassHandle) : Prop :=
  ∀ f ∈ fed.federates.keys, f ≠ h → ∀ fs ∈ fed.federates.lookup f,
    (fs.pubSub.subscribedAttrs.get cls).keys = []

instance (fed : Federation) (h : FederateHandle) (cls : ObjectClassHandle) :
    Decidable (fed.NobodyElse h cls) :=
  inferInstanceAs (Decidable (∀ f ∈ fed.federates.keys, f ≠ h → ∀ fs ∈ fed.federates.lookup f, _))

/-- A call of `h` was posted to the ledger, carefully if it withdraws no class
(`whole`) that somebody else has in the record; and the matrix names nobody
new but `h`. -/
structure Resubscribes (h : FederateHandle) (whole : Option ObjectClassHandle)
    (fed fed' : Federation) : Prop where
  posts : (∀ cls ∈ whole, fed.NobodyElse h cls) →
    ∃ p, fed'.ledger = fed.ledger.post p ∧ fed.ledger.Careful p
  names : ∀ f, f ≠ h → fed'.subscriptions.Names f → fed.subscriptions.Names f

/-- What a call can do to the subscriptions. -/
inductive SubscriptionChange
  | keep
  | mark (cls : ObjectClassHandle) (attrs : List AttributeHandle)
  | strike (cls : ObjectClassHandle) (attrs : List AttributeHandle)
  /-- strike a class in one record, and in the matrix for everybody -/
  | clear (cls : ObjectClassHandle)
  | markInteraction (k : InteractionClassHandle)
  | strikeInteraction (k : InteractionClassHandle)

namespace SubscriptionChange

/-- The change, by federate `h`, of the ledger. -/
def posting (h : FederateHandle) : SubscriptionChange → Posting FederateHandle Topic
  | keep => .keep
  | mark cls attrs => .mark h (attributeTopics cls attrs)
  | strike cls attrs => .strike h (attributeTopics cls attrs)
  | clear cls => .clear h (classTopics cls)
  | markInteraction k => .mark h (interactionTopic k)
  | strikeInteraction k => .strike h (interactionTopic k)

/-- The change, by federate `h`, of the matrix. -/
def matrix (h : FederateHandle) (m : SubscriptionMatrix) : SubscriptionChange → SubscriptionMatrix
  | keep => m
  | mark cls attrs => m.subscribeAll cls attrs h
  | strike cls attrs => m.unsubscribeAll cls attrs h
  | clear cls => m.removeClass cls
  | markInteraction k => { m with byInteraction := m.byInteraction.add k [h] }
  | strikeInteraction k => { m with byInteraction := m.byInteraction.remove k [h] }

/-- From `fed` to `fed'` federate `h` makes the change, in both places. -/
structure Makes (h : FederateHandle) (fed fed' : Federation) (ch : SubscriptionChange) : Prop where
  ledger : fed'.ledger = fed.ledger.post (ch.posting h)
  matrix : fed'.subscriptions = ch.matrix h fed.subscriptions

namespace Makes

variable {fed fed' fed'' : Federation} {h : FederateHandle} {ch : SubscriptionChange}
  {ps : List Part} {cls : ObjectClassHandle} {attrs : List AttributeHandle}

theorem of_touches (ht : Federation.Touches ps fed fed') (hs : Part.federate .subscribed ∉ ps)
    (hm : Part.subscriptions ∉ ps) : keep.Makes h fed fed' where
  ledger := Federation.ledger_of_touches ht hs hm
  matrix := ht .subscriptions hm

theorem trans_touches (hr : ch.Makes h fed fed') (ht : Federation.Touches ps fed' fed'')
    (hs : Part.federate .subscribed ∉ ps) (hm : Part.subscriptions ∉ ps) : ch.Makes h fed fed'' where
  ledger := (Federation.ledger_of_touches ht hs hm).trans hr.ledger
  matrix := (show fed''.subscriptions = fed'.subscriptions from ht .subscriptions hm).trans hr.matrix

/-- A subscription to attributes: the record gains what the matrix gains. -/
theorem of_mark {own : MultiMap ObjectClassHandle AttributeHandle →
      MultiMap ObjectClassHandle AttributeHandle}
    (hown : ∀ m c a, a ∈ (own m).get c ↔ a ∈ m.get c ∨ (c = cls ∧ a ∈ attrs)) :
    (mark cls attrs).Makes h fed
      (fed.resubscribe h own id (fed.subscriptions.subscribeAll cls attrs h)) where
  ledger := by
    rw [Federation.ledger_resubscribe (g := (· ∪ attributeTopics cls attrs))
      (fun fs => hown fs.pubSub.subscribedAttrs) (fun _ _ => (or_iff_left not_false).symm),
      SubscriptionMatrix.topics_subscribeAll]
    rfl
  matrix := rfl

theorem record : (mark cls attrs).Makes h fed (fed.recordSubscription h cls attrs) :=
  of_mark fun _ _ _ => MultiMap.mem_get_add.trans or_comm

theorem withdraw : (strike cls attrs).Makes h fed (fed.withdrawSubscription h cls attrs) where
  ledger := by
    rw [Federation.withdrawSubscription,
      Federation.ledger_resubscribe (g := (· \ attributeTopics cls attrs))
        (fun _ _ _ => MultiMap.mem_get_remove) (fun _ _ => (and_iff_left not_false).symm),
      SubscriptionMatrix.topics_unsubscribeAll]
    rfl
  matrix := rfl

/-- The whole class goes from one record and from every row. -/
theorem withdrawClass : (clear cls).Makes h fed (fed.withdrawClass h cls) where
  ledger := by
    have herase : ∀ (m : MultiMap ObjectClassHandle AttributeHandle) c a,
        a ∈ MultiMap.get (m.erase cls) c ↔ a ∈ m.get c ∧ ¬ c = cls := by
      intro m c a
      rw [MultiMap.get, HashMap.lookup_erase_eq]
      by_cases hc : c = cls
      · simp [hc]
      · simp [hc, MultiMap.get]
    rw [Federation.withdrawClass,
      Federation.ledger_resubscribe (g := (· \ classTopics cls))
        (fun fs => herase fs.pubSub.subscribedAttrs) (fun _ _ => (and_iff_left not_false).symm),
      SubscriptionMatrix.topics_removeClass]
    rfl
  matrix := rfl

theorem recordInteraction {k : InteractionClassHandle} :
    (markInteraction k).Makes h fed (fed.recordInteraction h k) where
  ledger := by
    refine (Federation.ledger_resubscribe (g := (· ∪ interactionTopic k))
      (fun _ _ _ => (or_iff_left not_false).symm)
      (fun _ _ => HashSet.mem_insert.trans or_comm)).trans ?_
    rw [SubscriptionMatrix.topics_byInteraction (f := h)
      (s := fed.subscriptions.topics h ∪ interactionTopic k)
      (fun _ _ => (or_iff_left not_false).symm) ?_ ?_]
    · rfl
    · intro k'
      rw [MultiMap.mem_get_add, List.mem_singleton, and_iff_left rfl]
      exact or_comm
    · intro g k' hg
      rw [MultiMap.mem_get_add, List.mem_singleton]
      exact or_iff_right fun hk => hg hk.2
  matrix := rfl

theorem withdrawInteraction {k : InteractionClassHandle} :
    (strikeInteraction k).Makes h fed (fed.withdrawInteraction h k) where
  ledger := by
    refine (Federation.ledger_resubscribe (g := (· \ interactionTopic k))
      (fun _ _ _ => (and_iff_left not_false).symm)
      (fun _ _ => AList.mem_erase.trans and_comm)).trans ?_
    rw [SubscriptionMatrix.topics_byInteraction (f := h)
      (s := fed.subscriptions.topics h \ interactionTopic k)
      (fun _ _ => (and_iff_left not_false).symm) ?_ ?_]
    · rfl
    · intro k'
      rw [MultiMap.mem_get_remove, List.mem_singleton, and_iff_left (rfl : h = h)]
      rfl
    · intro g k' hg
      rw [MultiMap.mem_get_remove, List.mem_singleton]
      exact and_iff_left fun hk => hg hk.2
  matrix := rfl

theorem recordRegions {regions : MultiMap AttributeHandle RegionHandle} :
    (mark cls regions.keys).Makes h fed (fed.recordRegionSubscription h cls regions) := by
  have hown : ∀ (attrs : List AttributeHandle) (m : MultiMap ObjectClassHandle AttributeHandle) c a,
      a ∈ (attrs.foldl (fun m attr => m.add cls [attr]) m).get c ↔
        a ∈ m.get c ∨ (c = cls ∧ a ∈ attrs) := by
    intro attrs
    induction attrs with
    | nil => simp
    | cons b attrs ih =>
      intro m c a
      rw [List.foldl_cons, ih, MultiMap.mem_get_add, List.mem_singleton, List.mem_cons]
      tauto
  exact (of_mark (hown regions.keys)).trans_touches
    (touches_subscribedRegions (SubscribedRegions.record cls regions)) (by decide) (by decide)

end Makes

/-- The advisories of a change: to the publishers, when the first subscriber comes
or the last one goes. -/
def advice (c : Caller) (fed fed' : Federation) : SubscriptionChange → List OutboundCallback
  | mark cls _ =>
    if !fed.subscriptions.classHasSubscribers cls && fed'.subscriptions.classHasSubscribers cls
    then emitStartRegistration c fed' cls c.federate else []
  | strike cls _ =>
    if fed.subscriptions.classHasSubscribers cls && !fed'.subscriptions.classHasSubscribers cls
    then emitStopRegistration c fed' cls else []
  | markInteraction k =>
    if !interactionHasSubscribers fed k && interactionHasSubscribers fed' k
    then emitTurnInteractionsOn c fed' k c.federate else []
  | strikeInteraction k =>
    if interactionHasSubscribers fed k && !interactionHasSubscribers fed' k
    then emitTurnInteractionsOff c fed' k else []
  | _ => []

/-- Nobody new is named, and a change that is not the withdrawal of a class that
somebody else has is careful. -/
theorem Makes.resubscribes {fed fed' : Federation} {h : FederateHandle} {ch : SubscriptionChange}
    {whole : Option ObjectClassHandle} (hm : ch.Makes h fed fed')
    (hwhole : ∀ cls, ch = .clear cls → whole = some cls) : Resubscribes h whole fed fed' where
  posts := by
    intro hnobody
    refine ⟨ch.posting h, hm.ledger, ?_⟩
    cases ch with
    | clear cls =>
      intro f s hf hs t ht htc
      obtain ⟨fs, hfs, rfl⟩ := Option.map_eq_some_iff.mp hs
      have hkeys := hnobody cls (hwhole cls rfl) f
        (AList.mem_keys.mp (HashMap.mem_of_lookup hfs)) hf fs hfs
      cases t with
      | interaction => exact htc
      | attr c a =>
        obtain rfl : c = cls := htc
        exact HashSet.keys_eq_nil_iff.mp hkeys a ht
    | _ => trivial
  names := by
    intro f hf hnames
    rw [hm.matrix] at hnames
    cases ch with
    | keep => exact hnames
    | mark => exact SubscriptionMatrix.names_subscribeAll hf hnames
    | strike => exact SubscriptionMatrix.names_unsubscribeAll hnames
    | clear => exact SubscriptionMatrix.names_removeClass hnames
    | markInteraction =>
      refine SubscriptionMatrix.names_byInteraction (fun k' hk => ?_) hnames
      rcases MultiMap.mem_get_add.mp hk with ⟨_, hfh⟩ | hk
      · exact absurd (List.mem_singleton.mp hfh) hf
      · exact hk
    | strikeInteraction =>
      exact SubscriptionMatrix.names_byInteraction
        (fun _ hk => (MultiMap.mem_get_remove.mp hk).1) hnames

end SubscriptionChange

/-- The class an `unsubscribeObjectClass` withdraws. -/
def ServiceRequest.wholeClass? : ServiceRequest → Option ObjectClassHandle
  | .declaration (.unsubscribeObjectClass cls) => cls.bind decodeObjectClass
  | _ => none

/-- The class and the attributes that a request subscribes to. -/
def ServiceRequest.marks? : ServiceRequest → Option (ObjectClassHandle × List AttributeHandle)
  | .declaration (.subscribeObjectClassAttributes _ cls attrs) => Except.toOption do
      let cls ← objectClassArg cls
      let set ← decodeHandleSet attrs
      pure (cls, set.keys)
  | .region (.subscribeObjectClassAttributesWithRegions cls pairs) => Except.toOption do
      let cls ← objectClassArg cls
      pure (cls, (decodeAttrRegionPairs pairs).keys)
  | _ => none

theorem objectClassArg_of_defined {fed : Federation} {cls : WireField} {k : ObjectClassHandle}
    (h : definedObjectClassArg fed cls = .ok k) : objectClassArg cls = .ok k := by
  obtain ⟨k', hk, h⟩ := bind_eq_ok.mp h
  obtain ⟨_, _, h⟩ := bind_eq_ok.mp h
  cases h
  exact hk

/-- A class is cleared, or attributes are marked, only as the request says. -/
def SubscriptionChange.AskedBy (r : ServiceRequest) : SubscriptionChange → Prop
  | clear cls => r.wholeClass? = some cls
  | mark cls attrs => r.marks? = some (cls, attrs)
  | _ => True

section Services

variable (c : Caller) (fed : Federation) {r : ServiceRequest}

/-- A call made a change: the one the request asks for, and its advisories are
those of the call. -/
def Outcome.Changes (r : ServiceRequest) (o : Outcome) : Prop :=
  ∃ ch : SubscriptionChange, ch.Makes c.federate fed o.federation ∧ ch.AskedBy r ∧
    o.callbacks.filter (fun cb => decide (cb.body.topic = .relevance)) =
      ch.advice c fed o.federation

variable {c fed}

theorem Outcome.Changes.keep {o : Outcome} {ps : List Part}
    (ht : Federation.Touches ps fed o.federation) (hs : Part.federate .subscribed ∉ ps)
    (hm : Part.subscriptions ∉ ps) (hcb : ∀ cb ∈ o.callbacks, cb.body.topic ≠ .relevance) :
    o.Changes c fed r := by
  refine ⟨.keep, .of_touches ht hs hm, trivial, ?_⟩
  refine List.filter_eq_nil_iff.mpr fun cb h => ?_
  simpa using hcb cb h

theorem Outcome.Changes.reject (e : ExceptionData) :
    (Outcome.reject fed e).Changes c fed r :=
  .keep (Federation.Touches.refl : Federation.Touches [] fed fed) (by decide) (by decide)
    (List.forall_mem_nil _)

/-- A call that makes a change and sends its advisories. -/
theorem Outcome.Changes.reply {ch : SubscriptionChange} {fed' : Federation} {resp : Resp}
    {cbs : List OutboundCallback} (hm : ch.Makes c.federate fed fed')
    (hasked : ch.AskedBy r) (hcbs : cbs = ch.advice c fed fed')
    (hrel : ∀ cb ∈ cbs, cb.body.On .relevance) :
    (Outcome.reply fed' resp cbs).Changes c fed r := by
  refine ⟨ch, hm, hasked, Eq.trans ?_ hcbs⟩
  exact List.filter_eq_self.mpr fun cb h => decide_eq_true (hrel cb h)

variable (c fed)

theorem serveDeclaration_changes (r : DeclarationRequest) :
    (serveDeclaration c fed r).Changes c fed (.declaration r) := by
  have published : ∀ {req} {f : PubSubState → PubSubState} {resp : Resp},
      (∀ ps, f ps = { ps with
        publishedAttrs := (f ps).publishedAttrs
        publishedInteractions := (f ps).publishedInteractions }) →
      (Outcome.reply (fed.modifyPubSub c.federate f) resp []).Changes c fed req :=
    fun hf => .keep (touches_published hf) (by decide) (by decide) (List.forall_mem_nil _)
  cases r with
  | publishObjectClassAttributes | unpublishObjectClassAttributes =>
    exact Outcome.ofExcept_of .reject
      (.bind fun _ _ => .bind fun _ _ => .pure (published fun _ => rfl))
  | subscribeObjectClassAttributes =>
    refine Outcome.ofExcept_of .reject (.bind fun k hk => .bind fun set hset => .pure ?_)
    refine .reply .record ?_ rfl (forall_ite (forall_emitAdvisory rfl))
    simp only [SubscriptionChange.AskedBy, ServiceRequest.marks?, objectClassArg_of_defined hk, hset]
    rfl
  | unsubscribeObjectClassAttributes =>
    exact Outcome.ofExcept_of .reject (.bind fun _ _ => .bind fun _ _ =>
      .pure (.reply .withdraw trivial rfl (forall_ite (forall_emitAdvisory rfl))))
  | publishInteractionClass | unpublishInteractionClass | unpublishObjectClass =>
    exact Outcome.ofExcept_of .reject (.bind fun _ _ => .pure (published fun _ => rfl))
  | subscribeInteractionClass =>
    exact Outcome.ofExcept_of .reject (.bind fun _ _ => .pure
      (.reply .recordInteraction trivial rfl (forall_ite (forall_emitAdvisory rfl))))
  | unsubscribeInteractionClass =>
    exact Outcome.ofExcept_of .reject (.bind fun _ _ => .pure
      (.reply .withdrawInteraction trivial rfl
        (forall_ite (forall_emitAdvisory rfl))))
  | unsubscribeObjectClass =>
    refine Outcome.ofExcept_of .reject (.bind fun k hk => .pure ?_)
    exact .reply .withdrawClass (getOr_eq_ok.mp hk) rfl (List.forall_mem_nil _)

theorem serveRegion_changes (r : RegionRequest) : (serveRegion c fed r).Changes c fed (.region r) := by
  by_cases hr : ∃ cls pairs, r = .subscribeObjectClassAttributesWithRegions cls pairs
  · obtain ⟨cls, pairs, rfl⟩ := hr
    refine Outcome.ofExcept_of .reject (.bind fun k hk => .pure ?_)
    refine .reply .recordRegions ?_ rfl (forall_ite (forall_emitAdvisory rfl))
    simp only [SubscriptionChange.AskedBy, ServiceRequest.marks?, objectClassArg_of_defined hk]
    rfl
  · have hconf : (serveRegion c fed r).Confined regionParts (fun _ => False) fed :=
      serveRegion_confined_regions fun cls pairs h => hr ⟨cls, pairs, h⟩
    exact .keep hconf.touches (by decide) (by decide) fun cb hcb _ => hconf.bodies cb hcb

/-- **What a service does to the subscriptions.** -/
theorem serve_changes (r : ServiceRequest) : (serve c fed r).Changes c fed r := by
  cases r with
  | declaration r => exact serveDeclaration_changes c fed r
  | region r => exact serveRegion_changes c fed r
  | _ =>
    refine .keep (serve_footprint _) (by simp [ServiceRequest.parts])
      (by simp [ServiceRequest.parts]) fun cb hcb htopic => ?_
    have := serve_topics _ cb hcb
    rw [htopic] at this
    simp [ServiceRequest.topics] at this

theorem serve_resubscribes (r : ServiceRequest) :
    Resubscribes c.federate r.wholeClass? fed (serve c fed r).federation := by
  obtain ⟨ch, hmakes, hasked, _⟩ := serve_changes c fed r
  refine hmakes.resubscribes ?_
  rintro cls rfl
  exact hasked

end Services

/-! ## The two records agree -/

/-- Of every joined federate, record and matrix say the same. -/
def Federation.RecordsAgree (fed : Federation) : Prop :=
  ∀ f fs, fed.federates.lookup f = some fs →
    (∀ c a, f ∈ fed.subscriptions.byAttribute.get (c, a) ↔ a ∈ fs.pubSub.subscribedAttrs.get c) ∧
    ∀ k, f ∈ fed.subscriptions.byInteraction.get k ↔ k ∈ fs.pubSub.subscribedInteractions

/-- What keeps the records in agreement: a whole class is withdrawn only by the
one federate that has it, and a newcomer is not in the matrix yet. -/
def FedAction.KeepsRecords (fed : Federation) : FedAction → Prop
  | join _ _ => ¬ fed.subscriptions.Names fed.nextHandle
  | serve c r => ∀ cls ∈ r.wholeClass?, fed.NobodyElse c.federate cls
  | _ => True

instance (fed : Federation) : (a : FedAction) → Decidable (a.KeepsRecords fed)
  | .create .. => .isTrue trivial
  | .join .. => inferInstanceAs (Decidable (¬ _))
  | .leave .. => .isTrue trivial
  | .serve _ r => inferInstanceAs (Decidable (∀ cls ∈ r.wholeClass?, _))

namespace Federation

variable {fed : Federation}

theorem recordsAgree_iff : fed.RecordsAgree ↔ fed.ledger.Agrees := by
  constructor
  · intro h f s hs
    obtain ⟨fs, hfs, rfl⟩ := Option.map_eq_some_iff.mp hs
    exact Topic.ext_set (h f fs hfs).1 (h f fs hfs).2
  · intro h f fs hfs
    have heq : fed.subscriptions.topics f = fs.topics :=
      h f fs.topics (Option.map_eq_some_iff.mpr ⟨fs, hfs, rfl⟩)
    exact ⟨fun c a => iff_of_eq (congrFun heq (.attr c a)),
      fun k => iff_of_eq (congrFun heq (.interaction k))⟩

theorem ledger_enter (name : String) (sessionId : UInt64) :
    (fed.enter name sessionId).ledger = fed.ledger.post (.enter fed.nextHandle) := by
  have hown : (fed.enter name sessionId).ledger.own =
      Function.update fed.ledger.own fed.nextHandle (some ∅) := by
    simp only [ledger, lookup_enter]
    refine Function.eq_update_iff.mpr ⟨?_, fun f hf => by rw [if_neg hf]⟩
    -- the new record has no subscriptions
    rw [if_pos rfl]
    exact congrArg some (Topic.eq_empty (fun _ a => AList.notMem_empty a) AList.notMem_empty)
  rw [Ledger.post, ← hown]
  rfl

theorem ledger_leave (h : FederateHandle) : (fed.leave h).ledger = fed.ledger.post (.leave h) := by
  have hown : (fed.leave h).ledger.own = Function.update fed.ledger.own h none := by
    simp only [ledger, lookup_leave]
    refine Function.eq_update_iff.mpr ⟨?_, fun f hf => by rw [if_neg hf]⟩
    rw [if_pos rfl, Option.map_none]
  rw [Ledger.post, ← hown]
  rfl

theorem topics_of_not_names {m : SubscriptionMatrix} {f : FederateHandle} (h : ¬ m.Names f) :
    m.topics f = ∅ :=
  Topic.eq_empty (fun c a ht => h (SubscriptionMatrix.names_iff.mpr (.inl ⟨c, a, ht⟩)))
    fun k ht => h (SubscriptionMatrix.names_iff.mpr (.inr (.inl ⟨k, ht⟩)))

theorem RecordsAgree.apply (h : fed.RecordsAgree) {a : FedAction} (ha : a.KeepsRecords fed) :
    (a.apply fed).RecordsAgree := by
  rw [recordsAgree_iff] at h ⊢
  cases a with
  | create =>
    intro f s hs
    cases hs
  | join =>
    refine Federation.join_keeps (P := fun fed => fed.ledger.Agrees) h fun name => ?_
    rw [ledger_enter]
    exact h.post (topics_of_not_names ha)
  | leave k =>
    show (fed.leave k).ledger.Agrees
    rw [ledger_leave]
    exact h.post trivial
  | serve c r =>
    obtain ⟨p, hp, hcareful⟩ := (serve_resubscribes c fed r).posts ha
    show (serve c fed r).federation.ledger.Agrees
    rw [hp]
    exact h.post hcareful

end Federation

/-- **The two records agree**, in a run in which nobody withdraws a class that
another federate is subscribed to. -/
theorem Node.records_agree {es : List NodeEvent}
    (h : StepsMeet Node.step (Node.Meets fun fed a => a.KeepsRecords fed) Node.new es) :
    Always Node.step (fun n => ∀ r, (n.heap r).RecordsAgree) Node.new es :=
  Node.heap_always (fun _ _ _ _ hf => nomatch hf)
    (fun _ _ hagree hkeeps => hagree.apply hkeeps) h

/-- A subscription to the attribute of the small object class. -/
def subscribes (t : Transport) : NodeEvent :=
  .serves t (.declaration (.subscribeObjectClassAttributes .plain (wire32 1) (some [[0, 0, 0, 1]])))

def withdrawsClass (t : Transport) : NodeEvent :=
  .serves t (.declaration (.unsubscribeObjectClass (wire32 1)))

/-- Both subscribe, one of them with a region; the last to be subscribed
withdraws the class, and the other leaves. -/
theorem Node.records_agree_pair :
    let es := pairJoined ++
      [subscribes 0, .serves 1 (.region (.createRegion none)),
        .serves 1 (.region (.subscribeObjectClassAttributesWithRegions (wire32 1)
          (some [⟨some [[0, 0, 0, 1]], some [[0, 0, 0, 0, 0, 0, 0, 1]]⟩]))),
        .serves 1 (.declaration (.subscribeInteractionClass false (wire32 1))),
        .serves 0 (.declaration (.unsubscribeObjectClassAttributes (wire32 1)
          (some [[0, 0, 0, 1]]))),
        withdrawsClass 1, .serves 1 (.declaration (.unsubscribeInteractionClass (wire32 1))),
        .manages 0 .resignFederationExecution]
    Always Node.step (fun n => ∀ r, (n.heap r).RecordsAgree) Node.new es :=
  Node.records_agree (by decide +kernel)

/-- Both federates subscribe to the class, and federate 1 withdraws it. -/
def withdrawnForAll : List NodeEvent :=
  pairJoined ++ [subscribes 0, subscribes 1, withdrawsClass 0]

/-- **Withdrawn for everybody.**  Federate 2 has the subscription in its record
and is not in the matrix. -/
theorem Node.withdrawnForAll_disagrees :
    ¬ ((run Node.step Node.new withdrawnForAll).heap 0).RecordsAgree := by
  have hgone : ∃ fs ∈ ((run Node.step Node.new withdrawnForAll).heap 0).federates.lookup ⟨2⟩,
      ⟨1⟩ ∈ fs.pubSub.subscribedAttrs.get ⟨1⟩ ∧
      ⟨2⟩ ∉ ((run Node.step Node.new withdrawnForAll).heap 0).subscriptions.byAttribute.get
        (⟨1⟩, ⟨1⟩) := by
    decide +kernel
  intro hagree
  obtain ⟨fs, hfs, hrecord, hmatrix⟩ := hgone
  exact hmatrix (((hagree ⟨2⟩ fs hfs).1 ⟨1⟩ ⟨1⟩).mpr hrecord)

/-! ## No ghosts -/

/-- The matrix names joined federates only. -/
def Federation.NoGhosts (fed : Federation) : Prop :=
  ∀ f, fed.subscriptions.Names f → f ∈ fed.federates

/-- What leaves no ghost: whoever leaves is not in the matrix any more, and a
join does not overwrite a federate. -/
def FedAction.LeavesNoGhost (fed : Federation) : FedAction → Prop
  | join _ _ => fed.nextHandle ∉ fed.federates
  | leave h => ¬ fed.subscriptions.Names h
  | _ => True

instance (fed : Federation) : (a : FedAction) → Decidable (a.LeavesNoGhost fed)
  | .create .. => .isTrue trivial
  | .join .. => inferInstanceAs (Decidable (¬ _))
  | .leave .. => inferInstanceAs (Decidable (¬ _))
  | .serve .. => .isTrue trivial

theorem FedAction.LeavesNoGhost.freshJoin {fed : Federation} {a : FedAction}
    (h : a.LeavesNoGhost fed) : a.FreshJoin fed := by
  cases a with
  | join => exact h
  | _ => trivial

theorem Federation.noGhosts_new (name : String) (fom : Omt.MergedFom) :
    (Federation.new name fom).NoGhosts := by
  intro f hf
  rcases SubscriptionMatrix.names_iff.mp hf with ⟨_, _, hf⟩ | ⟨_, hf⟩ | ⟨_, hf⟩
  · exact absurd hf (AList.notMem_empty f)
  · exact absurd hf (AList.notMem_empty f)
  · exact absurd hf Bool.false_ne_true

theorem Federation.NoGhosts.apply {fed : Federation} (h : fed.NoGhosts) {a : FedAction}
    (ha : a.LeavesNoGhost fed) (hc : a.CallerJoined fed) : (a.apply fed).NoGhosts := by
  cases a with
  | create name fom => exact noGhosts_new name fom
  | join =>
    refine Federation.join_keeps (P := Federation.NoGhosts) h fun name => ?_
    intro f hf
    exact (AList.mem_insert _).mpr (.inr (h f hf))
  | leave =>
    intro f hf
    refine AList.mem_erase.mpr ⟨?_, h f hf⟩
    rintro rfl
    exact ha hf
  | serve c r =>
    intro f hf
    refine (serve_mem_federates r f).mpr ?_
    by_cases hfc : f = c.federate
    · rw [hfc]
      exact hc
    · exact h f ((serve_resubscribes c fed r).names f hfc hf)

/-- **No ghost subscribers**, in a run in which whoever leaves has left the
matrix before. -/
theorem Node.no_ghosts {es : List NodeEvent}
    (h : StepsMeet Node.step (Node.Meets fun fed a => a.LeavesNoGhost fed) Node.new es) :
    Always Node.step (fun n => ∀ r, (n.heap r).NoGhosts) Node.new es := by
  have hinv := h.always (P := fun n => n.Rooted ∧ ∀ r, (n.heap r).NoGhosts)
    (fun n e hn hok => by
      obtain ⟨hroot, hghosts⟩ := hn
      refine ⟨Node.rooted_step n e hroot fun ra hra => (hok ra hra).freshJoin, ?_⟩
      -- the callers are joined because the memberships are rooted
      have hmeets : n.Meets (fun fed a => a.LeavesNoGhost fed ∧ a.CallerJoined fed) e :=
        fun ra hra => ⟨hok ra hra, hroot.callerJoined e ra hra⟩
      refine Node.heap_keeps ?_ n e hghosts hmeets
      intro fed a hfed ha
      exact hfed.apply ha.1 ha.2)
    ⟨Node.rooted_new, fun _ => Federation.noGhosts_new _ _⟩
  exact fun done hdone => (hinv done hdone).2

/-- Federate 1 unsubscribes and resigns, and federate 2, which has not
subscribed, is disconnected. -/
theorem Node.no_ghosts_pair :
    let es := pairJoined ++
      [subscribes 0, .serves 0 (.declaration (.unsubscribeObjectClassAttributes (wire32 1)
          (some [[0, 0, 0, 1]]))),
        .manages 0 .resignFederationExecution, .close 1]
    Always Node.step (fun n => ∀ r, (n.heap r).NoGhosts) Node.new es :=
  Node.no_ghosts (by decide +kernel)

/-- Federate 1 subscribes to an attribute and an interaction class. -/
def pairSubscribed : List NodeEvent := pairJoined ++
  [subscribes 0, .serves 0 (.declaration (.subscribeInteractionClass false (wire32 1)))]

/-- The three ways federate 1 can leave: it resigns, its transport drops, its
suspended session expires. -/
def ghostRuns : List (List NodeEvent) :=
  [pairSubscribed ++ [.manages 0 .resignFederationExecution],
    pairSubscribed ++ [.close 0],
    .setReconnectWindow 1 :: pairSubscribed ++ [.close 0, .elapse 1, .janitorScan, .janitorRemove]]

/-- **Ghosts.**  In each of these runs federate 1 has left and the matrix names
it. -/
theorem Node.ghostRuns_fail :
    ghostRuns.Forall fun es => ¬ ((run Node.step Node.new es).heap 0).NoGhosts := by
  have hghost : ∀ es ∈ ghostRuns,
      ((run Node.step Node.new es).heap 0).subscriptions.Names ⟨1⟩ ∧
      ⟨1⟩ ∉ ((run Node.step Node.new es).heap 0).federates := by
    decide +kernel
  rw [List.forall_iff_forall_mem]
  intro es hes hnone
  exact (hghost es hes).2 (hnone ⟨1⟩ (hghost es hes).1)

end Hla4
