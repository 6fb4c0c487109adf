/-
# `Hla4.Rti.Safety.Regions` — regions as boxes, and what a commit commits

**Matching.**  The committed bounds of a region are a box (`Lib.Box`) whose points
give a `u32` coordinate to every dimension.  `regions_overlap_any` compares bounds,
dimension by dimension; that is to ask for a common point as long as no range is
upside down (`Federation.ProperRegions`).  No service ever stores such a range: a
new region has full ranges, `setRangeBounds` refuses one, and a commit moves
staged ranges only.  So in every run matching is geometric
(`region_matching_geometric`).

**Commits.**  `commitRegionModifications` goes through the regions it is given and
commits each, until it meets one that is somebody else's:

    committed     those listed before the first foreign region
    response      an exception exactly if there is a foreign region

So it is all or nothing exactly if the regions before the first foreign one have
nothing staged (`commit_allOrNothing_iff`).
-/
import Hla4.Lib.Box
import Hla4.Rti.Safety.Delivery

namespace Hla4

open Lib

/-- Coordinates are ordered as the numbers they are. -/
instance linearOrderUInt32 : LinearOrder UInt32 where
  le_refl := UInt32.le_refl
  le_trans _ _ _ := UInt32.le_trans
  le_antisymm _ _ := UInt32.le_antisymm
  le_total := UInt32.le_total
  lt_iff_le_not_ge a b := by
    rw [UInt32.not_le]
    exact ⟨fun h => ⟨UInt32.le_of_lt h, h⟩, fun h => h.2⟩
  toDecidableLE := inferInstance

namespace Region

/-- The bounds in force. -/
def box (r : Region) : Box DimensionHandle UInt32 := fun d => r.committed.lookup d

/-- The bounds the next commit puts in force. -/
def stagedBox (r : Region) : Box DimensionHandle UInt32 := fun d => r.staged.lookup d

/-- No range is upside down, in force or staged. -/
structure Proper (r : Region) : Prop where
  box : r.box.Proper
  stagedBox : r.stagedBox.Proper

/-- What a commit makes of a region. -/
def commit (r : Region) : Region := { r with committed := r.staged }

theorem Proper.commit {r : Region} (h : r.Proper) : r.commit.Proper := ⟨h.stagedBox, h.stagedBox⟩

end Region

/-- The bounds in force of a region, if it exists. -/
def Federation.bounds (fed : Federation) (rh : RegionHandle) :
    Option (Box DimensionHandle UInt32) :=
  (fed.regions.lookup rh).map Region.box

/-- No region has a range upside down. -/
def Federation.ProperRegions (fed : Federation) : Prop :=
  ∀ rh r, fed.regions.lookup rh = some r → r.Proper

variable {c : Caller} {fed fed' : Federation}

/-! ## What a commit does -/

/-- The region exists and is not the owner's. -/
def foreign (owner : FederateHandle) (regions : HashMap RegionHandle Region) (rh : RegionHandle) :
    Bool :=
  (regions.lookup rh).any fun r => r.owner ≠ owner

theorem foreign_insert_commit {owner : FederateHandle} {regions : HashMap RegionHandle Region}
    {rh : RegionHandle} {r : Region} (hr : regions.lookup rh = some r) :
    foreign owner (regions.insert rh r.commit) = foreign owner regions := by
  funext x
  rw [foreign, foreign, HashMap.lookup_insert_eq]
  split
  · next he =>
      subst he
      rw [hr]
      rfl
  · rfl

/-- **The regions before the first foreign one are committed**, and the result
says whether there is one. -/
theorem commitAll_eq (owner : FederateHandle) (handles : List RegionHandle)
    (regions : HashMap RegionHandle Region) :
    (commitAll owner handles regions).2 = !handles.any (foreign owner regions) ∧
      ∀ rh, (commitAll owner handles regions).1.lookup rh =
        if rh ∈ handles.takeWhile fun x => !foreign owner regions x then
          (regions.lookup rh).map Region.commit
        else regions.lookup rh := by
  induction handles generalizing regions with
  | nil => exact ⟨rfl, fun rh => by simp [commitAll]⟩
  | cons x rest ih =>
    rw [commitAll]
    cases hx : regions.lookup x with
    | none =>
      have hown : foreign owner regions x = false := by rw [foreign, hx]; rfl
      obtain ⟨hdone, hlookup⟩ := ih regions
      refine ⟨by rw [hdone, List.any_cons, hown, Bool.false_or], fun rh => ?_⟩
      rw [hlookup, List.takeWhile_cons, hown]
      simp only [Bool.not_false, if_true, List.mem_cons]
      by_cases hrh : rh = x
      · subst hrh
        simp [hx]
      · simp [hrh]
    | some r =>
      dsimp only
      split
      · next howner =>
          have hown : foreign owner regions x = false := by
            rw [foreign, hx]
            simp [howner]
          obtain ⟨hdone, hlookup⟩ := ih (regions.insert x r.commit)
          rw [foreign_insert_commit hx] at hdone hlookup
          refine ⟨by rw [List.any_cons, hown, Bool.false_or]; exact hdone, fun rh => ?_⟩
          refine (hlookup rh).trans ?_
          rw [List.takeWhile_cons, hown, HashMap.lookup_insert_eq]
          simp only [Bool.not_false, if_true, List.mem_cons]
          by_cases hrh : rh = x
          · -- committed here, and again if it is listed again
            subst hrh
            simp only [if_true, true_or, hx, Option.map_some]
            split <;> rfl
          · simp [hrh]
      · next howner =>
          have hown : foreign owner regions x = true := by
            rw [foreign, hx]
            simp [howner]
          exact ⟨by simp [hown], fun rh => by simp [hown]⟩

/-- The handles of a request that are region handles. -/
def listedRegions (regions : WireSet) : List RegionHandle :=
  (regions.getD []).filterMap decodeRegion

section Commit

variable {regions : WireSet}

theorem commitRegionModifications_accepted :
    (commitRegionModifications c fed regions).response.accepted =
      !(listedRegions regions).any (foreign c.federate fed.regions) := by
  rw [← (commitAll_eq c.federate (listedRegions regions) fed.regions).1, commitRegionModifications]
  split
  · next h => exact h.symm
  · next h => exact (Bool.eq_false_iff.mpr h).symm

theorem lookup_commitRegionModifications (rh : RegionHandle) :
    (commitRegionModifications c fed regions).federation.regions.lookup rh =
      if rh ∈ (listedRegions regions).takeWhile fun x => !foreign c.federate fed.regions x then
        (fed.regions.lookup rh).map Region.commit
      else fed.regions.lookup rh := by
  rw [← (commitAll_eq c.federate (listedRegions regions) fed.regions).2 rh,
    commitRegionModifications]
  split <;> rfl

end Commit

/-- An exception leaves all bounds as they were; otherwise every listed region is
committed, and every other as it was. -/
structure CommitsAllOrNothing (c : Caller) (fed : Federation) (regions : WireSet) : Prop where
  refused : ∀ o, o = serve c fed (.region (.commitRegionModifications regions)) →
    o.response.accepted = false → ∀ rh, o.federation.bounds rh = fed.bounds rh
  accepted : ∀ o, o = serve c fed (.region (.commitRegionModifications regions)) →
    o.response.accepted = true → ∀ rh, o.federation.regions.lookup rh =
      if rh ∈ listedRegions regions then (fed.regions.lookup rh).map Region.commit
      else fed.regions.lookup rh

/-- If a foreign region is listed, the regions listed before the first have
nothing staged. -/
def NothingStagedBeforeForeign (c : Caller) (fed : Federation) (regions : WireSet) : Prop :=
  (∃ rh ∈ listedRegions regions, foreign c.federate fed.regions rh = true) →
    ∀ rh ∈ (listedRegions regions).takeWhile (fun x => !foreign c.federate fed.regions x),
      ∀ r, fed.regions.lookup rh = some r → r.stagedBox = r.box

/-- **When a commit is all or nothing.** -/
theorem commit_allOrNothing_iff (c : Caller) (fed : Federation) (regions : WireSet) :
    CommitsAllOrNothing c fed regions ↔ NothingStagedBeforeForeign c fed regions := by
  have haccepted : (commitRegionModifications c fed regions).response.accepted = true ↔
      ∀ rh ∈ listedRegions regions, (!foreign c.federate fed.regions rh) = true := by
    rw [commitRegionModifications_accepted, Bool.not_eq_true', List.any_eq_false]
    simp
  constructor
  · rintro ⟨hrefused, _⟩ ⟨x, hx, hforeign⟩ rh hrh r hr
    have hno : (commitRegionModifications c fed regions).response.accepted = false := by
      rw [commitRegionModifications_accepted, List.any_eq_true.mpr ⟨x, hx, hforeign⟩]
      rfl
    have hsame := hrefused _ rfl hno rh
    rw [Federation.bounds, Federation.bounds] at hsame
    rw [serve, serveRegion, lookup_commitRegionModifications, if_pos hrh, hr] at hsame
    exact Option.some.inj hsame
  · intro hnothing
    refine ⟨?_, ?_⟩
    · rintro o rfl hno rh
      have hlisted : ∃ x ∈ listedRegions regions, foreign c.federate fed.regions x = true := by
        refine List.any_eq_true.mp ?_
        rw [serve, serveRegion, commitRegionModifications_accepted] at hno
        simpa using hno
      rw [Federation.bounds, Federation.bounds, serve, serveRegion,
        lookup_commitRegionModifications]
      split
      · next hrh =>
          cases hr : fed.regions.lookup rh with
          | none => rfl
          | some r => exact congrArg some (hnothing hlisted rh hrh r hr)
      · rfl
    · rintro o rfl hyes rh
      rw [serve, serveRegion] at hyes ⊢
      rw [lookup_commitRegionModifications, List.takeWhile_eq_self_iff.mpr (haccepted.mp hyes)]

/-- A commit is all or nothing. -/
def FedAction.CommitsWhole (fed : Federation) : FedAction → Prop
  | serve c (.region (.commitRegionModifications regions)) => CommitsAllOrNothing c fed regions
  | _ => True

/-- **Half a commit.**  Federate 1 stages the range 3 to 4 for its region, and
commits it together with the region of federate 2: an exception, and its region
has the new range. -/
theorem Node.commit_halfway :
    ¬ (run Node.step Node.new (regionsApart ++
        [.serves 0 (.region (.setRangeBounds (wire64 1) (wire32 1) (some (3, 4))))])).Meets
      (fun fed a => a.CommitsWhole fed)
      (.serves 0 (.region (.commitRegionModifications
        (some [[0, 0, 0, 0, 0, 0, 0, 1], [0, 0, 0, 0, 0, 0, 0, 2]])))) := by
  generalize hes : regionsApart ++ _ = es
  generalize hreq : RegionRequest.commitRegionModifications _ = req
  have hhalf : ∃ m ∈ ((run Node.step Node.new es).sessions.lookup 0).bind Session.membership,
      let fed := (run Node.step Node.new es).heap m.federation
      let o := serve ((run Node.step Node.new es).caller m .plain) fed (.region req)
      o.response.accepted = false ∧
        (o.federation.regions.lookup ⟨1⟩).map (fun r => r.committed.lookup ⟨1⟩) ≠
          (fed.regions.lookup ⟨1⟩).map (fun r => r.committed.lookup ⟨1⟩) := by
    subst hes hreq
    decide +kernel
  obtain ⟨m, hm, hno, hmoved⟩ := hhalf
  intro hmeets
  have hwhole := hmeets _ (Node.action_of_membership hm .plain (.region req))
  subst hreq
  have hsame := (show CommitsAllOrNothing _ _ _ from hwhole).refused _ rfl hno ⟨1⟩
  have hsame' := congrArg (Option.map fun b : Box DimensionHandle UInt32 => b ⟨1⟩) hsame
  rw [Federation.bounds, Federation.bounds, Option.map_map, Option.map_map] at hsame'
  exact hmoved hsame'

/-! ## No range is ever upside down -/

theorem proper_regionDimensions (dimensions : WireSet) :
    Box.Proper fun d => (regionDimensions dimensions).lookup d := by
  intro d l u h
  dsimp only [regionDimensions] at h
  rw [HashMap.lookup_foldl_insert] at h
  split at h
  · cases h
    decide
  · cases h

theorem ProperRegions.insert {rh : RegionHandle} {r : Region} (h : fed.ProperRegions)
    (hr : r.Proper) (hregions : fed'.regions = fed.regions.insert rh r) : fed'.ProperRegions := by
  intro x r' hx
  rw [hregions, HashMap.lookup_insert_eq] at hx
  split at hx
  · cases hx
    exact hr
  · exact h x r' hx

theorem serveRegion_properRegions (h : fed.ProperRegions) (r : RegionRequest) :
    (serveRegion c fed r).federation.ProperRegions := by
  cases r with
  | createRegion dimensions =>
    have hdims := proper_regionDimensions dimensions
    have hnew : Region.Proper ⟨⟨fed.nextRegionId⟩, c.federate, regionDimensions dimensions,
        regionDimensions dimensions⟩ := ⟨hdims, hdims⟩
    exact ProperRegions.insert h hnew rfl
  | commitRegionModifications =>
    intro rh r hr
    rw [serveRegion, lookup_commitRegionModifications] at hr
    split at hr
    · obtain ⟨r', hr', rfl⟩ := Option.map_eq_some_iff.mp hr
      exact (h rh r' hr').commit
    · exact h rh r hr
  | deleteRegion =>
    refine Outcome.ofExcept_of (Q := fun o => o.federation.ProperRegions) (fun _ => h)
      (.bind fun rh _ => .bind fun _ _ => .pure ?_)
    intro x r hx
    exact h x r (HashMap.lookup_erase_eq_some.mp hx).2
  | getRangeBounds =>
    exact Outcome.ofExcept_of (Q := fun o => o.federation.ProperRegions) (fun _ => h)
      (.bind fun _ _ => .bind fun _ _ => .bind fun _ _ => .pure h)
  | setRangeBounds =>
    refine Outcome.ofExcept_of (Q := fun o => o.federation.ProperRegions) (fun _ => h)
      (.bind fun rh _ => .bind fun dh _ => .bind fun b _ => .bind fun _ hb => .bind fun r hr =>
        .pure ?_)
    obtain ⟨r', hr', ho⟩ := bind_eq_ok.mp hr
    obtain ⟨_, _, ho⟩ := bind_eq_ok.mp ho
    cases ho
    have hr := h rh r (getOr_eq_ok.mp hr')
    have hstaged : Box.Proper fun d => (r.staged.insert dh b).lookup d := by
      intro d l u hd
      dsimp only at hd
      rw [HashMap.lookup_insert_eq] at hd
      split at hd
      · cases hd
        exact require_eq_ok.mp hb
      · exact hr.stagedBox d l u hd
    have hset : Region.Proper { r with staged := r.staged.insert dh b } := ⟨hr.box, hstaged⟩
    exact ProperRegions.insert h hset rfl
  | subscribeObjectClassAttributesWithRegions | unsubscribeObjectClassAttributesWithRegions =>
    exact Outcome.ofExcept_of (Q := fun o => o.federation.ProperRegions) (fun _ => h)
      (.bind fun _ _ => .pure h)

theorem properRegions_apply (fed : Federation) (a : FedAction) (h : fed.ProperRegions) :
    (a.apply fed).ProperRegions := by
  cases a with
  | create =>
    intro rh r hr
    cases hr
  | join =>
    exact Federation.join_keeps (P := Federation.ProperRegions) h fun _ => h
  | leave => exact h
  | serve c req =>
    by_cases hreq : ∃ r, req = .region r
    · obtain ⟨r, rfl⟩ := hreq
      exact serveRegion_properRegions h r
    · have hsame : (serve c fed req).federation.regions = fed.regions := by
        refine serve_footprint req .regions ?_
        cases req <;> simp [ServiceRequest.parts] at hreq ⊢
      rw [FedAction.apply, Federation.ProperRegions, hsame]
      exact h

/-! ## Matching -/

/-- Matching looks at the bounds in force only. -/
theorem regionsOverlapAny_meets {pub sub : HashSet RegionHandle} :
    regionsOverlapAny fed pub sub = true ↔ pub.keys = [] ∨ sub.keys = [] ∨
      ∃ p ∈ pub, ∃ s ∈ sub, ∃ b ∈ fed.bounds p, ∃ b' ∈ fed.bounds s, b.Meets b' := by
  rw [regionsOverlapAny_eq_true]
  simp only [Federation.bounds, Option.mem_def, Option.map_eq_some_iff]
  refine or_congr_right (or_congr_right ?_)
  constructor
  · rintro ⟨p, hp, s, hs, rp, rs, hrp, hrs, h⟩
    exact ⟨p, hp, s, hs, rp.box, ⟨rp, hrp, rfl⟩, rs.box, ⟨rs, hrs, rfl⟩, h⟩
  · rintro ⟨p, hp, s, hs, _, ⟨rp, hrp, rfl⟩, _, ⟨rs, hrs, rfl⟩, h⟩
    exact ⟨p, hp, s, hs, rp, rs, hrp, hrs, h⟩

/-- Two sets of regions match if one is empty, or if a region of the one and a
region of the other have a point in common; in either order; and whatever is
staged. -/
structure Federation.MatchesGeometrically (fed : Federation) (P S : HashSet RegionHandle) :
    Prop where
  overlap : regionsOverlapAny fed P S = true ↔ P.keys = [] ∨ S.keys = [] ∨
    ∃ p ∈ P, ∃ s ∈ S, ∃ b ∈ fed.bounds p, ∃ b' ∈ fed.bounds s, ∃ x, x ∈ b.points ∧ x ∈ b'.points
  symm : regionsOverlapAny fed P S = regionsOverlapAny fed S P
  committed_only : ∀ fed', (∀ rh, Federation.bounds fed' rh = fed.bounds rh) →
    regionsOverlapAny fed' P S = regionsOverlapAny fed P S

theorem Federation.ProperRegions.matches (h : fed.ProperRegions) (P S : HashSet RegionHandle) :
    fed.MatchesGeometrically P S := by
  have hproper : ∀ rh, ∀ b ∈ fed.bounds rh, b.Proper := by
    intro rh b hb
    obtain ⟨r, hr, rfl⟩ := Option.map_eq_some_iff.mp hb
    exact (h rh r hr).box
  refine ⟨?_, ?_, fun fed' hsame => ?_⟩
  · rw [regionsOverlapAny_meets]
    refine or_congr_right (or_congr_right ?_)
    refine exists_congr fun p => and_congr_right fun _ => exists_congr fun s =>
      and_congr_right fun _ => exists_congr fun b => and_congr_right fun hb =>
      exists_congr fun b' => and_congr_right fun hb' => ?_
    exact (Box.points_inter_iff (hproper p b hb) (hproper s b' hb')).symm
  · rw [Bool.eq_iff_iff, regionsOverlapAny_meets, regionsOverlapAny_meets, or_left_comm]
    refine or_congr_right (or_congr_right ?_)
    constructor
    · rintro ⟨p, hp, s, hs, b, hb, b', hb', hm⟩
      exact ⟨s, hs, p, hp, b', hb', b, hb, hm.symm⟩
    · rintro ⟨s, hs, p, hp, b', hb', b, hb, hm⟩
      exact ⟨p, hp, s, hs, b, hb, b', hb', hm.symm⟩
  · rw [Bool.eq_iff_iff, regionsOverlapAny_meets, regionsOverlapAny_meets]
    simp only [hsame]

/-- **Matching is geometric**, in every state of every run. -/
theorem Node.region_matching_geometric (es : List NodeEvent) :
    Always Node.step (fun n => ∀ r P S, (n.heap r).MatchesGeometrically P S) Node.new es := by
  have hmeets : StepsMeet Node.step (Node.Meets fun _ _ => True) Node.new es :=
    .of_forall fun _ _ _ _ => trivial
  have hproper := Node.heap_always (P := Federation.ProperRegions) (fun _ _ _ _ hr => nomatch hr)
    (fun fed a h _ => properRegions_apply fed a h) hmeets
  intro done hdone r P S
  exact (hproper done hdone r).matches P S

end Hla4
