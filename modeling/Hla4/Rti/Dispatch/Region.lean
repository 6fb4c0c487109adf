/-
# `Hla4.Rti.Dispatch.Region` — regions

Handlers of `ddm_lifecycle.rs` and the two subscription services with regions
of `restore.rs`.

A range set on a region is staged; `commitRegionModifications` puts it in
force, region by region, and stops at the first region that is somebody
else's: the regions before it stay committed.

Subscribing with regions records the subscription in the same two places as
without, and the regions in a third.  Unsubscribing with regions takes regions
out of the third and leaves the subscription itself.
-/
import Hla4.Rti.Dispatch.Declaration

namespace Hla4

open Lib

variable (c : Caller) (fed : Federation)

/-- The range a dimension has until one is set. -/
def fullRange : UInt32 × UInt32 := (0, 0xFFFFFFFF)

/-- The dimensions of a new region; undecodable handles are skipped. -/
def regionDimensions (dimensions : WireSet) : HashMap DimensionHandle (UInt32 × UInt32) :=
  ((dimensions.getD []).filterMap decodeDimension).foldl
    (fun dims d => AList.insert d fullRange dims) ∅

def createRegion (dimensions : WireSet) : Outcome :=
  let handle : RegionHandle := ⟨fed.nextRegionId⟩
  let dims := regionDimensions dimensions
  let drawn := { fed with nextRegionId := fed.nextRegionId + 1 }
  .reply { drawn with regions := drawn.regions.insert handle ⟨handle, c.federate, dims, dims⟩ }
    (.createRegion handle) []

/-- Commit one region after the other; `false` when one is not `owner`'s. -/
def commitAll (owner : FederateHandle) :
    List RegionHandle → HashMap RegionHandle Region → HashMap RegionHandle Region × Bool
  | [], regions => (regions, true)
  | rh :: rest, regions =>
    match regions.lookup rh with
    | none => commitAll owner rest regions
    | some r =>
      if r.owner = owner then
        commitAll owner rest (regions.insert rh { r with committed := r.staged })
      else (regions, false)

def commitRegionModifications (regions : WireSet) : Outcome :=
  let done := commitAll c.federate ((regions.getD []).filterMap decodeRegion) fed.regions
  let fed' := { fed with regions := done.1 }
  if done.2 then .reply fed' (.ack .commitRegionModifications) []
  else .reject fed' HlaException.regionNotCreatedByThisFederate.bare

def regionArg (region : WireField) : Except ExceptionData RegionHandle :=
  getOr (region.bind decodeRegion) HlaException.invalidRegion.bare

def dimensionArg (dimension : WireField) : Except ExceptionData DimensionHandle :=
  getOr (dimension.bind decodeDimension) HlaException.invalidDimension.bare

/-- A region of the caller's. -/
def ownedRegion (rh : RegionHandle) : Except ExceptionData Region := do
  let r ← getOr (fed.regions.lookup rh) HlaException.invalidRegion.bare
  require (r.owner = c.federate) HlaException.regionNotCreatedByThisFederate.bare
  pure r

def deleteRegion (region : WireField) : Outcome :=
  .ofExcept fed do
    let rh ← regionArg region
    let _ ← ownedRegion c fed rh
    pure (.reply { fed with regions := fed.regions.erase rh } (.ack .deleteRegion) [])

/-- The bounds in force, whoever's the region is. -/
def getRangeBounds (region dimension : WireField) : Outcome :=
  .ofExcept fed do
    let rh ← regionArg region
    let dh ← dimensionArg dimension
    let r ← getOr (fed.regions.lookup rh) HlaException.invalidRegion.bare
    let bounds := (r.committed.lookup dh).getD fullRange
    pure (.reply fed (.getRangeBounds bounds.1 bounds.2) [])

def setRangeBounds (region dimension : WireField) (bounds : Option (UInt32 × UInt32)) : Outcome :=
  .ofExcept fed do
    let rh ← regionArg region
    let dh ← dimensionArg dimension
    let bounds ← getOr bounds (HlaException.invalidRangeBound.because "missing")
    require (bounds.1 ≤ bounds.2) (HlaException.invalidRangeBound.because "lower > upper")
    let r ← ownedRegion c fed rh
    let fed' := { fed with
      regions := fed.regions.insert rh { r with staged := r.staged.insert dh bounds } }
    pure (.reply fed' (.ack .setRangeBounds) [])

/-! ## Subscriptions with regions -/

/-- The regions of a federate's subscriptions, by class and attribute. -/
abbrev SubscribedRegions := MultiMap (ObjectClassHandle × AttributeHandle) RegionHandle

/-- Add regions to subscriptions of a class, attribute by attribute. -/
def SubscribedRegions.record (cls : ObjectClassHandle)
    (regions : MultiMap AttributeHandle RegionHandle) (m : SubscribedRegions) : SubscribedRegions :=
  regions.keys.foldl (fun m attr => m.add (cls, attr) (regions.get attr).keys) m

/-- Take regions off subscriptions of a class, attribute by attribute. -/
def SubscribedRegions.withdraw (cls : ObjectClassHandle)
    (regions : MultiMap AttributeHandle RegionHandle) (m : SubscribedRegions) : SubscribedRegions :=
  regions.keys.foldl (fun m attr => m.remove (cls, attr) (regions.get attr).keys) m

/-- Record attribute subscriptions, and the regions of each. -/
def Federation.recordRegionSubscription (h : FederateHandle) (cls : ObjectClassHandle)
    (regions : MultiMap AttributeHandle RegionHandle) : Federation :=
  (fed.resubscribe h (fun m => regions.keys.foldl (fun m attr => m.add cls [attr]) m) id
      (fed.subscriptions.subscribeAll cls regions.keys h)).modifyPubSub h fun ps =>
    { ps with
      subscribedAttrsRegions := SubscribedRegions.record cls regions ps.subscribedAttrsRegions }

def subscribeObjectClassAttributesWithRegions (cls : WireField) (pairs : WireRegionPairs) :
    Outcome :=
  .ofExcept fed do
    let cls ← definedObjectClassArg fed cls
    let fed' := fed.recordRegionSubscription c.federate cls (decodeAttrRegionPairs pairs)
    let first := !fed.subscriptions.classHasSubscribers cls &&
      fed'.subscriptions.classHasSubscribers cls
    pure (.reply fed' (.ack .subscribeObjectClassAttributesWithRegions)
      (if first then emitStartRegistration c fed' cls c.federate else []))

def unsubscribeObjectClassAttributesWithRegions (cls : WireField) (pairs : WireRegionPairs) :
    Outcome :=
  .ofExcept fed do
    let cls ← objectClassArg cls
    let fed' := fed.modifyPubSub c.federate fun ps =>
      { ps with subscribedAttrsRegions :=
          SubscribedRegions.withdraw cls (decodeAttrRegionPairs pairs) ps.subscribedAttrsRegions }
    pure (.reply fed' (.ack .unsubscribeObjectClassAttributesWithRegions) [])

/-- The region services. -/
def serveRegion : RegionRequest → Outcome
  | .createRegion dimensions => createRegion c fed dimensions
  | .commitRegionModifications regions => commitRegionModifications c fed regions
  | .deleteRegion region => deleteRegion c fed region
  | .getRangeBounds region dimension => getRangeBounds fed region dimension
  | .setRangeBounds region dimension bounds => setRangeBounds c fed region dimension bounds
  | .subscribeObjectClassAttributesWithRegions cls pairs =>
    subscribeObjectClassAttributesWithRegions c fed cls pairs
  | .unsubscribeObjectClassAttributesWithRegions cls pairs =>
    unsubscribeObjectClassAttributesWithRegions c fed cls pairs

/-! ## What the handlers can change -/

variable {c fed}

theorem touches_subscribedRegions {h : FederateHandle}
    (f : SubscribedRegions → SubscribedRegions) :
    Federation.Touches [.federate .subscribedRegions] fed (fed.modifyPubSub h fun ps =>
      { ps with subscribedAttrsRegions := f ps.subscribedAttrsRegions }) := by
  refine touches_modifyPubSub [.subscribedRegions] ?_
  intro fs q hq
  cases q <;> first | rfl | exact absurd (List.mem_singleton_self _) hq

theorem touches_recordRegionSubscription {h : FederateHandle} {cls : ObjectClassHandle}
    {regions : MultiMap AttributeHandle RegionHandle} :
    Federation.Touches [.federate .subscribed, .subscriptions, .federate .subscribedRegions] fed
      (fed.recordRegionSubscription h cls regions) :=
  (touches_resubscribe.mono (by decide)).trans
    ((touches_subscribedRegions (SubscribedRegions.record cls regions)).mono (by decide))

/-- The parts a region service may change, a subscription apart. -/
def regionParts : List Part := [.regions, .counters, .federate .subscribedRegions]

/-- No region service but a subscription sends a callback. -/
theorem serveRegion_confined_regions {r : RegionRequest} {kind : CallbackRequest → Prop}
    (hr : ∀ cls pairs, r ≠ .subscribeObjectClassAttributesWithRegions cls pairs) :
    (serveRegion c fed r).Confined regionParts kind fed := by
  cases r with
  | createRegion =>
    have hdrawn : Federation.Touches regionParts fed
        { fed with nextRegionId := fed.nextRegionId + 1 } :=
      Federation.touches_counters.mono (by decide)
    exact .silent (hdrawn.trans (Federation.touches_regions.mono (by decide)))
  | commitRegionModifications =>
    rw [serveRegion, commitRegionModifications]
    split
    · exact .silent (Federation.touches_regions.mono (by decide))
    · exact .reject (Federation.touches_regions.mono (by decide))
  | deleteRegion =>
    exact .ofExcept (.bind fun _ _ => .bind fun _ _ =>
      .pure (.silent (Federation.touches_regions.mono (by decide))))
  | getRangeBounds =>
    exact .ofExcept (.bind fun _ _ => .bind fun _ _ => .bind fun _ _ => .pure (.silent .refl))
  | setRangeBounds =>
    exact .ofExcept (.bind fun _ _ => .bind fun _ _ => .bind fun _ _ => .bind fun _ _ =>
      .bind fun _ _ => .pure (.silent (Federation.touches_regions.mono (by decide))))
  | subscribeObjectClassAttributesWithRegions cls pairs => exact absurd rfl (hr cls pairs)
  | unsubscribeObjectClassAttributesWithRegions cls pairs =>
    exact .ofExcept (.bind fun cls _ => .pure (.silent ((touches_subscribedRegions
      (SubscribedRegions.withdraw cls (decodeAttrRegionPairs pairs))).mono (by decide))))

theorem serveRegion_confined (r : RegionRequest) :
    (serveRegion c fed r).Confined (.federate .subscribed :: .subscriptions :: regionParts)
      (CallbackRequest.On .relevance) fed := by
  by_cases hr : ∃ cls pairs, r = .subscribeObjectClassAttributesWithRegions cls pairs
  · obtain ⟨cls, pairs, rfl⟩ := hr
    exact .ofExcept (.bind fun _ _ =>
      .pure (.reply (touches_recordRegionSubscription.mono (by decide))
        (forall_ite (forall_emitAdvisory rfl))))
  · refine (serveRegion_confined_regions ?_).mono (by decide)
    intro cls pairs h
    exact hr ⟨cls, pairs, h⟩

end Hla4
