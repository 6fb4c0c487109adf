/-
# `Hla4.Rti.Safety.Removal` — no reflection after a removal

Once a federate has been told that an instance is removed, it should hear of
updates of it only after a new discovery.  It does where the removals are in
order (`FedAction.InOrder`):

  * a removal told at once finds no update of the instance in the queue of a
    connected discoverer, and one that is queued finds none behind it;
  * an instance that is announced has no removal in the queue, and if the
    announcement does not reach the federate, a removal was not the last it
    heard of the instance.

The first fails when a deletion overtakes a queued update: an untimed deletion
always, a timestamped one with a time before the update's.  The second fails
only for an instance that came back, by a restore or with a handle drawn twice.
-/
import Hla4.Rti.Safety.Discovery

namespace Hla4

open Lib

/-- Between a removal of an instance and an update of it there is a discovery. -/
def RemovalsFinal (l : List InstanceNews) : Prop :=
  ∀ i, Between (· = .vanishes i) (· = .changes i) (· = .appears i) l

def ServiceRequest.objectRequest? : ServiceRequest → Option ObjectRequest
  | object r => some r
  | _ => none

/-- The announcement or removal of a request is orderly for federate `h`, which
had the news `l`. -/
def FedAction.InOrder (h : FederateHandle) (fed : Federation) (l : List InstanceNews) :
    FedAction → Prop
  | serve c req =>
    ∀ r ∈ req.objectRequest?, r.Permits (fun seen w m => m.Orderly seen w) c fed h l
  | _ => True

instance (r : ObjectRequest) (c : Caller) (fed : Federation) (h : FederateHandle)
    (l : List InstanceNews) : Decidable (r.Permits (fun seen w m => m.Orderly seen w) c fed h l) :=
  inferInstanceAs (Decidable (∀ fs ∈ fed.federates.lookup h, ∀ m ∈ r.move? c fed h fs,
    m.Orderly (c.sees fs) (fs.watch l)))

instance (h : FederateHandle) (fed : Federation) (l : List InstanceNews) :
    (a : FedAction) → Decidable (a.InOrder h fed l)
  | .create .. | .join .. | .leave .. => .isTrue trivial
  | .serve _ req => inferInstanceAs (Decidable (∀ r ∈ req.objectRequest?, r.Permits _ _ _ _ _))

theorem tidy_apply {h : FederateHandle} {fed : Federation} {l : List InstanceNews} {a : FedAction}
    (hord : a.InOrder h fed l) (hv : Views RemovalsFinal Watcher.Tidy h fed l) :
    Views RemovalsFinal Watcher.Tidy h (a.apply fed) (newsLog h fed a l) := by
  refine views_apply Watcher.lenient_orderly Watcher.Tidy.start (fun w hw i => hw.silent i) ?_ ?_ hv
  · intro c req _ fs _ w m hw hm
    exact hw.after m hm.1 hm.2
  · rintro c req rfl r rfl
    exact hord r rfl

/-- **No reflection after a removal**, for a federate for which every step is in
order: in every run, between a removal of an instance and a later reflection of
it there is a discovery of it. -/
theorem Node.removals_final (r : FedRef) (h : FederateHandle) {es : List NodeEvent}
    (hord : StepsMeet (logged Node.step (Node.track r (newsLog h)))
      (Node.MeetsWith r fun fed l a => a.InOrder h fed l) (Node.new, []) es) :
    Always (logged Node.step (Node.track r (newsLog h))) (fun s => RemovalsFinal s.2)
      (Node.new, []) es := by
  have hnew : Views RemovalsFinal Watcher.Tidy h (.new "" .new) [] := by
    refine ⟨fun i => between_nil, ?_⟩
    intro fs hfs
    cases hfs
  have hviews := Node.track_always_with (I := Views RemovalsFinal Watcher.Tidy h) hnew
    (fun fed l a hv hok => tidy_apply hok hv) hord
  exact fun done hd => (hviews done hd).1

theorem Node.removals_final_pair :
    (run (logged Node.step (Node.track 0 (newsLog ⟨2⟩))) (Node.new, []) pairWatching).2 =
      [.appears ⟨1⟩, .ends ⟨1⟩, .changes ⟨1⟩, .vanishes ⟨1⟩] ∧
    Always (logged Node.step (Node.track 0 (newsLog ⟨2⟩))) (fun s => RemovalsFinal s.2)
      (Node.new, []) pairWatching :=
  ⟨by decide +kernel, Node.removals_final 0 ⟨2⟩ (by decide +kernel)⟩

/-- Federate 2 has an update in its queue when the instance is deleted: at once,
with the update of time 3; or at time 3, with the update of time 5. -/
def overtakingRuns : List (List NodeEvent) :=
  let start := pairUpdating ++ [.serves 0 (.time (.enableTimeRegulation wireOne)),
    .serves 1 (.time .enableTimeConstrained)]
  [start ++ [.serves 0 (updateAt wireThree),
      .serves 0 (.object (.deleteObjectInstance (wire64 1) [])),
      .serves 1 (advanceTo wireFive), .serves 0 (advanceTo wireFive)],
    start ++ [.serves 0 (updateAt wireFive),
      .serves 0 (.object (.deleteObjectInstanceWithTime (wire64 1) [] wireThree)),
      .serves 1 (advanceTo wireFive), .serves 0 (advanceTo wireFive)]]

/-- **Overtaken updates.**  After each of these runs federate 2 has heard of the
removal and then of the update. -/
theorem Node.update_overtaken :
    overtakingRuns.Forall fun es => ¬ RemovalsFinal
      (run (logged Node.step (Node.track 0 (newsLog ⟨2⟩))) (Node.new, []) es).2 := by
  have hlogs : overtakingRuns.map (fun es =>
      (run (logged Node.step (Node.track 0 (newsLog ⟨2⟩))) (Node.new, []) es).2) =
        [[.appears ⟨1⟩, .vanishes ⟨1⟩, .ends ⟨1⟩, .changes ⟨1⟩],
          [.appears ⟨1⟩, .ends ⟨1⟩, .vanishes ⟨1⟩, .changes ⟨1⟩]] := by
    decide +kernel
  rw [List.forall_iff_forall_mem]
  intro es hes hfinal
  have hmem := List.mem_map_of_mem (f := fun es =>
    (run (logged Node.step (Node.track 0 (newsLog ⟨2⟩))) (Node.new, []) es).2) hes
  rw [hlogs] at hmem
  rcases List.mem_cons.mp hmem with he | hmem
  · obtain ⟨z, hz, rfl⟩ := hfinal ⟨1⟩ [.appears ⟨1⟩] _ [.ends ⟨1⟩] _ [] he rfl rfl
    simp at hz
  · obtain ⟨z, hz, _⟩ := hfinal ⟨1⟩ [.appears ⟨1⟩, .ends ⟨1⟩] _ [] _ []
      (List.mem_singleton.mp hmem) rfl rfl
    cases hz

end Hla4
