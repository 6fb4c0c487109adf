/-
# `Hla4.Rti.Safety.SnapshotFiles` — the file of a snapshot

`snapshot_path` makes a file name of a federation and a label: slashes and
backslashes become underscores, and the two are joined by two underscores.
Nothing keeps the separator out of the names, so that different pairs may share
a file (`Confusable`):

    f/g, h        f_g, h          the same after the replacement
    f, _h         f_, h           the separator begins one place later
    f, g__h       f__g, h         it is found a second time

For a set `U` of pairs, snapshots are kept apart exactly if no two pairs of `U`
are confusable (`noCollisions_iff`).  Apart means two things: the paths differ in
every directory; and in every run that saves only pairs of `U`, what is read
for a pair of `U` is what was written last for it (`lastWritten`), not for
another.
-/
import Hla4.Rti.Safety.Isolation

namespace Hla4

open Lib

/-! ## Two words and a separator -/

section Separator

variable {α : Type} {x : α} {a b c d : List α}

/-- `c` and `d`, joined by two `x`, are `a` and `b` joined by them further to the
front. -/
inductive Overlaps (x : α) : List α → List α → List α → List α → Prop
  | byOne (a d : List α) : Overlaps x a (x :: d) (a ++ [x]) d
  | byMore (a m d : List α) : Overlaps x a (m ++ x :: x :: d) (a ++ x :: x :: m) d

theorem Overlaps.joined (h : Overlaps x a b c d) : a ++ x :: x :: b = c ++ x :: x :: d := by
  cases h with
  | byOne => simp
  | byMore => simp

/-- Where the second word starts behind the first one's end. -/
theorem overlaps_of_append {rest : List α} (hrest : rest ≠ [])
    (h : x :: x :: b = rest ++ x :: x :: d) : Overlaps x a b (a ++ rest) d := by
  match rest, hrest with
  | [y], _ =>
    rw [List.singleton_append, List.cons.injEq, List.cons.injEq] at h
    obtain ⟨rfl, -, rfl⟩ := h
    exact .byOne a d
  | y :: z :: m, _ =>
    rw [List.cons_append, List.cons_append, List.cons.injEq, List.cons.injEq] at h
    obtain ⟨rfl, rfl, rfl⟩ := h
    exact .byMore a m d

theorem append_pair_eq :
    a ++ x :: x :: b = c ++ x :: x :: d ↔
      (a = c ∧ b = d) ∨ Overlaps x a b c d ∨ Overlaps x c d a b := by
  constructor
  · intro h
    obtain ⟨rest, rfl, hrest⟩ | ⟨rest, rfl, hrest⟩ := List.append_eq_append_iff.mp h
    · by_cases hnil : rest = []
      · subst hnil
        cases hrest
        exact .inl ⟨(List.append_nil a).symm, rfl⟩
      · exact .inr (.inl (overlaps_of_append hnil hrest))
    · by_cases hnil : rest = []
      · subst hnil
        cases hrest
        exact .inl ⟨List.append_nil c, rfl⟩
      · exact .inr (.inr (overlaps_of_append hnil hrest))
  · rintro (⟨rfl, rfl⟩ | h | h)
    · rfl
    · exact h.joined
    · exact h.joined.symm

end Separator

/-! ## Paths -/

/-- Two pairs of a federation and a label that come to one file. -/
def Confusable (p q : String × String) : Prop :=
  (fileSafe p.1 = fileSafe q.1 ∧ fileSafe p.2 = fileSafe q.2) ∨
    Overlaps '_' (fileSafe p.1).toList (fileSafe p.2).toList (fileSafe q.1).toList
      (fileSafe q.2).toList ∨
    Overlaps '_' (fileSafe q.1).toList (fileSafe q.2).toList (fileSafe p.1).toList
      (fileSafe p.2).toList

theorem toList_snapshotFile (p : String × String) :
    (snapshotFile p.1 p.2).toList =
      (fileSafe p.1).toList ++ '_' :: '_' :: (fileSafe p.2).toList ++ ".json".toList := by
  simp [snapshotFile]

theorem snapshotFile_eq_iff {p q : String × String} :
    snapshotFile p.1 p.2 = snapshotFile q.1 q.2 ↔ Confusable p q := by
  rw [← String.toList_inj, toList_snapshotFile, toList_snapshotFile, List.append_left_inj,
    append_pair_eq, String.toList_inj, String.toList_inj]
  rfl

/-- `Path::join` with the name of a file. -/
def joinPath (dir file : String) : String :=
  if dir = "" ∨ dir.toList.getLast? = some '/' then dir ++ file else dir ++ "/" ++ file

theorem joinPath_inj {dir file file' : String} : joinPath dir file = joinPath dir file' ↔ file = file' := by
  unfold joinPath
  split
  · exact String.append_right_inj _
  · exact String.append_right_inj _

def snapshotPath (saveDir federation label : String) : String :=
  joinPath saveDir (snapshotFile federation label)

/-! ## Which call writes -/

section Writers

variable {c : Caller} {fed : Federation}

/-- What is written is a snapshot of the federation, with the instances it
has. -/
def Outcome.SavesOwn (fed : Federation) (o : Outcome) : Prop :=
  ∀ label snap, o.snapshot = some (label, snap) →
    ∃ (fed' : Federation) (env : Env), fed'.objectInstances = fed.objectInstances ∧
      snap = fed'.snapshot env

theorem Outcome.savesOwn_of_unsaved {o : Outcome} (h : o.snapshot = none) : o.SavesOwn fed := by
  intro label snap hs
  rw [h] at hs
  cases hs

theorem federateSaveProgressed_savesOwn (successfully : Bool) :
    (federateSaveProgressed c fed successfully).SavesOwn fed := by
  refine Outcome.ofExcept_of (fun _ => Outcome.savesOwn_of_unsaved rfl) (.bind fun save _ => ?_)
  dsimp only
  split
  · exact .pure (Outcome.savesOwn_of_unsaved rfl)
  · exact .pure (Outcome.savesOwn_of_unsaved rfl)
  · refine .pure fun label snap hs => ?_
    obtain ⟨_, _, he⟩ := Option.map_eq_some_iff.mp hs
    cases he
    exact ⟨{ fed with currentSave := none }, c.env, rfl, rfl⟩

theorem serveSaveRestore_savesOwn (r : SaveRestoreRequest) :
    (serveSaveRestore c fed r).SavesOwn fed := by
  have ofExcept : ∀ {x}, Yields x (fun o => o.snapshot = none) →
      (Outcome.ofExcept fed x).SavesOwn fed := by
    intro x hx
    exact Outcome.ofExcept_of (fun _ => Outcome.savesOwn_of_unsaved rfl)
      fun o ho => Outcome.savesOwn_of_unsaved (hx o ho)
  have restores : ∀ successfully, (federateRestoreProgressed c fed successfully).SavesOwn fed := by
    intro successfully
    refine ofExcept (.bind fun restore _ => ?_)
    dsimp only
    split <;> exact .pure rfl
  cases r with
  | requestFederationSave => exact ofExcept (.bind fun _ _ => .bind fun _ _ => .pure rfl)
  | federateSaveBegun =>
    exact ofExcept (.bind fun _ _ => .bind fun _ _ => .bind fun _ _ => .pure rfl)
  | federateSaveComplete => exact federateSaveProgressed_savesOwn true
  | federateSaveNotComplete => exact federateSaveProgressed_savesOwn false
  | abortFederationSave | abortFederationRestore => exact ofExcept (.bind fun _ _ => .pure rfl)
  | requestFederationRestore =>
    refine Outcome.savesOwn_of_unsaved (requestFederationRestore_cases (Q := fun o => o.snapshot = none)
      ?_ ?_ ?_ ?_)
    · exact fun _ _ => rfl
    · exact fun _ _ => rfl
    · exact fun _ _ _ _ _ => rfl
    · exact fun _ _ _ _ _ _ => rfl
  | federateRestoreComplete => exact restores true
  | federateRestoreNotComplete => exact restores false

/-- **Only the end of a save writes.** -/
theorem serve_savesOwn (req : ServiceRequest) : (serve c fed req).SavesOwn fed := by
  have unsaved : req.ChecksFirst → (∀ q, req ≠ .saveRestore q) → (serve c fed req).SavesOwn fed :=
    fun hr hsave => Outcome.savesOwn_of_unsaved (serve_orderly hr hsave).unsaved
  cases req with
  | region r =>
    cases r with
    | commitRegionModifications =>
      refine Outcome.savesOwn_of_unsaved ?_
      rw [serve, serveRegion, commitRegionModifications]
      split <;> rfl
    | _ => exact unsaved trivial fun _ => ServiceRequest.noConfusion
  | saveRestore r => exact serveSaveRestore_savesOwn r
  | _ => exact unsaved trivial fun _ => ServiceRequest.noConfusion

end Writers

/-! ## What was written -/

namespace Node

/-- What is written is the snapshot of a call. -/
theorem snapshot_of_writes {n : Node} {e : NodeEvent} {federation label : String}
    {snap : FederationSnapshot} (h : n.writes e = some (federation, label, snap)) :
    ∃ r c req, n.action e = some (r, .serve c req) ∧
      (serve c (n.heap r) req).snapshot = some (label, snap) := by
  cases e with
  | call t env request =>
    cases request with
    | service req =>
      obtain ⟨s, hs, h⟩ := Option.bind_eq_some_iff.mp h
      obtain ⟨m, hm, h⟩ := Option.bind_eq_some_iff.mp h
      have hmem : (n.sessions.lookup t).bind Session.membership = some m := by
        rw [hs]
        exact hm
      refine ⟨_, _, _, action_of_membership hmem env req, ?_⟩
      split at h
      · cases h
      · obtain ⟨entry, hentry, he⟩ := Option.map_eq_some_iff.mp h
        cases he
        exact hentry
    | _ => cases h
  | _ => cases h

/-- History: by directory, federation and label, the snapshot last written. -/
abbrev Written := String × String × String → Option FederationSnapshot

def recordWrite (n : Node) (e : NodeEvent) (g : Written) : Written :=
  match n.writes e with
  | none => g
  | some (federation, label, snap) => Function.update g (n.saveDir, federation, label) (some snap)

/-- What a run has written last for a directory, a federation and a label. -/
def lastWritten (es : List NodeEvent) : Written :=
  (run (logged Node.step recordWrite) (Node.new, fun _ => none) es).2

/-- The step saves only pairs of `U`. -/
def WritesIn (U : Set (String × String)) (n : Node) (e : NodeEvent) : Prop :=
  ∀ federation label snap, n.writes e = some (federation, label, snap) → (federation, label) ∈ U

/-- The disk and the history agree on `U`. -/
def Agrees (U : Set (String × String)) (s : Node × Written) : Prop :=
  ∀ dir, ∀ p ∈ U, s.1.disk (dir, snapshotFile p.1 p.2) = s.2 (dir, p)

theorem Agrees.step {U : Set (String × String)} (hU : ∀ p ∈ U, ∀ q ∈ U, Confusable p q → p = q)
    {s : Node × Written} {e : NodeEvent} (h : Agrees U s) (hw : WritesIn U s.1 e) :
    Agrees U (logged Node.step recordWrite s e) := by
  intro dir p hp
  show (s.1.step e).disk _ = recordWrite s.1 e s.2 _
  rw [disk_step, recordWrite]
  cases hwrites : s.1.writes e with
  | none => exact h dir p hp
  | some entry =>
    obtain ⟨federation, label, snap⟩ := entry
    have hq := hw federation label snap hwrites
    show Function.update s.1.disk _ _ _ = Function.update s.2 _ _ _
    by_cases hsame : (dir, p) = (s.1.saveDir, federation, label)
    · cases hsame
      rw [Function.update_self, Function.update_self]
    · -- another pair of `U` is in another file
      have hfile : (dir, snapshotFile p.1 p.2) ≠ (s.1.saveDir, snapshotFile federation label) := by
        intro heq
        obtain ⟨rfl, hfile⟩ := Prod.mk.injEq .. ▸ heq
        exact hsame (Prod.ext rfl (hU p hp _ hq (snapshotFile_eq_iff.mp hfile)))
      rw [Function.update_of_ne hfile, Function.update_of_ne hsame]
      exact h dir p hp

end Node

/-! ## Apart -/

open Node in
/-- The snapshots of the pairs of `U` are kept apart. -/
structure NoCollisions (U : Set (String × String)) : Prop where
  paths : ∀ dir, ∀ p ∈ U, ∀ q ∈ U, p ≠ q → snapshotPath dir p.1 p.2 ≠ snapshotPath dir q.1 q.2
  reads : ∀ es, StepsMeet Node.step (WritesIn U) Node.new es → ∀ p ∈ U, ∀ m env,
    ((run Node.step Node.new es).caller m env).saved p.1 p.2 =
      lastWritten es ((run Node.step Node.new es).saveDir, p)

/-- **Snapshots are kept apart** exactly where no two pairs are confusable. -/
theorem noCollisions_iff (U : Set (String × String)) :
    NoCollisions U ↔ ∀ p ∈ U, ∀ q ∈ U, Confusable p q → p = q := by
  constructor
  · intro h p hp q hq hpq
    by_contra hne
    refine h.paths "" p hp q hq hne ?_
    rw [snapshotPath, snapshotPath, joinPath_inj]
    exact snapshotFile_eq_iff.mpr hpq
  · intro hU
    constructor
    · intro dir p hp q hq hne hpath
      exact hne (hU p hp q hq (snapshotFile_eq_iff.mp (joinPath_inj.mp hpath)))
    · intro es hes p hp m env
      have hagrees : Node.Agrees U (run (logged Node.step Node.recordWrite) (Node.new, fun _ => none) es) :=
        (hes.logged (fun _ => none)).invariant (P := Node.Agrees U)
          (fun s e h hw => Node.Agrees.step hU h hw) fun _ _ _ => rfl
      have hread := hagrees (run Node.step Node.new es).saveDir p hp
      rw [run_logged_fst] at hread
      exact hread

/-- Federation `f` registers an instance and saves it under the label `g__h`;
federation `f__g` restores its label `h`, which was never saved. -/
def crossedLabels : List NodeEvent :=
  [.opens, .manages 0 (.createFederationExecution .withModules "f" [.file "m" []]), .joins 0,
    .serves 0 (.declaration (.publishObjectClassAttributes (wire32 1) (some [[0, 0, 0, 1]]))),
    .serves 0 (.object (.registerObjectInstance (wire32 1))),
    .serves 0 (.saveRestore (.requestFederationSave false "g__h")),
    .serves 0 (.saveRestore .federateSaveBegun), .serves 0 (.saveRestore .federateSaveComplete),
    .opens, .manages 1 (.createFederationExecution .withModules "f__g" [.file "m" []]),
    .manages 1 (.joinFederationExecution .plain "" "f__g"),
    .serves 1 (.saveRestore (.requestFederationRestore "h"))]

/-- Nothing was written for `f__g` and `h`, and an instance is restored. -/
theorem crossed_labels_collide :
    snapshotPath "./hla4-saves" "f" "g__h" = snapshotPath "./hla4-saves" "f__g" "h" ∧
      Node.lastWritten crossedLabels ("./hla4-saves", "f__g", "h") = none ∧
      ((run Node.step Node.new crossedLabels).heap 1).objectInstances.keys = [⟨1⟩] := by
  decide +kernel

end Hla4
