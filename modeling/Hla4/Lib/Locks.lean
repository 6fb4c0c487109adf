/-
# `Hla4.Lib.Locks` — read-write locks taken in nested fashion

Tasks run pieces of code that take locks and release them when a scope ends.
Of a piece of code only its locking is kept (`Locking`): which branch is taken,
how often a loop runs and where the code returns early is left open.

A lock admits readers together and a writer alone.  Who asks for it queues, and
is admitted when nobody incompatible holds it or queues ahead: a waiting writer
holds back the readers that come after it.  A task is therefore blocked by
holders and by those ahead of it in the queue; a deadlock is a set of tasks each
of which is blocked by one of the set (by itself, in the case of a lock that is
taken again).

`no_deadlock` is the rule for a lock order.  Locks have ranks, and the code
takes a lock only under locks of lower rank (`Locking.above`).  Then who blocks
a task awaits a lock of higher rank, or awaits the same lock further ahead, and
there is no infinite ascent.
-/
import Mathlib.Data.Prod.Lex
import Mathlib.Data.Set.Insert
import Mathlib.Logic.Function.Basic
import Mathlib.Order.WellFounded
import Hla4.Lib.Run

namespace Lib

inductive LockMode
  | read
  | write
deriving DecidableEq

def LockMode.compatible : LockMode → LockMode → Bool
  | read, read => true
  | _, _ => false

/-- The locking of a piece of code. -/
inductive Locking (L : Type)
  | nothing
  | andThen (p q : Locking L)
  /-- a branch, or the rest behind a possible return -/
  | maybe (p : Locking L)
  | loop (p : Locking L)
  /-- take the lock, run the scope of the guard, release the lock -/
  | holding (l : L) (m : LockMode) (p : Locking L)

namespace Locking

variable {L : Type}

/-- A guard that is dropped at once. -/
def brief (l : L) (m : LockMode) : Locking L := holding l m nothing

/-- One after the other, with a possible return after each. -/
def inTurn : List (Locking L) → Locking L
  | [] => nothing
  | p :: ps => andThen p (maybe (inTurn ps))

/-- Every lock is of rank `n` or more, and of higher rank than those held. -/
def above (rank : L → Nat) : Nat → Locking L → Bool
  | _, nothing => true
  | n, andThen p q => above rank n p && above rank n q
  | n, maybe p => above rank n p
  | n, loop p => above rank n p
  | n, holding l _ p => decide (n ≤ rank l) && above rank (rank l + 1) p

end Locking

/-- What a task has still to do: run code, and drop the guards it holds. -/
inductive LockTodo (L : Type)
  | code (p : Locking L)
  | release (l : L) (m : LockMode)

structure Locks (T L : Type) where
  todo : T → List (LockTodo L)
  holders : L → List (T × LockMode)
  /-- who waits for the lock, in order of arrival -/
  queue : L → List (T × LockMode)

/-- A task takes up a piece of code, or goes on; `choice` decides a branch. -/
inductive LockEvent (T A : Type)
  | start (t : T) (a : A)
  | go (t : T) (choice : Bool)

/-- Those ahead of a task in a queue. -/
def ahead {T : Type} [DecidableEq T] (q : List (T × LockMode)) (t : T) : List (T × LockMode) :=
  q.takeWhile fun w => decide (w.1 ≠ t)

namespace Locks

variable {T L A : Type}

/-- No lock is held, and every task is idle. -/
def free : Locks T L := ⟨fun _ => [], fun _ => [], fun _ => []⟩

/-- The task has queued for the lock and is not admitted yet. -/
def Waits (s : Locks T L) (t : T) (l : L) (m : LockMode) : Prop :=
  (∃ p k, s.todo t = .code (.holding l m p) :: k) ∧ (t, m) ∈ s.queue l

/-- The task queues for a lock. -/
def ask [DecidableEq L] (s : Locks T L) (t : T) (l : L) (m : LockMode) : Locks T L :=
  { s with queue := Function.update s.queue l (s.queue l ++ [(t, m)]) }

variable [DecidableEq T]

/-- Who keeps task `t` from lock `l`: incompatible holders, and incompatible
requests ahead of it. -/
def blockers (s : Locks T L) (t : T) (l : L) (m : LockMode) : List (T × LockMode) :=
  (s.holders l ++ ahead (s.queue l) t).filter fun w => !m.compatible w.2

/-- Each task of the set waits for a lock from which one of the set keeps it. -/
def Deadlocked (s : Locks T L) (D : Set T) : Prop :=
  D.Nonempty ∧ ∀ t ∈ D, ∃ l m, s.Waits t l m ∧ ∃ w ∈ s.blockers t l m, w.1 ∈ D

def setTodo (s : Locks T L) (t : T) (k : List (LockTodo L)) : Locks T L :=
  { s with todo := Function.update s.todo t k }

variable [DecidableEq L]

/-- The task leaves the queue and holds the lock. -/
def acquire (s : Locks T L) (t : T) (l : L) (m : LockMode) : Locks T L :=
  { s with
    queue := Function.update s.queue l ((s.queue l).filter fun w => decide (w.1 ≠ t))
    holders := Function.update s.holders l ((t, m) :: s.holders l) }

def drop (s : Locks T L) (t : T) (l : L) (m : LockMode) : Locks T L :=
  { s with holders := Function.update s.holders l ((s.holders l).erase (t, m)) }

def step (locking : A → Locking L) (s : Locks T L) : LockEvent T A → Locks T L
  | .start t a =>
    match s.todo t with
    | [] => s.setTodo t [.code (locking a)]
    | _ :: _ => s
  | .go t choice =>
    match s.todo t with
    | [] => s
    | .code .nothing :: k => s.setTodo t k
    | .code (.andThen p q) :: k => s.setTodo t (.code p :: .code q :: k)
    | .code (.maybe p) :: k => s.setTodo t (if choice then .code p :: k else k)
    | .code (.loop p) :: k => s.setTodo t (if choice then .code p :: .code (.loop p) :: k else k)
    | .code (.holding l m p) :: k =>
      if (t, m) ∉ s.queue l then s.ask t l m
      else if (s.blockers t l m).isEmpty then
        (s.acquire t l m).setTodo t (.code p :: .release l m :: k)
      else s
    | .release l m :: k => (s.drop t l m).setTodo t k

/-! ## What the operations do -/

variable {s : Locks T L} {t u : T} {l l' : L} {m m' : LockMode}

omit [DecidableEq L] in
theorem todo_setTodo (s : Locks T L) (t u : T) (k : List (LockTodo L)) :
    (s.setTodo t k).todo u = if u = t then k else s.todo u :=
  Function.update_apply ..

omit [DecidableEq T] in
theorem mem_queue_ask :
    (u, m') ∈ (s.ask t l m).queue l' ↔ (u, m') ∈ s.queue l' ∨ (l' = l ∧ (u, m') = (t, m)) := by
  simp only [ask, Function.update_apply]
  by_cases hl : l' = l
  · subst hl
    simp
  · simp [hl]

theorem mem_queue_acquire :
    (u, m') ∈ (s.acquire t l m).queue l' ↔ (u, m') ∈ s.queue l' ∧ ¬ (l' = l ∧ u = t) := by
  simp only [acquire, Function.update_apply]
  by_cases hl : l' = l
  · subst hl
    simp
  · simp [hl]

theorem mem_holders_acquire :
    (u, m') ∈ (s.acquire t l m).holders l' ↔
      (u, m') ∈ s.holders l' ∨ (l' = l ∧ (u, m') = (t, m)) := by
  simp only [acquire, Function.update_apply]
  by_cases hl : l' = l
  · subst hl
    simp [or_comm]
  · simp [hl]

theorem holders_drop (s : Locks T L) (t : T) (l : L) (m : LockMode) (l' : L) :
    (s.drop t l m).holders l' = if l' = l then (s.holders l').erase (t, m) else s.holders l' := by
  simp only [drop, Function.update_apply]
  split
  · next hl => rw [hl]
  · rfl

end Locks

/-! ## Ranks -/

section Ranks

variable {T L A : Type} (rank : L → Nat)

/-- The rank a task has reached: one more than that of the last lock it took. -/
def LockTodo.reached : List (LockTodo L) → Nat
  | [] => 0
  | code _ :: k => reached k
  | release l _ :: _ => rank l + 1

/-- What is to be done takes locks above those held, and holds them in
ascending order. -/
def LockTodo.Ranked : List (LockTodo L) → Prop
  | [] => True
  | code p :: k => p.above rank (reached rank k) = true ∧ Ranked k
  | release l _ :: k => reached rank k ≤ rank l ∧ Ranked k

variable {rank} {k : List (LockTodo L)} {l : L} {m : LockMode} {p : Locking L}

theorem LockTodo.Ranked.lt_reached (hk : Ranked rank k) (h : release l m ∈ k) :
    rank l < reached rank k := by
  induction k with
  | nil => cases h
  | cons x k ih =>
    cases x with
    | code =>
      rcases List.mem_cons.mp h with h | h
      · cases h
      · exact ih hk.2 h
    | release =>
      rcases List.mem_cons.mp h with h | h
      · cases h
        exact Nat.lt_succ_self _
      · exact Nat.lt_succ_of_lt (lt_of_lt_of_le (ih hk.2 h) hk.1)

theorem LockTodo.reached_codes (ps : List (Locking L)) (k : List (LockTodo L)) :
    reached rank (ps.map code ++ k) = reached rank k := by
  induction ps with
  | nil => rfl
  | cons p ps ih => exact ih

theorem LockTodo.Ranked.codes {ps : List (Locking L)}
    (hps : ∀ q ∈ ps, q.above rank (reached rank k) = true) (hk : Ranked rank k) :
    Ranked rank (ps.map code ++ k) := by
  induction ps with
  | nil => exact hk
  | cons p ps ih =>
    refine ⟨?_, ih fun q hq => hps q (List.mem_cons_of_mem _ hq)⟩
    show p.above rank (reached rank (ps.map code ++ k)) = true
    rw [reached_codes]
    exact hps p List.mem_cons_self

namespace Locks

/-- Guards are held by tasks that will drop them, and none twice; queues hold
tasks at the lock; and what a task has to do is ranked. -/
structure Inv (rank : L → Nat) (s : Locks T L) : Prop where
  held : ∀ l t m, (t, m) ∈ s.holders l → .release l m ∈ s.todo t
  once : ∀ l, ((s.holders l).map Prod.fst).Nodup
  queued : ∀ l t m, (t, m) ∈ s.queue l → ∃ p k, s.todo t = .code (.holding l m p) :: k
  ranked : ∀ t, LockTodo.Ranked rank (s.todo t)

theorem inv_free : Inv rank (free : Locks T L) where
  held := fun _ _ _ h => absurd h List.not_mem_nil
  once := fun _ => List.nodup_nil
  queued := fun _ _ _ h => absurd h List.not_mem_nil
  ranked := fun _ => trivial

variable {s : Locks T L} {t : T}

/-- A lock is of lower rank than the one its holder is at. -/
theorem Inv.lt_of_held (hi : Inv rank s) {l' : L} {m' : LockMode}
    (ht : s.todo t = .code (.holding l m p) :: k) (h : (t, m') ∈ s.holders l') :
    rank l' < rank l := by
  have hranked : LockTodo.Ranked rank (.code (.holding l m p) :: k) := ht ▸ hi.ranked t
  have hrel : .release l' m' ∈ s.todo t := hi.held l' t m' h
  rw [ht] at hrel
  rcases List.mem_cons.mp hrel with hrel | hrel
  · cases hrel
  · exact lt_of_lt_of_le (hranked.2.lt_reached hrel)
      (of_decide_eq_true (Bool.and_eq_true_iff.mp hranked.1).1)

/-- Nobody takes a lock it holds: that would be of higher rank than itself. -/
theorem Inv.not_held (hi : Inv rank s) {m' : LockMode}
    (ht : s.todo t = .code (.holding l m p) :: k) :
    (t, m') ∉ s.holders l :=
  fun h => lt_irrefl _ (hi.lt_of_held ht h)

theorem Inv.ask [DecidableEq L] (hi : Inv rank s) (ht : s.todo t = .code (.holding l m p) :: k) :
    Inv rank (s.ask t l m) := by
  refine ⟨hi.held, hi.once, ?_, hi.ranked⟩
  intro l' u m' h
  rcases mem_queue_ask.mp h with h | ⟨rfl, he⟩
  · exact hi.queued l' u m' h
  · cases he
    exact ⟨p, k, ht⟩

/-! ## No deadlock -/

/-- The lock a task is at. -/
def awaits (s : Locks T L) (t : T) : Option L :=
  match s.todo t with
  | .code (.holding l _ _) :: _ => some l
  | _ => none

variable [DecidableEq T]

/-- How far a task is from the top: how far below `bound` the lock it is at
ranks, and how many are ahead of it there. -/
def height (rank : L → Nat) (bound : Nat) (s : Locks T L) (t : T) : ℕ ×ₗ ℕ :=
  match s.awaits t with
  | some l => toLex (bound - rank l, (ahead (s.queue l) t).length)
  | none => toLex (0, 0)

theorem height_eq {bound : Nat} (ht : s.todo t = .code (.holding l m p) :: k) :
    s.height rank bound t = toLex (bound - rank l, (ahead (s.queue l) t).length) := by
  rw [height, awaits, ht]

/-- Of two in one queue, the one ahead has fewer ahead of it. -/
theorem ahead_lt {q : List (T × LockMode)} {w : T × LockMode} (h : w ∈ ahead q t) :
    (ahead q w.1).length < (ahead q t).length := by
  induction q with
  | nil => cases h
  | cons x q ih =>
    rw [ahead, List.takeWhile_cons] at h
    split at h
    · next hx =>
        rw [ahead, List.takeWhile_cons, ahead, List.takeWhile_cons, if_pos hx]
        by_cases hw : x.1 = w.1
        · rw [if_neg (by simp [hw])]
          exact Nat.succ_pos _
        · rw [if_pos (by simp [hw])]
          rcases List.mem_cons.mp h with h | h
          · exact absurd (congrArg Prod.fst h.symm) hw
          · exact Nat.succ_lt_succ (ih h)
    · cases h

/-- **Who blocks a task, and is blocked too, is higher up.** -/
theorem Inv.height_lt (hi : Inv rank s) {bound : Nat} (hbound : ∀ l, rank l ≤ bound) {u : T}
    {l' : L} {m' mu : LockMode} (ht : s.Waits t l m) (hu : s.Waits u l' m')
    (hblock : (u, mu) ∈ s.blockers t l m) : s.height rank bound u < s.height rank bound t := by
  obtain ⟨⟨p, k, htodo⟩, _⟩ := ht
  obtain ⟨⟨p', k', hutodo⟩, _⟩ := hu
  rw [height_eq htodo, height_eq hutodo, Prod.Lex.toLex_lt_toLex]
  rcases List.mem_append.mp (List.mem_filter.mp hblock).1 with hheld | hahead
  · have hlt : rank l < rank l' := hi.lt_of_held hutodo hheld
    have hle := hbound l'
    exact .inl (by show bound - rank l' < bound - rank l; omega)
  · obtain ⟨p'', k'', hsame⟩ := hi.queued l u mu ((List.takeWhile_sublist _).subset hahead)
    cases hutodo.symm.trans hsame
    exact .inr ⟨rfl, ahead_lt hahead⟩

/-- **The rule for a lock order.** -/
theorem Inv.not_deadlocked (hi : Inv rank s) {bound : Nat} (hbound : ∀ l, rank l ≤ bound)
    (D : Set T) : ¬ s.Deadlocked D := by
  rintro ⟨hne, hD⟩
  obtain ⟨t, htD, hmin⟩ :=
    WellFounded.has_min (InvImage.wf (s.height rank bound) wellFounded_lt) D hne
  obtain ⟨l, m, hwaits, ⟨u, mu⟩, hblock, huD⟩ := hD t htD
  obtain ⟨l', m', huwaits, _⟩ := hD u huD
  exact hmin u huD (hi.height_lt hbound hwaits huwaits hblock)

/-! ## Steps -/

/-- A task that is in no queue goes on without touching a lock. -/
theorem Inv.setTodo (hi : Inv rank s) (hfree : ∀ l m p k', s.todo t ≠ .code (.holding l m p) :: k')
    (hheld : ∀ l m, .release l m ∈ s.todo t → .release l m ∈ k) (hk : LockTodo.Ranked rank k) :
    Inv rank (s.setTodo t k) := by
  constructor
  · intro l u m h
    rw [todo_setTodo]
    split
    · next hu => exact hheld l m (hu ▸ hi.held l u m h)
    · exact hi.held l u m h
  · exact hi.once
  · intro l u m h
    obtain ⟨p, k', hu⟩ := hi.queued l u m h
    rw [todo_setTodo]
    split
    · next he => exact absurd (he ▸ hu) (hfree l m p k')
    · exact ⟨p, k', hu⟩
  · intro u
    rw [todo_setTodo]
    split
    · exact hk
    · exact hi.ranked u

/-- A task takes code apart that does not start with a lock. -/
theorem Inv.unfold (hi : Inv rank s) (ht : s.todo t = .code p :: k)
    (hp : ∀ l m q, p ≠ .holding l m q) (ps : List (Locking L))
    (hps : ∀ q ∈ ps, q.above rank (LockTodo.reached rank k) = true) :
    Inv rank (s.setTodo t (ps.map .code ++ k)) := by
  have hranked : LockTodo.Ranked rank (.code p :: k) := ht ▸ hi.ranked t
  refine hi.setTodo ?_ ?_ (LockTodo.Ranked.codes hps hranked.2)
  · intro l m q k' h
    cases ht.symm.trans h
    exact hp l m q rfl
  · intro l m h
    rw [ht] at h
    rcases List.mem_cons.mp h with h | h
    · cases h
    · exact List.mem_append_right _ h

/-- Who drops a guard has no other guard of the lock. -/
theorem Inv.not_mem_erase (hi : Inv rank s) {m' : LockMode} (ht : s.todo t = .release l m :: k) :
    (t, m') ∉ (s.holders l).erase (t, m) := by
  intro h
  by_cases hmem : (t, m) ∈ s.holders l
  · have hperm := (List.perm_cons_erase hmem).map Prod.fst
    exact (List.nodup_cons.mp (hperm.nodup_iff.mp (hi.once l))).1
      (List.mem_map.mpr ⟨(t, m'), h, rfl⟩)
  · rw [List.erase_of_not_mem hmem] at h
    have hranked : LockTodo.Ranked rank (.release l m :: k) := ht ▸ hi.ranked t
    have hrel := hi.held l t m' h
    rw [ht] at hrel
    rcases List.mem_cons.mp hrel with hrel | hrel
    · cases hrel
      exact hmem h
    · exact absurd (hranked.2.lt_reached hrel) (not_lt_of_ge hranked.1)

variable [DecidableEq L]

theorem Inv.acquire (hi : Inv rank s) (ht : s.todo t = .code (.holding l m p) :: k) :
    Inv rank ((s.acquire t l m).setTodo t (.code p :: .release l m :: k)) := by
  have hranked : LockTodo.Ranked rank (.code (.holding l m p) :: k) := ht ▸ hi.ranked t
  obtain ⟨hle, hp⟩ := Bool.and_eq_true_iff.mp hranked.1
  constructor
  · intro l' u m' h
    rw [todo_setTodo]
    rcases mem_holders_acquire.mp h with h | ⟨rfl, he⟩
    · have hrel := hi.held l' u m' h
      split
      · next hu =>
          rw [hu, ht] at hrel
          rcases List.mem_cons.mp hrel with hrel | hrel
          · cases hrel
          · exact List.mem_cons_of_mem _ (List.mem_cons_of_mem _ hrel)
      · exact hrel
    · cases he
      rw [if_pos rfl]
      exact List.mem_cons_of_mem _ List.mem_cons_self
  · intro l'
    show (((s.acquire t l m).holders l').map Prod.fst).Nodup
    simp only [Locks.acquire, Function.update_apply]
    split
    · refine List.nodup_cons.mpr ⟨fun h => ?_, hi.once l⟩
      obtain ⟨⟨u, m'⟩, hmem, hu⟩ := List.mem_map.mp h
      cases hu
      exact hi.not_held ht hmem
    · exact hi.once l'
  · intro l' u m' h
    obtain ⟨hq, hne⟩ := (mem_queue_acquire (m := m)).mp h
    obtain ⟨p', k', hu⟩ := hi.queued l' u m' hq
    rw [todo_setTodo]
    split
    · -- the task is out of the one queue it was in
      next he =>
        subst he
        cases ht.symm.trans hu
        exact absurd ⟨rfl, rfl⟩ hne
    · exact ⟨p', k', hu⟩
  · intro u
    rw [todo_setTodo]
    split
    · exact ⟨hp, of_decide_eq_true hle, hranked.2⟩
    · exact hi.ranked u

theorem Inv.drop (hi : Inv rank s) (ht : s.todo t = .release l m :: k) :
    Inv rank ((s.drop t l m).setTodo t k) := by
  have hranked : LockTodo.Ranked rank (.release l m :: k) := ht ▸ hi.ranked t
  have hkeep : ∀ {l' u m'}, (u, m') ∈ (s.drop t l m).holders l' →
      (u, m') ∈ s.holders l' ∧ ¬ (u = t ∧ l' = l) := by
    intro l' u m' h
    rw [holders_drop] at h
    split at h
    · next hl =>
        subst hl
        refine ⟨List.mem_of_mem_erase h, ?_⟩
        rintro ⟨rfl, _⟩
        exact hi.not_mem_erase ht h
    · next hl => exact ⟨h, fun hc => hl hc.2⟩
  constructor
  · intro l' u m' h
    obtain ⟨hold, hne⟩ := hkeep h
    have hrel := hi.held l' u m' hold
    rw [todo_setTodo]
    split
    · next hu =>
        rw [hu, ht] at hrel
        rcases List.mem_cons.mp hrel with hrel | hrel
        · cases hrel
          exact absurd ⟨hu, rfl⟩ hne
        · exact hrel
    · exact hrel
  · intro l'
    show (((s.drop t l m).holders l').map Prod.fst).Nodup
    rw [holders_drop]
    split
    · exact (hi.once l').sublist (List.erase_sublist.map _)
    · exact hi.once l'
  · intro l' u m' h
    obtain ⟨p, k', hu⟩ := hi.queued l' u m' h
    rw [todo_setTodo]
    split
    · next he =>
        subst he
        cases ht.symm.trans hu
    · exact ⟨p, k', hu⟩
  · intro u
    rw [todo_setTodo]
    split
    · exact hranked.2
    · exact hi.ranked u

/-- **A step keeps the invariant**, where all the code is ranked. -/
theorem inv_step {locking : A → Locking L} (hcode : ∀ a, (locking a).above rank 0 = true)
    (hi : Inv rank s) (e : LockEvent T A) : Inv rank (s.step locking e) := by
  cases e with
  | start t a =>
    rw [step]
    split
    · next ht =>
        refine hi.setTodo (fun l m p k h => by cases ht.symm.trans h) ?_ ⟨hcode a, trivial⟩
        intro l m h
        rw [ht] at h
        exact absurd h List.not_mem_nil
    · exact hi
  | go t choice =>
    have hranked := hi.ranked t
    rw [step]
    split
    · exact hi
    · next k ht =>
        exact hi.unfold ht (fun _ _ _ h => by cases h) [] (List.forall_mem_nil _)
    · next p q k ht =>
        rw [ht] at hranked
        obtain ⟨hp, hq⟩ := Bool.and_eq_true_iff.mp hranked.1
        exact hi.unfold ht (fun _ _ _ h => by cases h) [p, q] (by simp [hp, hq])
    · next p k ht =>
        rw [ht] at hranked
        have hp : p.above rank (LockTodo.reached rank k) = true := hranked.1
        cases choice with
        | true => exact hi.unfold ht (fun _ _ _ h => by cases h) [p] (by simp [hp])
        | false => exact hi.unfold ht (fun _ _ _ h => by cases h) [] (List.forall_mem_nil _)
    · next p k ht =>
        rw [ht] at hranked
        have hp : p.above rank (LockTodo.reached rank k) = true := hranked.1
        cases choice with
        | true =>
          exact hi.unfold ht (fun _ _ _ h => by cases h) [p, .loop p]
            (by simp [hp, Locking.above])
        | false => exact hi.unfold ht (fun _ _ _ h => by cases h) [] (List.forall_mem_nil _)
    · next l m p k ht =>
        split
        · exact hi.ask ht
        · split
          · exact hi.acquire ht
          · exact hi
    · next l m k ht => exact hi.drop ht

/-- **No deadlock is reached** by any number of tasks, however they interleave,
if all their code takes locks in the order of their ranks. -/
theorem no_deadlock {locking : A → Locking L} {bound : Nat} (hbound : ∀ l, rank l ≤ bound)
    (hcode : ∀ a, (locking a).above rank 0 = true) (es : List (LockEvent T A)) (D : Set T) :
    ¬ (run (step locking) (free : Locks T L) es).Deadlocked D := by
  have hrun : StepsMeet (step locking) (fun _ _ => True) (free : Locks T L) es :=
    .of_forall fun _ _ => trivial
  have hi : Inv rank (run (step locking) (free : Locks T L) es) :=
    hrun.invariant (P := Inv rank) (fun _ e hi _ => inv_step hcode hi e) inv_free
  exact hi.not_deadlocked hbound D

end Locks

end Ranks

/-- Without an order: a lock is read twice, and a writer comes in between. -/
example :
    let code : Bool → Locking Unit
      | true => .holding () .read (.brief () .read)
      | false => .brief () .write
    let es : List (LockEvent Bool Bool) :=
      [.start true true, .start false false, .go true false, .go true false, .go false false,
        .go true false]
    (run (Locks.step code) Locks.free es).Deadlocked {true, false} := by
  refine ⟨⟨true, .inl rfl⟩, ?_⟩
  intro t _
  cases t with
  | true => exact ⟨(), .read, ⟨⟨_, _, rfl⟩, by decide⟩, (false, .write), by decide, .inr rfl⟩
  | false => exact ⟨(), .write, ⟨⟨_, _, rfl⟩, by decide⟩, (true, .read), by decide, .inl rfl⟩

end Lib
