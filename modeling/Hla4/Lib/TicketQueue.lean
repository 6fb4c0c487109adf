/-
# `Hla4.Lib.TicketQueue` — a queue kept sorted by binary search

A queue is a list of messages with keys.  A message is put where a binary search
finds the first larger key, and the messages up to a key are taken by cutting
the list where a binary search finds the first larger one (`QueueOp.on`).  The
searches are meaningful only while the list is sorted, and the comparison `le`
need only be an order on the keys that are `ok`: with floats, those that are no
NaN.

Whether messages with equal keys leave in the order they came cannot be said of
the list.  `Tickets` runs the same operations on messages with a TICKET each: a
ticket numbers a message when it is put, and no operation looks at it.  What was
taken and what was dropped is kept beside the queue:

    queue, drained, lost    together, every ticket once
    queue                   sorted by key, and by ticket where keys are equal

`Tickets.Kept` says this, and every operation keeps it (`Tickets.Kept.step`).
Without the tickets the queue is the queue (`Tickets.queue_step`).  Where `le` is
a linear order, the operations are those of a `SortedQueue`.
-/
import Hla4.Lib.SortedQueue
import Mathlib.Data.List.InsertIdx

namespace Lib

/-! ## Partition points -/

section PartitionPoint

variable {α β : Type} {p : α → Bool} {l : List α}

/-- The loop of a binary search: from a window of `size` places at `base` to the
one place that is left. -/
def bisect (p : α → Bool) (l : List α) (base size : Nat) : Nat :=
  if 1 < size then
    let half := size / 2
    bisect p l (if l[base + half]?.any p then base + half else base) (size - half)
  else base
termination_by size

/-- `slice::partition_point`, as the standard library searches for it. -/
def partitionPoint (p : α → Bool) (l : List α) : Nat :=
  if l.isEmpty then 0
  else
    let base := bisect p l 0 l.length
    if l[base]?.any p then base + 1 else base

/-- What satisfies `p` comes first. -/
def Partitioned (p : α → Bool) (l : List α) : Prop := l.Pairwise fun a b => p b = true → p a = true

/-- On a partitioned list, a place satisfies `p` if it is before the cut. -/
theorem any_iff_lt_cut (h : Partitioned p l) {i : Nat} :
    l[i]?.any p = true ↔ i < l.findIdx fun a => !p a := by
  rw [List.lt_findIdx_iff]
  constructor
  · intro hi
    obtain ⟨a, ha, hp⟩ := (Option.any_eq_true _ _).mp hi
    obtain ⟨hlt, rfl⟩ := List.getElem?_eq_some_iff.mp ha
    refine ⟨hlt, ?_⟩
    intro j hj
    rcases Nat.lt_or_eq_of_le hj with hj | rfl
    · have := List.pairwise_iff_getElem.mp h j i (hj.trans hlt) hlt hj hp
      simp [this]
    · simp [hp]
  · rintro ⟨hlt, hall⟩
    rw [List.getElem?_eq_getElem hlt]
    simpa using hall i le_rfl

/-- The cut stays in the window, or right behind its first place. -/
theorem bisect_spec (h : Partitioned p l) {base size : Nat} (hsize : 0 < size)
    (hbase : base = 0 ∨ base < l.findIdx fun a => !p a)
    (hcut : (l.findIdx fun a => !p a) ≤ base + size) :
    (bisect p l base size = 0 ∨ bisect p l base size < l.findIdx fun a => !p a) ∧
      (l.findIdx fun a => !p a) ≤ bisect p l base size + 1 := by
  fun_induction bisect p l base size with
  | case1 base size hlt half ih =>
    have hhalf : 0 < half ∧ half < size := by omega
    split at ih
    · next hany =>
        rw [if_pos hany]
        refine ih (by omega) (.inr ((any_iff_lt_cut h).mp hany)) ?_
        omega
    · next hany =>
        have hge := mt (any_iff_lt_cut h).mpr hany
        rw [if_neg hany]
        refine ih (by omega) hbase ?_
        omega
  | case2 base size hle => exact ⟨hbase, by omega⟩

/-- **The search finds the cut.** -/
theorem partitionPoint_eq (h : Partitioned p l) : partitionPoint p l = l.findIdx fun a => !p a := by
  rw [partitionPoint]
  split
  · next hnil =>
      rw [List.isEmpty_iff.mp hnil]
      rfl
  · next hnil =>
      have hpos : 0 < l.length := List.length_pos_iff.mpr fun he => hnil (List.isEmpty_iff.mpr he)
      have hle : (l.findIdx fun a => !p a) ≤ 0 + l.length := by
        rw [Nat.zero_add]
        exact List.findIdx_le_length
      obtain ⟨hbase, hcut⟩ := bisect_spec h hpos (.inl rfl) hle
      dsimp only
      split
      · next hany =>
          have := (any_iff_lt_cut h).mp hany
          omega
      · next hany =>
          have := mt (any_iff_lt_cut h).mpr hany
          omega

theorem bisect_map (f : β → α) (l : List β) (base size : Nat) :
    bisect p (l.map f) base size = bisect (p ∘ f) l base size := by
  fun_induction bisect (p ∘ f) l base size with
  | case1 base size hlt half ih =>
    rw [bisect, if_pos hlt]
    have hany : (l.map f)[base + half]?.any p = l[base + half]?.any (p ∘ f) := by
      rw [List.getElem?_map, Option.any_map]
      rfl
    dsimp only
    rw [hany]
    exact ih
  | case2 base size hle => rw [bisect, if_neg hle]

theorem partitionPoint_map (f : β → α) (l : List β) :
    partitionPoint p (l.map f) = partitionPoint (p ∘ f) l := by
  rw [partitionPoint, partitionPoint, bisect_map, List.length_map, List.isEmpty_map]
  dsimp only
  rw [List.getElem?_map, Option.any_map]
  rfl

/-- Before the cut stands what satisfies `p`, behind it what does not. -/
theorem Partitioned.filter_eq (h : Partitioned p l) :
    l.filter p = l.takeWhile p ∧ (l.filter fun a => !p a) = l.dropWhile p := by
  induction l with
  | nil => exact ⟨rfl, rfl⟩
  | cons a l ih =>
    obtain ⟨ha, hl⟩ := List.pairwise_cons.mp h
    obtain ⟨htake, hdrop⟩ := ih hl
    cases hp : p a with
    | true => simp [hp, htake, hdrop]
    | false =>
      have hnone : ∀ b ∈ l, p b = false := by
        intro b hb
        by_contra hne
        rw [ha b hb (by simpa using hne)] at hp
        cases hp
      simp only [List.filter_cons, List.takeWhile_cons, List.dropWhile_cons, hp]
      refine ⟨?_, ?_⟩
      · simpa using hnone
      · simpa using hnone

theorem Partitioned.take_eq (h : Partitioned p l) : l.take (partitionPoint p l) = l.filter p := by
  rw [partitionPoint_eq h, h.filter_eq.1, List.takeWhile_eq_take_findIdx_not]

theorem Partitioned.drop_eq (h : Partitioned p l) :
    l.drop (partitionPoint p l) = l.filter fun a => !p a := by
  rw [partitionPoint_eq h, h.filter_eq.2, List.dropWhile_eq_drop_findIdx_not]

theorem insertIdx_eq_take_append (x : α) {i : Nat} (h : i ≤ l.length) :
    l.insertIdx i x = l.take i ++ x :: l.drop i := by
  induction l generalizing i with
  | nil =>
    obtain rfl := Nat.le_zero.mp h
    rfl
  | cons a l ih =>
    cases i with
    | zero => rfl
    | succ =>
      rw [List.insertIdx_succ_cons, ih (Nat.le_of_succ_le_succ h)]
      rfl

/-- A message is put between the two parts. -/
theorem Partitioned.insertIdx_eq (h : Partitioned p l) (x : α) :
    l.insertIdx (partitionPoint p l) x = l.filter p ++ x :: l.filter fun a => !p a := by
  have hle : partitionPoint p l ≤ l.length := by
    rw [partitionPoint_eq h]
    exact List.findIdx_le_length
  rw [← h.take_eq, ← h.drop_eq]
  exact insertIdx_eq_take_append x hle

end PartitionPoint

/-! ## Queues -/

section Queue

variable {M K : Type}

inductive QueueOp (M K : Type)
  | put (m : M)
  | take (upTo : K)
  | drop

/-- What an operation makes of a queue, and what it takes out of it to hand it
on. -/
def QueueOp.on (key : M → K) (le : K → K → Bool) (q : List M) : QueueOp M K → List M × List M
  | put m => (q.insertIdx (partitionPoint (fun a => le (key a) (key m)) q) m, [])
  | take upTo =>
    let cut := partitionPoint (fun a => le (key a) upTo) q
    (q.drop cut, q.take cut)
  | drop => ([], [])

def QueueOp.map {N L : Type} (f : M → N) (e : K → L) : QueueOp M K → QueueOp N L
  | put m => put (f m)
  | take upTo => take (e upTo)
  | drop => drop

theorem QueueOp.on_map {N L : Type} {key : M → K} {le : K → K → Bool} {key' : N → L}
    {le' : L → L → Bool} {f : M → N} {e : K → L} (hkey : ∀ m, key' (f m) = e (key m))
    (hle : ∀ a b, le' (e a) (e b) = le a b) (op : QueueOp M K) (q : List M) :
    (op.map f e).on key' le' (q.map f) = ((op.on key le q).1.map f, (op.on key le q).2.map f) := by
  cases op with
  | put =>
    simp only [map, on, partitionPoint_map, Function.comp_def, hkey, hle, List.map_insertIdx,
      List.map_nil]
  | take =>
    simp only [map, on, partitionPoint_map, Function.comp_def, hkey, hle, List.map_drop,
      List.map_take]
  | drop => rfl

namespace SortedQueue

variable [LinearOrder K] {key : M → K}

theorem partitioned (q : SortedQueue key) (t : K) :
    Partitioned (fun m => decide (key m ≤ t)) q.messages := by
  refine q.sorted.imp ?_
  intro a b hab hb
  exact decide_eq_true (hab.trans (of_decide_eq_true hb))

theorem on_put (q : SortedQueue key) (m : M) :
    (QueueOp.put m).on key (fun a b => decide (a ≤ b)) q.messages = ((q.insert m).messages, []) := by
  rw [QueueOp.on, (q.partitioned (key m)).insertIdx_eq, (q.partitioned (key m)).filter_eq.1,
    (q.partitioned (key m)).filter_eq.2]
  rfl

theorem on_take (q : SortedQueue key) (t : K) :
    (QueueOp.take t).on key (fun a b => decide (a ≤ b)) q.messages =
      ((q.drain t).messages, q.upTo t) := by
  rw [QueueOp.on, (q.partitioned t).drop_eq, (q.partitioned t).take_eq, (q.partitioned t).filter_eq.1,
    (q.partitioned t).filter_eq.2]
  rfl

end SortedQueue

/-- `le` is a total order, up to equal keys, where both sides are `ok`. -/
structure TotalOn (ok : K → Prop) (le : K → K → Bool) : Prop where
  total : ∀ a b, ok a → ok b → le a b = true ∨ le b a = true
  trans : ∀ a b c, ok a → ok b → ok c → le a b = true → le b c = true → le a c = true

/-- A queue with tickets, and where the tickets that are not in it have gone. -/
structure Tickets (M : Type) where
  /-- everything that was put, in order; its places are the tickets -/
  issued : List M := []
  queue : List (M × Nat) := []
  drained : List (M × Nat) := []
  lost : List (M × Nat) := []

namespace Tickets

variable {key : M → K} {le : K → K → Bool} {ok : K → Prop} {g : Tickets M}

def step (key : M → K) (le : K → K → Bool) (g : Tickets M) : QueueOp M K → Tickets M
  | .put m =>
    { g with
      issued := g.issued ++ [m]
      queue := g.queue.insertIdx (partitionPoint (fun e => le (key e.1) (key m)) g.queue)
        (m, g.issued.length) }
  | .take upTo =>
    let cut := partitionPoint (fun e => le (key e.1) upTo) g.queue
    { g with
      queue := g.queue.drop cut
      drained := g.drained ++ g.queue.take cut }
  | .drop => { g with queue := [], lost := g.lost ++ g.queue }

/-- Without the tickets, a step is one of the plain queue. -/
theorem queue_step (op : QueueOp M K) :
    (g.step key le op).queue.map Prod.fst = (op.on key le (g.queue.map Prod.fst)).1 := by
  cases op with
  | put =>
    rw [step, QueueOp.on, List.map_insertIdx, partitionPoint_map]
    rfl
  | take =>
    rw [step, QueueOp.on, List.map_drop, partitionPoint_map]
    rfl
  | drop => rfl

/-- A step adds to the drained what the plain queue gives out. -/
theorem drained_step (op : QueueOp M K) :
    (g.step key le op).drained.map Prod.fst =
      g.drained.map Prod.fst ++ (op.on key le (g.queue.map Prod.fst)).2 := by
  cases op with
  | put | drop => exact (List.append_nil _).symm
  | take =>
    rw [step, QueueOp.on, List.map_append, List.map_take, partitionPoint_map]
    rfl

/-- `a` leaves before `b`: its key is smaller, or equal and it came first. -/
def Before (key : M → K) (le : K → K → Bool) (a b : M × Nat) : Prop :=
  le (key a.1) (key b.1) = true ∧ (le (key b.1) (key a.1) = true → a.2 < b.2)

structure Kept (key : M → K) (le : K → K → Bool) (ok : K → Prop) (g : Tickets M) : Prop where
  keys : ∀ e ∈ g.queue, ok (key e.1)
  sorted : g.queue.Pairwise (Before key le)
  /-- every message that was put is in one place, once -/
  account : (g.queue ++ g.drained ++ g.lost).Perm g.issued.zipIdx

theorem kept_empty : Kept key le ok ({} : Tickets M) :=
  ⟨List.forall_mem_nil _, .nil, .nil⟩

namespace Kept

theorem ticket_lt (h : Kept key le ok g) {e : M × Nat} (he : e ∈ g.queue) :
    e.2 < g.issued.length := by
  have hmem := h.account.mem_iff.mp (List.mem_append_left _ (List.mem_append_left _ he))
  exact List.snd_lt_of_mem_zipIdx hmem

theorem partitioned (hle : TotalOn ok le) (h : Kept key le ok g) {t : K} (ht : ok t) :
    Partitioned (fun e : M × Nat => le (key e.1) t) g.queue := by
  refine h.sorted.imp_of_mem ?_
  intro a b ha hb hab hbt
  exact hle.trans _ _ _ (h.keys a ha) (h.keys b hb) ht hab.1 hbt

theorem put_queue (hle : TotalOn ok le) (h : Kept key le ok g) {m : M} (hm : ok (key m)) :
    (g.step key le (.put m)).queue = g.queue.filter (fun e => le (key e.1) (key m)) ++
      (m, g.issued.length) :: g.queue.filter (fun e => !le (key e.1) (key m)) :=
  (h.partitioned hle hm).insertIdx_eq _

theorem before_new (h : Kept key le ok g) {m : M} {e : M × Nat} (he : e ∈ g.queue)
    (hem : le (key e.1) (key m) = true) : Before key le e (m, g.issued.length) :=
  ⟨hem, fun _ => h.ticket_lt he⟩

theorem new_before (hle : TotalOn ok le) (h : Kept key le ok g) {m : M} (hm : ok (key m))
    {e : M × Nat} (he : e ∈ g.queue) (hem : le (key e.1) (key m) = false) :
    Before key le (m, g.issued.length) e := by
  refine ⟨(hle.total _ _ hm (h.keys e he)).resolve_right (by simp [hem]), ?_⟩
  intro hback
  have hback : le (key e.1) (key m) = true := hback
  rw [hem] at hback
  cases hback

/-- A message up to a key leaves before one that is not. -/
theorem before_of_between (hle : TotalOn ok le) (h : Kept key le ok g) {t : K} (ht : ok t)
    {a b : M × Nat} (ha : a ∈ g.queue) (hb : b ∈ g.queue) (hat : le (key a.1) t = true)
    (hbt : le (key b.1) t = false) : Before key le a b := by
  have hoka := h.keys a ha
  have hokb := h.keys b hb
  have htb : le t (key b.1) = true := (hle.total _ _ ht hokb).resolve_right (by simp [hbt])
  refine ⟨hle.trans _ _ _ hoka ht hokb hat htb, ?_⟩
  intro hba
  rw [hle.trans _ _ _ hokb hoka ht hba hat] at hbt
  cases hbt

theorem put_sorted (hle : TotalOn ok le) (h : Kept key le ok g) {m : M} (hm : ok (key m)) :
    (g.step key le (.put m)).queue.Pairwise (Before key le) := by
  rw [h.put_queue hle hm, List.pairwise_append, List.pairwise_cons]
  refine ⟨h.sorted.filter _, ⟨?_, h.sorted.filter _⟩, ?_⟩
  · intro e he
    obtain ⟨he, hem⟩ := List.mem_filter.mp he
    exact h.new_before hle hm he (by simpa using hem)
  · intro a ha b hb
    obtain ⟨ha, ham⟩ := List.mem_filter.mp ha
    rcases List.mem_cons.mp hb with rfl | hb
    · exact h.before_new ha ham
    · obtain ⟨hb, hbm⟩ := List.mem_filter.mp hb
      exact h.before_of_between hle hm ha hb ham (by simpa using hbm)

theorem put_perm (hle : TotalOn ok le) (h : Kept key le ok g) {m : M} (hm : ok (key m)) :
    (g.step key le (.put m)).queue.Perm ((m, g.issued.length) :: g.queue) := by
  refine List.perm_insertIdx _ _ ?_
  rw [partitionPoint_eq (h.partitioned hle hm)]
  exact List.findIdx_le_length

theorem put (hle : TotalOn ok le) (h : Kept key le ok g) {m : M} (hm : ok (key m)) :
    Kept key le ok (g.step key le (.put m)) := by
  have hperm := h.put_perm hle hm
  refine ⟨?_, h.put_sorted hle hm, ?_⟩
  · intro e he
    rcases List.mem_cons.mp (hperm.mem_iff.mp he) with rfl | he
    · exact hm
    · exact h.keys e he
  · show ((g.step key le (.put m)).queue ++ g.drained ++ g.lost).Perm (g.issued ++ [m]).zipIdx
    rw [List.zipIdx_append, Nat.zero_add, List.zipIdx_singleton]
    refine (((hperm.append_right _).append_right _).trans (h.account.cons _)).trans ?_
    exact (List.perm_append_singleton _ _).symm

theorem take (h : Kept key le ok g) (t : K) : Kept key le ok (g.step key le (.take t)) := by
  refine ⟨fun e he => h.keys e (List.mem_of_mem_drop he), h.sorted.sublist (List.drop_sublist _ _), ?_⟩
  refine List.Perm.trans (.append_right _ ?_) h.account
  show (g.queue.drop _ ++ (g.drained ++ g.queue.take _)).Perm (g.queue ++ g.drained)
  rw [← List.append_assoc]
  refine List.perm_append_comm.trans ?_
  rw [← List.append_assoc, List.take_append_drop]

theorem take_eq (hle : TotalOn ok le) (h : Kept key le ok g) {t : K} (ht : ok t) :
    (g.step key le (.take t)).queue = (g.queue.filter fun e => !le (key e.1) t) ∧
      (g.step key le (.take t)).drained = g.drained ++ g.queue.filter fun e => le (key e.1) t :=
  ⟨(h.partitioned hle ht).drop_eq, congrArg _ (h.partitioned hle ht).take_eq⟩

theorem drop (h : Kept key le ok g) : Kept key le ok (g.step key le .drop) := by
  refine ⟨List.forall_mem_nil _, .nil, List.Perm.trans ?_ h.account⟩
  show (g.drained ++ (g.lost ++ g.queue)).Perm (g.queue ++ g.drained ++ g.lost)
  rw [← List.append_assoc, List.append_assoc g.queue]
  exact List.perm_append_comm

/-- **Every operation keeps the tickets in order**, if keys that are `ok` are put. -/
theorem step (hle : TotalOn ok le) (h : Kept key le ok g) {op : QueueOp M K}
    (hop : ∀ m, op = .put m → ok (key m)) : Kept key le ok (g.step key le op) := by
  cases op with
  | put m => exact h.put hle (hop m rfl)
  | take t => exact h.take t
  | drop => exact h.drop

end Kept

end Tickets

end Queue

end Lib
