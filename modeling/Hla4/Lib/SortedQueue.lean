/-
# `Hla4.Lib.SortedQueue` — a stable priority queue kept as a sorted list

A queue of messages with keys in a linear order, sorted by key.  A message is
inserted AFTER every message whose key is not larger, so equal keys leave in
the order they came; `drain t` removes the messages with key at most `t`.

Both operations cut the list at the first message that fails a predicate
(`partition_point` in Rust's slices).  On a sorted queue the cut by `key ≤ t`
separates exactly: before it stand the messages with key `≤ t`, after it the
others (`upTo_eq_filter`, `after_eq_filter`).  Sortedness is a field, so no
unsorted queue can be built.
-/
import Mathlib.Data.List.TakeWhile
import Mathlib.Order.Lattice
import Mathlib.Tactic.Conv

namespace Lib

/-- Messages sorted by key. -/
structure SortedQueue {M K : Type} [LinearOrder K] (key : M → K) where
  messages : List M
  sorted : messages.Pairwise fun a b => key a ≤ key b

namespace SortedQueue

variable {M K : Type} [LinearOrder K] {key : M → K} {q : SortedQueue key} {t : K} {m : M}

/-- The empty queue. -/
def empty : SortedQueue key := ⟨[], List.Pairwise.nil⟩

/-- The messages with key at most `t`: the part before the cut. -/
def upTo (q : SortedQueue key) (t : K) : List M := q.messages.takeWhile fun m => key m ≤ t

/-- The messages with key above `t`: the part after the cut. -/
def after (q : SortedQueue key) (t : K) : List M := q.messages.dropWhile fun m => key m ≤ t

theorem upTo_append_after (q : SortedQueue key) (t : K) : q.upTo t ++ q.after t = q.messages :=
  List.takeWhile_append_dropWhile

theorem key_le_of_mem_upTo (h : m ∈ q.upTo t) :
    key m ≤ t := by
  have := List.mem_takeWhile_imp h
  simpa using this

/-- Past the cut every key is above `t`: the first one is, and the queue is
sorted. -/
theorem lt_key_of_mem_after (h : m ∈ q.after t) :
    t < key m := by
  obtain ⟨l, hs⟩ := q
  unfold after at h
  induction l with
  | nil => simp at h
  | cons a l ih =>
    rw [List.pairwise_cons] at hs
    simp only [List.dropWhile_cons, decide_eq_true_eq] at h
    split at h
    · exact ih hs.2 h
    · next ha =>
        rcases List.mem_cons.mp h with rfl | hm
        · exact not_le.mp ha
        · exact lt_of_lt_of_le (not_le.mp ha) (hs.1 m hm)

theorem upTo_eq_filter (q : SortedQueue key) (t : K) :
    q.upTo t = q.messages.filter fun m => key m ≤ t := by
  conv_rhs => rw [← q.upTo_append_after t, List.filter_append]
  have h₁ : (q.upTo t).filter (fun m => key m ≤ t) = q.upTo t :=
    List.filter_eq_self.mpr fun m hm => by simpa using key_le_of_mem_upTo hm
  have h₂ : (q.after t).filter (fun m => key m ≤ t) = [] :=
    List.filter_eq_nil_iff.mpr fun m hm => by simpa using lt_key_of_mem_after hm
  rw [h₁, h₂, List.append_nil]

theorem after_sublist (q : SortedQueue key) (t : K) : (q.after t).Sublist q.messages :=
  List.dropWhile_sublist _

/-- Remove the messages with key at most `t`. -/
def drain (q : SortedQueue key) (t : K) : SortedQueue key :=
  ⟨q.after t, q.sorted.sublist (q.after_sublist t)⟩

theorem mem_drain :
    m ∈ (q.drain t).messages ↔ m ∈ q.messages ∧ t < key m := by
  constructor
  · exact fun h => ⟨(q.after_sublist t).subset h, lt_key_of_mem_after h⟩
  · rintro ⟨hm, ht⟩
    rw [← q.upTo_append_after t, List.mem_append] at hm
    rcases hm with hm | hm
    · exact absurd (key_le_of_mem_upTo hm) (not_le.mpr ht)
    · exact hm

/-- Insert a message behind every message whose key is not larger. -/
def insert (q : SortedQueue key) (m : M) : SortedQueue key where
  messages := q.upTo (key m) ++ m :: q.after (key m)
  sorted := by
    have hs := q.sorted
    rw [← q.upTo_append_after (key m), List.pairwise_append] at hs
    rw [List.pairwise_append, List.pairwise_cons]
    refine ⟨hs.1, ⟨fun b hb => (lt_key_of_mem_after hb).le, hs.2.1⟩, ?_⟩
    intro a ha b hb
    rcases List.mem_cons.mp hb with rfl | hb
    · exact key_le_of_mem_upTo ha
    · exact hs.2.2 a ha b hb

theorem insert_perm (q : SortedQueue key) (m : M) :
    (q.insert m).messages.Perm (m :: q.messages) := by
  conv_rhs => rw [← q.upTo_append_after (key m)]
  exact List.perm_middle

theorem mem_insert {n : M} : n ∈ (q.insert m).messages ↔ n = m ∨ n ∈ q.messages := by
  rw [(q.insert_perm m).mem_iff, List.mem_cons]

theorem length_insert (q : SortedQueue key) (m : M) :
    (q.insert m).messages.length = q.messages.length + 1 := (q.insert_perm m).length_eq

theorem insert_ne_self (q : SortedQueue key) (m : M) : q.insert m ≠ q := by
  intro h
  have hlen := q.length_insert m
  rw [h] at hlen
  omega

end SortedQueue

end Lib
