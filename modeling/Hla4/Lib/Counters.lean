/-
# `Hla4.Lib.Counters` — a map of counters

A map from keys to numbers in which a key without an entry counts zero.  Three
operations, each one access to the map:

    increment k   make an entry if there is none, and add one
    decrement k   take one off, at zero nothing; without an entry nothing
    erase k       drop the entry, whatever it says

The first two keep a count (`get_increment`, `get_decrement`); the third sets it to
zero (`get_erase`).  What is counted is a list in which elements are replaced
(`countP_set_add`).
-/
import Hla4.Lib.HashMap

namespace Lib

abbrev Counters (K : Type) := HashMap K Nat

namespace Counters

variable {K : Type} [DecidableEq K] (m : Counters K)

def get (k : K) : Nat := (m.lookup k).getD 0

def increment (k : K) : Counters K := AList.insert k (m.get k + 1) m

def decrement (k : K) : Counters K := HashMap.modify m k (· - 1)

variable {m}

theorem get_insert (k k' : K) (n : Nat) :
    get (AList.insert k n m) k' = if k' = k then n else m.get k' := by
  rw [get, HashMap.lookup_insert_eq]
  split <;> rfl

theorem get_increment (k k' : K) :
    (m.increment k).get k' = if k' = k then m.get k + 1 else m.get k' :=
  get_insert k k' _

theorem get_decrement (k k' : K) :
    (m.decrement k).get k' = if k' = k then m.get k - 1 else m.get k' := by
  rw [get, decrement, HashMap.lookup_modify]
  split
  · rw [get]
    cases m.lookup k <;> rfl
  · rfl

theorem get_erase (k k' : K) : get (m.erase k) k' = if k' = k then 0 else m.get k' := by
  rw [get, HashMap.lookup_erase_eq]
  split <;> rfl

end Counters

theorem countP_set_add {α : Type} {p : α → Bool} {l : List α} {i : Nat} {a b : α}
    (h : l[i]? = some a) : (l.set i b).countP p + (p a).toNat = l.countP p + (p b).toNat := by
  induction l generalizing i with
  | nil => simp at h
  | cons x l ih =>
    cases i with
    | zero =>
      cases h
      simp only [List.set_cons_zero, List.countP_cons]
      cases p a <;> cases p b <;> simp
    | succ i =>
      have := ih (i := i) (by simpa using h)
      simp only [List.set_cons_succ, List.countP_cons]
      omega

end Lib
