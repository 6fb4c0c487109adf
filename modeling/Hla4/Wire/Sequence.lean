/-
# `Hla4.Wire.Sequence` — claiming sequence numbers side by side

`claim_next_outbound_seq` takes its counter by reference: the tasks of a
connection share one `AtomicI32`, and each of them runs the loop of load and
weak exchange with relaxed ordering.  `claimNextOutboundSeq` is what one turn
of the loop computes, and what the loop comes to when nobody interferes
(`claimLoop_alone`).

Side by side, the numbers claimed are a cyclic counter (`claims_cyclic`):

    v, v + 1, …, 2 ^ 31 - 1, 0, 1, …
-/
import Hla4.Lib.Atomic
import Hla4.Wire.Framing

namespace Hla4

open Lib

/-- The loop of `claim_next_outbound_seq`. -/
def claimLoop : Sections (Cell Int32) (Attempt Int32 Int32) Access Empty :=
  retry claimNextOutboundSeq

/-- An undisturbed claim is the claim that the model of a single task makes. -/
theorem claimLoop_alone (counter : Cell Int32) :
    claimLoop.Leads .strong (counter, .idle)
      (⟨(claimNextOutboundSeq counter.value).2, counter.value :: counter.earlier⟩,
        .returned (claimNextOutboundSeq counter.value).1) :=
  retry_leads claimNextOutboundSeq counter

/-! ## Numbers in turn -/

theorem eq_seqAt {v : Int32} (h : 0 ≤ v.toInt) : v = seqAt v.toInt.toNat := by
  have hlt : v.toInt < 2 ^ 31 := v.toInt_lt
  rw [← Int32.toInt_inj, toInt_seqAt]
  omega

theorem counter_seqAt (m k : Nat) :
    (fun v => (claimNextOutboundSeq v).2)^[k] (seqAt m) = seqAt (m + k) := by
  induction k with
  | zero => rfl
  | succ k ih =>
    rw [Function.iterate_succ_apply', ih, claimNextOutboundSeq_seqAt]
    rfl

theorem resultsInTurn_seqAt (m n : Nat) :
    resultsInTurn claimNextOutboundSeq (seqAt m) n = (List.range n).map fun k => seqAt (m + k) := by
  refine List.map_congr_left fun k _ => ?_
  rw [counter_seqAt, claimNextOutboundSeq_seqAt]

theorem seqAt_inj {a b : Nat} (h : seqAt a = seqAt b) : a % 2 ^ 31 = b % 2 ^ 31 := by
  have := congrArg Int32.toInt h
  rw [toInt_seqAt, toInt_seqAt] at this
  exact Int.ofNat_inj.mp this

/-- `v`, `v + 1` and so on, modulo `2 ^ 31`. -/
structure CyclicFrom (v : Int32) (numbers : List Int32) : Prop where
  inTurn : numbers.map Int32.toInt =
    (List.range numbers.length).map fun k : Nat => (v.toInt + k) % 2 ^ 31
  valid : ∀ n ∈ numbers, 0 ≤ n.toInt ∧ n ≠ noSequenceNumber
  distinct : ∀ i, ((numbers.drop i).take (2 ^ 31)).Nodup

theorem cyclicFrom_seqAt (m n : Nat) :
    CyclicFrom (seqAt m) ((List.range n).map fun k => seqAt (m + k)) where
  inTurn := by
    rw [List.map_map, List.length_map, List.length_range]
    refine List.map_congr_left fun k _ => ?_
    rw [Function.comp_apply, toInt_seqAt, toInt_seqAt]
    omega
  valid := by
    intro v hv
    obtain ⟨k, -, rfl⟩ := List.mem_map.mp hv
    refine ⟨?_, seqAt_ne_none _⟩
    rw [toInt_seqAt]
    exact Int.natCast_nonneg _
  distinct := by
    intro i
    refine List.pairwise_iff_getElem.mpr fun a b ha hb hab heq => ?_
    rw [List.length_take] at hb
    simp only [List.getElem_take, List.getElem_drop, List.getElem_map, List.getElem_range] at heq
    -- two places of the window are less than a round apart
    have hmod := seqAt_inj heq
    omega

/-! ## Tasks side by side -/

section Tasks

variable {I : Type} [DecidableEq I]

/-- The numbers claimed in a run, in the order of the exchanges that succeed. -/
def claimedNumbers (s : Cell Int32 × (I → Attempt Int32 Int32)) (es : List (SectionEvent I Access Empty)) :
    List Int32 :=
  (run (logged claimLoop.step claimLoop.logResult) (s, []) es).2

/-- **Claims are a cyclic counter**, for any number of tasks, from wherever they
stand, and for every interleaving of their loads and exchanges. -/
theorem claims_cyclic (s : Cell Int32 × (I → Attempt Int32 Int32)) (hv : 0 ≤ s.1.value.toInt)
    (es : List (SectionEvent I Access Empty)) : CyclicFrom s.1.value (claimedNumbers s es) := by
  have hturn : claimedNumbers s es =
      resultsInTurn claimNextOutboundSeq s.1.value (claimedNumbers s es).length :=
    (retry_log claimNextOutboundSeq s es).results
  rw [eq_seqAt hv, resultsInTurn_seqAt] at hturn
  have hcyclic := cyclicFrom_seqAt s.1.value.toInt.toNat (claimedNumbers s es).length
  rw [← eq_seqAt hv, ← hturn] at hcyclic
  exact hcyclic

/-- Two tasks read the last number; the second claims it, the first fails, fails
again for no reason, and claims 0. -/
def lastNumberRace : List (SectionEvent Two Access Empty) :=
  [.go .one .strong, .go .two .strong, .go .two .strong, .go .one .strong, .go .one ⟨1, true⟩,
    .go .one ⟨0, true⟩, .go .one .strong]

theorem claims_cyclic_lastNumberRace :
    let s : Cell Int32 × (Two → Attempt Int32 Int32) := (⟨maxSequenceNumber, []⟩, fun _ => .idle)
    claimedNumbers s lastNumberRace = [maxSequenceNumber, 0] ∧
      CyclicFrom maxSequenceNumber (claimedNumbers s lastNumberRace) :=
  ⟨by decide +kernel, claims_cyclic (⟨maxSequenceNumber, []⟩, fun _ => .idle) (by decide) lastNumberRace⟩

end Tasks

end Hla4
