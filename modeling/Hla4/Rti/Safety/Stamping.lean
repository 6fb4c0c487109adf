/-
# `Hla4.Rti.Safety.Stamping` — the numbers on the wire

The frames of a connection that carry a number get it from the connection's
counter, and are pushed in a later section.  Any number of tasks do so: the
session loops of all federates, for their callbacks, and the heartbeat.

    claimed        0  1  2  3 ..        by whoever comes first
    on the wire    0  1  2  3 ..        only if each is pushed before the next
                                        is claimed

So the numbers leave in order as long as tasks do not claim from a counter
while another has a number of it to push, and no number is lost between the two
sections: a heartbeat aborted there leaves a gap (`numbers_in_sequence`).
Otherwise they may leave in any order (`numbers_out_of_order`).
-/
import Hla4.Rti.Loops

namespace Hla4

open Lib

/-- Each number is one more than the one before it; after the last comes 0. -/
def InSequence (l : List Int32) : Prop := l.IsChain fun a b => b.toInt = (a.toInt + 1) % 2 ^ 31

instance (l : List Int32) : Decidable (InSequence l) :=
  inferInstanceAs (Decidable (l.IsChain fun a b => b.toInt = (a.toInt + 1) % 2 ^ 31))

theorem inSequence_range (k : Nat) : InSequence ((List.range k).map seqAt) := by
  rw [InSequence, List.isChain_map]
  refine (List.isChain_range _ k).mpr ?_
  intro m _
  rw [toInt_seqAt, toInt_seqAt]
  omega

/-! ## One channel -/

namespace Channel

variable {c : Channel} {f : OutFrame}

theorem numbers_push_unnumbered (h : f.sequenceNumber = noSequenceNumber) :
    (c.push f).numbers = c.numbers := by
  rw [push]
  split
  · simp [numbers, h]
  · rfl

theorem numbers_push (ho : c.isOpen = true) (h : f.sequenceNumber ≠ noSequenceNumber) :
    (c.push f).numbers = c.numbers ++ [f.sequenceNumber] := by
  rw [push, if_pos ho]
  simp [numbers, h]

theorem claim_seqAt {k : Nat} (h : c.nextOutboundSeq = seqAt k) :
    c.nextNumber = seqAt k ∧ c.claim.nextOutboundSeq = seqAt (k + 1) := by
  rw [nextNumber, claim, h, claimNextOutboundSeq_seqAt]
  exact ⟨rfl, rfl⟩

end Channel

section Stamped

variable {I : Type}

/-- Channel `ch`, in view of the numbers the tasks have claimed: the numbers on
the wire are the first `k`, and the next one is unclaimed, or in the hands of one
task. -/
inductive Stamped (ch : Nat) (c : Channel) (held : I → Option (Nat × Int32)) : Prop
  | free (k : Nat) (hwire : c.numbers = (List.range k).map seqAt)
      (hnext : c.nextOutboundSeq = seqAt k) (hnone : ∀ i number, held i ≠ some (ch, number))
  | held (k : Nat) (hwire : c.numbers = (List.range k).map seqAt)
      (hnext : c.nextOutboundSeq = seqAt (k + 1)) (i : I) (hi : held i = some (ch, seqAt k))
      (hothers : ∀ j, j ≠ i → ∀ number, held j ≠ some (ch, number))
  | gone (k : Nat) (hwire : c.numbers = (List.range k).map seqAt) (hshut : c.isOpen = false)

namespace Stamped

variable {ch : Nat} {c c' : Channel} {held held' : I → Option (Nat × Int32)}

theorem inSequence (h : Stamped ch c held) : InSequence c.numbers := by
  cases h with
  | free k hwire | held k hwire | gone k hwire => exact hwire ▸ inSequence_range k

theorem shut (h : Stamped ch c held) (hn : c'.numbers = c.numbers) (hs : c'.isOpen = false) :
    Stamped ch c' held' := by
  cases h with
  | free k hwire | held k hwire | gone k hwire => exact .gone k (hn.trans hwire) hs

theorem frame (h : Stamped ch c held) (hn : c'.numbers = c.numbers)
    (hseq : c'.nextOutboundSeq = c.nextOutboundSeq) (ho : c'.isOpen = c.isOpen)
    (hheld : ∀ i number, held' i = some (ch, number) ↔ held i = some (ch, number)) :
    Stamped ch c' held' := by
  cases h with
  | free k hwire hnext hnone =>
    exact .free k (hn.trans hwire) (hseq.trans hnext) fun i number hi =>
      hnone i number ((hheld i number).mp hi)
  | held k hwire hnext i hi hothers =>
    exact .held k (hn.trans hwire) (hseq.trans hnext) i ((hheld i _).mpr hi)
      fun j hj number hn => hothers j hj number ((hheld j number).mp hn)
  | gone k hwire hshut => exact .gone k (hn.trans hwire) (ho.trans hshut)

variable [DecidableEq I]

theorem claim (h : Stamped ch c held) {i : I} (hnone : ∀ j number, held j ≠ some (ch, number)) :
    Stamped ch c.claim (Function.update held i (some (ch, c.nextNumber))) := by
  cases h with
  | free k hwire hnext =>
    obtain ⟨hnumber, hclaim⟩ := Channel.claim_seqAt hnext
    refine .held k hwire hclaim i ?_ ?_
    · rw [Function.update_self, hnumber]
    · intro j hj number
      rw [Function.update_of_ne hj]
      exact hnone j number
  | held k _ _ j hj => exact absurd hj (hnone j _)
  | gone k hwire hshut => exact .gone k hwire hshut

theorem push (h : Stamped ch c held) {i : I} {f : OutFrame}
    (hi : held i = some (ch, f.sequenceNumber)) :
    Stamped ch (c.push f) (Function.update held i none) := by
  cases ho : c.isOpen with
  | false =>
    rw [Channel.push_of_closed ho]
    exact h.shut rfl ho
  | true =>
    cases h with
    | free k _ _ hnone => exact absurd hi (hnone i _)
    | held k hwire hnext j hj hothers =>
      -- it is the one in flight
      obtain rfl : i = j := by
        by_contra hne
        exact hothers i hne _ hi
      have hseq : f.sequenceNumber = seqAt k :=
        congrArg Prod.snd (Option.some.inj (hi.symm.trans hj))
      refine .free (k + 1) ?_ (Channel.nextOutboundSeq_push.trans hnext) ?_
      · rw [Channel.numbers_push ho (hseq ▸ seqAt_ne_none k), hwire, hseq, List.range_succ,
          List.map_append]
        rfl
      · intro j number
        by_cases hj : j = i
        · rw [hj, Function.update_self]
          exact (Option.some_ne_none _).symm
        · rw [Function.update_of_ne hj]
          exact hothers j hj number
    | gone k _ hshut => exact absurd (ho.symm.trans hshut) (Ne.symm Bool.false_ne_true)

theorem held_update {i : I} {h₀ : Option (Nat × Int32)} (hold : ∀ number, held i ≠ some (ch, number))
    (hnew : ∀ number, h₀ ≠ some (ch, number)) (j : I) (number : Int32) :
    Function.update held i h₀ j = some (ch, number) ↔ held j = some (ch, number) := by
  by_cases hj : j = i
  · rw [hj, Function.update_self]
    exact iff_of_false (hnew number) (hold number)
  · rw [Function.update_of_ne hj]

end Stamped

end Stamped

/-! ## All channels -/

/-- The task is a heartbeat that is aborted with a number in its hands. -/
def LoopTask.aborts : LoopTask → LoopInput → Bool
  | beating .., .stop => true
  | _, _ => false

section Runs

variable {I : Type} {s : Hub × (I → Loop × LoopTask)}

/-- What each task has claimed. -/
def claimed (tasks : I → Loop × LoopTask) (i : I) : Option (Nat × Int32) := (tasks i).2.holding

/-- A number is claimed only while no other task has one of the same channel to
push, and a heartbeat that has one is not aborted. -/
def ClaimsInTurn (s : Hub × (I → Loop × LoopTask)) : SectionEvent I LoopInput HubAct → Prop
  | .go i x =>
    (∀ ch ∈ s.1.claims? (s.2 i) x, ∀ j, j ≠ i → ∀ old ∈ claimed s.2 j, old.1 ≠ ch) ∧
      (s.2 i).2.aborts x = false
  | .act _ => True

/-- The invariant. -/
def AllStamped (s : Hub × (I → Loop × LoopTask)) : Prop :=
  ∀ ch, Stamped ch (s.1.channels ch) (claimed s.2)

theorem allStamped_start (loops : I → Loop) : AllStamped (Hub.start loops) :=
  fun _ => .free 0 rfl rfl fun _ _ h => by cases h

/-- An operation on one channel, by a task that has no number of another in its
hands. -/
theorem AllStamped.on (h : AllStamped s) {ch' : Nat} {f : Channel → Channel}
    {held : I → Option (Nat × Int32)} (hself : Stamped ch' (f (s.1.channels ch')) held)
    (hother : ∀ ch, ch ≠ ch' → ∀ j number,
      held j = some (ch, number) ↔ claimed s.2 j = some (ch, number)) (ch : Nat) :
    Stamped ch ((s.1.on ch' f).channels ch) held := by
  by_cases hch : ch = ch'
  · rw [hch, Hub.on_self]
    exact hself
  · rw [Hub.on_of_ne hch]
    exact (h ch).frame rfl rfl rfl (hother ch hch)

theorem allStamped_act (h : AllStamped s) (a : HubAct) : AllStamped (s.1.act a, s.2) := by
  intro ch
  cases a with
  | node =>
    rw [Hub.act]
    split
    · exact h ch
    · exact h ch
  | writerGone ch' => exact h.on ((h ch').shut rfl rfl) (fun _ _ _ _ => Iff.rfl) ch

variable [DecidableEq I]

instance [Fintype I] (s : Hub × (I → Loop × LoopTask)) :
    (e : SectionEvent I LoopInput HubAct) → Decidable (ClaimsInTurn s e)
  | .go i x => inferInstanceAs (Decidable ((∀ ch ∈ s.1.claims? (s.2 i) x,
      ∀ j, j ≠ i → ∀ old ∈ claimed s.2 j, old.1 ≠ ch) ∧ (s.2 i).2.aborts x = false))
  | .act _ => .isTrue trivial

theorem claimed_update (i : I) (p : Loop × LoopTask) :
    claimed (Function.update s.2 i p) = Function.update (claimed s.2) i p.2.holding :=
  Function.comp_update (fun p : Loop × LoopTask => p.2.holding) s.2 i p

theorem stamped_sect (h : AllStamped s) {i : I} {x : LoopInput} {hub' : Hub} {task' : LoopTask}
    (heff : LoopEffect s.1 x (s.2 i) hub' task')
    (hturn : ∀ ch ∈ s.1.claims? (s.2 i) x, ∀ j, j ≠ i → ∀ old ∈ claimed s.2 j, old.1 ≠ ch)
    (habort : (s.2 i).2.aborts x = false) (ch : Nat) :
    Stamped ch (hub'.channels ch) (Function.update (claimed s.2) i task'.holding) := by
  -- a task with free hands before and after
  have idle : (s.2 i).2.holding = none → task'.holding = none → ∀ ch j number,
      Function.update (claimed s.2) i task'.holding j = some (ch, number) ↔
        claimed s.2 j = some (ch, number) := by
    intro hfree hfree' ch
    refine Stamped.held_update ?_ ?_
    · intro number hn
      cases hfree.symm.trans hn
    · intro number hn
      cases hfree'.symm.trans hn
  cases heff with
  | stays =>
    have hsame : Function.update (claimed s.2) i (s.2 i).2.holding = claimed s.2 :=
      Function.update_eq_self i _
    rw [hsame]
    exact h ch
  | rests hfree hfree' => exact (h ch).frame rfl rfl rfl (idle hfree hfree' ch)
  | calls _ htask | drops htask | closes htask =>
    exact (h ch).frame rfl rfl rfl (idle (htask ▸ rfl) rfl ch)
  | @answers _ t frame hfree hfree' _ hnumber _ =>
    refine h.on ?_ (fun ch' _ => idle hfree hfree' ch') ch
    exact (h t).frame (Channel.numbers_push_unnumbered hnumber) Channel.nextOutboundSeq_push
      Channel.isOpen_push (idle hfree hfree' t)
  | @claims _ ch' hclaims hfree hnumber _ =>
    refine h.on ?_ (fun ch'' hch => Stamped.held_update ?_ ?_) ch
    · rw [hnumber]
      refine (h ch').claim ?_
      intro j number hj
      by_cases hji : j = i
      · subst hji
        cases hfree.symm.trans hj
      · exact hturn ch' hclaims j hji _ hj rfl
    · intro number hn
      cases hfree.symm.trans hn
    · intro number hn
      cases hnumber.symm.trans hn
      exact hch rfl
  | @pushes _ ch' frame hnumber hfree _ _ =>
    refine h.on ?_ (fun ch'' hch => Stamped.held_update ?_ ?_) ch
    · rw [hfree]
      exact (h ch').push hnumber
    · intro number hn
      cases hnumber.symm.trans hn
      exact hch rfl
    · intro number hn
      cases hfree.symm.trans hn
  | aborts htask hx =>
    rw [htask, hx] at habort
    cases habort

theorem allStamped_step (h : AllStamped s) {e : SectionEvent I LoopInput HubAct}
    (hturn : ClaimsInTurn s e) : AllStamped (looping.step s e) := by
  cases e with
  | go i x =>
    intro ch
    have hs := stamped_sect h (s.1.sect_effect (s.2 i) x) hturn.1 hturn.2 ch
    rw [← claimed_update i (s.1.sect (s.2 i) x).2] at hs
    exact hs
  | act a => exact allStamped_act h a

/-- **Numbers on the wire.**  In every interleaving of session loops and
heartbeats, in any number and of any connections, in which a task claims a number
only while no other task has claimed one of the same connection and not yet
pushed it, and no heartbeat is aborted between the two: on every connection each
numbered frame has the number after that of the numbered frame before it. -/
theorem numbers_in_sequence (loops : I → Loop) {es : List (SectionEvent I LoopInput HubAct)}
    (hturn : StepsMeet looping.step ClaimsInTurn (Hub.start loops) es) :
    Always looping.step (fun s => ∀ ch, InSequence (s.1.channels ch).numbers) (Hub.start loops)
      es := by
  have hall := hturn.always (P := AllStamped) (fun _ _ h hok => allStamped_step h hok)
    (allStamped_start loops)
  exact fun done hd ch => (hall done hd ch).inSequence

end Runs

/-- The session loop and the heartbeat of the first connection. -/
def ownLoops : Two → Loop
  | .one => .session ⟨1, 0⟩
  | .two => .heartbeat ⟨1, 0⟩

/-- The session asks for the list of federations, has responded, and has claimed
the number of the report. -/
def reportClaimed : List (SectionEvent Two LoopInput HubAct) :=
  [.act (.node (.accept (.newSession federateProtocolVersion) true)),
    .go .one (.frame (.callRequest 1 .plain (.federation .listFederationExecutions))),
    .go .one .tick, .go .one .tick]

/-- The report is pushed before the heartbeat claims. -/
theorem numbers_in_sequence_report :
    let es := reportClaimed ++ [.go .one .tick, .go .two .tick, .go .two .tick]
    ((run looping.step (Hub.start ownLoops) es).1.channels 0).numbers = [0, 1] ∧
      Always looping.step (fun s => ∀ ch, InSequence (s.1.channels ch).numbers)
        (Hub.start ownLoops) es :=
  ⟨by decide +kernel, numbers_in_sequence ownLoops (by decide +kernel)⟩

/-- The heartbeat claims the next number, and pushes first. -/
theorem numbers_out_of_order :
    ((run looping.step (Hub.start ownLoops) (reportClaimed ++
      [.go .two .tick, .go .two .tick, .go .one .tick])).1.channels 0).numbers = [1, 0] ∧
    ¬ InSequence [1, 0] :=
  ⟨by decide +kernel, by decide⟩

end Hla4
