/-
# `Hla4.Federate.Waiters` — calls that wait for a response

A call registers its oneshot, sends its frame and waits.  Whoever waits is in
somebody's hands (`InHands`): its oneshot is in the pending map, or the pump or a
disconnect has taken it out of the map and is about to complete it.  That holds
in every interleaving.

The map is drained when the pump leaves on a read failure, and when the
ambassador is disconnected; nothing is registered on condition that it has not
been.  A call that claimed its number before the drain registers after it, its
frame goes into a channel that is still open, and nobody is left to wake it
(`registered_late`).  Where calls register before the drain only, the map is
empty once the pump has stopped, and every waiter has been woken
(`no_waiter_left`).
-/
import Hla4.Federate.Correlation

namespace Hla4

open Lib

variable {R E Req Rep : Type} {svc : Service R E Req Rep}

/-! ## Who has a oneshot -/

/-- The calls whose oneshots the pump has taken out of the map. -/
def Pump.taken : Pump → List Nat
  | completing n _ _ => [n]
  | failing waiters => waiters
  | _ => []

/-- The pump has drained the map, or has stopped. -/
def Pump.finished : Pump → Bool
  | failing _ => true
  | stopped => true
  | _ => false

namespace CallTask

/-- The calls whose oneshots a disconnect has taken out of the map. -/
def taken : CallTask Req → List Nat
  | waking waiters => waiters
  | _ => []

/-- A disconnect that has drained the map. -/
def finished : CallTask Req → Bool
  | waking _ => true
  | aborting => true
  | _ => false

/-- The next section registers a oneshot. -/
def registers : CallTask Req → Bool
  | registering _ _ _ => true
  | _ => false

/-- The call whose oneshot the task has registered. -/
def registered? : CallTask Req → Option Nat
  | sending n _ _ => some n
  | awaiting n _ => some n
  | _ => none

end CallTask

namespace Link

variable (l : Link R Req Rep)

/-- The oneshot of call `n` is in the map, or in the hands of the pump. -/
def Has (n : Nat) : Prop := n ∈ l.pending.values ∨ n ∈ l.pump.taken

/-- The pump has drained the map, or a disconnect is through. -/
def Over : Prop := l.aborted = true ∨ l.pump.finished = true

instance : Decidable l.Over := inferInstanceAs (Decidable (_ ∨ _))

/-- What becomes of the waiters from `l` to `l'`: whoever is not completed is
still there, or among those `taken` out of the map. -/
structure Attends (l l' : Link R Req Rep) (taken : List Nat) : Prop where
  waiting : ∀ n, l'.oneshots n = .waiting → l.oneshots n = .waiting
  has : ∀ n, l'.oneshots n = .waiting → l.Has n → l'.Has n ∨ n ∈ taken

variable {l} {l' : Link R Req Rep} {n : Nat} {taken : List Nat}

theorem attends_same (ho : l'.oneshots = l.oneshots) (hp : l'.pending = l.pending)
    (hpump : l'.pump = l.pump) : l.Attends l' taken := by
  refine ⟨fun n h => by rwa [ho] at h, fun n _ h => .inl ?_⟩
  rw [Has, hp, hpump]
  exact h

theorem waiting_complete {m : Nat} {body : Bytes} {answer : Option Nat}
    (h : (l.complete m body answer).oneshots n = .waiting) :
    n ≠ m ∧ l.oneshots n = .waiting := by
  change Function.update l.oneshots m _ n = _ at h
  by_cases hn : n = m
  · subst hn
    rw [Function.update_self] at h
    cases h
  · rw [Function.update_of_ne hn] at h
    exact ⟨hn, h⟩

theorem attends_complete {m : Nat} {body : Bytes} {answer : Option Nat} :
    l.Attends (l.complete m body answer) taken :=
  ⟨fun _ h => (waiting_complete h).2, fun _ _ h => .inl h⟩

theorem attends_register {seq : Int32} {m : Nat} : l.Attends (l.register seq m) taken := by
  have hdrop : ∀ k, (l.oneshots k).dropSender ≠ .waiting := by
    intro k
    cases l.oneshots k with
    | waiting | sent | dropped => exact Oneshot.noConfusion
  -- the call that was registered under the number, if there was one
  have hold : ∀ n, (l.register seq m).oneshots n = .waiting →
      l.oneshots n = .waiting ∧ l.pending.lookup seq ≠ some n := by
    intro n h
    rw [register] at h
    cases hk : l.pending.lookup seq with
    | none =>
      rw [hk] at h
      exact ⟨h, fun he => by cases he⟩
    | some k =>
      rw [hk] at h
      change Function.update l.oneshots k _ n = _ at h
      by_cases hn : n = k
      · subst hn
        rw [Function.update_self] at h
        exact absurd h (hdrop n)
      · rw [Function.update_of_ne hn] at h
        exact ⟨h, fun he => hn (Option.some.inj he).symm⟩
  refine ⟨fun n h => (hold n h).1, fun n h hhas => .inl ?_⟩
  rcases hhas with hmap | hpump
  · obtain ⟨k, hk⟩ := HashMap.mem_values.mp hmap
    have hne : k ≠ seq := by
      rintro rfl
      exact (hold n h).2 hk
    refine .inl (HashMap.mem_values.mpr ⟨k, ?_⟩)
    show (l.pending.insert seq m).lookup k = _
    rw [HashMap.lookup_insert_eq, if_neg hne]
    exact hk
  · exact .inr hpump

theorem has_register {seq : Int32} {m : Nat} : (l.register seq m).Has m :=
  .inl (HashMap.mem_values.mpr ⟨seq, AList.lookup_insert _⟩)

/-! ## The pump -/

/-- **What a section of the pump can do** to the waiters. -/
inductive Pumps (l : Link R Req Rep) : Link R Req Rep → Prop
  | other {l' : Link R Req Rep} : l'.oneshots = l.oneshots → l'.pending = l.pending →
      l'.pump.taken = l.pump.taken → (l'.Over → l.Over) → Pumps l l'
  | takes {seq : Int32} {n : Nat} {body : Bytes} {answer : Option Nat} :
      l.pump.taken = [] → l.pending.lookup seq = some n →
      Pumps l { l with pending := l.pending.erase seq, pump := .completing n body answer }
  | completes {n : Nat} {body : Bytes} {answer : Option Nat} :
      l.pump = .completing n body answer →
      Pumps l ((l.complete n body answer).setPump .receiving)
  | fails : l.pump = .receiving → Pumps l (l.drain.setPump (.failing l.pending.values))
  | wakes {n : Nat} {waiters : List Nat} : l.pump = .failing (n :: waiters) →
      Pumps l ((l.complete n [] none).setPump (.failing waiters))

theorem pumps_receiving (h : l.pump.taken = []) (ho : l'.oneshots = l.oneshots)
    (hp : l'.pending = l.pending) (ha : l'.aborted = l.aborted) : l.Pumps (l'.setPump .receiving) :=
  .other ho hp h.symm fun hover => hover.elim (fun hab => .inl (ha ▸ hab)) fun he => by cases he

theorem pumps_handleFrame {f : Frame} {answer : Option Nat}
    (h : l.pump = .handling f answer) : l.Pumps (l.handleFrame f answer) := by
  have htaken : l.pump.taken = [] := by rw [h]; rfl
  unfold handleFrame
  split
  · split
    · exact pumps_receiving htaken rfl rfl rfl
    · next p _ =>
        cases hn : l.pending.lookup p.responseToSequenceNumber with
        | none => exact pumps_receiving htaken rfl rfl rfl
        | some => exact .takes htaken hn
  · exact pumps_receiving htaken rfl rfl rfl
  · exact pumps_receiving htaken rfl rfl rfl

theorem pumps (l : Link R Req Rep) (fails : Bool) : l.Pumps (l.pumpStep fails) := by
  have idle : l.Pumps l := .other rfl rfl rfl id
  unfold pumpStep
  split
  · next hpump =>
      split
      · next habort =>
          exact .other rfl rfl (by rw [hpump]; rfl) fun _ => .inl habort
      · split
        · exact .fails hpump
        · split
          · exact idle
          · refine .other rfl rfl (by rw [hpump]; rfl) fun hover => ?_
            exact hover.elim .inl fun he => by cases he
  · next hpump => exact pumps_handleFrame hpump
  · next hpump => exact .completes hpump
  · next hpump => exact .other rfl rfl (by rw [hpump]; rfl) fun _ => .inr (by rw [hpump]; rfl)
  · next hpump => exact .wakes hpump
  · exact idle

namespace Pumps

theorem attends (h : l.Pumps l') : l.Attends l' [] := by
  cases h with
  | other ho hp htaken =>
    refine ⟨fun n h => by rwa [ho] at h, fun n _ h => .inl ?_⟩
    rw [Has, hp, htaken]
    exact h
  | @takes seq n _ _ htaken hn =>
    refine ⟨fun _ h => h, fun m _ h => .inl ?_⟩
    rcases h with hmap | hpump
    · obtain ⟨k, hk⟩ := HashMap.mem_values.mp hmap
      by_cases hks : k = seq
      · subst hks
        cases hn.symm.trans hk
        exact .inr List.mem_cons_self
      · refine .inl (HashMap.mem_values.mpr ⟨k, ?_⟩)
        rw [HashMap.lookup_erase_eq, if_neg hks]
        exact hk
    · rw [htaken] at hpump
      exact absurd hpump List.not_mem_nil
  | completes hpump =>
    refine ⟨fun m h => (waiting_complete h).2, fun m hm h => .inl ?_⟩
    rw [Has, hpump] at h
    exact h.imp_right fun he => absurd (List.mem_singleton.mp he) (waiting_complete hm).1
  | fails hpump =>
    refine ⟨fun _ h => h, fun m _ h => .inl ?_⟩
    rw [Has, hpump] at h
    exact .inr (h.resolve_right List.not_mem_nil)
  | wakes hpump =>
    refine ⟨fun m h => (waiting_complete h).2, fun m hm h => .inl ?_⟩
    rw [Has, hpump] at h
    exact h.imp_right fun he => (List.mem_cons.mp he).resolve_left (waiting_complete hm).1

theorem empty (h : l.Pumps l') (he : l.pending = ∅) : l'.pending = ∅ := by
  cases h with
  | other _ hp => exact hp.trans he
  | takes _ hn => rw [he] at hn; cases hn
  | completes => exact he
  | fails => rfl
  | wakes => exact he

theorem finished (h : l.Pumps l') (ho : l'.Over) : l.Over ∨ l'.pending = ∅ := by
  cases h with
  | other _ _ _ hover => exact .inl (hover ho)
  | takes | completes => exact .inl (ho.imp_right fun he => by cases he)
  | fails => exact .inr rfl
  | wakes hpump => exact .inl (.inr (by rw [hpump]; rfl))

end Pumps

/-- Of what happens besides, only the pump has to do with the waiters. -/
theorem pumps_act (l : Link R Req Rep) (a : LinkAct R E) : l.Pumps (l.act svc a) := by
  have other : ∀ {l' : Link R Req Rep}, l'.oneshots = l.oneshots → l'.pending = l.pending →
      l'.pump = l.pump → l'.aborted = l.aborted → l.Pumps l' := by
    intro l' ho hp hpump ha
    refine .other ho hp (by rw [hpump]) fun hover => ?_
    rwa [Over, hpump, ha] at hover
  cases a with
  | serve env =>
    rw [act]
    split
    · split
      · exact other rfl rfl rfl rfl
      · next f call rest _ =>
          rw [handleRequest]
          dsimp only
          split
          · cases svc.answer l.rti env (svc.requests.decode f.payload) with
            | none | some => exact other rfl rfl rfl rfl
          all_goals exact other rfl rfl rfl rfl
    · exact other rfl rfl rfl rfl
  | pump fails => exact l.pumps fails
  | _ => exact other rfl rfl rfl rfl

/-! ## The tasks -/

variable {p : CallTask Req} {x : CallInput Req} {r : Link R Req Rep × CallTask Req}

/-- What a section of a task can do to the waiters. -/
structure GoesOn (l : Link R Req Rep) (p : CallTask Req) (r : Link R Req Rep × CallTask Req) :
    Prop where
  attends : l.Attends r.1 r.2.taken
  taken : ∀ n ∈ p.taken, r.1.oneshots n = .waiting → n ∈ r.2.taken
  registered : ∀ n, r.2.registered? = some n → p.registered? = some n ∨ r.1.Has n
  empty : l.pending = ∅ → p.registers = false → r.1.pending = ∅
  finished : r.1.Over ∨ r.2.finished = true → l.Over ∨ p.finished = true ∨ r.1.pending = ∅

theorem goesOn_same {l' : Link R Req Rep} {p' : CallTask Req} (ho : l'.oneshots = l.oneshots)
    (hp : l'.pending = l.pending) (hpump : l'.pump = l.pump) (ha : l'.aborted = l.aborted)
    (htaken : p.taken = []) (hreg : ∀ n, p'.registered? = some n → p.registered? = some n)
    (hover : p'.finished = false) : l.GoesOn p (l', p') where
  attends := attends_same ho hp hpump
  taken n hn := by
    rw [htaken] at hn
    exact absurd hn List.not_mem_nil
  registered n hn := .inl (hreg n hn)
  empty he _ := hp.trans he
  finished h := by
    rcases h with h | h
    · rw [Over, hpump, ha] at h
      exact .inl h
    · exact absurd (hover.symm.trans h) Bool.false_ne_true

theorem Goes.goesOn (hg : l.Goes svc x p r) : l.GoesOn p r := by
  cases hg with
  | stays =>
    exact ⟨attends_same rfl rfl rfl, fun _ hn _ => hn, fun _ => .inl, fun he _ => he,
      fun h => h.imp_right .inl⟩
  | calls | disconnects | fails | dropped | returns | terminates | unsent =>
    exact goesOn_same rfl rfl rfl rfl rfl (fun _ h => by cases h) rfl
  | registers =>
    refine ⟨attends_register, fun _ hn => absurd hn List.not_mem_nil, fun n hn => ?_,
      fun _ hreg => (by cases hreg), fun h => .inl (h.resolve_right Bool.false_ne_true)⟩
    cases hn
    exact .inr has_register
  | sends => exact goesOn_same rfl rfl rfl rfl rfl (fun _ h => h) rfl
  | drains =>
    refine ⟨⟨fun _ h => h, fun n _ h => ?_⟩, fun _ hn => absurd hn List.not_mem_nil,
      fun _ h => (by cases h), fun _ _ => rfl, fun _ => .inr (.inr rfl)⟩
    exact h.elim .inr fun hpump => .inl (.inr hpump)
  | wakes =>
    refine ⟨attends_complete, fun n hn hw => ?_, fun _ h => (by cases h), fun he _ => he,
      fun _ => .inr (.inl rfl)⟩
    exact (List.mem_cons.mp hn).resolve_left (waiting_complete hw).1
  | woken | aborts =>
    exact ⟨attends_same rfl rfl rfl, fun _ hn _ => hn, fun _ h => (by cases h), fun he _ => he,
      fun _ => .inr (.inl rfl)⟩

end Link

/-! ## All together -/

section Runs

variable {I : Type} [DecidableEq I]

/-- The oneshot of call `n` is in somebody's hands. -/
def InHands (s : Link R Req Rep × (I → CallTask Req)) (n : Nat) : Prop :=
  s.1.Has n ∨ ∃ j, n ∈ (s.2 j).taken

/-- The pending map has been drained. -/
def Drained (s : Link R Req Rep × (I → CallTask Req)) : Prop :=
  s.1.Over ∨ ∃ j, (s.2 j).finished = true

/-- A oneshot is registered only before the drain. -/
def RegistersBefore (s : Link R Req Rep × (I → CallTask Req)) : CallEvent I R E Req → Prop
  | .go i _ => (s.2 i).registers = true → ¬ Drained s
  | .act _ => True

instance [Fintype I] (s : Link R Req Rep × (I → CallTask Req)) : Decidable (Drained s) :=
  inferInstanceAs (Decidable (_ ∨ _))

instance [Fintype I] (s : Link R Req Rep × (I → CallTask Req)) :
    (e : CallEvent I R E Req) → Decidable (RegistersBefore s e)
  | .go i _ => inferInstanceAs (Decidable ((s.2 i).registers = true → ¬ Drained s))
  | .act _ => .isTrue trivial

/-- Whoever waits is in somebody's hands. -/
def Attended (s : Link R Req Rep × (I → CallTask Req)) : Prop :=
  ∀ i n, (s.2 i).registered? = some n → s.1.oneshots n = .waiting → InHands s n

theorem attended_step (s : Link R Req Rep × (I → CallTask Req)) (e : CallEvent I R E Req)
    (h : Attended s) : Attended ((calling svc).step s e) := by
  cases e with
  | act a =>
    have hpumps : s.1.Pumps (s.1.act svc a) := s.1.pumps_act a
    have hp := hpumps.attends
    intro i n hn hw
    refine (h i n hn (hp.waiting n hw)).imp_left fun hhas => ?_
    exact (hp.has n hw hhas).resolve_right List.not_mem_nil
  | go i x =>
    have hgoes : s.1.Goes svc x (s.2 i) (s.1.sect svc x (s.2 i)) := s.1.goes x (s.2 i)
    have hg := hgoes.goesOn
    set r := s.1.sect svc x (s.2 i)
    have own : ((calling svc).step s (.go i x)).2 i = r.2 := Function.update_self ..
    have other : ∀ j, j ≠ i → ((calling svc).step s (.go i x)).2 j = s.2 j :=
      fun j hj => Function.update_of_ne hj ..
    -- whoever was in somebody's hands still is
    have keep : ∀ n, r.1.oneshots n = .waiting → InHands s n →
        InHands ((calling svc).step s (.go i x)) n := by
      rintro n hw (hhas | ⟨j, hj⟩)
      · exact (hg.attends.has n hw hhas).imp id fun ht => ⟨i, own ▸ ht⟩
      · by_cases hji : j = i
        · subst hji
          exact .inr ⟨j, own ▸ hg.taken n hj hw⟩
        · exact .inr ⟨j, (other j hji).symm ▸ hj⟩
    intro j n hn hw
    have hw₀ : s.1.oneshots n = .waiting := hg.attends.waiting n hw
    by_cases hji : j = i
    · subst hji
      rw [own] at hn
      rcases hg.registered n hn with hold | hhas
      · exact keep n hw (h j n hold hw₀)
      · exact .inl hhas
    · rw [other j hji] at hn
      exact keep n hw (h j n hn hw₀)

theorem drained_step {s : Link R Req Rep × (I → CallTask Req)} {e : CallEvent I R E Req}
    (h : Drained s → s.1.pending = ∅) (hok : RegistersBefore s e)
    (hd : Drained ((calling svc).step s e)) : ((calling svc).step s e).1.pending = ∅ := by
  cases e with
  | act a =>
    have hp : s.1.Pumps (s.1.act svc a) := s.1.pumps_act a
    rcases hd with hover | hj
    · rcases hp.finished hover with hover | he
      · exact hp.empty (h (.inl hover))
      · exact he
    · exact hp.empty (h (.inr hj))
  | go i x =>
    have hgoes : s.1.Goes svc x (s.2 i) (s.1.sect svc x (s.2 i)) := s.1.goes x (s.2 i)
    have hg := hgoes.goesOn
    -- what was drained before stays empty: this section registers nothing
    have keep : Drained s → (s.1.sect svc x (s.2 i)).1.pending = ∅ := by
      intro hd
      refine hg.empty (h hd) ?_
      cases hreg : (s.2 i).registers with
      | false => rfl
      | true => exact absurd hd (hok hreg)
    have own : (s.1.sect svc x (s.2 i)).1.Over ∨ (s.1.sect svc x (s.2 i)).2.finished = true →
        (s.1.sect svc x (s.2 i)).1.pending = ∅ := by
      intro ho
      rcases hg.finished ho with hover | hover | he
      · exact keep (.inl hover)
      · exact keep (.inr ⟨i, hover⟩)
      · exact he
    rcases hd with hover | ⟨j, hj⟩
    · exact own (.inl hover)
    · by_cases hji : j = i
      · subst hji
        change (Function.update s.2 j _ j).finished = true at hj
        rw [Function.update_self] at hj
        exact own (.inr hj)
      · change (Function.update s.2 i _ j).finished = true at hj
        rw [Function.update_of_ne hji] at hj
        exact keep (.inr ⟨j, hj⟩)

/-- Once the pump has stopped the pending map is empty, and every call that still
waits has been given a response or woken, or a disconnect is about to wake it. -/
def NoneLeft (s : Link R Req Rep × (I → CallTask Req)) : Prop :=
  s.1.pump = .stopped → s.1.pending = ∅ ∧
    ∀ i n request, s.2 i = .awaiting n request →
      s.1.oneshots n ≠ .waiting ∨ ∃ j, n ∈ (s.2 j).taken

/-- **No waiter is left behind**, in every interleaving in which calls register
before the pending map is drained. -/
theorem no_waiter_left (svc : Service R E Req Rep) (sessionId : UInt64) (rti : R)
    {es : List (CallEvent I R E Req)}
    (hok : StepsMeet (calling svc).step RegistersBefore (.new sessionId rti, fun _ => .idle) es) :
    Always (calling svc).step NoneLeft (.new sessionId rti, fun _ => .idle) es := by
  have hinv := hok.always (P := fun s => Attended s ∧ (Drained s → s.1.pending = ∅))
    (fun s e h hreg => ⟨attended_step s e h.1, drained_step h.2 hreg⟩) ⟨?_, fun _ => rfl⟩
  · intro done hd hstop
    obtain ⟨hatt, hdrained⟩ := hinv done hd
    have hempty := hdrained (.inl (.inr (by rw [hstop]; rfl)))
    refine ⟨hempty, fun i n request hi => or_iff_not_imp_left.mpr fun hw => ?_⟩
    rcases hatt i n (by rw [hi]; rfl) (not_not.mp hw) with (hmap | hpump) | hj
    · rw [hempty] at hmap
      exact absurd hmap List.not_mem_nil
    · rw [hstop] at hpump
      exact absurd hpump List.not_mem_nil
    · exact hj
  · exact fun _ _ hn => by cases hn

end Runs

/-- Three calls: one is answered, one is woken by the pump as it leaves, and the
frame of the last could not be sent. -/
def readFailure : List (CallEvent (Fin 3) Unit Unit Bool) :=
  List.replicate 3 (calls 0 true) ++ List.replicate 3 (calls 1 true) ++
  List.replicate 2 (calls 2 true) ++
  [.act (.serve ()), .act (.pump false), .act (.pump false), .act (.pump false),
    .go 2 ⟨none, true⟩] ++
  List.replicate 4 (.act (.pump true))

theorem no_waiter_left_readFailure :
    (echoRun readFailure).1.pump = .stopped ∧
      (∃ body answer, (echoRun readFailure).1.oneshots 0 = .sent body answer) ∧
      (echoRun readFailure).1.oneshots 1 = .sent [] none ∧
      Always (calling echo).step NoneLeft (.new 0 (), fun _ => .idle) readFailure :=
  ⟨rfl, ⟨_, _, rfl⟩, rfl, no_waiter_left echo 0 () (by decide +kernel)⟩

/-- The pump leaves between the claim of a call and its registration. -/
def registeredLate : List (CallEvent Unit Unit Unit Bool) :=
  [calls () true, .act (.pump true), .act (.pump true), calls () true, calls () true]

/-- **A waiter is left behind**: the pump has stopped, every send has completed,
and the call waits with its oneshot in the map. -/
theorem registered_late :
    (echoRun registeredLate).1.pump = .stopped ∧
      (echoRun registeredLate).2 () = .awaiting 0 true ∧
      (echoRun registeredLate).1.oneshots 0 = .waiting ∧
      (echoRun registeredLate).1.pending.lookup 1 = some 0 ∧
      ¬ NoneLeft (echoRun registeredLate) := by
  refine ⟨rfl, rfl, rfl, rfl, fun h => ?_⟩
  have hpending : (echoRun registeredLate).1.pending.lookup 1 = some 0 := rfl
  rw [(h rfl).1] at hpending
  cases hpending

end Hla4
