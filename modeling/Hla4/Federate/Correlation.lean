/-
# `Hla4.Federate.Correlation` — whose response a call returns

There are 2 ^ 31 sequence numbers.  A call that is woken by a disconnect returns
while its response is on its way; when the numbers have gone round by the time
the pump comes to it, the response completes another call
(`answered_for_another`).  Where fewer than 2 ^ 31 numbers are claimed while a
call is outstanding or its request or response on its way, every response goes
to its own call (`calls_correlated`).

The invariant says whose a number is.  A call *holds* its number from the moment
it is registered until its response has been handled: the number has not come
round again, and nobody else is registered under it (`Link.Holds`).  Requests and
responses on their way carry the number of the call they are of (`Sends`,
`Brings`), so the pump finds that call or none; what a oneshot is given is the
answer to its own call (`Gives`).
-/
import Hla4.Federate.Calls

namespace Hla4

open Lib

variable {R E Req Rep : Type} (svc : Service R E Req Rep)

/-! ## Whose number it is -/

/-- The frame the pump has received. -/
def Pump.inHand : Pump → List (Frame × Option Nat)
  | handling f answer => [(f, answer)]
  | _ => []

/-- The oneshot the pump has taken out of the map, and what it is to be given. -/
def Pump.completes : Pump → Option (Nat × Bytes × Option Nat)
  | completing n body answer => some (n, body, answer)
  | _ => none

/-- Who claimed which number, who is registered under it, and what has been
answered. -/
structure Numbers (Req Rep : Type) where
  sessionId : UInt64
  claimed : List (Option Req)
  answers : List (Answer Req Rep)
  pending : HashMap Int32 Nat

def Link.numbers (l : Link R Req Rep) : Numbers Req Rep :=
  ⟨l.sessionId, l.claimed, l.answers, l.pending⟩

namespace Numbers

variable (N : Numbers Req Rep)

/-- The call that the `k`-th answer is for. -/
def callOf (k : Nat) : Option Nat := N.answers[k]?.bind Answer.call

/-- The `n`-th number was claimed for a call of `request`. -/
def Asked (n : Nat) (request : Req) : Prop := N.claimed[n]? = some (some request)

/-- The `k`-th answer is the one to call `n`, and is written as `body`. -/
def Answered (k n : Nat) (body : Bytes) : Prop :=
  ∃ request response, N.Asked n request ∧
    N.answers[k]? = some ⟨some n, .ok (some request), response⟩ ∧
    body = svc.responses.encode response

/-- The number of call `n` has not come round again, and no other call is
registered under it. -/
structure Holds (n : Nat) : Prop where
  claimed : n < N.claimed.length
  recent : N.claimed.length ≤ n + 2 ^ 31
  own : ∀ m, N.pending.lookup (seqOf n) = some m → m = n

/-- A frame to the RTI. -/
inductive Sends : Frame × Option Nat → Prop
  | request {n : Nat} {request : Req} : N.Asked n request → N.Holds n →
      Sends (svc.requestFrame N.sessionId (seqOf n) request, some n)
  | other {f : Frame} : f.header.messageType ≠ .hlaCallRequest → Sends (f, none)

/-- A frame to the ambassador. -/
inductive Brings : Frame × Option Nat → Prop
  | response {f : Frame} {k n : Nat} {body : Bytes} : N.Answered svc k n body → N.Holds n →
      f.header.messageType = .hlaCallResponse →
      HlaCallResponsePayload.decode f.payload = .ok ⟨seqOf n, body⟩ → Brings (f, some k)
  | other {f : Frame} : f.header.messageType ≠ .hlaCallResponse → Brings (f, none)

/-- What the oneshot of call `n` may hold. -/
inductive Gives (n : Nat) : Oneshot → Prop
  | waiting : Gives n .waiting
  | dropped : Gives n .dropped
  | closed : Gives n (.sent [] none)
  | response {k : Nat} {body : Bytes} : N.Answered svc k n body → Gives n (.sent body (some k))

/-- A returned response is the answer to the call's own request. -/
structure Right (r : Return Req Rep) : Prop where
  own : ∀ response, r.result = .ok response → ∃ k, r.answer = some k ∧
    N.answers[k]? = some ⟨some r.call, .ok (some r.request), response⟩
  call : ∀ k, r.answer = some k → N.callOf k = some r.call
  past : r.call < N.claimed.length

end Numbers

namespace Link

variable (l : Link R Req Rep)

def incoming : List (Frame × Option Nat) := l.toClient ++ l.pump.inHand

/-- The calls whose request or response is on its way. -/
def underway : List Nat :=
  l.toServer.filterMap Prod.snd ++ l.incoming.filterMap fun e => e.2.bind l.numbers.callOf

/-- What is on its way, has been given and was returned, by the numbers `N`. -/
structure Judged (N : Numbers Req Rep) : Prop where
  requests : ∀ e ∈ l.toServer, N.Sends svc e
  responses : ∀ e ∈ l.incoming, N.Brings svc e
  completing : ∀ n body answer, l.pump.completes = some (n, body, answer) →
    ∃ k, answer = some k ∧ N.Answered svc k n body
  oneshots : ∀ n, N.Gives svc n (l.oneshots n)
  returned : ∀ r ∈ l.returned, N.Right r

/-- The assertion on the shared state. -/
structure Sound : Prop extends Judged svc l l.numbers where
  counter : l.counter = seqOf l.claimed.length
  once : (l.returned.map Return.call).Nodup

/-- What no section takes back. -/
structure Keeps (N : Numbers Req Rep) : Prop where
  session : N.sessionId = l.sessionId
  claimed : l.claimed <+: N.claimed
  answers : l.answers <+: N.answers
  holds : ∀ n ∈ l.underway, l.numbers.Holds n → N.Holds n

end Link

section Steps

variable {svc} {l l' : Link R Req Rep} {N N' : Numbers Req Rep} {n k : Nat} {body : Bytes}
  {e : Frame × Option Nat} {env : E} {request : Req} {f : Frame} {call : Option Nat}
  {rest : List (Frame × Option Nat)}

namespace Numbers

theorem Holds.mono (h : N.Holds n) (hclaimed : N'.claimed.length = N.claimed.length)
    (hpending : ∀ seq m, N'.pending.lookup seq = some m → N.pending.lookup seq = some m) :
    N'.Holds n where
  claimed := hclaimed ▸ h.claimed
  recent := hclaimed ▸ h.recent
  own m hm := h.own m (hpending _ m hm)

theorem Asked.lt (h : N.Asked n request) : n < N.claimed.length :=
  (List.getElem?_eq_some_iff.mp h).1

theorem Asked.mono (h : N.Asked n request) (hc : N.claimed <+: N'.claimed) :
    N'.Asked n request := by
  obtain ⟨more, hm⟩ := hc
  rw [Asked, ← hm]
  exact List.getElem?_append_left h.lt ▸ h

theorem answer_mono {a : Answer Req Rep} (ha : N.answers <+: N'.answers)
    (h : N.answers[k]? = some a) : N'.answers[k]? = some a := by
  obtain ⟨more, hm⟩ := ha
  rw [← hm]
  exact List.getElem?_append_left (List.getElem?_eq_some_iff.mp h).1 ▸ h

theorem Answered.callOf (h : N.Answered svc k n body) : N.callOf k = some n := by
  obtain ⟨request, response, -, hanswer, -⟩ := h
  rw [Numbers.callOf, hanswer]
  rfl

end Numbers

namespace Link

open Numbers

theorem Keeps.answered (hk : l.Keeps N) (h : l.numbers.Answered svc k n body) :
    N.Answered svc k n body := by
  obtain ⟨request, response, hasked, hanswer, hbody⟩ := h
  exact ⟨request, response, hasked.mono hk.claimed, answer_mono hk.answers hanswer, hbody⟩

theorem Keeps.sends (hk : l.Keeps N) (he : e ∈ l.toServer) (h : l.numbers.Sends svc e) :
    N.Sends svc e := by
  cases h with
  | @request n request hasked hholds =>
    have hn : n ∈ l.underway :=
      List.mem_append_left _ (List.mem_filterMap.mpr ⟨_, he, rfl⟩)
    rw [show l.numbers.sessionId = N.sessionId from hk.session.symm]
    exact .request (hasked.mono hk.claimed) (hk.holds n hn hholds)
  | other htype => exact .other htype

theorem Keeps.brings (hk : l.Keeps N) (he : e ∈ l.incoming) (h : l.numbers.Brings svc e) :
    N.Brings svc e := by
  cases h with
  | @response f k n body hanswered hholds htype hread =>
    have hn : n ∈ l.underway :=
      List.mem_append_right _ (List.mem_filterMap.mpr ⟨_, he, hanswered.callOf⟩)
    exact .response (hk.answered hanswered) (hk.holds n hn hholds) htype hread
  | other htype => exact .other htype

theorem Keeps.gives (hk : l.Keeps N) {o : Oneshot} (h : l.numbers.Gives svc n o) :
    N.Gives svc n o := by
  cases h with
  | waiting => exact .waiting
  | dropped => exact .dropped
  | closed => exact .closed
  | response hanswered => exact .response (hk.answered hanswered)

theorem Keeps.right (hk : l.Keeps N) {r : Return Req Rep} (h : l.numbers.Right r) :
    N.Right r where
  own response hr := by
    obtain ⟨k, hanswer, hk'⟩ := h.own response hr
    exact ⟨k, hanswer, answer_mono hk.answers hk'⟩
  call k hanswer := by
    obtain ⟨a, ha, hcall⟩ := Option.bind_eq_some_iff.mp (h.call k hanswer)
    rw [callOf, answer_mono hk.answers ha]
    exact hcall
  past := h.past.trans_le hk.claimed.length_le

theorem Sound.judged (h : l.Sound svc) (hk : l.Keeps N) : l.Judged svc N where
  requests e he := hk.sends he (h.requests e he)
  responses e he := hk.brings he (h.responses e he)
  completing n body answer hp := by
    obtain ⟨k, hanswer, hanswered⟩ := h.completing n body answer hp
    exact ⟨k, hanswer, hk.answered hanswered⟩
  oneshots n := hk.gives (h.oneshots n)
  returned r hr := hk.right (h.returned r hr)

/-! ### What the sections do

Those that change the numbers come first. -/

theorem Sound.claim (h : l.Sound svc) (what : Option Req)
    (hn : ∀ n ∈ l.underway, l.claimed.length < n + 2 ^ 31) : (l.claim what).Sound svc := by
  have hlen : (l.claimed ++ [what]).length = l.claimed.length + 1 := List.length_append
  have hk : l.Keeps (l.claim what).numbers := by
    refine ⟨rfl, List.prefix_append _ _, List.prefix_rfl, fun n hu hholds => ⟨?_, ?_, hholds.own⟩⟩
    · exact hlen ▸ Nat.lt_succ_of_lt hholds.claimed
    · exact hlen ▸ hn n hu
  refine { h.judged hk with counter := ?_, once := h.once }
  show (claimNextOutboundSeq l.counter).2 = seqOf (l.claimed ++ [what]).length
  rw [h.counter, claimNextOutboundSeq_seqOf, hlen]

theorem dropSender_eq (o : Oneshot) : o.dropSender = o ∨ o.dropSender = .dropped := by
  cases o with
  | waiting => exact .inr rfl
  | sent | dropped => exact .inl rfl

/-- A call registers under its number: no other call on its way has it. -/
theorem Sound.register (h : l.Sound svc) (hclaimed : n < l.claimed.length)
    (hrecent : l.claimed.length ≤ n + 2 ^ 31) : (l.register (seqOf n) n).Sound svc := by
  have hk : l.Keeps (l.register (seqOf n) n).numbers := by
    refine ⟨rfl, List.prefix_rfl, List.prefix_rfl,
      fun m _ hm => ⟨hm.claimed, hm.recent, fun m' hm' => ?_⟩⟩
    change (l.pending.insert (seqOf n) n).lookup (seqOf m) = some m' at hm'
    rw [HashMap.lookup_insert_eq] at hm'
    split at hm'
    · next hseq =>
        cases hm'
        have hlt : m < l.claimed.length := hm.claimed
        have hle : l.claimed.length ≤ m + 2 ^ 31 := hm.recent
        exact seqOf_inj (by omega) (by omega) hseq.symm
    · exact hm.own m' hm'
  have hj := h.judged hk
  refine { hj with oneshots := fun m => ?_, counter := h.counter, once := h.once }
  rw [Link.register]
  cases l.pending.lookup (seqOf n) with
  | none => exact hj.oneshots m
  | some m' =>
    show Gives svc _ m (Function.update l.oneshots m' _ m)
    by_cases hm : m = m'
    · subst hm
      rw [Function.update_self]
      rcases dropSender_eq (l.oneshots m) with hsame | hdropped
      · rw [hsame]
        exact hj.oneshots m
      · rw [hdropped]
        exact .dropped
    · rw [Function.update_of_ne hm]
      exact hj.oneshots m

theorem lookup_drain_some {seq : Int32} {m : Nat} (h : l.drain.pending.lookup seq = some m) :
    l.pending.lookup seq = some m := by
  cases h

theorem Sound.drain (h : l.Sound svc) : l.drain.Sound svc := by
  have hk : l.Keeps l.drain.numbers :=
    ⟨rfl, List.prefix_rfl, List.prefix_rfl, fun _ _ hn => hn.mono rfl fun _ _ => lookup_drain_some⟩
  exact { h.judged hk with counter := h.counter, once := h.once }

theorem lookup_erase_some {seq seq' : Int32} {m : Nat}
    (h : (l.pending.erase seq).lookup seq' = some m) : l.pending.lookup seq' = some m := by
  rw [HashMap.lookup_erase_eq] at h
  split at h
  · cases h
  · exact h

theorem Sound.find (h : l.Sound svc) (hanswered : l.numbers.Answered svc k n body)
    (seq : Int32) :
    Sound svc
      { l with
        pending := l.pending.erase seq
        pump := .completing n body (some k) } := by
  have hk : l.Keeps ⟨l.sessionId, l.claimed, l.answers, l.pending.erase seq⟩ :=
    ⟨rfl, List.prefix_rfl, List.prefix_rfl, fun _ _ hn => hn.mono rfl fun _ _ => lookup_erase_some⟩
  have hj := h.judged hk
  refine { hj with responses := fun e he => ?_, completing := ?_, counter := h.counter, once := h.once }
  · rcases List.mem_append.mp he with hold | hnone
    · exact hj.responses e (List.mem_append_left _ hold)
    · cases hnone
  · intro n' body' answer hp
    cases hp
    exact ⟨k, rfl, hk.answered hanswered⟩

theorem Sound.answer (h : l.Sound svc) {response : Rep} {rti : R}
    (hasked : l.numbers.Asked n request) (hholds : l.numbers.Holds n)
    (hrest : ∀ e ∈ rest, e ∈ l.toServer) :
    Sound svc { l with
        toServer := rest
        toClient := l.toClient ++
          [(svc.responseFrame l.sessionId (seqOf n) response, some l.answers.length)]
        rti
        answers := l.answers ++ [⟨some n, .ok (some request), response⟩] } := by
  have hk : l.Keeps ⟨l.sessionId, l.claimed,
      l.answers ++ [⟨some n, .ok (some request), response⟩], l.pending⟩ :=
    ⟨rfl, List.prefix_rfl, List.prefix_append _ _, fun _ _ hn => hn.mono rfl fun _ _ hm => hm⟩
  have hj := h.judged hk
  refine { hj with
    requests := fun e he => hj.requests e (hrest e he)
    responses := fun e he => ?_
    counter := h.counter
    once := h.once }
  rw [incoming, List.append_assoc, List.mem_append, List.mem_append, List.mem_singleton] at he
  rcases he with hold | rfl | hold
  · exact hj.responses e (List.mem_append_left _ hold)
  · refine .response ⟨request, response, hasked, ?_, rfl⟩ (hholds.mono rfl fun _ _ hm => hm) rfl
      (HlaCallResponsePayload.decode_encode _)
    exact List.getElem?_concat_length
  · exact hj.responses e (List.mem_append_right _ hold)

theorem Sound.send (h : l.Sound svc) (hf : l.numbers.Sends svc (f, call)) :
    (l.send f call).Sound svc :=
  { h with
    requests := fun e he => by
      rcases List.mem_append.mp he with hold | hnew
      · exact h.requests e hold
      · rw [List.mem_singleton.mp hnew]
        exact hf }

theorem Sound.finish (h : l.Sound svc) {r : Return Req Rep} (hr : l.numbers.Right r)
    (hfresh : r.call ∉ l.returned.map Return.call) :
    (l.finish r.call r.request r.result r.answer).Sound svc :=
  { h with
    returned := fun r' hr' => by
      rcases List.mem_append.mp hr' with hold | hnew
      · exact h.returned r' hold
      · rw [List.mem_singleton.mp hnew]
        exact hr
    once := by
      rw [Link.finish, List.map_append, List.nodup_append]
      refine ⟨h.once, List.nodup_singleton _, ?_⟩
      rintro m hm _ hmem rfl
      rw [List.map_singleton, List.mem_singleton] at hmem
      exact hfresh (hmem ▸ hm) }

theorem Sound.complete (h : l.Sound svc) {answer : Option Nat}
    (hgives : l.numbers.Gives svc n (.sent body answer)) :
    (l.complete n body answer).Sound svc :=
  { h with
    oneshots := fun m => by
      rw [Link.complete]
      dsimp only
      by_cases hm : m = n
      · subst hm
        rw [Function.update_self]
        exact hgives
      · rw [Function.update_of_ne hm]
        exact h.oneshots m }

theorem Sound.setPump (h : l.Sound svc) {p : Pump} (hhand : p.inHand = [])
    (hp : p.completes = none) : (l.setPump p).Sound svc :=
  { h with
    responses := fun e he => by
      rw [incoming, Link.setPump, hhand, List.append_nil] at he
      exact h.responses e (List.mem_append_left _ he)
    completing := fun n body answer hc => by
      cases hp.symm.trans hc }

theorem Sound.deliver (h : l.Sound svc) (hf : f.header.messageType ≠ .hlaCallResponse) :
    (l.deliver f none).Sound svc :=
  { h with
    responses := fun e he => by
      rw [incoming, Link.deliver, List.append_assoc, List.mem_append, List.mem_append,
        List.mem_singleton] at he
      rcases he with hold | rfl | hold
      · exact h.responses e (List.mem_append_left _ hold)
      · exact .other hf
      · exact h.responses e (List.mem_append_right _ hold) }

theorem Sound.take (h : l.Sound svc) (hrest : ∀ e ∈ rest, e ∈ l.toServer) :
    Sound svc { l with toServer := rest } :=
  { h with requests := fun e he => h.requests e (hrest e he) }

theorem Sound.aside (h : l.Sound svc) {aborted serving : Bool} {rti : R} :
    Sound svc { l with aborted, serving, rti } :=
  { h with }

/-! ### The session loop and the pump -/

theorem Sound.handleRequest (h : l.Sound svc) (hserver : l.toServer = (f, call) :: rest) :
    (l.handleRequest svc env f call rest).Sound svc := by
  have hrest : ∀ e ∈ rest, e ∈ l.toServer := fun e he => hserver ▸ List.mem_cons_of_mem _ he
  have htaken : Sound svc { l with toServer := rest } := h.take hrest
  have hf : l.numbers.Sends svc (f, call) := h.requests _ (hserver ▸ List.mem_cons_self)
  rw [Link.handleRequest]
  dsimp only
  split
  · next htype =>
      cases hf with
      | other hne => exact absurd htype hne
      | @request n request hasked hholds =>
        have hread : svc.requests.decode
            (svc.requestFrame l.numbers.sessionId (seqOf n) request).payload =
              .ok (some request) := svc.requests.decode_encode request
        rw [hread]
        cases svc.answer l.rti env (.ok (some request)) with
        | none => exact h
        | some => exact h.answer hasked hholds hrest
  · refine Sound.aside (htaken.deliver ?_)
    exact ne_of_beq_false rfl
  · exact htaken.deliver (ne_of_beq_false rfl)
  · exact htaken

theorem Sound.receive (h : l.Sound svc) {answer : Option Nat}
    (hclient : l.toClient = (f, answer) :: rest) :
    Sound svc { l with toClient := rest, pump := .handling f answer } :=
  { h with
    responses := fun e he => by
      refine h.responses e (List.mem_append_left _ ?_)
      rw [hclient]
      rcases List.mem_append.mp he with hold | hnew
      · exact List.mem_cons_of_mem _ hold
      · rw [List.mem_singleton.mp hnew]
        exact List.mem_cons_self
    completing := fun n body answer hp => by cases hp }

theorem Sound.handleFrame (h : l.Sound svc) {answer : Option Nat}
    (hpump : l.pump = .handling f answer) : (l.handleFrame f answer).Sound svc := by
  have hf : l.numbers.Brings svc (f, answer) :=
    h.responses _ (List.mem_append_right _ (hpump ▸ List.mem_cons_self))
  have hback : (l.setPump .receiving).Sound svc := h.setPump rfl rfl
  cases hf with
  | @response _ k n body hanswered hholds htype hread =>
    rw [handleFrame_response htype hread]
    cases hn : l.pending.lookup (seqOf n) with
    | none => exact hback
    | some m =>
      -- no other call is registered under the number
      obtain rfl := hholds.own m hn
      exact h.find hanswered _
  | other =>
    rw [Link.handleFrame]
    split
    · contradiction
    · refine Sound.setPump (h.send (.other ?_)) rfl rfl
      exact ne_of_beq_false rfl
    · exact hback

theorem Sound.pumpStep (h : l.Sound svc) (fails : Bool) : (l.pumpStep fails).Sound svc := by
  rw [Link.pumpStep]
  split
  · next hpump =>
      split
      · exact h.setPump rfl rfl
      · split
        · exact h.drain.setPump rfl rfl
        · split
          · exact h
          · next hclient => exact h.receive hclient
  · next hpump => exact h.handleFrame hpump
  · next hpump =>
      obtain ⟨k, rfl, hanswered⟩ := h.completing _ _ _ (congrArg Pump.completes hpump)
      exact (h.complete (.response hanswered)).setPump rfl rfl
  · exact h.setPump rfl rfl
  · exact (h.complete .closed).setPump rfl rfl
  · exact h

theorem Sound.act (h : l.Sound svc) (a : LinkAct R E) : (l.act svc a).Sound svc := by
  cases a with
  | serve =>
    rw [Link.act]
    split
    · split
      · exact h
      · next hserver => exact h.handleRequest hserver
    · exact h
  | pump fails => exact h.pumpStep fails
  | callback | heartbeat => exact h.deliver (ne_of_beq_false rfl)
  | elsewhere => exact h.aside
  | endSession => exact h.aside
  | loseRequests => exact h.take fun _ he => absurd he List.not_mem_nil
  | loseResponses =>
    exact { h with responses := fun e he => h.responses e (List.mem_append_right _ he) }

/-- What a task with call `n` relies on. -/
structure Leaves (l l' : Link R Req Rep) (n : Nat) : Prop where
  claimed : l.claimed <+: l'.claimed
  recent : l.claimed.length ≤ n + 2 ^ 31 → l'.claimed.length ≤ n + 2 ^ 31
  pending : ∀ m, l'.pending.lookup (seqOf n) = some m → l.pending.lookup (seqOf n) = some m
  returned : n ∈ l'.returned.map Return.call → n ∈ l.returned.map Return.call

theorem leaves_of (hclaimed : l'.claimed = l.claimed) (hreturned : l'.returned = l.returned)
    (hpending : ∀ m, l'.pending.lookup (seqOf n) = some m → l.pending.lookup (seqOf n) = some m) :
    l.Leaves l' n :=
  ⟨hclaimed ▸ List.prefix_rfl, hclaimed ▸ id, hpending, hreturned ▸ id⟩

theorem leaves_same (hclaimed : l'.claimed = l.claimed) (hreturned : l'.returned = l.returned)
    (hpending : l'.pending = l.pending) : l.Leaves l' n :=
  leaves_of hclaimed hreturned fun _ hm => hpending ▸ hm

theorem leaves_handleRequest : l.Leaves (l.handleRequest svc env f call rest) n := by
  rw [Link.handleRequest]
  dsimp only
  split
  · cases svc.answer l.rti env (svc.requests.decode f.payload) <;> exact leaves_same rfl rfl rfl
  · exact leaves_same rfl rfl rfl
  · exact leaves_same rfl rfl rfl
  · exact leaves_same rfl rfl rfl

theorem leaves_handleFrame {answer : Option Nat} :
    l.Leaves (l.handleFrame f answer) n := by
  rw [Link.handleFrame]
  split
  · split
    · exact leaves_same rfl rfl rfl
    · next p _ =>
        cases l.pending.lookup p.responseToSequenceNumber with
        | none => exact leaves_same rfl rfl rfl
        | some => exact leaves_of rfl rfl fun _ => lookup_erase_some
  · exact leaves_same rfl rfl rfl
  · exact leaves_same rfl rfl rfl

theorem leaves_pumpStep {fails : Bool} : l.Leaves (l.pumpStep fails) n := by
  rw [Link.pumpStep]
  split
  · split
    · exact leaves_same rfl rfl rfl
    · split
      · exact leaves_of rfl rfl fun _ => lookup_drain_some
      · split <;> exact leaves_same rfl rfl rfl
  · exact leaves_handleFrame
  all_goals exact leaves_same rfl rfl rfl

theorem leaves_act {a : LinkAct R E} : l.Leaves (l.act svc a) n := by
  cases a with
  | serve =>
    rw [Link.act]
    split
    · split
      · exact leaves_same rfl rfl rfl
      · exact leaves_handleRequest
    · exact leaves_same rfl rfl rfl
  | pump => exact leaves_pumpStep
  | _ => exact leaves_same rfl rfl rfl

end Link

/-! ### The tasks -/

/-- The number of the call a task has under way. -/
def CallTask.number? : CallTask Req → Option Nat
  | registering n _ _ => some n
  | sending n _ _ => some n
  | awaiting n _ => some n
  | _ => none

/-- The next section claims a number. -/
def CallTask.claims (x : CallInput Req) : CallTask Req → Bool
  | idle => x.operation.isSome
  | _ => false

/-- What a task asserts of the shared state. -/
inductive CallTask.Stands (l : Link R Req Rep) : CallTask Req → Prop
  | registering {n : Nat} {request : Req} : l.numbers.Asked n request → l.claimed.length ≤ n + 2 ^ 31 →
      n ∉ l.returned.map Return.call → Stands l (registering n (seqOf n) request)
  | sending {n : Nat} {request : Req} : l.numbers.Asked n request → l.numbers.Holds n →
      n ∉ l.returned.map Return.call → Stands l (sending n (seqOf n) request)
  | awaiting {n : Nat} {request : Req} : l.numbers.Asked n request → l.claimed.length ≤ n + 2 ^ 31 →
      n ∉ l.returned.map Return.call → Stands l (awaiting n request)
  | other {p : CallTask Req} : p.number? = none → Stands l p

namespace CallTask

variable {p : CallTask Req}

theorem Stands.keep (h : p.Stands l) (hl : ∀ n, p.number? = some n → l.Leaves l' n) :
    p.Stands l' := by
  cases h with
  | @registering n request hasked hrecent hopen =>
    have hn := hl n rfl
    exact .registering (hasked.mono hn.claimed) (hn.recent hrecent) (hopen ∘ hn.returned)
  | @sending n request hasked hholds hopen =>
    have hn := hl n rfl
    exact .sending (hasked.mono hn.claimed)
      ⟨hholds.claimed.trans_le hn.claimed.length_le, hn.recent hholds.recent,
        fun m hm => hholds.own m (hn.pending m hm)⟩ (hopen ∘ hn.returned)
  | @awaiting n request hasked hrecent hopen =>
    have hn := hl n rfl
    exact .awaiting (hasked.mono hn.claimed) (hn.recent hrecent) (hopen ∘ hn.returned)
  | other hnone => exact .other hnone

theorem Stands.lt (h : p.Stands l) (hn : p.number? = some n) : n < l.claimed.length := by
  cases h with
  | registering hasked | sending hasked | awaiting hasked => cases hn; exact hasked.lt
  | other hnone => cases hnone ▸ hn

theorem Stands.recent (h : p.Stands l) (hn : p.number? = some n) :
    l.claimed.length ≤ n + 2 ^ 31 := by
  cases h with
  | registering _ hrecent | awaiting _ hrecent => cases hn; exact hrecent
  | sending _ hholds => cases hn; exact hholds.recent
  | other hnone => cases hnone ▸ hn

end CallTask

theorem Numbers.Asked.right_closed (h : l.numbers.Asked n request) :
    l.numbers.Right ⟨n, request, .error .closed, none⟩ where
  own response hr := by cases hr
  call k hk := by cases hk
  past := h.lt

/-- What a call returns is right: an error, or the answer its oneshot was given. -/
theorem Link.Sound.right (h : l.Sound svc) (hasked : l.numbers.Asked n request) {body : Bytes}
    {answer : Option Nat} (hgiven : l.oneshots n = .sent body answer) :
    l.numbers.Right ⟨n, request, svc.result body, answer⟩ := by
  have hgives := h.oneshots n
  rw [hgiven] at hgives
  cases hgives with
  | closed => exact hasked.right_closed
  | @response k _ hanswered =>
    refine ⟨fun response hr => ⟨k, rfl, ?_⟩, fun j hj => ?_, hasked.lt⟩
    · obtain ⟨request', response', hasked', hanswer, rfl⟩ := hanswered
      cases (result_encode response').symm.trans hr
      cases hasked'.symm.trans hasked
      exact hanswer
    · cases hj
      exact hanswered.callOf

theorem Link.leaves_claim {what : Option Req} (h : l.claimed.length < n + 2 ^ 31) :
    l.Leaves (l.claim what) n := by
  have hlen : (l.claimed ++ [what]).length = l.claimed.length + 1 := List.length_append
  exact ⟨List.prefix_append _ _, fun _ => hlen ▸ h, fun _ hm => hm, id⟩

theorem Link.leaves_finish {m : Nat} {result : Except CallError Rep} {answer : Option Nat}
    (h : n ≠ m) : l.Leaves (l.finish m request result answer) n := by
  refine ⟨List.prefix_rfl, id, fun _ hm => hm, fun hmem => ?_⟩
  rw [Link.finish, List.map_append, List.mem_append, List.map_singleton, List.mem_singleton] at hmem
  exact hmem.resolve_right h

variable {p : CallTask Req} {x : CallInput Req} {r : Link R Req Rep × CallTask Req}

/-- **What a section of a task can do.** -/
inductive Link.Goes (svc : Service R E Req Rep) (l : Link R Req Rep) (x : CallInput Req) :
    CallTask Req → Link R Req Rep × CallTask Req → Prop
  | stays {p : CallTask Req} : Goes svc l x p (l, p)
  | calls {request : Req} : CallTask.idle.claims x = true →
      Goes svc l x .idle (l.claim (some request),
        .registering l.claimed.length (claimNextOutboundSeq l.counter).1 request)
  | disconnects : CallTask.idle.claims x = true →
      Goes svc l x .idle (l.claim none, .terminating (claimNextOutboundSeq l.counter).1)
  | registers {n : Nat} {seq : Int32} {request : Req} :
      Goes svc l x (.registering n seq request) (l.register seq n, .sending n seq request)
  | sends {n : Nat} {seq : Int32} {request : Req} :
      Goes svc l x (.sending n seq request)
        (l.send (svc.requestFrame l.sessionId seq request) (some n), .awaiting n request)
  | fails {n : Nat} {seq : Int32} {request : Req} :
      Goes svc l x (.sending n seq request) (l.finish n request (.error .closed) none, .idle)
  | dropped {n : Nat} {request : Req} :
      Goes svc l x (.awaiting n request) (l.finish n request (.error .closed) none, .idle)
  | returns {n : Nat} {request : Req} {body : Bytes} {answer : Option Nat} :
      l.oneshots n = .sent body answer →
      Goes svc l x (.awaiting n request) (l.finish n request (svc.result body) answer, .idle)
  | terminates {seq : Int32} {f : Frame} : f.header.messageType ≠ .hlaCallRequest →
      Goes svc l x (.terminating seq) (l.send f none, .draining)
  | unsent {seq : Int32} : Goes svc l x (.terminating seq) (l, .draining)
  | drains : Goes svc l x .draining (l.drain, .waking l.pending.values)
  | wakes {n : Nat} {waiters : List Nat} :
      Goes svc l x (.waking (n :: waiters)) (l.complete n [] none, .waking waiters)
  | woken : Goes svc l x (.waking []) (l, .aborting)
  | aborts : Goes svc l x .aborting ({ l with aborted := true }, .idle)

theorem Link.goes (l : Link R Req Rep) (x : CallInput Req) (p : CallTask Req) :
    l.Goes svc x p (l.sect svc x p) := by
  cases p with
  | idle =>
    rw [Link.sect]
    rcases hx : x.operation with _ | (request | _)
    · exact .stays
    · exact .calls (by rw [CallTask.claims, hx]; rfl)
    · exact .disconnects (by rw [CallTask.claims, hx]; rfl)
  | registering => exact .registers
  | sending =>
    rw [Link.sect]
    split
    · exact .fails
    · exact .sends
  | awaiting =>
    rw [Link.sect, Link.await]
    split
    · exact .stays
    · exact .dropped
    · next hgiven => exact .returns hgiven
  | terminating =>
    rw [Link.sect]
    split
    · exact .unsent
    · exact .terminates (ne_of_beq_false rfl)
  | draining => exact .drains
  | waking waiters =>
    cases waiters with
    | nil => exact .woken
    | cons => exact .wakes
  | aborting => exact .aborts

namespace Link.Goes

theorem sound (hg : l.Goes svc x p r) (h : l.Sound svc) (hp : p.Stands l)
    (hn : p.claims x = true → ∀ n ∈ l.underway, l.claimed.length < n + 2 ^ 31) :
    r.1.Sound svc := by
  cases hg with
  | stays => exact h
  | unsent => exact h
  | woken => exact h
  | calls hclaims | disconnects hclaims => exact h.claim _ (hn hclaims)
  | registers =>
    cases hp with
    | registering hasked hrecent => exact h.register hasked.lt hrecent
    | other hnone => cases hnone
  | sends =>
    cases hp with
    | sending hasked hholds => exact h.send (.request hasked hholds)
    | other hnone => cases hnone
  | fails =>
    cases hp with
    | sending hasked _ hopen => exact h.finish hasked.right_closed hopen
    | other hnone => cases hnone
  | dropped =>
    cases hp with
    | awaiting hasked _ hopen => exact h.finish hasked.right_closed hopen
    | other hnone => cases hnone
  | returns hgiven =>
    cases hp with
    | awaiting hasked _ hopen => exact h.finish (h.right hasked hgiven) hopen
    | other hnone => cases hnone
  | terminates htype => exact h.send (.other htype)
  | drains => exact h.drain
  | wakes => exact h.complete .closed
  | aborts => exact h.aside

theorem stands (hg : l.Goes svc x p r) (h : l.Sound svc) (hp : p.Stands l) : r.2.Stands r.1 := by
  cases hg with
  | stays => exact hp
  | @calls request _ =>
    rw [h.counter, claimNextOutboundSeq_seqOf]
    refine .registering List.getElem?_concat_length ?_ ?_
    · show (l.claimed ++ [some request]).length ≤ _
      rw [List.length_append]
      exact Nat.add_le_add_left (show 1 ≤ 2 ^ 31 by decide) _
    · intro hmem
      obtain ⟨r, hr, hlen⟩ := List.mem_map.mp hmem
      exact absurd hlen (h.returned r hr).past.ne
  | @registers n _ _ =>
    cases hp with
    | registering hasked hrecent hopen =>
      refine .sending hasked ⟨hasked.lt, hrecent, fun m hm => ?_⟩ hopen
      change (l.pending.insert (seqOf n) n).lookup (seqOf n) = some m at hm
      rw [HashMap.lookup_insert_eq, if_pos rfl] at hm
      exact (Option.some.inj hm).symm
    | other hnone => cases hnone
  | sends =>
    cases hp with
    | sending hasked hholds hopen => exact .awaiting hasked hholds.recent hopen
    | other hnone => cases hnone
  | _ => exact .other rfl

theorem leaves (hg : l.Goes svc x p r) (hp : p.Stands l) (hne : p.number? ≠ some n)
    (hlt : n < l.claimed.length) (hrecent : l.claimed.length ≤ n + 2 ^ 31)
    (hn : p.claims x = true → l.claimed.length < n + 2 ^ 31) : l.Leaves r.1 n := by
  cases hg with
  | calls hclaims | disconnects hclaims => exact leaves_claim (hn hclaims)
  | @registers m _ _ =>
    cases hp with
    | registering hasked =>
      have hseq : seqOf n ≠ seqOf m := by
        intro hseq
        have hm : m < l.claimed.length := hasked.lt
        exact hne (congrArg some (seqOf_inj (by omega) (by omega) hseq.symm))
      refine leaves_of rfl rfl fun m' hm' => ?_
      change (l.pending.insert (seqOf m) m).lookup (seqOf n) = some m' at hm'
      rw [HashMap.lookup_insert_eq, if_neg hseq] at hm'
      exact hm'
    | other hnone => cases hnone
  | fails | dropped | returns => exact leaves_finish fun h => hne (congrArg some h.symm)
  | drains => exact leaves_of rfl rfl fun _ => lookup_drain_some
  | _ => exact leaves_same rfl rfl rfl

/-- A task goes on with its call, or claims the next number. -/
theorem number (hg : l.Goes svc x p r) (hn : r.2.number? = some n) :
    p.number? = some n ∨ n = l.claimed.length := by
  cases hg with
  | stays => exact .inl hn
  | calls =>
    cases hn
    exact .inr rfl
  | registers => exact .inl hn
  | sends => exact .inl hn
  | _ => cases hn

end Link.Goes

end Steps

/-! ## Correlation -/

/-- Every call that returned a response returned the one the RTI computed for
its request, and no response has completed two calls. -/
structure Link.Correlated (l : Link R Req Rep) : Prop where
  own : ∀ r ∈ l.returned, ∀ response, r.result = .ok response → ∃ k, r.answer = some k ∧
    l.answers[k]? = some ⟨some r.call, .ok (some r.request), response⟩
  once : l.returned.Pairwise fun r r' => ∀ k, r.answer = some k → r'.answer ≠ some k
  completes : ∀ k m n body body', l.oneshots m = .sent body (some k) →
    l.oneshots n = .sent body' (some k) → m = n

variable {svc} in
theorem Link.Sound.correlated {l : Link R Req Rep} (h : l.Sound svc) : l.Correlated where
  own r hr := (h.returned r hr).own
  once := by
    have hcalls : l.returned.Pairwise fun r r' => r.call ≠ r'.call := List.pairwise_map.mp h.once
    refine hcalls.imp_of_mem fun {r r'} hr hr' hne k hk hk' => hne ?_
    exact Option.some.inj (((h.returned r hr).call k hk).symm.trans ((h.returned r' hr').call k hk'))
  completes k m n body body' hm hn := by
    have hm' := h.oneshots m
    have hn' := h.oneshots n
    rw [hm] at hm'
    rw [hn] at hn'
    cases hm' with | response hm' =>
    cases hn' with | response hn' =>
    exact Option.some.inj (hm'.callOf.symm.trans hn'.callOf)

section Runs

variable {I : Type} [DecidableEq I]

abbrev CallEvent (I R E Req : Type) := SectionEvent I (CallInput Req) (LinkAct R E)

/-- Fewer than 2 ^ 31 numbers are claimed while a call is outstanding. -/
def FewWhileOutstanding (s : Link R Req Rep × (I → CallTask Req)) : CallEvent I R E Req → Prop
  | .go i x => (s.2 i).claims x = true →
      ∀ j, ∀ n ∈ (s.2 j).number?, s.1.claimed.length < n + 2 ^ 31
  | .act _ => True

/-- Fewer than 2 ^ 31 numbers are claimed while the request or the response of a
call is on its way. -/
def FewWhileUnderway (s : Link R Req Rep × (I → CallTask Req)) : CallEvent I R E Req → Prop
  | .go i x => (s.2 i).claims x = true → ∀ n ∈ s.1.underway, s.1.claimed.length < n + 2 ^ 31
  | .act _ => True

/-- **Request and response correlation.**  In every interleaving in which fewer
than 2 ^ 31 numbers are claimed while a call is outstanding or its request or
response on its way, every call that returns a response returns the one the RTI
computed for it, and no response completes two. -/
theorem calls_correlated (sessionId : UInt64) (rti : R) {es : List (CallEvent I R E Req)}
    (hok : StepsMeet (calling svc).step (fun s e => FewWhileOutstanding s e ∧ FewWhileUnderway s e)
      (.new sessionId rti, fun _ => .idle) es) :
    Always (calling svc).step (fun s => s.1.Correlated) (.new sessionId rti, fun _ => .idle) es := by
  have hinv := Sections.always_apart (m := calling svc) (J := Link.Sound svc)
    (K := fun l p => p.Stands l) (R := fun p q => ∀ n, p.number? = some n → q.number? ≠ some n)
    (fun p q hpq n hq hp => hpq n hp hq)
    (fun s i x hs hgo => ⟨(s.1.goes x (s.2 i)).sound hs.shared (hs.call i) hgo.2,
      (s.1.goes x (s.2 i)).stands hs.shared (hs.call i)⟩)
    (fun s i x j hs hgo hj => ⟨?_, ?_⟩)
    (fun l a hl => ⟨hl.act a, fun p hp => hp.keep fun n _ => Link.leaves_act⟩) hok ⟨?_, ?_, ?_⟩
  · exact fun done hd => (hinv done hd).shared.correlated
  · refine (hs.call j).keep fun n hn => ?_
    exact (s.1.goes x (s.2 i)).leaves (hs.call i) (fun hi => hs.pair i j (Ne.symm hj) n hi hn)
      ((hs.call j).lt hn) ((hs.call j).recent hn) fun hclaims => hgo.1 hclaims j n hn
  · intro n hn hjn
    rcases (s.1.goes x (s.2 i)).number hn with hold | rfl
    · exact hs.pair i j (Ne.symm hj) n hold hjn
    · exact absurd ((hs.call j).lt hjn) (Nat.lt_irrefl _)
  · refine ⟨⟨?_, ?_, ?_, fun _ => .waiting, ?_⟩, rfl, List.nodup_nil⟩
    · exact fun _ he => absurd he List.not_mem_nil
    · exact fun _ he => absurd he List.not_mem_nil
    · exact fun _ _ _ hp => by cases hp
    · exact fun _ hr => absurd hr List.not_mem_nil
  · exact fun _ => .other rfl
  · exact fun _ _ _ _ hn => by cases hn

instance [Fintype I] (s : Link R Req Rep × (I → CallTask Req)) :
    (e : CallEvent I R E Req) → Decidable (FewWhileOutstanding s e)
  | .go i x => inferInstanceAs (Decidable ((s.2 i).claims x = true → ∀ j, ∀ n ∈ (s.2 j).number?, _))
  | .act _ => .isTrue trivial

instance (s : Link R Req Rep × (I → CallTask Req)) :
    (e : CallEvent I R E Req) → Decidable (FewWhileUnderway s e)
  | .go i x => inferInstanceAs (Decidable ((s.2 i).claims x = true → ∀ n ∈ s.1.underway, _))
  | .act _ => .isTrue trivial

end Runs

/-! An RTI that answers a bit with the same bit. -/

def bit : Envelope Bool where
  encode b := [if b then 1 else 0]
  decode bytes := bytes.head?.elim (.error "no bit") fun b => .ok (some (b == 1))
  decode_encode b := by cases b <;> rfl
  encode_ne_nil _ := List.cons_ne_nil _ _

def echo : Service Unit Unit Bool Bool where
  requests := bit
  responses := bit
  answer _ _ request := some ((), request.toOption.join.getD false)

section Echo

variable {I : Type} [DecidableEq I]

def calls (i : I) (request : Bool) : CallEvent I Unit Unit Bool :=
  .go i ⟨some (.call request), false⟩

def disconnects (i : I) : CallEvent I Unit Unit Bool := .go i ⟨some .disconnect, false⟩

def echoRun (es : List (CallEvent I Unit Unit Bool)) : Link Unit Bool Bool × (I → CallTask Bool) :=
  run (calling echo).step (.new 0 (), fun _ => .idle) es

end Echo

/-- Two calls are under way at once, and the second is sent first. -/
def overlapping : List (CallEvent Two Unit Unit Bool) :=
  [calls .one true, calls .two false, calls .two false, calls .two false, calls .one true,
    calls .one true, .act (.heartbeat 7), .act (.serve ()), .act (.serve ())] ++
  List.replicate 8 (.act (.pump false)) ++ [calls .one true, calls .two false]

theorem calls_correlated_overlapping :
    (echoRun overlapping).1.returned.map (fun r => (r.call, r.request, r.result.toOption)) =
      [(0, true, some true), (1, false, some false)] ∧
    Always (calling echo).step (fun s => s.1.Correlated) (.new 0 (), fun _ => .idle) overlapping :=
  ⟨by decide +kernel, calls_correlated echo 0 () (by decide +kernel)⟩

/-! ### A response for another call -/

/-- The pump has received the response of a call when the ambassador is
disconnected; the call is woken and returns. -/
def wokenCall : List (CallEvent Nat Unit Unit Bool) :=
  List.replicate 3 (calls 0 true) ++ [.act (.serve ()), .act (.pump false)] ++
  List.replicate 6 (disconnects 1) ++ [calls 0 true]

def woken : Link Unit Bool Bool × (Nat → CallTask Bool) := echoRun wokenCall

/-- The next `m` tasks call, and have come no further than their claim. -/
def claims (m : Nat) : List (CallEvent Nat Unit Unit Bool) :=
  (List.range m).map fun j => calls (j + 2) false

/-- What holds then: the pump still has the response in hand. -/
structure ClaimedSince (m : Nat) (s : Link Unit Bool Bool × (Nat → CallTask Bool)) : Prop where
  counter : s.1.counter = seqOf s.1.claimed.length
  count : s.1.claimed.length = m + 2
  pump : s.1.pump = .handling (echo.responseFrame 0 1 true) (some 0)
  answers : s.1.answers = [⟨some 0, .ok (some true), true⟩]
  idle : ∀ j, j < 2 ∨ m + 2 ≤ j → s.2 j = .idle
  later : ∀ j n, (s.2 j).number? = some n → 2 ≤ n

theorem claimedSince_woken : ClaimedSince 0 woken := by
  have hidle : ∀ j, woken.2 j = .idle
    | 0 => rfl
    | 1 => rfl
    | _ + 2 => rfl
  refine ⟨rfl, rfl, rfl, rfl, fun j _ => hidle j, fun j n hn => ?_⟩
  rw [hidle] at hn
  cases hn

namespace ClaimedSince

variable {m : Nat} {s : Link Unit Bool Bool × (Nat → CallTask Bool)}

theorem few (h : ClaimedSince m s) (hm : m < 2 ^ 31) (e : CallEvent Nat Unit Unit Bool) :
    FewWhileOutstanding s e := by
  cases e with
  | act => trivial
  | go =>
    intro _ j n hn
    have hlater := h.later j n hn
    have hcount := h.count
    omega

theorem step (h : ClaimedSince m s) :
    ClaimedSince (m + 1) ((calling echo).step s (calls (m + 2) false)) := by
  have hstep : (calling echo).step s (calls (m + 2) false) =
      (s.1.claim (some false), Function.update s.2 (m + 2)
        (.registering s.1.claimed.length (claimNextOutboundSeq s.1.counter).1 false)) := by
    rw [calls, Sections.step, h.idle (m + 2) (.inr le_rfl)]
    rfl
  have hlen : (s.1.claimed ++ [some false]).length = s.1.claimed.length + 1 :=
    List.length_append
  rw [hstep]
  refine ⟨?_, ?_, h.pump, h.answers, fun j hj => ?_, fun j n hn => ?_⟩
  · show (claimNextOutboundSeq s.1.counter).2 = seqOf (s.1.claimed ++ [some false]).length
    rw [hlen, h.counter, claimNextOutboundSeq_seqOf]
  · exact hlen.trans (congrArg (· + 1) h.count)
  · exact (Function.update_of_ne (by omega) ..).trans (h.idle j (by omega))
  · change (Function.update s.2 (m + 2) _ j).number? = some n at hn
    by_cases hj : j = m + 2
    · rw [hj, Function.update_self] at hn
      cases hn
      exact h.count ▸ Nat.le_add_left 2 m
    · rw [Function.update_of_ne hj] at hn
      exact h.later j n hn

theorem run_claims (hm : m ≤ 2 ^ 31) :
    StepsMeet (calling echo).step FewWhileOutstanding woken (claims m) ∧
      ClaimedSince m (run (calling echo).step woken (claims m)) := by
  induction m with
  | zero =>
    rw [claims, List.range_zero, List.map_nil, run]
    exact ⟨trivial, claimedSince_woken⟩
  | succ m ih =>
    obtain ⟨hmeet, hsince⟩ := ih (Nat.le_of_succ_le hm)
    have hsucc : claims (m + 1) = claims m ++ [calls (m + 2) false] := by
      rw [claims, List.range_succ, List.map_append]
      rfl
    rw [hsucc, stepsMeet_append, run_append]
    exact ⟨⟨hmeet, hsince.few hm _, trivial⟩, hsince.step⟩

/-- A task calls, and the pump goes on. -/
def callWhileHeld (i : Nat) : List (CallEvent Nat Unit Unit Bool) :=
  List.replicate 3 (calls i false) ++ [.act (.pump false), .act (.pump false), calls i false]

/-- Once the numbers have gone round, the response in hand goes to the next
call. -/
theorem call_given (h : ClaimedSince m s) (hm : m + 2 = 2 ^ 31) {i : Nat} (hi : i < 2) :
    let s' := run (calling echo).step s (callWhileHeld i)
    s'.1.answers = s.1.answers ∧ ⟨s.1.claimed.length, false, .ok true, some 0⟩ ∈ s'.1.returned := by
  have hseq : (claimNextOutboundSeq s.1.counter).1 = 1 := by
    rw [h.counter, h.count, hm, claimNextOutboundSeq_seqOf, ← Nat.zero_add (2 ^ 31),
      seqOf_add_cycle]
    rfl
  have hpending : (s.1.called echo false).pending.lookup 1 = some s.1.claimed.length := by
    show (s.1.pending.insert (claimNextOutboundSeq s.1.counter).1 _).lookup 1 = _
    rw [hseq]
    exact AList.lookup_insert _
  have hpumped := pump_handling (l := s.1.called echo false) h.pump hpending
  set done := ((s.1.called echo false).pumpStep false).pumpStep false
  let waiting := Function.update s.2 i (.awaiting s.1.claimed.length false)
  have hreturned : (calling echo).step (done, waiting) (calls i false) =
      (done.finish s.1.claimed.length false (.ok true) (some 0), Function.update waiting i .idle) :=
    step_given (Function.update_self ..) (by rw [hpumped]; exact Function.update_self ..)
  have hrun : run (calling echo).step s (callWhileHeld i) =
      (done.finish s.1.claimed.length false (.ok true) (some 0), Function.update waiting i .idle) := by
    refine (run_append (List.replicate 3 _) [_, _, _]).trans ?_
    rw [calls, run_call (h.idle i (.inl hi))]
    exact hreturned
  rw [hrun]
  constructor
  · rw [hpumped]
    rfl
  · exact List.mem_append_right _ List.mem_cons_self

theorem few_call (h : ClaimedSince m s) (hm : m < 2 ^ 31) {i : Nat} (hi : i < 2) :
    StepsMeet (calling echo).step FewWhileOutstanding s (callWhileHeld i) := by
  -- only the first section claims a number
  have hbusy : ∀ {s : Link Unit Bool Bool × (Nat → CallTask Bool)},
      (s.2 i).claims ⟨some (.call false), false⟩ = false →
        FewWhileOutstanding s (calls i false) :=
    fun hs hclaims => absurd (hs.symm.trans hclaims) Bool.false_ne_true
  have hown (s : Link Unit Bool Bool × (Nat → CallTask Bool)) :
      ((calling echo).step s (calls i false)).2 i =
        (s.1.sect echo ⟨some (.call false), false⟩ (s.2 i)).2 := Function.update_self ..
  set s₁ := (calling echo).step s (calls i false)
  have h₁ : s₁.2 i = .registering s.1.claimed.length (claimNextOutboundSeq s.1.counter).1 false := by
    rw [hown s, h.idle i (.inl hi)]
    rfl
  set s₂ := (calling echo).step s₁ (calls i false)
  have h₂ : s₂.2 i = .sending s.1.claimed.length (claimNextOutboundSeq s.1.counter).1 false := by
    rw [hown s₁, h₁]
    rfl
  set s₃ := (calling echo).step s₂ (calls i false)
  have h₃ : s₃.2 i = .awaiting s.1.claimed.length false := by
    rw [hown s₂, h₂]
    rfl
  exact ⟨h.few hm _, hbusy (by rw [h₁]; rfl), hbusy (by rw [h₂]; rfl), trivial, trivial,
    hbusy (show (s₃.2 i).claims _ = false by rw [h₃]; rfl), trivial⟩

end ClaimedSince

/-- **A response for another call.**  With fewer than 2 ^ 31 numbers claimed
while any call is outstanding, a call of `false` returns the answer to `true`:
the number of the woken call has come round while its response was in the pump's
hand. -/
theorem answered_for_another :
    ∃ es : List (CallEvent Nat Unit Unit Bool),
      StepsMeet (calling echo).step FewWhileOutstanding (.new 0 (), fun _ => .idle) es ∧
      ¬ (echoRun es).1.Correlated ∧
      ∃ r ∈ (echoRun es).1.returned, r.request = false ∧ r.result = .ok true := by
  obtain ⟨m, hm⟩ : ∃ m, m + 2 = 2 ^ 31 := ⟨2 ^ 31 - 2, rfl⟩
  obtain ⟨hmeet, hsince⟩ := ClaimedSince.run_claims (m := m) (by omega)
  obtain ⟨hanswers, hreturned⟩ := hsince.call_given hm Nat.zero_lt_two
  have hfirst : StepsMeet (calling echo).step FewWhileOutstanding
      (.new 0 (), fun _ : Nat => .idle) wokenCall := by
    -- no more than two are claimed at all
    have hshort : StepsMeet (calling echo).step (fun s _ => s.1.claimed.length < 2 ^ 31)
      (.new 0 (), fun _ : Nat => .idle) wokenCall := by decide +kernel
    refine hshort.mono fun s e hs => ?_
    cases e with
    | act => trivial
    | go => exact fun _ j n _ => Nat.lt_add_left n hs
  refine ⟨wokenCall ++ (claims m ++ ClaimedSince.callWhileHeld 0), ?_, ?_⟩
  · rw [stepsMeet_append, stepsMeet_append]
    exact ⟨hfirst, hmeet, hsince.few_call (by omega) Nat.zero_lt_two⟩
  · have hrun : echoRun (wokenCall ++ (claims m ++ ClaimedSince.callWhileHeld 0)) =
        run (calling echo).step (run (calling echo).step woken (claims m))
          (ClaimedSince.callWhileHeld 0) := by
      rw [echoRun, run_append, run_append, woken, echoRun]
    rw [hrun]
    refine ⟨fun hcor => ?_, _, hreturned, rfl, rfl⟩
    obtain ⟨k, hk, hanswer⟩ := hcor.own _ hreturned true rfl
    cases hk
    rw [hanswers, hsince.answers] at hanswer
    have hrequest := congrArg Answer.request (Option.some.inj hanswer)
    cases hrequest

end Hla4
