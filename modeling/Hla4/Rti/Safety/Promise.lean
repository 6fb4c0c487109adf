/-
# `Hla4.Rti.Safety.Promise` — timed services below the sender's promise

A regulating federate promises to send nothing below its time plus its lookahead.
Of the three kinds of timed services the server checks one:

    updateAttributeValuesWithTime    `checkPromise`
    sendInteractionWithTime          no check, with regions or without
    deleteObjectInstanceWithTime     no check

So a call below the promise is refused exactly if it is an update, or if one of the
checks that have nothing to do with time refuses it (`honoursPromise_iff`).
-/
import Hla4.Rti.Node

namespace Hla4

open Lib

/-- The timestamp of a timed service. -/
def ObjectRequest.timestamp? : ObjectRequest → Option WireField
  | updateAttributeValuesWithTime _ _ _ time => some time
  | sendInteractionWithTime _ _ _ _ time => some time
  | deleteObjectInstanceWithTime _ _ time => some time
  | _ => none

/-- The caller regulates, and the timestamp is below its time plus its lookahead,
added as doubles are. -/
def BelowPromise (c : Caller) (fed : Federation) (time : WireField) : Prop :=
  ∃ fs stamp, fed.federates.lookup c.federate = some fs ∧ fs.time.isRegulating = true ∧
    decodeLogicalTime time "" = .ok stamp ∧
    stamp < (Timestamp.ofSum fs.time.currentTime fs.time.lookahead).toF64

/-- An exception; nothing changes, and nothing is sent. -/
structure Outcome.Refuses (o : Outcome) (fed : Federation) : Prop where
  response : o.response.accepted = false
  federation : o.federation = fed
  callbacks : o.callbacks = []

/-- A timed service is refused below the promise. -/
def HonoursPromise (c : Caller) (fed : Federation) (r : ObjectRequest) : Prop :=
  ∀ time, r.timestamp? = some time → BelowPromise c fed time →
    (serve c fed (.object r)).Refuses fed

/-- A service that does not look at the promise is refused for another reason. -/
def RefusedAnyway (c : Caller) (fed : Federation) : ObjectRequest → Prop
  | .sendInteractionWithTime _ cls params _ time =>
    BelowPromise c fed time → ∀ args, interactionArgs c fed cls params ≠ .ok args
  | .deleteObjectInstanceWithTime inst _ time =>
    BelowPromise c fed time →
      ∀ h, inst.bind decodeObjectInstance = some h → checkDeletable c fed h ≠ .ok ()
  | _ => True

section

variable {c : Caller} {fed : Federation}

/-- A service refuses exactly if one of its checks fails. -/
theorem Outcome.refuses_ofExcept {x : Except ExceptionData Outcome}
    (hx : ∀ o, x = .ok o → o.response.accepted = true) :
    (Outcome.ofExcept fed x).Refuses fed ↔ ∀ o, x ≠ .ok o := by
  cases x with
  | error => exact iff_of_true ⟨rfl, rfl, rfl⟩ fun _ ho => nomatch ho
  | ok o =>
    refine iff_of_false (fun hr => ?_) fun hne => hne o rfl
    have hresponse : o.response.accepted = false := hr.response
    rw [hx o rfl] at hresponse
    cases hresponse

theorem update_refused {inst time : WireField} {values : WireValueMap} {tag : Bytes}
    (hbelow : BelowPromise c fed time) :
    (updateAttributeValuesWithTime c fed inst values tag time).Refuses fed := by
  obtain ⟨fs, stamp, hfs, hreg, hstamp, hlt⟩ := hbelow
  have hcheck : checkPromise c fed stamp ≠ .ok () := by
    rw [checkPromise, hfs]
    dsimp only
    rw [if_pos ⟨hreg, hlt⟩]
    exact fun h => nomatch h
  rw [updateAttributeValuesWithTime, hstamp]
  refine Outcome.ofExcept_of (Q := fun o => o.Refuses fed) (fun _ => ⟨rfl, rfl, rfl⟩) ?_
  refine .bind fun _ _ => .bind fun _ _ => .bind fun t ht => .bind fun _ _ =>
    .bind fun _ hpromise => ?_
  cases ht
  exact absurd hpromise hcheck

theorem send_refused_iff {cls time : WireField} {params : WireValueMap} {tag : Bytes}
    (hbelow : BelowPromise c fed time) :
    (sendInteractionWithTime c fed cls params tag time).Refuses fed ↔
      ∀ args, interactionArgs c fed cls params ≠ .ok args := by
  obtain ⟨_, stamp, _, _, hstamp, _⟩ := hbelow
  rw [sendInteractionWithTime, hstamp, Outcome.refuses_ofExcept]
  · constructor
    · intro h args hargs
      exact h _ (bind_eq_ok.mpr ⟨args, hargs, rfl⟩)
    · intro h o ho
      obtain ⟨args, hargs, _⟩ := bind_eq_ok.mp ho
      exact h args hargs
  · intro o ho
    obtain ⟨_, _, ho⟩ := bind_eq_ok.mp ho
    cases ho
    rfl

theorem delete_refused_iff {inst time : WireField} {tag : Bytes}
    (hbelow : BelowPromise c fed time) :
    (deleteObjectInstanceWithTime c fed inst tag time).Refuses fed ↔
      ∀ h, inst.bind decodeObjectInstance = some h → checkDeletable c fed h ≠ .ok () := by
  obtain ⟨_, stamp, _, _, hstamp, _⟩ := hbelow
  rw [deleteObjectInstanceWithTime, hstamp, Outcome.refuses_ofExcept]
  · constructor
    · intro hno h hinst hdel
      exact hno _ (bind_eq_ok.mpr ⟨h, getOr_eq_ok.mpr hinst,
        bind_eq_ok.mpr ⟨stamp, rfl, bind_eq_ok.mpr ⟨(), hdel, rfl⟩⟩⟩)
    · intro hno o ho
      obtain ⟨h, hinst, ho⟩ := bind_eq_ok.mp ho
      obtain ⟨_, _, ho⟩ := bind_eq_ok.mp ho
      obtain ⟨_, hdel, _⟩ := bind_eq_ok.mp ho
      exact hno h (getOr_eq_ok.mp hinst) hdel
  · intro o ho
    obtain ⟨_, _, ho⟩ := bind_eq_ok.mp ho
    obtain ⟨_, _, ho⟩ := bind_eq_ok.mp ho
    obtain ⟨_, _, ho⟩ := bind_eq_ok.mp ho
    cases ho
    rfl

end

/-- **When a timed service honours the promise.** -/
theorem honoursPromise_iff (c : Caller) (fed : Federation) (r : ObjectRequest) :
    HonoursPromise c fed r ↔ RefusedAnyway c fed r := by
  cases r with
  | updateAttributeValuesWithTime =>
    refine iff_of_true ?_ trivial
    rintro _ ⟨⟩ hbelow
    exact update_refused hbelow
  | sendInteractionWithTime withRegions cls params tag time =>
    constructor
    · intro h hbelow
      exact (send_refused_iff hbelow).mp (h time rfl hbelow)
    · rintro h _ ⟨⟩ hbelow
      exact (send_refused_iff hbelow).mpr (h hbelow)
  | deleteObjectInstanceWithTime inst tag time =>
    constructor
    · intro h hbelow
      exact (delete_refused_iff hbelow).mp (h time rfl hbelow)
    · rintro h _ ⟨⟩ hbelow
      exact (delete_refused_iff hbelow).mpr (h hbelow)
  | _ => exact iff_of_true (fun _ ht => nomatch ht) trivial

/-- The timed services of a federate below its promise are refused. -/
def FedAction.HonoursPromise (fed : Federation) : FedAction → Prop
  | serve c (.object r) => Hla4.HonoursPromise c fed r
  | _ => True

/-- Federate 1 owns an instance, publishes the interaction class and regulates with
lookahead 1; federate 2 is subscribed to both. -/
def pairRegulated : List NodeEvent := pairUpdating ++
  [.serves 0 (.declaration (.publishInteractionClass (wire32 1))),
    .serves 1 (.declaration (.subscribeInteractionClass false (wire32 1))),
    .serves 0 (.time (.enableTimeRegulation wireOne))]

/-- Services at time 0: interactions without and with regions, and a deletion. -/
def sendsTooEarly : List ObjectRequest :=
  let zero : WireField := some [0, 0, 0, 0, 0, 0, 0, 0]
  [.sendInteractionWithTime false (wire32 1) none [] zero,
    .sendInteractionWithTime true (wire32 1) none [] zero,
    .deleteObjectInstanceWithTime (wire64 1) [] zero]

/-- **Promises broken.**  Federate 1 has promised nothing below 1, and all three are
accepted. -/
theorem Node.sendsTooEarly_accepted :
    sendsTooEarly.Forall fun r =>
      ¬ (run Node.step Node.new pairRegulated).Meets (fun fed a => a.HonoursPromise fed)
        (.serves 0 (.object r)) := by
  have hbroken : ∀ r ∈ sendsTooEarly,
      ∃ m ∈ ((run Node.step Node.new pairRegulated).sessions.lookup 0).bind Session.membership,
      let c := (run Node.step Node.new pairRegulated).caller m .plain
      let fed := (run Node.step Node.new pairRegulated).heap m.federation
      (serve c fed (.object r)).response.accepted = true ∧
      ∃ time ∈ r.timestamp?, ∃ fs ∈ fed.federates.lookup c.federate,
        fs.time.isRegulating = true ∧ ∃ stamp ∈ (decodeLogicalTime time "").toOption,
          stamp < (Timestamp.ofSum fs.time.currentTime fs.time.lookahead).toF64 := by
    decide +kernel
  rw [List.forall_iff_forall_mem]
  intro r hr hmeets
  obtain ⟨m, hm, hacc, time, htime, fs, hfs, hreg, stamp, hstamp, hlt⟩ := hbroken r hr
  have hhonours : Hla4.HonoursPromise _ _ r := hmeets _ (Node.action_of_membership hm .plain _)
  have hrefused := hhonours time htime
    ⟨fs, stamp, hfs, hreg, toOption_eq_some.mp hstamp, hlt⟩
  exact absurd hacc (Bool.eq_false_iff.mp hrefused.response)

end Hla4
