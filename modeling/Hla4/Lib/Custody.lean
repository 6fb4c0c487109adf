/-
# `Hla4.Lib.Custody` — seats and their holders

A system keeps a set of SEATS and hands them around between HOLDERS: each
holder has at most one seat.  `seat x` is the seat of holder `x`, `occupied` the
set of seats there are.

    Seated    a holder's seat is there, and no two holders have the same
    Covered   every seat has a holder

What can happen is one of five moves:

    stay        nothing
    sit x s     `x` takes the new seat `s`
    pass x y    `x` gives its seat to `y`
    leave x     `x` gives its seat up, and the seat goes
    lose x      `x` loses its seat, and the seat stays

Every move keeps `Seated`, if seats taken are new (`Seated.move`).  A move keeps
`Covered` if nobody who has a seat is given another, and nobody loses one
(`Covered.move`).  Together they say that every seat has exactly one holder.
-/
import Mathlib.Logic.Function.Basic
import Mathlib.Logic.ExistsUnique

namespace Lib

variable {H S : Type}

/-- A holder's seat is there, and no two holders have the same. -/
structure Seated (seat : H → Option S) (occupied : S → Prop) : Prop where
  occupied : ∀ x s, seat x = some s → occupied s
  unique : ∀ x y s, seat x = some s → seat y = some s → x = y

/-- Every seat has a holder. -/
def Covered (seat : H → Option S) (occupied : S → Prop) : Prop :=
  ∀ s, occupied s → ∃ x, seat x = some s

theorem Seated.existsUnique {seat : H → Option S} {occupied : S → Prop}
    (h : Seated seat occupied) (hc : Covered seat occupied) {s : S} (hs : occupied s) :
    ∃! x, seat x = some s := by
  obtain ⟨x, hx⟩ := hc s hs
  exact ⟨x, hx, fun y hy => h.unique y x s hy hx⟩

theorem Seated.mono {seat : H → Option S} {occupied occupied' : S → Prop}
    (h : Seated seat occupied) (ho : ∀ x s, seat x = some s → occupied s → occupied' s) :
    Seated seat occupied' where
  occupied := fun x s hx => ho x s hx (h.occupied x s hx)
  unique := h.unique

inductive Move (H S : Type)
  | stay
  | sit (x : H) (s : S)
  | pass (x y : H)
  | leave (x : H)
  | lose (x : H)

namespace Move

variable [DecidableEq H]

/-- Who has which seat after a move. -/
def seat (m : Move H S) (seat : H → Option S) : H → Option S :=
  match m with
  | stay => seat
  | sit x s => Function.update seat x (some s)
  | pass x y => Function.update (Function.update seat x none) y (seat x)
  | leave x => Function.update seat x none
  | lose x => Function.update seat x none

/-- The seats after a move. -/
def occupied (m : Move H S) (seat : H → Option S) (occupied : S → Prop) : S → Prop :=
  match m with
  | stay => occupied
  | sit _ s => fun u => u = s ∨ occupied u
  | pass _ _ => occupied
  | leave x => fun u => occupied u ∧ seat x ≠ some u
  | lose _ => occupied

omit [DecidableEq H] in
/-- A seat there is after a move was there before, or is the one taken. -/
theorem occupied_cases {m : Move H S} {seat : H → Option S} {occupied : S → Prop} {s : S}
    (h : m.occupied seat occupied s) : occupied s ∨ ∃ x, m = .sit x s := by
  cases m with
  | stay => exact .inl h
  | sit x =>
    rcases h with rfl | h
    · exact .inr ⟨x, rfl⟩
    · exact .inl h
  | pass => exact .inl h
  | leave => exact .inl h.1
  | lose => exact .inl h

/-- Seats taken are new. -/
def Fresh (occupied : S → Prop) : Move H S → Prop
  | sit _ s => ¬ occupied s
  | _ => True

/-- Nobody who has a seat is given another, and nobody loses one. -/
def Careful (seat : H → Option S) : Move H S → Prop
  | sit x _ => seat x = none
  | pass _ y => seat y = none
  | lose x => seat x = none
  | _ => True

end Move

variable [DecidableEq H] {seat : H → Option S} {occupied : S → Prop}

/-- Whoever has a seat after `x` was emptied had it before. -/
theorem seat_of_emptied {x y : H} {s : S} (h : Function.update seat x none y = some s) :
    y ≠ x ∧ seat y = some s := by
  by_cases hy : y = x
  · subst hy
    rw [Function.update_self] at h
    cases h
  · rw [Function.update_of_ne hy] at h
    exact ⟨hy, h⟩

theorem Seated.emptied (h : Seated seat occupied) (x : H) :
    Seated (Function.update seat x none) occupied where
  occupied := fun y s hy => h.occupied y s (seat_of_emptied hy).2
  unique := fun y z s hy hz => h.unique y z s (seat_of_emptied hy).2 (seat_of_emptied hz).2

/-- A holder gets a seat that nobody has. -/
theorem Seated.given (h : Seated seat occupied) {y : H} {s : S} (hs : occupied s)
    (hfree : ∀ z, seat z ≠ some s) : Seated (Function.update seat y (some s)) occupied where
  occupied := fun z u hz => by
    by_cases hzy : z = y
    · subst hzy
      rw [Function.update_self, Option.some.injEq] at hz
      exact hz ▸ hs
    · rw [Function.update_of_ne hzy] at hz
      exact h.occupied z u hz
  unique := fun z w u hz hw => by
    by_cases hzy : z = y <;> by_cases hwy : w = y
    · rw [hzy, hwy]
    · rw [hzy, Function.update_self, Option.some.injEq] at hz
      rw [Function.update_of_ne hwy] at hw
      exact absurd (hz ▸ hw) (hfree w)
    · rw [hwy, Function.update_self, Option.some.injEq] at hw
      rw [Function.update_of_ne hzy] at hz
      exact absurd (hw ▸ hz) (hfree z)
    · rw [Function.update_of_ne hzy] at hz
      rw [Function.update_of_ne hwy] at hw
      exact h.unique z w u hz hw

/-- **Every move keeps holders apart**, if the seats taken are new. -/
theorem Seated.move (h : Seated seat occupied) {m : Move H S} (hf : m.Fresh occupied) :
    Seated (m.seat seat) (m.occupied seat occupied) := by
  cases m with
  | stay => exact h
  | sit x s =>
    have hmore : Seated seat fun u => u = s ∨ occupied u := h.mono fun _ _ _ hs => .inr hs
    exact hmore.given (.inl rfl) fun z hz => hf (h.occupied z s hz)
  | pass x y =>
    show Seated (Function.update (Function.update seat x none) y (seat x)) occupied
    cases hx : seat x with
    | none => exact (h.emptied x).emptied y
    | some s =>
      refine (h.emptied x).given (h.occupied x s hx) ?_
      intro z hz
      obtain ⟨hne, hz⟩ := seat_of_emptied hz
      exact hne (h.unique z x s hz hx)
  | leave x =>
    refine (h.emptied x).mono ?_
    intro y s hy hs
    obtain ⟨hne, hy⟩ := seat_of_emptied hy
    exact ⟨hs, fun hx => hne (h.unique y x s hy hx)⟩
  | lose x => exact h.emptied x

/-- **A careful move leaves no seat without a holder.** -/
theorem Covered.move (h : Covered seat occupied) {m : Move H S} (hc : m.Careful seat) :
    Covered (m.seat seat) (m.occupied seat occupied) := by
  -- a holder other than those that move goes on holding
  have kept : ∀ {x y : H} {s : S} {o : Option S}, seat y = some s → y ≠ x →
      Function.update seat x o y = some s :=
    fun hy hne => by rw [Function.update_of_ne hne, hy]
  intro s hs
  cases m with
  | stay => exact h s hs
  | sit x =>
    rcases hs with rfl | hs
    · exact ⟨x, Function.update_self ..⟩
    · obtain ⟨y, hy⟩ := h s hs
      exact ⟨y, kept hy fun he => nomatch (he ▸ hc).symm.trans hy⟩
  | pass x y =>
    obtain ⟨z, hz⟩ := h s hs
    show ∃ w, Function.update (Function.update seat x none) y (seat x) w = some s
    by_cases hzx : z = x
    · exact ⟨y, by rw [Function.update_self, ← hzx, hz]⟩
    · have hzy : z ≠ y := fun he => nomatch (he ▸ hc).symm.trans hz
      exact ⟨z, by rw [Function.update_of_ne hzy, Function.update_of_ne hzx, hz]⟩
  | leave =>
    obtain ⟨y, hy⟩ := h s hs.1
    exact ⟨y, kept hy fun he => hs.2 (he ▸ hy)⟩
  | lose =>
    obtain ⟨y, hy⟩ := h s hs
    exact ⟨y, kept hy fun he => nomatch (he ▸ hc).symm.trans hy⟩

end Lib
