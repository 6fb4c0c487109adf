/-
# `Hla4.Lib.Tally` — the last report of each party

A coordinator may keep one standing a party in the place of the reports of a
poll: PENDING until the party reports, then what it last reported.  Anybody who
reports gets a standing.  When nobody is pending any more, the operation ends,
and ends well if nobody stands as not complete (`Tally.Serves`).

Such a TALLY forgets: a party that takes back what it reported, or reports
without being a member, changes the verdict.  As long as reports are IN TURN,
it says what the poll says (`Mirrors`).
-/
import Hla4.Lib.Poll
import Mathlib.Data.Option.Basic

namespace Lib

inductive Standing
  | pending
  | complete
  | notComplete
deriving DecidableEq

/-- The standing of a party that has reported. -/
def Standing.ofReport (well : Bool) : Standing := if well then complete else notComplete

abbrev Tally (A : Type) := A → Option Standing

namespace Tally

variable {A : Type} [DecidableEq A]

def ofMembers (members : List A) : Tally A := fun a => if a ∈ members then some .pending else none

theorem ofMembers_congr {l l' : List A} (h : ∀ a, a ∈ l ↔ a ∈ l') : ofMembers l = ofMembers l' := by
  funext a
  simp only [ofMembers, h]

def report (t : Tally A) (a : A) (well : Bool) : Tally A :=
  Function.update t a (some (.ofReport well))

/-- The parties that have not reported. -/
def waiting (t : Tally A) : Set A := { a | t a = some .pending }

def Settled (t : Tally A) : Prop := ∀ a, t a ≠ some .pending

def Clean (t : Tally A) : Prop := ∀ a, t a ≠ some .notComplete

/-- A report that counts: of a member, and not taking back a failure. -/
def InTurn (t : Tally A) (a : A) (well : Bool) : Prop :=
  t a ≠ none ∧ (well = true → t a ≠ some .notComplete)

instance (t : Tally A) (a : A) (well : Bool) : Decidable (t.InTurn a well) :=
  inferInstanceAs (Decidable (t a ≠ none ∧ (well = true → t a ≠ some .notComplete)))

/-- What the coordinator does when asked: the tally, if an operation is open,
before and after, and the verdict, if one is reached. -/
inductive Serves : Poll.Ask A → Option (Tally A) → Option (Tally A) → Option Bool → Prop
  | nothing (t? : Option (Tally A)) : Serves .nothing t? t? none
  | starts (members : List A) : Serves (.start members) none (some (ofMembers members)) none
  | busy (members : List A) (t : Tally A) : Serves (.start members) (some t) (some t) none
  | refuses (a : A) (well : Bool) : Serves (.report a well) none none none
  | goesOn {t : Tally A} {a : A} {well : Bool} (h : ¬ (t.report a well).Settled) :
      Serves (.report a well) (some t) (some (t.report a well)) none
  | ends {t : Tally A} {a : A} {well verdict : Bool} (h : (t.report a well).Settled)
      (hv : verdict = true ↔ (t.report a well).Clean) :
      Serves (.report a well) (some t) none (some verdict)
  | aborts (t? : Option (Tally A)) : Serves .abort t? none none

/-! ## Tally and poll -/

/-- The tally says of everybody what the poll says. -/
structure Mirrors (t : Tally A) (p : Poll A) : Prop where
  members : ∀ a, a ∈ p.members ↔ t a ≠ none
  reported : ∀ a, p.Reported a ↔ t a = some .complete ∨ t a = some .notComplete
  failed : ∀ a, p.Failed a ↔ t a = some .notComplete

namespace Mirrors

variable {t : Tally A} {p : Poll A} {a : A} {well : Bool}

theorem ofMembers (members : List A) : (ofMembers members).Mirrors (.ofMembers members) where
  members a := by
    show a ∈ members ↔ (if a ∈ members then _ else _) ≠ none
    simp
  reported a := by
    refine iff_of_false Poll.not_reported_ofMembers ?_
    rw [Tally.ofMembers]
    split <;> simp
  failed a := by
    refine iff_of_false Poll.not_failed_ofMembers ?_
    rw [Tally.ofMembers]
    split <;> simp

theorem report (h : t.Mirrors p) (hturn : t.InTurn a well) :
    (t.report a well).Mirrors (p.report a well) where
  members b := by
    rw [Tally.report, Function.update_apply]
    split
    · next hb =>
        subst hb
        exact iff_of_true ((h.members b).mpr hturn.1) (Option.some_ne_none _)
    · exact h.members b
  reported b := by
    rw [Poll.reported_report, Tally.report, Function.update_apply]
    split
    · next hb =>
        refine iff_of_true (.inl hb) ?_
        cases well with
        | true => exact .inl rfl
        | false => exact .inr rfl
    · next hb =>
        rw [h.reported]
        exact or_iff_right hb
  failed b := by
    rw [Poll.failed_report, Tally.report, Function.update_apply]
    split
    · next hb =>
        subst hb
        cases well with
        | true =>
          -- what was said badly is not taken back
          exact iff_of_false (fun hf => hf.elim (fun he => absurd he.2 (by decide))
            fun hf => hturn.2 rfl ((h.failed b).mp hf)) (by simp [Standing.ofReport])
        | false => exact iff_of_true (.inl ⟨rfl, rfl⟩) rfl
    · next hb =>
        rw [h.failed]
        exact or_iff_right fun he => hb he.1

omit [DecidableEq A] in
theorem settled_iff (h : t.Mirrors p) : t.Settled ↔ p.Complete := by
  constructor
  · intro hs a ha
    rw [h.reported]
    cases hst : t a with
    | none => exact absurd hst ((h.members a).mp ha)
    | some s =>
      cases s with
      | pending => exact absurd hst (hs a)
      | complete => exact .inl rfl
      | notComplete => exact .inr rfl
  · intro hc a hst
    have hmem := (h.members a).mpr (by rw [hst]; exact Option.some_ne_none _)
    rcases (h.reported a).mp (hc a hmem) with hr | hr
    · cases hst.symm.trans hr
    · cases hst.symm.trans hr

omit [DecidableEq A] in
theorem not_failed_of_clean (h : t.Mirrors p) (hc : t.Clean) (a : A) : ¬ p.Failed a :=
  fun hf => hc a ((h.failed a).mp hf)

end Mirrors

/-- The reports asked for are in turn. -/
def AskInTurn (t? : Option (Tally A)) : Poll.Ask A → Prop
  | .report a well => ∀ t ∈ t?, t.InTurn a well
  | _ => True

variable {q : Poll.Ask A} {t? t?' : Option (Tally A)} {v : Option Bool} {p? : Option (Poll A)}

/-- **A tally of reports in turn is the poll**, before and after. -/
theorem Serves.mirrors (h : Serves q t? t?' v) (hturn : AskInTurn t? q)
    (hm : Option.Rel Mirrors t? p?) : Option.Rel Mirrors t?' (Poll.after p? q) := by
  cases h with
  | nothing => exact hm
  | starts members =>
    cases hm
    exact .some (.ofMembers members)
  | busy =>
    cases hm with
    | some hm => exact .some hm
  | refuses =>
    cases hm
    exact .none
  | goesOn hs =>
    cases hm with
    | some hm =>
      have hm' := hm.report (hturn _ rfl)
      rw [Poll.after_member ((hm.members _).mpr (hturn _ rfl).1),
        if_neg (mt hm'.settled_iff.mpr hs)]
      exact .some hm'
  | ends hs =>
    cases hm with
    | some hm =>
      have hm' := hm.report (hturn _ rfl)
      rw [Poll.after_member ((hm.members _).mpr (hturn _ rfl).1),
        if_pos (hm'.settled_iff.mp hs)]
      exact .none
  | aborts => exact .none

/-- **A good verdict** is that of a complete poll in which nobody failed. -/
theorem Serves.verdict (h : Serves q t? t?' (some true)) (hturn : AskInTurn t? q)
    (hm : Option.Rel Mirrors t? p?) :
    ∃ p, Poll.completed p? q = some p ∧ p.Complete ∧ ∀ a, ¬ p.Failed a := by
  cases h with
  | ends hs hv =>
    cases hm with
    | some hm =>
      have hm' := hm.report (hturn _ rfl)
      have hc := hm'.settled_iff.mp hs
      refine ⟨_, ?_, hc, hm'.not_failed_of_clean (hv.mp rfl)⟩
      rw [Poll.completed_member ((hm.members _).mpr (hturn _ rfl).1), if_pos hc]

/-! ## Can an open operation still end? -/

/-- What is asked leaves somebody to wait for: an operation is started for
parties that are present, and not for nobody. -/
def StartsAwaited (present : Set A) : Poll.Ask A → Prop
  | .start members => members ≠ [] ∧ ∀ a ∈ members, a ∈ present
  | _ => True

theorem Serves.awaits {present : Set A} (h : Serves q t? t?' v) (hq : StartsAwaited present q)
    (ha : ∀ t ∈ t?, Awaits present t.waiting) : ∀ t ∈ t?', Awaits present t.waiting := by
  cases h with
  | nothing => exact ha
  | busy => exact ha
  | refuses => exact ha
  | starts members =>
    rintro t ⟨⟩
    have hwait : (ofMembers members).waiting = { a | a ∈ members } := by
      ext a
      show (if a ∈ members then some Standing.pending else none) = some .pending ↔ a ∈ members
      simp
    obtain ⟨a, hmem⟩ := List.exists_mem_of_ne_nil _ hq.1
    rw [hwait]
    exact ⟨⟨a, hmem⟩, hq.2⟩
  | @goesOn t a well hs =>
    rintro _ ⟨⟩
    refine (ha t rfl).shrink ?_ ?_
    · intro b hb
      have hb : Function.update t a (some (.ofReport well)) b = some .pending := hb
      rw [Function.update_apply] at hb
      split at hb
      · cases well <;> cases hb
      · exact hb
    · rw [Settled] at hs
      push Not at hs
      exact hs
  | ends | aborts => exact fun t ht => by cases ht

end Tally

end Lib
