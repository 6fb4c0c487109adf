/-
# `Hla4.Lib.Watch` — watching objects that come and go

A WATCHER is told when an object appears, when it changes and when it vanishes.
Whoever tells it keeps the set of objects the watcher knows, and may hold
changes and ends back in a queue, to be told later and in order.  The watcher
need not be reached: what is told to it then is lost.

    move        what happens
    appear i    `i`, not known so far, is announced
    hold i      .. or queued
    deliver     the first queued message is told
    vanish i    `i` is taken off the known ones, and its end is told ..
    defer i     .. or queued
    forget i    the watcher itself drops `i`

The log holds what the watcher was told, and beside it when an end was told or
queued and when the watcher dropped an object.  Two properties of the log are
kept by the moves:

  * **disciplined** — a watcher that is always reached is told of a change only
    after the object was announced, and a second time announced only after an
    end was made for it or it dropped the object;
  * **tidy** — after an object's end no change of it is told before a new
    announcement.  This needs the moves to be `Orderly`: no end overtakes a
    queued change, and no announcement is lost, or made while an end is queued.
-/
import Hla4.Lib.Run
import Mathlib.Data.List.Infix
import Mathlib.Data.Set.Insert

namespace Lib

/-! ## Order in a sequence -/

section Order

variable {A : Type} {p q s : A → Prop} {l : List A} {a : A}

/-- Every `p` has been followed by an `s`. -/
def Settled (p s : A → Prop) (l : List A) : Prop :=
  ∀ l₁ x l₂, l = l₁ ++ x :: l₂ → p x → ∃ z ∈ l₂, s z

/-- Every `q` was preceded by a `p`. -/
def Preceded (p q : A → Prop) (l : List A) : Prop :=
  ∀ l₁ y l₂, l = l₁ ++ y :: l₂ → q y → ∃ x ∈ l₁, p x

/-- Between a `p` and a later `q` there is an `s`. -/
def Between (p q s : A → Prop) (l : List A) : Prop :=
  ∀ l₁ x l₂ y l₃, l = l₁ ++ x :: (l₂ ++ y :: l₃) → p x → q y → ∃ z ∈ l₂, s z

theorem append_singleton_cases {l₁ l₂ : List A} {x : A} (h : l ++ [a] = l₁ ++ x :: l₂) :
    (l₂ = [] ∧ x = a ∧ l₁ = l) ∨ ∃ l₂', l₂ = l₂' ++ [a] ∧ l = l₁ ++ x :: l₂' := by
  rcases List.eq_nil_or_concat l₂ with rfl | ⟨l₂', b, rfl⟩
  · obtain ⟨rfl, hx⟩ := List.append_inj' h rfl
    exact .inl ⟨rfl, (List.cons.inj hx).1.symm, rfl⟩
  · rw [List.concat_eq_append, ← List.cons_append, ← List.append_assoc] at h
    obtain ⟨hl, hb⟩ := List.append_inj' h rfl
    cases hb
    exact .inr ⟨l₂', List.concat_eq_append, hl⟩

theorem mem_middle {l₁ l₂ : List A} {x : A} (h : x ∈ l₁ ++ a :: l₂) : x = a ∨ x ∈ l₁ ++ l₂ :=
  List.mem_cons.mp (List.perm_middle.mem_iff.mp h)

theorem settled_nil : Settled p s ([] : List A) := fun _ _ _ h => by simp at h

theorem preceded_nil : Preceded p q ([] : List A) := fun _ _ _ h => by simp at h

theorem between_nil : Between p q s ([] : List A) := fun _ _ _ _ _ h => by simp at h

theorem Settled.append (h : Settled p s l) (ha : ¬ p a) : Settled p s (l ++ [a]) := by
  intro l₁ x l₂ hl hx
  rcases append_singleton_cases hl with ⟨_, rfl, _⟩ | ⟨l₂', rfl, hl'⟩
  · exact absurd hx ha
  · obtain ⟨z, hz, hs⟩ := h l₁ x l₂' hl' hx
    exact ⟨z, List.mem_append_left _ hz, hs⟩

theorem settled_append (hs : s a) (ha : ¬ p a) : Settled p s (l ++ [a]) := by
  intro l₁ x l₂ hl hx
  rcases append_singleton_cases hl with ⟨_, rfl, _⟩ | ⟨l₂', rfl, _⟩
  · exact absurd hx ha
  · exact ⟨a, by simp, hs⟩

theorem Preceded.append (h : Preceded p q l) (ha : q a → ∃ x ∈ l, p x) :
    Preceded p q (l ++ [a]) := by
  intro l₁ y l₂ hl hy
  rcases append_singleton_cases hl with ⟨_, rfl, rfl⟩ | ⟨l₂', _, hl⟩
  · exact ha hy
  · exact h l₁ y l₂' hl hy

theorem Between.append (h : Between p q s l) (ha : q a → Settled p s l) :
    Between p q s (l ++ [a]) := by
  intro l₁ x l₂ y l₃ hl hx hy
  rw [← List.cons_append, ← List.append_assoc] at hl
  rcases append_singleton_cases hl with ⟨_, rfl, hlast⟩ | ⟨l₃', _, hl'⟩
  · exact ha hy l₁ x l₂ hlast.symm hx
  · rw [List.append_assoc, List.cons_append] at hl'
    exact h l₁ x l₂ y l₃' hl' hx hy

theorem settled_iff_tails :
    Settled p s l ↔ ∀ t ∈ l.tails, ∀ x ∈ t.head?, p x → ∃ z ∈ t.tail, s z := by
  constructor
  · intro h t ht x hx hp
    obtain ⟨l₁, rfl⟩ := (List.mem_tails _ _).mp ht
    cases t with
    | nil => cases hx
    | cons y l₂ =>
      cases hx
      exact h l₁ _ l₂ rfl hp
  · rintro h l₁ x l₂ rfl hp
    exact h (x :: l₂) ((List.mem_tails _ _).mpr (List.suffix_append _ _)) x rfl hp

instance [DecidablePred p] [DecidablePred s] : Decidable (Settled p s l) :=
  decidable_of_iff _ settled_iff_tails.symm

end Order

/-! ## Watchers and moves -/

/-- What is logged about an object. -/
inductive News (I : Type)
  | appears (i : I)
  | changes (i : I)
  | vanishes (i : I)
  /-- an end was told just now, or queued -/
  | ends (i : I)
  /-- the watcher dropped the object -/
  | forgets (i : I)
deriving DecidableEq

/-- A message held back. -/
inductive Held (I : Type)
  | change (i : I)
  | vanish (i : I)
deriving DecidableEq

def Held.news {I : Type} : Held I → News I
  | change i => .changes i
  | vanish i => .vanishes i

structure Watcher (I : Type) where
  log : List (News I)
  known : Set I
  queue : List (Held I)

/-- A move; a queued message is given with what is in front of it and behind. -/
inductive Watcher.Move (I : Type)
  | appear (i : I)
  | change (i : I)
  | hold (i : I) (front behind : List (Held I))
  | deliver (m : Held I) (rest : List (Held I))
  | vanish (i : I)
  | defer (i : I) (front behind : List (Held I))
  | forget (i : I)

variable {I : Type}

/-- When a move is possible. -/
def Watcher.Move.Allowed (w : Watcher I) : Watcher.Move I → Prop
  | appear i => i ∉ w.known
  | change i => i ∈ w.known
  | hold i front behind => i ∈ w.known ∧ w.queue = front ++ behind
  | deliver m rest => w.queue = m :: rest
  | vanish _ => True
  | defer _ front behind => w.queue = front ++ behind
  | forget _ => True

namespace Watcher

/-- The log after telling something, to a watcher that is reached or not. -/
def tell (seen : Bool) (w : Watcher I) (news : List (News I)) : List (News I) :=
  if seen then w.log ++ news else w.log

def after (seen : Bool) (w : Watcher I) : Move I → Watcher I
  | .appear i => { w with log := w.tell seen [.appears i], known := insert i w.known }
  | .change i => { w with log := w.tell seen [.changes i] }
  | .hold i front behind => { w with queue := front ++ .change i :: behind }
  | .deliver m rest => { w with log := w.tell seen [m.news], queue := rest }
  | .vanish i => { w with log := w.tell seen [.vanishes i, .ends i], known := w.known \ {i} }
  | .defer i front behind =>
    ⟨w.log ++ [.ends i], w.known \ {i}, front ++ .vanish i :: behind⟩
  | .forget i => { w with log := w.log ++ [.forgets i], known := w.known \ {i} }

/-- From `w` to `w'` by possible moves that meet `ok`. -/
def Comes (seen : Bool) (ok : Watcher I → Move I → Prop) (w w' : Watcher I) : Prop :=
  ∃ ms, StepsMeet (after seen) (fun w m => m.Allowed w ∧ ok w m) w ms ∧ run (after seen) w ms = w'

namespace Comes

variable {seen : Bool} {ok : Watcher I → Move I → Prop} {w w' w'' : Watcher I}

theorem refl : Comes seen ok w w := ⟨[], trivial, rfl⟩

theorem of_eq (h : w = w') : Comes seen ok w w' := h ▸ refl

theorem move (m : Move I) (ha : m.Allowed w) (hok : ok w m) (h : w.after seen m = w') :
    Comes seen ok w w' :=
  ⟨[m], ⟨⟨ha, hok⟩, trivial⟩, h⟩

theorem trans (h : Comes seen ok w w') (h' : Comes seen ok w' w'') : Comes seen ok w w'' := by
  obtain ⟨ms, hms, rfl⟩ := h
  obtain ⟨ms', hms', rfl⟩ := h'
  exact ⟨ms ++ ms', stepsMeet_append.mpr ⟨hms, hms'⟩, run_append ..⟩

theorem keeps {P : Watcher I → Prop}
    (hk : ∀ w m, P w → m.Allowed w ∧ ok w m → P (w.after seen m)) (h : Comes seen ok w w')
    (hw : P w) : P w' := by
  obtain ⟨ms, hms, rfl⟩ := h
  exact hms.invariant hk hw

/-- Whoever is reached is told of everything it comes to know. -/
theorem appears_of_known (h : Comes true ok w w') {i : I} (hi : i ∈ w'.known) :
    i ∈ w.known ∨ .appears i ∈ w'.log := by
  refine h.keeps (P := fun w' => ∀ i ∈ w'.known, i ∈ w.known ∨ .appears i ∈ w'.log) ?_
    (fun _ hi => .inl hi) i hi
  intro v m hv _ j hj
  have old : j ∈ v.known → j ∈ w.known ∨ .appears j ∈ (v.after true m).log := by
    intro hj
    refine (hv j hj).imp id fun hlog => ?_
    cases m <;> first | exact List.mem_append_left _ hlog | exact hlog
  cases m with
  | appear =>
    rcases Set.mem_insert_iff.mp hj with rfl | hj
    · exact .inr (List.mem_append_right _ (List.mem_singleton_self _))
    · exact old hj
  | vanish | defer | forget => exact old hj.1
  | change => exact old hj
  | hold => exact old hj
  | deliver => exact old hj

/-- Whoever is reached, and was told nothing so far, is told of a change, or comes
to know an object or to have a change of it queued, only after the announcement
— unless it knew the object from the start, or had a change of it queued. -/
theorem introduced (h : Comes true ok w w') (hlog : w.log = []) {i : I} (hi : i ∉ w.known)
    (hq : .change i ∉ w.queue) :
    Preceded (· = .appears i) (· = .changes i) w'.log ∧
      (i ∈ w'.known ∨ .change i ∈ w'.queue → .appears i ∈ w'.log) := by
  refine h.keeps (P := fun v => Preceded (· = .appears i) (· = .changes i) v.log ∧
    (i ∈ v.known ∨ .change i ∈ v.queue → .appears i ∈ v.log)) ?_
    ⟨hlog ▸ preceded_nil, fun hor => hor.elim (absurd · hi) (absurd · hq)⟩
  rintro v m ⟨hpre, hin⟩ ⟨hm, _⟩
  -- a message at the end of the log
  have tells : ∀ n : News I, (n = .changes i → .appears i ∈ v.log) →
      Preceded (· = .appears i) (· = .changes i) (v.log ++ [n]) :=
    fun n hn => hpre.append fun he => ⟨_, hn he, rfl⟩
  have logged : ∀ {n : List (News I)}, i ∈ v.known ∨ .change i ∈ v.queue →
      .appears i ∈ v.log ++ n :=
    fun hor => List.mem_append_left _ (hin hor)
  cases m with
  | appear =>
    refine ⟨tells _ (fun he => by cases he), ?_⟩
    rintro (hk | hk)
    · rcases Set.mem_insert_iff.mp hk with rfl | hk
      · exact List.mem_append_right _ (List.mem_singleton_self _)
      · exact logged (.inl hk)
    · exact logged (.inr hk)
  | change =>
    refine ⟨tells _ fun he => ?_, logged⟩
    cases he
    exact hin (.inl hm)
  | hold =>
    obtain ⟨hk, hqueue⟩ := hm
    refine ⟨hpre, ?_⟩
    rintro (hor | hor)
    · exact hin (.inl hor)
    · rcases mem_middle hor with he | hor
      · cases he
        exact hin (.inl hk)
      · exact hin (.inr (hqueue ▸ hor))
  | deliver k rest =>
    have hqueue : v.queue = k :: rest := hm
    refine ⟨tells _ fun he => ?_, ?_⟩
    · cases k with
      | vanish => cases he
      | change =>
        cases he
        exact hin (.inr (hqueue ▸ List.mem_cons_self))
    · exact fun hor => logged (hor.imp id fun hr => hqueue ▸ List.mem_cons_of_mem _ hr)
  | vanish k =>
    refine ⟨?_, fun hor => logged (hor.imp And.left id)⟩
    show Preceded _ _ (v.log ++ [.vanishes k, .ends k])
    rw [List.append_cons]
    exact (tells _ fun he => by cases he).append fun he => by cases he
  | defer k front behind =>
    have hqueue : v.queue = front ++ behind := hm
    refine ⟨tells _ (fun he => by cases he), fun hor => logged (hor.imp And.left ?_)⟩
    exact fun hr => hqueue ▸ (mem_middle hr).resolve_left (by simp)
  | forget => exact ⟨tells _ (fun he => by cases he), fun hor => logged (hor.imp And.left id)⟩

end Comes

/-- A guard on announcements and ends only. -/
structure Lenient (ok : Watcher I → Move I → Prop) : Prop where
  change : ∀ w i, ok w (.change i)
  hold : ∀ w i front behind, ok w (.hold i front behind)
  deliver : ∀ w m rest, ok w (.deliver m rest)
  forget : ∀ w i, ok w (.forget i)

theorem lenient_true : Lenient fun (_ : Watcher I) _ => True :=
  ⟨fun _ _ => trivial, fun _ _ _ _ => trivial, fun _ _ _ => trivial, fun _ _ => trivial⟩

theorem Lenient.deliverAll {seen : Bool} {ok : Watcher I → Move I → Prop} (hok : Lenient ok)
    (l : List (News I)) (known : Set I) (front rest : List (Held I)) :
    Comes seen ok ⟨l, known, front ++ rest⟩
      ⟨l ++ (if seen = true then front.map Held.news else []), known, rest⟩ := by
  induction front generalizing l with
  | nil =>
    refine .of_eq ?_
    cases seen <;> simp
  | cons m front ih =>
    refine .trans (.move (.deliver m (front ++ rest)) rfl (hok.deliver ..) rfl) ?_
    cases seen with
    | false => exact ih l
    | true =>
      have hrest := ih (l ++ [m.news])
      rw [List.append_assoc] at hrest
      exact hrest

/-! ## Discipline -/

/-- An end was made for the watcher, or it dropped the object. -/
def Closes (i : I) (n : News I) : Prop := n = .ends i ∨ n = .forgets i

/-- What was told so far, in view of what is known and queued. -/
structure Disciplined (w : Watcher I) : Prop where
  known : ∀ i ∈ w.known, .appears i ∈ w.log
  queued : ∀ i, .change i ∈ w.queue → .appears i ∈ w.log
  closed : ∀ i ∉ w.known, Settled (· = .appears i) (Closes i) w.log
  first : ∀ i, Preceded (· = .appears i) (· = .changes i) w.log
  apart : ∀ i, Between (· = .appears i) (· = .appears i) (Closes i) w.log

namespace Disciplined

variable {w : Watcher I} {i : I}

theorem start : Disciplined (⟨[], ∅, []⟩ : Watcher I) where
  known := fun _ h => h.elim
  queued := fun _ h => by cases h
  closed := fun _ _ => settled_nil
  first := fun _ => preceded_nil
  apart := fun _ => between_nil

theorem appear (h : w.Disciplined) (hi : i ∉ w.known) :
    Disciplined { w with log := w.log ++ [.appears i], known := insert i w.known } where
  known := by
    rintro j (rfl | hj)
    · exact List.mem_append_right _ (List.mem_singleton_self _)
    · exact List.mem_append_left _ (h.known j hj)
  queued := fun j hj => List.mem_append_left _ (h.queued j hj)
  closed := by
    intro j hj
    rw [Set.mem_insert_iff, not_or] at hj
    refine (h.closed j hj.2).append ?_
    rintro ⟨⟩
    exact hj.1 rfl
  first := fun j => (h.first j).append fun he => by cases he
  apart := fun j => (h.apart j).append fun he => by
    cases he
    exact h.closed i hi

theorem tell {n : News I} {queue : List (Held I)} (h : w.Disciplined) (ha : ∀ j, n ≠ .appears j)
    (hc : ∀ j, n = .changes j → .appears j ∈ w.log)
    (hq : ∀ j, .change j ∈ queue → .change j ∈ w.queue) :
    Disciplined { w with log := w.log ++ [n], queue := queue } where
  known := fun j hj => List.mem_append_left _ (h.known j hj)
  queued := fun j hj => List.mem_append_left _ (h.queued j (hq j hj))
  closed := fun j hj => (h.closed j hj).append (ha j)
  first := fun j => (h.first j).append fun he => ⟨_, hc j he, rfl⟩
  apart := fun j => (h.apart j).append fun he => absurd he (ha j)

theorem change {queue : List (Held I)} (h : w.Disciplined) (hi : .appears i ∈ w.log)
    (hq : ∀ j, .change j ∈ queue → .change j ∈ w.queue) :
    Disciplined { w with log := w.log ++ [.changes i], queue := queue } :=
  h.tell (by simp) (fun _ he => News.changes.inj he ▸ hi) hq

theorem hold {queue : List (Held I)} (h : w.Disciplined) (hi : i ∈ w.known)
    (hq : ∀ j, .change j ∈ queue → j = i ∨ .change j ∈ w.queue) :
    Disciplined { w with queue := queue } where
  known := h.known
  queued := fun j hj => (hq j hj).elim (fun he => he ▸ h.known i hi) (h.queued j)
  closed := h.closed
  first := h.first
  apart := h.apart

theorem vanish {queue : List (Held I)} (h : w.Disciplined)
    (hq : ∀ j, .change j ∈ queue → .change j ∈ w.queue) :
    Disciplined { w with log := w.log ++ [.vanishes i], queue := queue } :=
  h.tell (by simp) (by simp) hq

theorem close {n : News I} {known : Set I} {queue : List (Held I)} (h : w.Disciplined)
    (hn : Closes i n) (hk : ∀ j ∈ known, j ∈ w.known) (hk' : ∀ j ∉ known, j ∉ w.known ∨ j = i)
    (hq : ∀ j, .change j ∈ queue → .change j ∈ w.queue) :
    Disciplined ⟨w.log ++ [n], known, queue⟩ := by
  have hother : ∀ j, n ≠ .appears j ∧ n ≠ .changes j := by
    intro j
    rcases hn with rfl | rfl
    · exact ⟨by simp, by simp⟩
    · exact ⟨by simp, by simp⟩
  exact {
    known := fun j hj => List.mem_append_left _ (h.known j (hk j hj))
    queued := fun j hj => List.mem_append_left _ (h.queued j (hq j hj))
    closed := by
      intro j hj
      rcases hk' j hj with hj | rfl
      · exact (h.closed j hj).append (hother j).1
      · exact settled_append hn (hother j).1
    first := fun j => (h.first j).append fun he => absurd he (hother j).2
    apart := fun j => (h.apart j).append fun he => absurd he (hother j).1 }

theorem mem_diff_or {known : Set I} {j : I} (hj : j ∉ known \ {i}) : j ∉ known ∨ j = i := by
  by_cases hji : j = i
  · exact .inr hji
  · exact .inl fun hk => hj ⟨hk, hji⟩

/-- **The moves keep the discipline** of a watcher that is reached. -/
theorem after (h : w.Disciplined) (m : Move I) (hm : m.Allowed w) : (w.after true m).Disciplined := by
  cases m with
  | appear => exact h.appear hm
  | change i => exact h.change (h.known i hm) fun _ hj => hj
  | hold =>
    obtain ⟨hi, hq⟩ := hm
    exact h.hold hi fun j hj => (mem_middle hj).imp Held.change.inj (hq ▸ ·)
  | deliver m rest =>
    have hq : w.queue = m :: rest := hm
    have hrest : ∀ j, .change j ∈ rest → .change j ∈ w.queue :=
      fun j hj => hq ▸ List.mem_cons_of_mem _ hj
    cases m with
    | change i => exact h.change (h.queued i (hq ▸ List.mem_cons_self)) hrest
    | vanish => exact h.vanish hrest
  | vanish i =>
    show Disciplined ⟨w.log ++ [.vanishes i, .ends i], _, _⟩
    rw [List.append_cons]
    have htold : Disciplined { w with log := w.log ++ [.vanishes i] } := h.vanish fun _ hj => hj
    exact htold.close (.inl rfl) (fun _ hj => hj.1) (fun _ => mem_diff_or) fun _ hj => hj
  | defer i front behind =>
    have hq : w.queue = front ++ behind := hm
    refine h.close (.inl rfl) (fun _ hj => hj.1) (fun _ => mem_diff_or) ?_
    exact fun j hj => hq ▸ (mem_middle hj).resolve_left (by simp)
  | forget => exact h.close (.inr rfl) (fun _ hj => hj.1) (fun _ => mem_diff_or) fun _ hj => hj

end Disciplined

/-! ## Tidiness -/

/-- Every end of the object was followed by a new announcement. -/
def Back (l : List (News I)) (i : I) : Prop := Settled (· = .vanishes i) (· = .appears i) l

instance [DecidableEq I] (l : List (News I)) (i : I) : Decidable (Back l i) :=
  inferInstanceAs (Decidable (Settled _ _ l))

structure Tidy (w : Watcher I) : Prop where
  known : ∀ i ∈ w.known, Back w.log i
  queued : ∀ i, .change i ∈ w.queue → Back w.log i
  /-- no change behind an end -/
  behind : w.queue.Pairwise fun x y => ∀ i, x = .vanish i → y ≠ .change i
  unknown : ∀ i, .vanish i ∈ w.queue → i ∉ w.known
  silent : ∀ i, Between (· = .vanishes i) (· = .changes i) (· = .appears i) w.log

end Watcher

/-- No end overtakes a queued change; no announcement is lost that had to be
made, and none is made while an end is queued. -/
def Watcher.Move.Orderly (seen : Bool) (w : Watcher I) : Watcher.Move I → Prop
  | appear i => .vanish i ∉ w.queue ∧ (seen = true ∨ Watcher.Back w.log i)
  | vanish i => seen = true → .change i ∉ w.queue
  | defer i _ behind => .change i ∉ behind
  | _ => True

instance [DecidableEq I] (seen : Bool) (w : Watcher I) (m : Watcher.Move I) :
    Decidable (m.Orderly seen w) :=
  match m with
  | .appear i => inferInstanceAs
      (Decidable (.vanish i ∉ w.queue ∧ (seen = true ∨ Watcher.Back w.log i)))
  | .change .. | .hold .. | .deliver .. => .isTrue trivial
  | .vanish i => inferInstanceAs (Decidable (seen = true → .change i ∉ w.queue))
  | .defer i _ behind => inferInstanceAs (Decidable (.change i ∉ behind))
  | .forget _ => .isTrue trivial

theorem Watcher.lenient_orderly (seen : Bool) :
    Watcher.Lenient fun (w : Watcher I) (m : Watcher.Move I) => m.Orderly seen w :=
  ⟨fun _ _ => trivial, fun _ _ _ _ => trivial, fun _ _ _ => trivial, fun _ _ => trivial⟩

namespace Watcher.Tidy

variable {w : Watcher I} {i : I}

theorem start : Tidy (⟨[], ∅, []⟩ : Watcher I) where
  known := fun _ h => h.elim
  queued := fun _ h => by cases h
  behind := .nil
  unknown := fun _ h => by cases h
  silent := fun _ => between_nil

/-- Logging something: an end only when nothing is left of the object, a change
only when the object is back. -/
theorem tell {n : News I} (h : w.Tidy)
    (hv : ∀ j, n = .vanishes j → j ∉ w.known ∧ .change j ∉ w.queue)
    (hc : ∀ j, n = .changes j → Back w.log j) : Tidy { w with log := w.log ++ [n] } where
  known := fun j hj => (h.known j hj).append fun he => (hv j he).1 hj
  queued := fun j hj => (h.queued j hj).append fun he => (hv j he).2 hj
  behind := h.behind
  unknown := h.unknown
  silent := fun j => (h.silent j).append (hc j)

theorem log {n : News I} (h : w.Tidy) (hv : ∀ j, n ≠ .vanishes j) (hc : ∀ j, n ≠ .changes j) :
    Tidy { w with log := w.log ++ [n] } :=
  h.tell (fun j he => absurd he (hv j)) fun j he => absurd he (hc j)

theorem change (h : w.Tidy) (hi : Back w.log i) : Tidy { w with log := w.log ++ [.changes i] } :=
  h.tell (by simp) fun _ he => News.changes.inj he ▸ hi

theorem vanish (h : w.Tidy) (hk : i ∉ w.known) (hq : .change i ∉ w.queue) :
    Tidy { w with log := w.log ++ [.vanishes i] } :=
  h.tell (fun _ he => News.vanishes.inj he ▸ ⟨hk, hq⟩) (by simp)

theorem shrink {known : Set I} {queue : List (Held I)} (h : w.Tidy) (hk : known ⊆ w.known)
    (hq : queue.Sublist w.queue) : Tidy ⟨w.log, known, queue⟩ where
  known := fun j hj => h.known j (hk hj)
  queued := fun j hj => h.queued j (hq.subset hj)
  behind := h.behind.sublist hq
  unknown := fun j hj hj' => h.unknown j (hq.subset hj) (hk hj')
  silent := h.silent

theorem learn (h : w.Tidy) (hb : Back w.log i) (hq : .vanish i ∉ w.queue) :
    Tidy { w with known := insert i w.known } where
  known := by
    rintro j (rfl | hj)
    · exact hb
    · exact h.known j hj
  queued := h.queued
  behind := h.behind
  unknown := by
    rintro j hj (rfl | hj')
    · exact hq hj
    · exact h.unknown j hj hj'
  silent := h.silent

theorem pairwise_insert {R : Held I → Held I → Prop} {front behind : List (Held I)} {m : Held I}
    (h : (front ++ behind).Pairwise R) (hf : ∀ x ∈ front, R x m) (hb : ∀ y ∈ behind, R m y) :
    (front ++ m :: behind).Pairwise R := by
  rw [List.pairwise_append] at h ⊢
  obtain ⟨h₁, h₂, h₃⟩ := h
  refine ⟨h₁, List.pairwise_cons.mpr ⟨hb, h₂⟩, ?_⟩
  intro x hx y hy
  rcases List.mem_cons.mp hy with rfl | hy
  · exact hf x hx
  · exact h₃ x hx y hy

/-- A message put into the queue: a change of a known object, or an end with no
change behind it. -/
theorem enqueue {front behind : List (Held I)} {m : Held I} (h : w.Tidy)
    (hq : w.queue = front ++ behind) (hc : ∀ j, m = .change j → j ∈ w.known)
    (hv : ∀ j, m = .vanish j → j ∉ w.known ∧ .change j ∉ behind) :
    Tidy { w with queue := front ++ m :: behind } where
  known := h.known
  queued := fun j hj => (mem_middle hj).elim (fun he => h.known j (hc j he.symm))
    fun hj => h.queued j (hq ▸ hj)
  behind := by
    refine pairwise_insert (hq ▸ h.behind) ?_ ?_
    · -- a known object has no end in the queue
      rintro x hx j rfl he
      exact h.unknown j (hq ▸ List.mem_append_left _ hx) (hc j he)
    · rintro y hy j he rfl
      exact (hv j he).2 hy
  unknown := fun j hj => (mem_middle hj).elim (fun he => (hv j he.symm).1)
    fun hj => h.unknown j (hq ▸ hj)
  silent := h.silent

/-- **Orderly moves keep a watcher tidy**, reached or not. -/
theorem after {seen : Bool} (h : w.Tidy) (m : Move I) (hm : m.Allowed w) (ho : m.Orderly seen w) :
    (w.after seen m).Tidy := by
  have hless : ∀ j : I, w.known \ {j} ⊆ w.known := fun _ _ hk => hk.1
  have hnot : ∀ j : I, j ∉ w.known \ {j} := fun _ hk => hk.2 rfl
  cases m with
  | appear i =>
    obtain ⟨hq, hback⟩ := ho
    cases seen with
    | false => exact h.learn (hback.resolve_left Bool.false_ne_true) hq
    | true =>
      have hlog := h.log (n := .appears i) (fun _ => (by simp)) fun _ => (by simp)
      exact hlog.learn (settled_append rfl (by simp)) hq
  | change i =>
    cases seen with
    | false => exact h
    | true => exact h.change (h.known i hm)
  | hold =>
    exact h.enqueue hm.2 (fun _ he => Held.change.inj he ▸ hm.1) (by simp)
  | deliver m rest =>
    have hq : w.queue = m :: rest := hm
    have hrest : Tidy { w with queue := rest } :=
      h.shrink subset_rfl (hq ▸ List.sublist_cons_self m rest)
    cases seen with
    | false => exact hrest
    | true =>
      have hbehind := h.behind
      rw [hq, List.pairwise_cons] at hbehind
      cases m with
      | change i => exact hrest.change (h.queued i (hq ▸ List.mem_cons_self))
      | vanish i =>
        refine hrest.vanish (h.unknown i (hq ▸ List.mem_cons_self)) ?_
        exact fun hc => hbehind.1 _ hc i rfl rfl
  | vanish i =>
    have hdrop : Tidy { w with known := w.known \ {i} } := h.shrink (hless i) (List.Sublist.refl _)
    cases seen with
    | false => exact hdrop
    | true =>
      show Tidy ⟨w.log ++ [.vanishes i, .ends i], _, _⟩
      rw [List.append_cons]
      exact (hdrop.vanish (hnot i) (ho rfl)).log (by simp) (by simp)
  | defer i front behind =>
    have hdrop : Tidy { w with known := w.known \ {i} } := h.shrink (hless i) (List.Sublist.refl _)
    have hq : w.queue = front ++ behind := hm
    have hdefer := hdrop.enqueue (m := .vanish i) hq (by simp)
      fun _ he => Held.vanish.inj he ▸ ⟨hnot i, ho⟩
    exact hdefer.log (fun _ => (by simp)) fun _ => (by simp)
  | forget i =>
    have hdrop : Tidy { w with known := w.known \ {i} } := h.shrink (hless i) (List.Sublist.refl _)
    exact hdrop.log (fun _ => (by simp)) fun _ => (by simp)

end Watcher.Tidy

end Lib
