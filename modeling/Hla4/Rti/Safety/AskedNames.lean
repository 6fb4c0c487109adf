/-
# `Hla4.Rti.Safety.AskedNames` — names asked for, section by section

A join that asks for a name compares it with the names in use, releases the
lock, and enters the federate under another.  Two joins that ask for one name
can both find it free and both enter (`asked_names_clash`).  Where a name is not
checked between another call's check of it and its entry, of the federates of a
federation no two asked for the same name (`asked_names_distinct`).

A name that the server made up is not compared with anything, and not considered
here; see `Hla4.Rti.Safety.Names`.
-/
import Hla4.Rti.Safety.Joining

namespace Hla4

open Lib

/-! ## Names asked for -/

namespace JoinPhase

/-- The name that the next section compares with those in use. -/
def checks? : JoinPhase → Option (FedRef × String)
  | checking _ name r _ => some (r, name)
  | _ => none

/-- The name that was found free and is not yet entered. -/
def claim? : JoinPhase → Option (FedRef × String)
  | entering _ m true => some (m.federation, m.federateName)
  | _ => none

end JoinPhase

/-- Who is under a handle: the name, and whether it was asked for. -/
def JoinShared.entry (s : JoinShared) (r : FedRef) (h : FederateHandle) : Option (String × Bool) :=
  ((s.node.heap r).federates.lookup h).map fun fs => (fs.name, s.asked r h)

/-- No two federates of a federation asked for one name. -/
def JoinShared.NamesApart (s : JoinShared) : Prop :=
  ∀ r h h' name, s.entry r h = some (name, true) → s.entry r h' = some (name, true) → h = h'

/-- A name that a call has found free is not that of a federate that asked for
it. -/
def JoinSession.ClaimsFree (s : JoinShared) (p : JoinSession) : Prop :=
  ∀ r name, p.phase.claim? = some (r, name) → ∀ h, s.entry r h ≠ some (name, true)

section Names

variable {s : JoinShared} {p : JoinSession} {x : JoinInput} {r : FedRef} {h : FederateHandle}

theorem lookup_setFederation (n : Node) (r r' : FedRef) (fed : Federation) (h : FederateHandle) :
    ((n.setFederation r' fed).heap r).federates.lookup h =
      if r = r' then fed.federates.lookup h else (n.heap r).federates.lookup h := by
  rw [heap_setFederation]
  split <;> rfl

/-- A federation is replaced: an entry is as it was, if it is so there, or it is
gone. -/
theorem entry_setFederation {r' : FedRef} {fed : Federation}
    (hfed : fed.federates.lookup h = (s.node.heap r').federates.lookup h ∨
      fed.federates.lookup h = none) :
    (s.setNode (s.node.setFederation r' fed)).entry r h = s.entry r h ∨
      (s.setNode (s.node.setFederation r' fed)).entry r h = none := by
  have hentry : (s.setNode (s.node.setFederation r' fed)).entry r h =
      (if r = r' then fed.federates.lookup h else (s.node.heap r).federates.lookup h).map
        fun fs => (fs.name, s.asked r h) :=
    congrArg (Option.map _) (lookup_setFederation s.node r r' fed h)
  rw [hentry, JoinShared.entry]
  split
  · next hr =>
      subst hr
      rcases hfed with hsame | hnone
      · exact .inl (by rw [hsame])
      · exact .inr (by rw [hnone]; rfl)
  · exact .inl rfl

theorem entry_start (env : CallEnv) (req : FederationRequest) :
    (s.start p env req).1.entry r h = s.entry r h ∨ (s.start p env req).1.entry r h = none := by
  cases req with
  | createFederationExecution form name modules =>
    rw [JoinShared.start]
    cases hc : s.node.createFederation env name modules with
    | error => exact .inl rfl
    | ok =>
      obtain ⟨fom, _, hn'⟩ := bind_eq_ok.mp hc
      cases hn'
      exact entry_setFederation (.inr rfl)
  | destroyFederationExecution name =>
    rw [JoinShared.start]
    cases hd : s.node.destroyFederation name with
    | error => exact .inl rfl
    | ok =>
      obtain rfl := Node.destroyFederation_ok hd
      exact .inl rfl
  | joinFederationExecution =>
    rw [JoinShared.start]
    split
    · exact .inl rfl
    · split <;> exact .inl rfl
  | resignFederationExecution =>
    rw [JoinShared.start]
    split <;> exact .inl rfl
  | listFederationExecutionMembers | listFederationExecutions => exact .inl rfl

/-- What a section does to an entry: nothing, or it removes it, or it enters
the federate of the join. -/
theorem entry_sect (s : JoinShared) (p : JoinSession) (x : JoinInput) (r : FedRef)
    (h : FederateHandle) :
    ((s.sect p x).1.entry r h = s.entry r h ∨ (s.sect p x).1.entry r h = none) ∨
      ∃ form m asked, p.phase = .entering form m asked ∧ m.place = (r, h) ∧
        (s.sect p x).1.entry r h = some (m.federateName, asked) := by
  obtain ⟨session, phase⟩ := p
  cases phase with
  | idle =>
    cases x with
    | none => exact .inl (.inl rfl)
    | some call => exact .inl (entry_start call.1 call.2)
  | drawing => exact .inl (entry_setFederation (.inl rfl))
  | checking =>
    rw [JoinShared.sect]
    dsimp only
    split <;> exact .inl (.inl rfl)
  | entering form m asked =>
    have hentry : (s.sect ⟨session, .entering form m asked⟩ x).1.entry r h =
        if r = m.federation ∧ h = m.federateHandle then some (m.federateName, asked)
        else s.entry r h := by
      show (((s.node.setFederation m.federation _).heap r).federates.lookup h).map
        (fun fs => (fs.name, if r = m.federation ∧ h = m.federateHandle then asked
          else s.asked r h)) = _
      rw [lookup_setFederation, Federation.enterAs, HashMap.lookup_insert_eq]
      by_cases hr : r = m.federation
      · subst hr
        by_cases hh : h = m.federateHandle
        · simp [hh, FederateSession.new]
        · simp [hh, JoinShared.entry]
      · simp [hr, JoinShared.entry]
    by_cases hrh : r = m.federation ∧ h = m.federateHandle
    · refine .inr ⟨form, m, asked, rfl, by rw [hrh.1, hrh.2], ?_⟩
      rw [hentry, if_pos hrh]
    · exact .inl (.inl (by rw [hentry, if_neg hrh]))
  | seating | returning => exact .inl (.inl rfl)
  | removing =>
    refine .inl (entry_setFederation ?_)
    rw [Federation.lookup_leave]
    split
    · exact .inr rfl
    · exact .inl rfl

/-- A name is claimed by a check that found it free. -/
theorem claim_sect {c : FedRef × String} (hc : (s.sect p x).2.phase.claim? = some c) :
    p.phase.checks? = some c ∧ (s.sect p x).1 = s ∧
      ∀ fs ∈ (s.node.heap c.1).federates.values, fs.name ≠ c.2 := by
  obtain ⟨session, phase⟩ := p
  cases phase with
  | idle =>
    cases x with
    | none => cases hc
    | some call =>
      have hstart : (s.start ⟨session, .idle⟩ call.1 call.2).2.phase.claim? = some c := hc
      rcases start_session s ⟨session, .idle⟩ call.1 call.2 with ⟨_, h⟩ | ⟨_, _, _, _, _, h⟩ |
        ⟨_, _, h⟩ | h
      all_goals
        rw [h] at hstart
        cases hstart
  | drawing form requested => cases requested <;> cases hc
  | checking =>
    rw [JoinShared.sect] at hc ⊢
    dsimp only at hc ⊢
    split at hc
    · cases hc
    · next hfree =>
        rw [if_neg hfree]
        cases hc
        exact ⟨rfl, rfl, fun fs hfs hname => hfree ⟨fs, hfs, hname⟩⟩
  | entering => cases hc
  | seating => cases hc
  | removing => cases hc
  | returning => cases hc

/-- What is free stays free, unless another call enters it. -/
theorem claimsFree_sect {q : JoinSession} (hq : q.ClaimsFree s)
    (hpq : ∀ c, q.phase.claim? = some c → p.phase.claim? ≠ some c) :
    q.ClaimsFree (s.sect p x).1 := by
  intro r name hclaim h hentry
  rcases entry_sect s p x r h with (hsame | hnone) | ⟨form, m, asked, hphase, hplace, hnew⟩
  · exact hq r name hclaim h (hsame ▸ hentry)
  · rw [hnone] at hentry
    cases hentry
  · rw [hnew] at hentry
    cases hentry
    refine hpq _ hclaim ?_
    rw [hphase]
    cases hplace
    rfl

theorem namesApart_sect (hs : s.NamesApart) (hp : p.ClaimsFree s) : (s.sect p x).1.NamesApart := by
  -- the entry of the join that enters a federate is unlike any other
  have hnew : ∀ {r h h' name}, (∃ form m asked, p.phase = .entering form m asked ∧
      m.place = (r, h) ∧ (s.sect p x).1.entry r h = some (m.federateName, asked)) →
      (s.sect p x).1.entry r h = some (name, true) → s.entry r h' = some (name, true) → h = h' := by
    rintro r h h' name ⟨form, m, asked, hphase, hplace, hentry⟩ he he'
    rw [hentry] at he
    cases he
    refine absurd he' (hp r m.federateName ?_ h')
    rw [hphase]
    cases hplace
    rfl
  intro r h h' name he he'
  rcases entry_sect s p x r h with (hsame | hnone) | hent
  · rcases entry_sect s p x r h' with (hsame' | hnone') | hent'
    · exact hs r h h' name (hsame ▸ he) (hsame' ▸ he')
    · rw [hnone'] at he'
      cases he'
    · exact (hnew hent' he' (hsame ▸ he)).symm
  · rw [hnone] at he
    cases he
  · rcases entry_sect s p x r h' with (hsame' | hnone') | hent'
    · exact hnew hent he (hsame' ▸ he')
    · rw [hnone'] at he'
      cases he'
    · obtain ⟨_, m, _, hphase, hplace, _⟩ := hent
      obtain ⟨_, m', _, hphase', hplace', _⟩ := hent'
      cases hphase.symm.trans hphase'
      exact congrArg Prod.snd (hplace.symm.trans hplace')

theorem entry_serves (r' : FedRef) (c : Caller) (req : ServiceRequest) :
    (s.serves r' c req).entry r h = s.entry r h := by
  have hnames : ((serve c (s.node.heap r') req).federation.federates.lookup h).map
      (fun fs => (fs.name, s.asked r h)) =
      ((s.node.heap r').federates.lookup h).map fun fs => (fs.name, s.asked r h) := by
    have ht : (s.node.heap r').Touches serviceParts (serve c (s.node.heap r') req).federation :=
      serve_touches req
    have hid := ht.federate (p := .identity) (by decide) h
    cases hfs : (s.node.heap r').federates.lookup h with
    | none =>
      rw [hfs, Option.map_none, Option.map_eq_none_iff] at hid
      rw [hid]
    | some fs =>
      rw [hfs, Option.map_some, Option.map_eq_some_iff] at hid
      obtain ⟨fs', hfs', hid⟩ := hid
      have hname : fs'.name = fs.name := congrArg (fun i => i.2.1) hid
      rw [hfs', Option.map_some, Option.map_some, hname]
  show (((s.node.setFederation r' _).heap r).federates.lookup h).map
    (fun fs => (fs.name, s.asked r h)) = _
  rw [lookup_setFederation]
  split
  · next hr =>
      subst hr
      exact hnames
  · rfl

end Names

section NameRuns

variable {I : Type} [DecidableEq I]

/-- A name is compared with those in use only while no other call has found it
free and not yet entered it. -/
def ChecksAlone (s : JoinShared × (I → JoinSession)) : SectionEvent I JoinInput JoinAct → Prop
  | .go i _ => ∀ c ∈ (s.2 i).phase.checks?, ∀ j, j ≠ i → (s.2 j).phase.claim? ≠ some c
  | .act _ => True

instance [Fintype I] (s : JoinShared × (I → JoinSession)) :
    (e : SectionEvent I JoinInput JoinAct) → Decidable (ChecksAlone s e)
  | .go i _ => inferInstanceAs (Decidable
      (∀ c ∈ (s.2 i).phase.checks?, ∀ j, j ≠ i → (s.2 j).phase.claim? ≠ some c))
  | .act _ => .isTrue trivial

/-- **A requested name is granted once**, in every interleaving in which a name
is not checked between another call's check of it and its entry: of the
federates joined to a federation, no two asked for the same name. -/
theorem asked_names_distinct (sessionIds : I → UInt64) {es : List (SectionEvent I JoinInput JoinAct)}
    (hok : StepsMeet joining.step ChecksAlone (.new, fun i => .new (sessionIds i)) es) :
    Always joining.step (fun s => ∀ r h h' fs fs',
        (s.1.node.heap r).federates.lookup h = some fs →
        (s.1.node.heap r).federates.lookup h' = some fs' →
        s.1.asked r h = true → s.1.asked r h' = true → fs.name = fs'.name → h = h')
      (.new, fun i => .new (sessionIds i)) es := by
  have hinv := Sections.always_apart (m := joining) (J := JoinShared.NamesApart)
    (K := fun s p => p.ClaimsFree s)
    (R := fun p q => ∀ c, p.phase.claim? = some c → q.phase.claim? ≠ some c)
    (fun p q hpq c hq hp => hpq c hp hq)
    (fun s i x hs (hgo : ChecksAlone s (.go i x)) => ⟨namesApart_sect hs.shared (hs.call i), ?_⟩)
    (fun s i x j hs (hgo : ChecksAlone s (.go i x)) hj =>
      ⟨claimsFree_sect (hs.call j) (hs.pair j i hj), ?_⟩)
    (fun s a hs => ?_) hok ⟨?_, ?_, ?_⟩
  · intro done hd r h h' fs fs' hfs hfs' hask hask' hname
    refine (hinv done hd).shared r h h' fs.name ?_ ?_
    · rw [JoinShared.entry, hfs, Option.map_some, hask]
    · rw [JoinShared.entry, hfs', Option.map_some, hask', hname]
  · intro r name hclaim h hentry
    obtain ⟨_, hsame, hfree⟩ := claim_sect hclaim
    change (s.1.sect (s.2 i) x).1.entry r h = _ at hentry
    rw [hsame] at hentry
    obtain ⟨fs, hfs, he⟩ := Option.map_eq_some_iff.mp hentry
    exact hfree fs (HashMap.mem_values.mpr ⟨h, hfs⟩) (congrArg Prod.fst he)
  · intro c hclaim
    exact hgo c (claim_sect hclaim).1 j hj
  · obtain ⟨r', c, req⟩ := a
    constructor
    · intro r h h' name he he'
      change (s.serves r' c req).entry r h = _ at he
      change (s.serves r' c req).entry r h' = _ at he'
      rw [entry_serves] at he he'
      exact hs r h h' name he he'
    · intro p hp r name hclaim h hentry
      change (s.serves r' c req).entry r h = _ at hentry
      rw [entry_serves] at hentry
      exact hp r name hclaim h hentry
  · intro r h h' name he
    cases he
  · exact fun i r name hclaim => by cases hclaim
  · exact fun i j _ c hclaim => by cases hclaim

end NameRuns

/-- Both sessions ask for one name, and draw a handle; the first checks the name
once the second has checked it and entered. -/
def checkedInTurn : JoinRun :=
  createF.startedBy .one :: joinGoesOn .one 1 ++ (joinAs "viewer").startedBy .two :: joinGoesOn .two 1 ++
    (joinAs "viewer").startedBy .one :: joinGoesOn .one 1 ++ joinGoesOn .two 2 ++ joinGoesOn .one 2 ++
    joinGoesOn .two 2

theorem asked_names_distinct_refused :
    (joinPair checkedInTurn).1.answers.drop 1 =
      [(1, .exceptionData (HlaException.federateNameAlreadyInUse.because "viewer")),
        (2, .joinFederationExecution .withName ⟨1⟩ "HLAfloat64Time")] ∧
    Always joining.step (fun s => ∀ r h h' fs fs',
        (s.1.node.heap r).federates.lookup h = some fs →
        (s.1.node.heap r).federates.lookup h' = some fs' →
        s.1.asked r h = true → s.1.asked r h' = true → fs.name = fs'.name → h = h')
      (JoinShared.new, fun i : Two => JoinSession.new (pairIds i)) checkedInTurn :=
  ⟨rfl, asked_names_distinct pairIds (by decide +kernel)⟩

/-- The handle that a join was answered with. -/
def Resp.joined? : Resp → Option FederateHandle
  | joinFederationExecution _ handle _ => some handle
  | _ => none

/-- Both sessions ask for one name, and each checks it before the other has
entered. -/
def checkedTogether : JoinRun :=
  createF.startedBy .one :: joinGoesOn .one 1 ++ (joinAs "viewer").startedBy .two :: joinGoesOn .two 2 ++
    (joinAs "viewer").startedBy .one :: joinGoesOn .one 5 ++ joinGoesOn .two 3

/-- **A requested name granted twice.**  Both are told that they have joined,
and both are in the federation under the name. -/
theorem asked_names_clash :
    let s := joinPair checkedTogether
    (s.1.answers.filterMap fun a => a.2.joined?) = [⟨2⟩, ⟨1⟩] ∧
    ((s.1.node.heap 0).federates.lookup ⟨1⟩).map (·.name) = some "viewer" ∧
    ((s.1.node.heap 0).federates.lookup ⟨2⟩).map (·.name) = some "viewer" ∧
    s.1.asked 0 ⟨1⟩ = true ∧ s.1.asked 0 ⟨2⟩ = true := by
  decide +kernel

end Hla4
