/-
# `Hla4.Rti.Safety.Names` — the names of the joined federates

A federate asks for its name when it joins or is given one made of its handle.
A name that is asked for is compared with those in use; one that is given is
not.  Names are therefore unique as long as nobody has asked for the name that
a later federate is given (`federate_names_unique`), and then the two lookups
between names and handles undo each other.
-/
import Hla4.Rti.Safety.Keyed
import Hla4.Wire.Framing

namespace Hla4

open Lib

namespace Federation

variable {fed fed' : Federation}

/-- No two joined federates have the same name. -/
def DistinctNames (fed : Federation) : Prop :=
  ∀ h h' fs fs', fed.federates.lookup h = some fs → fed.federates.lookup h' = some fs' →
    fs.name = fs'.name → h = h'

/-- The name a federate is given if it asks for none. -/
def generatedName (fed : Federation) : String := "federate-" ++ hex8 fed.nextFederateId

/-- A federate other than the one under the next handle has the name. -/
def UsesName (fed : Federation) (name : String) : Prop :=
  ∃ h ∈ fed.federates.keys, ∃ fs ∈ fed.federates.lookup h, h ≠ fed.nextHandle ∧ fs.name = name

instance (fed : Federation) (name : String) : Decidable (fed.UsesName name) :=
  inferInstanceAs (Decidable (∃ h ∈ fed.federates.keys, ∃ fs ∈ fed.federates.lookup h, _ ∧ _))

theorem distinctNames_of_touches {ps : List Part} (ht : fed.Touches ps fed')
    (hp : Part.federate .identity ∉ ps) (h : fed.DistinctNames) : fed'.DistinctNames := by
  have old : ∀ {k fs'}, fed'.federates.lookup k = some fs' →
      ∃ fs, fed.federates.lookup k = some fs ∧ fs.name = fs'.name := by
    intro k fs' hfs'
    obtain ⟨fs, hfs, hid⟩ := ht.record_before hp hfs'
    exact ⟨fs, hfs, congrArg (fun id => id.2.1) hid⟩
  intro k k' fs fs' hk hk' hname
  obtain ⟨gs, hgs, hg⟩ := old hk
  obtain ⟨gs', hgs', hg'⟩ := old hk'
  exact h k k' gs gs' hgs hgs' (hg.trans (hname.trans hg'.symm))

theorem distinctNames_enter {name : String} {sessionId : UInt64} (h : fed.DistinctNames)
    (hfree : ¬ fed.UsesName name) : (fed.enter name sessionId).DistinctNames := by
  have unused : ∀ {k fs}, k ≠ fed.nextHandle → fed.federates.lookup k = some fs → fs.name ≠ name := by
    intro k fs hk hfs hname
    exact hfree ⟨k, HashMap.mem_of_lookup hfs, fs, hfs, hk, hname⟩
  intro k k' fs fs' hk hk' hname
  rw [lookup_enter] at hk hk'
  by_cases hkn : k = fed.nextHandle <;> by_cases hkn' : k' = fed.nextHandle
  · rw [hkn, hkn']
  · rw [if_pos hkn] at hk
    rw [if_neg hkn'] at hk'
    cases hk
    exact absurd hname.symm (unused hkn' hk')
  · rw [if_neg hkn] at hk
    rw [if_pos hkn'] at hk'
    cases hk'
    exact absurd hname (unused hkn hk)
  · rw [if_neg hkn] at hk
    rw [if_neg hkn'] at hk'
    exact h k k' fs fs' hk hk' hname

theorem distinctNames_leave (h : fed.DistinctNames) (k : FederateHandle) :
    (fed.leave k).DistinctNames := by
  intro j j' fs fs' hj hj'
  exact h j j' fs fs' (HashMap.lookup_erase_eq_some.mp hj).2 (HashMap.lookup_erase_eq_some.mp hj').2

/-- A name that was asked for was compared with those in use. -/
theorem join_entered {requested : Option String} {sessionId : UInt64} {name : String}
    (hj : fed.join requested sessionId = (fed.enter name sessionId, .ok (fed.nextHandle, name)))
    (hgen : requested = none → ¬ fed.UsesName fed.generatedName) : ¬ fed.UsesName name := by
  rw [join] at hj
  cases requested with
  | none =>
    have hname : fed.generatedName = name := by
      simpa [generatedName] using congrArg Prod.snd hj
    exact hname ▸ hgen rfl
  | some asked =>
    split at hj
    · cases congrArg Prod.snd hj
    · rename_i hfree
      have hname : asked = name := by simpa using congrArg Prod.snd hj
      rintro ⟨k, _, fs, hfs, _, hfsname⟩
      refine hfree ⟨rfl, fs, HashMap.mem_values.mpr ⟨k, hfs⟩, ?_⟩
      exact hfsname.trans hname.symm

end Federation

/-- A name is given only if it is not in use. -/
def FedAction.GivesFreeName (fed : Federation) : FedAction → Prop
  | join requested _ => requested = none → ¬ fed.UsesName fed.generatedName
  | _ => True

instance (fed : Federation) : (a : FedAction) → Decidable (a.GivesFreeName fed)
  | .create .. => .isTrue trivial
  | .join requested _ => inferInstanceAs (Decidable (requested = none → ¬ fed.UsesName _))
  | .leave .. | .serve .. => .isTrue trivial

theorem distinctNames_apply (fed : Federation) (a : FedAction) (h : fed.DistinctNames)
    (hok : a.GivesFreeName fed) : (a.apply fed).DistinctNames := by
  cases a with
  | create => exact fun k k' fs fs' hk => by cases hk
  | join requested sessionId =>
    rw [FedAction.apply]
    rcases fed.join_cases requested sessionId with ⟨e, he⟩ | ⟨name, he⟩
    · rw [he]
      exact h
    · rw [he]
      exact Federation.distinctNames_enter h (Federation.join_entered he hok)
  | leave k => exact Federation.distinctNames_leave h k
  | serve c req => exact Federation.distinctNames_of_touches (serve_touches req) (by decide) h

/-! ## Names and handles -/

/-- `encode_federate` -/
def encodeFederate (h : FederateHandle) : Bytes := toBe32 h.raw

@[simp] theorem decodeU32_toBe32 (raw : UInt32) : decodeU32 (toBe32 raw) = some raw := by
  have hval : UInt32.ofNat (bigEndian (toBe32 raw)) = raw := fromBe32_toBe32 raw
  rw [decodeU32, if_pos (length_toBe32 raw), hval]

theorem decodeFederate_encodeFederate (h : FederateHandle) :
    decodeFederate (encodeFederate h) = some h := by
  rw [decodeFederate, encodeFederate, decodeU32_toBe32]
  rfl

/-- Asked by any federate, the federate of a handle has a name, and the handle
of that name is the one. -/
def Federation.NamesBack (fed : Federation) (c : Caller) (h : FederateHandle) : Prop :=
  ∃ name, (serve c fed (.lookup (.getFederateName (some (encodeFederate h))))).response =
      .getFederateName name ∧
    (serve c fed (.lookup (.getFederateHandle name))).response = .getFederateHandle h

theorem getFederateName_joined {fed : Federation} {h : FederateHandle} {fs : FederateSession}
    (hfs : fed.federates.lookup h = some fs) :
    getFederateName fed (some (encodeFederate h)) = .ok (.getFederateName fs.name) := by
  rw [getFederateName, Option.bind_some, decodeFederate_encodeFederate]
  simp [getOr, hfs, bind, Except.bind, pure, Except.pure]

theorem getFederateHandle_joined {fed : Federation} (hn : fed.DistinctNames) (hk : fed.Keyed)
    (c : Caller) {h : FederateHandle} {fs : FederateSession} (hfs : fed.federates.lookup h = some fs) :
    getFederateHandle c fed fs.name = .ok (.getFederateHandle h) := by
  have hmem : (h, fs) ∈ fed.sessions c.env.federates := Federation.mem_sessions.mpr hfs
  rw [getFederateHandle]
  obtain ⟨e, hfind, he, hname⟩ :=
    exists_find? (p := fun e => e.2.name == fs.name) hmem (beq_self_eq_true _)
  -- whichever entry is met first is the one, as no other has the name
  have he := Federation.mem_sessions.mp he
  have hhandle : e.2.handle = h :=
    (hk.federates e.1 e.2 he).trans (hn e.1 h e.2 fs he hfs (beq_iff_eq.mp hname))
  simp [hfind, getOr, bind, Except.bind, pure, Except.pure, hhandle]

theorem namesBack {fed : Federation} (hn : fed.DistinctNames) (hk : fed.Keyed) (c : Caller)
    {h : FederateHandle} (hh : h ∈ fed.federates) : fed.NamesBack c h := by
  obtain ⟨fs, hfs⟩ := Option.isSome_iff_exists.mp (AList.lookup_isSome.mpr hh)
  refine ⟨fs.name, ?_, ?_⟩
  · simp [serve, serveLookup, LookupRequest.missingHandle, lookupResponse,
      getFederateName_joined hfs, Outcome.ofExcept, bind, Except.bind, pure, Except.pure, Outcome.reply]
  · simp [serve, serveLookup, LookupRequest.missingHandle, lookupResponse,
      getFederateHandle_joined hn hk c hfs, Outcome.ofExcept, bind, Except.bind, pure, Except.pure,
      Outcome.reply]

/-- **Federate names are unique**, in a run in which a name is given only if it
is not in use. -/
theorem federate_names_unique {es : List NodeEvent}
    (h : StepsMeet Node.step (Node.Meets fun fed a => a.GivesFreeName fed) Node.new es) :
    Always Node.step (fun n => ∀ r, (n.heap r).DistinctNames ∧
      ∀ k ∈ (n.heap r).federates, ∀ c, (n.heap r).NamesBack c k) Node.new es := by
  intro done hdone r
  have hn := Node.heap_always (fun name fom k k' fs fs' hk => by cases hk) distinctNames_apply h
    done hdone r
  exact ⟨hn, fun k hk c => namesBack hn (Node.keyed done r) c hk⟩

/-- One federate is given its name, the next asks for one, and the first resigns
and joins again. -/
theorem federate_names_unique_rejoined :
    let es := [.opens, .manages 0 (.createFederationExecution .withModules "f" [.file "m" []]),
      .joins 0, .opens, .manages 1 (.joinFederationExecution .withName "viewer" "f"),
      .manages 0 .resignFederationExecution, .joins 0]
    Always Node.step (fun n => ∀ r, (n.heap r).DistinctNames ∧
      ∀ k ∈ (n.heap r).federates, ∀ c, (n.heap r).NamesBack c k) Node.new es :=
  federate_names_unique (by decide +kernel)

/-- The first federate asks for the name that the second is given. -/
def nameTakenAhead : List NodeEvent :=
  [.opens, .manages 0 (.createFederationExecution .withModules "f" [.file "m" []]),
    .manages 0 (.joinFederationExecution .withName "federate-00000002" "f"), .opens, .joins 1]

/-- The federate a response names. -/
def Resp.federate? : Resp → Option (FederateHandle ⊕ String)
  | getFederateHandle h => some (.inl h)
  | getFederateName name => some (.inr name)
  | _ => none

/-- **Two federates of one name.**  Federate 1 asks for the handle of its own
name, and is told 2. -/
theorem nameTakenAhead_clash :
    let n := run Node.step Node.new nameTakenAhead
    ((n.heap 0).federates.lookup ⟨1⟩).map (·.name) = some "federate-00000002" ∧
    ((n.heap 0).federates.lookup ⟨2⟩).map (·.name) = some "federate-00000002" ∧
    (n.outcome 0 .plain (.service (.lookup (.getFederateName (wire32 1))))).bind
      (·.response.federate?) = some (.inr "federate-00000002") ∧
    (n.outcome 0 .plain (.service (.lookup (.getFederateHandle "federate-00000002")))).bind
      (·.response.federate?) = some (.inl ⟨2⟩) := by
  decide +kernel

end Hla4
