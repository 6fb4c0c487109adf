/-
# `Hla4.Lib.Incremental` — decoders that are fed in pieces

A decoder looks at the front of a buffer and finds an item, finds that it has to
wait for more, or gives up.  It is incremental if more input never changes what
it found (`Decoder.Incremental`).  Then it does not matter in which pieces the
input arrives (`run_feed`): feeding the pieces one after the other, with what
is left over kept in between, is decoding the whole.

A reader takes one item from a stream and has no buffer: where the stream ends
too early it fails.  A reader that finds what a decoder finds (`Reader.Follows`)
can be called in turn with it: items read first and items decoded from the rest
are the items of the whole (`reads_drain`).

With an encoder beside it, an exact decoder takes from the buffer what its item
encodes to (`drain_exact`), and a faithful one reads back what was encoded
(`drain_encodings`).
-/
import Hla4.Lib.Run

namespace Lib

variable {α β ε : Type}

/-- What is found at the front of a buffer, and the buffer after that. -/
def Decoder (α β ε : Type) := List α → Except ε (Option β) × List α

/-- What came of decoding: the items, and the error or what is left over.
Nothing looks at the buffer after an error. -/
structure Decoded (α β ε : Type) where
  items : List β
  rest : Except ε (List α)

/-- What came of it after some items before. -/
def Decoded.after (items : List β) (d : Decoded α β ε) : Decoded α β ε :=
  { d with items := items ++ d.items }

/-- The error, or `eof` where there is none. -/
def Decoded.failure (eof : ε) (d : Decoded α β ε) : ε :=
  match d.rest with
  | .error e => e
  | .ok _ => eof

@[simp] theorem Decoded.after_after (l l' : List β) (d : Decoded α β ε) :
    (d.after l').after l = d.after (l ++ l') := by
  simp [Decoded.after]

namespace Decoder

variable (dec : Decoder α β ε)

/-- Decode until there is nothing to be found, at most `n` times. -/
def drainUpTo : Nat → List α → Decoded α β ε
  | 0, buf => ⟨[], .ok buf⟩
  | n + 1, buf =>
    match dec buf with
    | (.error e, _) => ⟨[], .error e⟩
    | (.ok none, rest) => ⟨[], .ok rest⟩
    | (.ok (some b), rest) => (drainUpTo n rest).after [b]

/-- Decode until there is nothing to be found.  An item takes something from the
buffer, so there are no more of them than it is long. -/
def drain (buf : List α) : Decoded α β ε := dec.drainUpTo (buf.length + 1) buf

/-- One more piece of the input. -/
def feed (d : Decoded α β ε) (chunk : List α) : Decoded α β ε :=
  match d.rest with
  | .error _ => d
  | .ok buf => (dec.drain (buf ++ chunk)).after d.items

/-- More input does not change what was found. -/
structure Incremental : Prop where
  waits : ∀ {buf rest}, dec buf = (.ok none, rest) → rest = buf
  shorter : ∀ {buf b rest}, dec buf = (.ok (some b), rest) → rest.length < buf.length
  item : ∀ {buf b rest}, dec buf = (.ok (some b), rest) →
    ∀ more, dec (buf ++ more) = (.ok (some b), rest ++ more)
  error : ∀ {buf e rest}, dec buf = (.error e, rest) → ∀ more, ∃ rest', dec (buf ++ more) = (.error e, rest')

end Decoder

section Drain

variable {dec : Decoder α β ε}

theorem drain_error {buf rest : List α} {e : ε} (hd : dec buf = (.error e, rest)) :
    dec.drain buf = ⟨[], .error e⟩ := by
  rw [Decoder.drain, Decoder.drainUpTo, hd]

theorem drain_waits {buf rest : List α} (hd : dec buf = (.ok none, rest)) :
    dec.drain buf = ⟨[], .ok rest⟩ := by
  rw [Decoder.drain, Decoder.drainUpTo, hd]

variable (h : dec.Incremental)

include h

theorem drainUpTo_enough {n m : Nat} {buf : List α} (hn : buf.length < n) (hm : buf.length < m) :
    dec.drainUpTo n buf = dec.drainUpTo m buf := by
  induction n generalizing m buf with
  | zero => omega
  | succ n ih =>
    cases m with
    | zero => omega
    | succ m =>
      rw [Decoder.drainUpTo, Decoder.drainUpTo]
      match hd : dec buf with
      | (.error e, _) => rfl
      | (.ok none, rest) => rfl
      | (.ok (some b), rest) =>
        have hlt := h.shorter hd
        dsimp only
        rw [@ih m rest (by omega) (by omega)]

theorem drain_item {buf rest : List α} {b : β} (hd : dec buf = (.ok (some b), rest)) :
    dec.drain buf = (dec.drain rest).after [b] := by
  have hlt := h.shorter hd
  rw [Decoder.drain, Decoder.drainUpTo, hd]
  dsimp only
  rw [Decoder.drain, drainUpTo_enough h hlt (Nat.lt_succ_self _)]

/-- Induction along the items of a buffer. -/
theorem drain_induction {P : List α → Prop}
    (error : ∀ buf e rest, dec buf = (.error e, rest) → P buf)
    (waits : ∀ buf, dec buf = (.ok none, buf) → P buf)
    (item : ∀ buf b rest, dec buf = (.ok (some b), rest) → P rest → P buf) (buf : List α) : P buf := by
  induction hn : buf.length using Nat.strongRecOn generalizing buf with
  | ind n ih =>
    match hd : dec buf with
    | (.error e, rest) => exact error buf e rest hd
    | (.ok none, rest) =>
      have := h.waits hd
      subst this
      exact waits rest hd
    | (.ok (some b), rest) =>
      exact item buf b rest hd (ih rest.length (hn ▸ h.shorter hd) rest rfl)

/-- One more piece is what it would have been from the start. -/
theorem feed_drain (buf chunk : List α) :
    dec.feed (dec.drain buf) chunk = dec.drain (buf ++ chunk) := by
  induction buf using drain_induction h with
  | error buf e rest hd =>
    obtain ⟨rest', hd'⟩ := h.error hd chunk
    rw [drain_error hd, drain_error hd']
    rfl
  | waits buf hd =>
    rw [drain_waits hd]
    rfl
  | item buf b rest hd ih =>
    rw [drain_item h hd, drain_item h (h.item hd chunk), ← ih]
    cases hr : (dec.drain rest).rest with
    | error | ok => simp [Decoder.feed, Decoded.after, hr]

/-- **It does not matter in which pieces the input arrives.** -/
theorem run_feed (buf : List α) (chunks : List (List α)) :
    run dec.feed (dec.drain buf) chunks = dec.drain (buf ++ chunks.flatten) := by
  induction chunks generalizing buf with
  | nil => simp [run]
  | cons chunk chunks ih => rw [run, feed_drain h, ih, List.flatten_cons, List.append_assoc]

/-! ## Encoders -/

/-- An exact decoder takes from the input what its items encode to, and waits
with the rest. -/
theorem drain_exact {enc : β → List α}
    (exact : ∀ {buf b rest}, dec buf = (.ok (some b), rest) → buf = enc b ++ rest) {buf left : List α}
    (hok : (dec.drain buf).rest = .ok left) :
    buf = ((dec.drain buf).items.map enc).flatten ++ left ∧ dec left = (.ok none, left) := by
  induction buf using drain_induction h with
  | error buf e rest hd =>
    rw [drain_error hd] at hok
    cases hok
  | waits buf hd =>
    rw [drain_waits hd] at hok ⊢
    cases hok
    exact ⟨rfl, hd⟩
  | item buf b rest hd ih =>
    rw [drain_item h hd] at hok ⊢
    obtain ⟨hrest, hleft⟩ := ih hok
    refine ⟨?_, hleft⟩
    calc buf = enc b ++ rest := exact hd
      _ = enc b ++ (((dec.drain rest).items.map enc).flatten ++ left) := by rw [← hrest]
      _ = _ := by simp [Decoded.after]

theorem drain_encodings {enc : β → List α} (items : List β) (buf : List α)
    (reads : ∀ b ∈ items, ∀ more, dec (enc b ++ more) = (.ok (some b), more)) :
    dec.drain ((items.map enc).flatten ++ buf) = (dec.drain buf).after items := by
  induction items with
  | nil => rfl
  | cons b items ih =>
    rw [List.map_cons, List.flatten_cons, List.append_assoc,
      drain_item h (reads b (List.mem_cons_self ..) _),
      ih fun b hb => reads b (List.mem_cons_of_mem _ hb), Decoded.after_after]
    rfl

end Drain

/-! ## Readers -/

/-- Takes one item from a stream. -/
def Reader (α β ε : Type) := List α → Except ε β × List α

namespace Reader

variable (read : Reader α β ε)

/-- Read `n` times, or until it fails. -/
def reads : Nat → List α → Decoded α β ε
  | 0, stream => ⟨[], .ok stream⟩
  | n + 1, stream =>
    match read stream with
    | (.error e, _) => ⟨[], .error e⟩
    | (.ok b, rest) => (reads n rest).after [b]

/-- The reader finds what the decoder finds, and fails with `eof` where the
decoder waits. -/
structure Follows (dec : Decoder α β ε) (eof : ε) : Prop where
  item : ∀ {s b rest}, dec s = (.ok (some b), rest) → read s = (.ok b, rest)
  waits : ∀ {s rest}, dec s = (.ok none, rest) → (read s).1 = .error eof
  error : ∀ {s e rest}, dec s = (.error e, rest) → (read s).1 = .error e

end Reader

section Reads

variable {read : Reader α β ε}

theorem reads_error {s : List α} {e : ε} (hr : (read s).1 = .error e) (n : Nat) :
    read.reads (n + 1) s = ⟨[], .error e⟩ := by
  rw [Reader.reads]
  match h : read s with
  | (.error e', _) =>
    rw [h] at hr
    cases hr
    rfl
  | (.ok b, _) =>
    rw [h] at hr
    cases hr

variable {dec : Decoder α β ε} {eof : ε} (h : dec.Incremental) (hf : read.Follows dec eof)

include h hf

/-- **Reading some items and decoding the rest** is decoding the whole. -/
theorem reads_drain {k : Nat} {s left : List α} (hok : (read.reads k s).rest = .ok left) :
    (dec.drain left).after (read.reads k s).items = dec.drain s := by
  induction k generalizing s with
  | zero =>
    cases hok
    rfl
  | succ k ih =>
    match hd : dec s with
    | (.error e, _) =>
      rw [reads_error (hf.error hd)] at hok
      cases hok
    | (.ok none, _) =>
      rw [reads_error (hf.waits hd)] at hok
      cases hok
    | (.ok (some b), rest) =>
      have hstep : read.reads (k + 1) s = (read.reads k rest).after [b] := by
        rw [Reader.reads, hf.item hd]
      rw [hstep] at hok ⊢
      rw [drain_item h hd, ← ih hok]
      simp [Decoded.after]

/-- **Reading until it fails** finds the items that decoding finds, and fails
with its error, or with `eof`. -/
theorem reads_all {n : Nat} {s : List α} (hn : s.length < n) :
    read.reads n s = ⟨(dec.drain s).items, .error ((dec.drain s).failure eof)⟩ := by
  induction s using drain_induction h generalizing n with
  | error s e rest hd =>
    obtain ⟨n, rfl⟩ := Nat.exists_eq_add_of_lt hn
    rw [reads_error (hf.error hd), drain_error hd]
    rfl
  | waits s hd =>
    obtain ⟨n, rfl⟩ := Nat.exists_eq_add_of_lt hn
    rw [reads_error (hf.waits hd), drain_waits hd]
    rfl
  | item s b rest hd ih =>
    have hlt := h.shorter hd
    cases n with
    | zero => omega
    | succ =>
      rw [Reader.reads, hf.item hd]
      dsimp only
      rw [ih (by omega), drain_item h hd]
      rfl

end Reads

end Lib
