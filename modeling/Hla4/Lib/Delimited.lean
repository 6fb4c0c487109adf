/-
# `Hla4.Lib.Delimited` — words that end by themselves

A decoder reads a value from the front of a word and says how many symbols it
took.  It delimits the word of a value if it reads the value back whatever
follows, and reads nothing from a part of the word (`Delimits`).  Then the words
of several values can be written one after another without separators
(`decodeSeq_encodeSeq`); each value may have a type of its own.
-/
import Mathlib.Data.List.Basic

namespace Lib

section Sequences

variable {B ε T : Type} {V : T → Type}

/-- `decode` finds `a` in `word`, and in no less. -/
structure Delimits {α : Type} (decode : List B → Except ε (α × Nat)) (word : List B) (a : α) : Prop where
  back : ∀ more, decode (word ++ more) = .ok (a, word.length)
  whole : ∀ part, part <+: word → part ≠ word → ∀ r, decode part ≠ .ok r

/-- Values of the given types, read one after another, each with the number of
symbols it took, and what is left. -/
def decodeSeq (decode : (t : T) → List B → Except ε (V t × Nat)) :
    List T → List B → Except ε (List ((t : T) × V t × Nat) × List B)
  | [], rest => .ok ([], rest)
  | t :: ts, rest => do
      let (a, n) ← decode t rest
      let (as, rest) ← decodeSeq decode ts (rest.drop n)
      pure (⟨t, a, n⟩ :: as, rest)

/-- **Words that end by themselves can be strung together.** -/
theorem decodeSeq_encodeSeq {decode : (t : T) → List B → Except ε (V t × Nat)}
    {word : (t : T) × V t → List B} {as : List ((t : T) × V t)}
    (h : ∀ a ∈ as, Delimits (decode a.1) (word a) a.2) (more : List B) :
    decodeSeq decode (as.map (·.1)) (as.flatMap word ++ more) =
      .ok (as.map fun a => ⟨a.1, a.2, (word a).length⟩, more) := by
  induction as with
  | nil => rfl
  | cons a as ih =>
    have hfirst := (h a List.mem_cons_self).back (as.flatMap word ++ more)
    have hrest := ih fun b hb => h b (List.mem_cons_of_mem a hb)
    rw [List.map_cons, decodeSeq, List.flatMap_cons, List.append_assoc, hfirst]
    show (decodeSeq decode _ (List.drop (word a).length _) >>= _) = _
    rw [List.drop_left, hrest]
    rfl

end Sequences

/-! ## Blocks of one width -/

section Blocks

variable {α B : Type} {w : Nat} {block : α → List B}

theorem length_flatMap_blocks (hw : ∀ a, (block a).length = w) (as : List α) :
    (as.flatMap block).length = as.length * w := by
  induction as with
  | nil => simp
  | cons a as ih => rw [List.flatMap_cons, List.length_append, hw, ih, List.length_cons, Nat.succ_mul, Nat.add_comm]

/-- The blocks are found again by position. -/
theorem slices_flatMap (hw : ∀ a, (block a).length = w) (as : List α) (more : List B) :
    ((List.range as.length).map fun i => ((as.flatMap block ++ more).drop (w * i)).take w) =
      as.map block := by
  induction as with
  | nil => rfl
  | cons a as ih =>
    rw [List.length_cons, List.range_succ_eq_map, List.map_cons, List.map_map, List.map_cons,
      List.flatMap_cons, List.append_assoc]
    congr 1
    · rw [Nat.mul_zero, List.drop_zero, List.take_left' (hw a)]
    · rw [← ih]
      refine List.map_congr_left fun i _ => ?_
      have hpos : w * (i + 1) = (block a).length + w * i := by rw [hw a, Nat.mul_succ, Nat.add_comm]
      show (List.drop (w * (i + 1)) _).take w = _
      rw [hpos, ← List.drop_drop, List.drop_left]

end Blocks

end Lib
