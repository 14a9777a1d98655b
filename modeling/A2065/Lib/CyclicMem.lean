import Mathlib.Data.BitVec
import Mathlib.Data.List.Basic
import Mathlib.Data.Set.BooleanAlgebra
import Mathlib.Data.Set.Function
import Mathlib.Order.CompletePartialOrder

/-!
# Memory with wrapping addresses

A memory is a function on `BitVec w`; addresses add modulo `2 ^ w`, so a block
of `n` cells from `a` on may wrap. Membership is counted from the start of the
block, `(c - a).toNat < n`, which needs no case split on wrapping.
-/

namespace CyclicMem

variable {w : Nat} {α : Type}

/-- The `n` cells from `a` on. -/
def block (a : BitVec w) (n : Nat) : Set (BitVec w) := {c | (c - a).toNat < n}

theorem mem_block {a c : BitVec w} {n : Nat} : c ∈ block a n ↔ (c - a).toNat < n := Iff.rfl

theorem block_mono (a : BitVec w) {n k : Nat} (h : n ≤ k) : block a n ⊆ block a k :=
  fun _ hc => Nat.lt_of_lt_of_le hc h

/-- A block inside another, which starts no later and ends no earlier. -/
theorem block_subset {a b : BitVec w} {n k : Nat} (h : (a - b).toNat + n ≤ k) :
    block a n ⊆ block b k := by
  intro c hc
  rw [mem_block] at hc ⊢
  have hle : (c - b).toNat ≤ (c - a).toNat + (a - b).toNat := by
    rw [← sub_add_sub_cancel c a b, BitVec.toNat_add]
    exact Nat.mod_le _ _
  omega

theorem offset_sub (a : BitVec w) {i : Nat} (hi : i < 2 ^ w) :
    (a + BitVec.ofNat w i - a).toNat = i := by
  rw [BitVec.add_comm, BitVec.add_sub_cancel, BitVec.toNat_ofNat, Nat.mod_eq_of_lt hi]

theorem offset_inj (a : BitVec w) {i j : Nat} (hi : i < 2 ^ w) (hj : j < 2 ^ w) :
    a + BitVec.ofNat w i = a + BitVec.ofNat w j ↔ i = j := by
  constructor
  · intro h
    rw [← offset_sub a hi, ← offset_sub a hj, h]
  · rintro rfl
    rfl

theorem offset_mem_block (a : BitVec w) {i n : Nat} (hi : i < n) (hw : i < 2 ^ w) :
    a + BitVec.ofNat w i ∈ block a n := by
  rw [mem_block, offset_sub a hw]
  exact hi

/-- Blocks meet where one of them starts. -/
theorem disjoint_block_iff {a b : BitVec w} {n k : Nat} : Disjoint (block a n) (block b k) ↔
    n = 0 ∨ k = 0 ∨ ¬ (b - a).toNat < n ∧ ¬ (a - b).toNat < k := by
  rw [Set.disjoint_left]
  constructor
  · intro h
    rcases Nat.eq_zero_or_pos n with hn | hn
    · exact .inl hn
    rcases Nat.eq_zero_or_pos k with hk | hk
    · exact .inr (.inl hk)
    refine .inr (.inr ⟨fun hb => h hb ?_, fun ha => h ?_ ha⟩)
    · rwa [mem_block, BitVec.sub_self]
    · rwa [mem_block, BitVec.sub_self]
  · intro h c hca hcb
    rw [mem_block] at hca hcb
    -- the start that comes later is in the other block, no further than `c`
    rcases Nat.le_total (c - b).toNat (c - a).toNat with hle | hle
    · have hba : (b - a).toNat = (c - a).toNat - (c - b).toNat := by
        rw [← BitVec.toNat_sub_of_le hle, sub_sub_sub_cancel_left]
      omega
    · have hab : (a - b).toNat = (c - b).toNat - (c - a).toNat := by
        rw [← BitVec.toNat_sub_of_le hle, sub_sub_sub_cancel_left]
      omega

instance decidableDisjoint (a b : BitVec w) (n k : Nat) :
    Decidable (Disjoint (block a n) (block b k)) := decidable_of_iff _ disjoint_block_iff.symm

theorem eqOn_block_iff {m m' : BitVec w → α} {a : BitVec w} {n : Nat} :
    Set.EqOn m m' (block a n) ↔ ∀ i < n, m (a + BitVec.ofNat w i) = m' (a + BitVec.ofNat w i) := by
  constructor
  · intro h i hi
    refine h (Nat.lt_of_le_of_lt ?_ hi)
    rw [BitVec.add_comm, BitVec.add_sub_cancel, BitVec.toNat_ofNat]
    exact Nat.mod_le _ _
  · intro h c hc
    have hoff := h _ hc
    rwa [BitVec.ofNat_toNat, BitVec.setWidth_eq, BitVec.add_comm, BitVec.sub_add_cancel] at hoff

instance decidableEqOn [DecidableEq α] (m m' : BitVec w → α) (a : BitVec w) (n : Nat) :
    Decidable (Set.EqOn m m' (block a n)) := decidable_of_iff _ eqOn_block_iff.symm

/-! ## Blocks -/

/-- The contents of a block. -/
def readBlock (m : BitVec w → α) (a : BitVec w) (n : Nat) : List α :=
  (List.range n).map fun i => m (a + BitVec.ofNat w i)

/-- The memory with `src 0`, ..., `src (n - 1)` stored from `a` on. -/
def writeBlock (m : BitVec w → α) (a : BitVec w) (src : Nat → α) (n : Nat) : BitVec w → α :=
  fun c => if (c - a).toNat < n then src (c - a).toNat else m c

@[simp] theorem length_readBlock (m : BitVec w → α) (a : BitVec w) (n : Nat) :
    (readBlock m a n).length = n := by
  simp [readBlock]

/-- One more cell. -/
theorem writeBlock_succ (m : BitVec w → α) (a : BitVec w) (src : Nat → α) {n : Nat}
    (hn : n < 2 ^ w) : writeBlock m a src (n + 1) =
      Function.update (writeBlock m a src n) (a + BitVec.ofNat w n) (src n) := by
  funext c
  rw [Function.update_apply]
  split
  · rename_i hc
    rw [hc, writeBlock, offset_sub a hn, if_pos (Nat.lt_succ_self n)]
  · rename_i hc
    have hne : (c - a).toNat ≠ n := by
      intro h
      apply hc
      rw [← h, BitVec.ofNat_toNat, BitVec.setWidth_eq, BitVec.add_comm, BitVec.sub_add_cancel]
    unfold writeBlock
    by_cases hlt : (c - a).toNat < n
    · rw [if_pos hlt, if_pos (Nat.lt_succ_of_lt hlt)]
    · rw [if_neg hlt, if_neg (by omega)]

theorem writeBlock_offset (m : BitVec w → α) (a : BitVec w) (src : Nat → α) {i n : Nat}
    (hi : i < n) (hw : i < 2 ^ w) :
    writeBlock m a src n (a + BitVec.ofNat w i) = src i := by
  rw [writeBlock, offset_sub a hw, if_pos hi]

theorem eqOn_writeBlock (m : BitVec w → α) (a : BitVec w) (src : Nat → α) (n : Nat) :
    Set.EqOn (writeBlock m a src n) m (block a n)ᶜ := fun _ h => if_neg h

theorem readBlock_congr {m m' : BitVec w → α} {a : BitVec w} {n : Nat} (hn : n ≤ 2 ^ w)
    (h : Set.EqOn m m' (block a n)) : readBlock m a n = readBlock m' a n := by
  refine List.map_congr_left fun i hi => ?_
  rw [List.mem_range] at hi
  exact h (offset_mem_block a hi (Nat.lt_of_lt_of_le hi hn))

theorem take_readBlock (m : BitVec w → α) (a : BitVec w) {k n : Nat} (h : k ≤ n) :
    (readBlock m a n).take k = readBlock m a k := by
  rw [readBlock, ← List.map_take, List.take_range, Nat.min_eq_left h, readBlock]

/-- What was written is read. -/
theorem readBlock_writeBlock (m : BitVec w → α) (a : BitVec w) (src : Nat → α) {k n : Nat}
    (hk : k ≤ n) (hn : n ≤ 2 ^ w) :
    readBlock (writeBlock m a src n) a k = (List.range k).map src := by
  refine List.map_congr_left fun i hi => ?_
  rw [List.mem_range] at hi
  exact writeBlock_offset m a src (by omega) (by omega)

/-! ## Words, high byte first -/

/-- The big-endian word at `c`; behind the last cell comes the first. -/
def wordAt (m : BitVec w → BitVec 8) (c : BitVec w) : BitVec 16 :=
  (m c).setWidth 16 <<< 8 ||| (m (c + 1)).setWidth 16

/-- The word at `c` replaced. -/
def setWord (m : BitVec w → BitVec 8) (c : BitVec w) (v : BitVec 16) : BitVec w → BitVec 8 :=
  Function.update (Function.update m c ((v >>> 8).setWidth 8)) (c + 1) (v.setWidth 8)

theorem join_bytes (v : BitVec 16) :
    ((v >>> 8).setWidth 8).setWidth 16 <<< 8 ||| (v.setWidth 8).setWidth 16 = v := by
  apply BitVec.eq_of_getLsbD_eq
  intro i hi
  simp only [BitVec.getLsbD_or, BitVec.getLsbD_shiftLeft, BitVec.getLsbD_setWidth,
    BitVec.getLsbD_ushiftRight]
  by_cases h8 : i < 8
  · simp [h8, hi]
  · simp [h8, hi, show i - 8 < 16 by omega, show i - 8 < 8 by omega,
      show 8 + (i - 8) = i by omega]

theorem wordAt_hi (m : BitVec w → BitVec 8) (c : BitVec w) :
    (wordAt m c >>> 8).setWidth 8 = m c := by
  apply BitVec.eq_of_getLsbD_eq
  intro i hi
  simp [wordAt, hi, show 8 + i < 16 by omega, show ¬ 8 + i < 8 by omega]

theorem wordAt_lo (m : BitVec w → BitVec 8) (c : BitVec w) :
    (wordAt m c).setWidth 8 = m (c + 1) := by
  apply BitVec.eq_of_getLsbD_eq
  intro i hi
  simp [wordAt, hi]

/-- Storing what is there changes nothing. -/
theorem setWord_wordAt (m : BitVec w → BitVec 8) (c : BitVec w) :
    setWord m c (wordAt m c) = m := by
  rw [setWord, wordAt_hi, wordAt_lo, Function.update_eq_self, Function.update_eq_self]

theorem wordAt_setWord (m : BitVec w → BitVec 8) {c : BitVec w} (v : BitVec 16)
    (h : c ≠ c + 1) : wordAt (setWord m c v) c = v := by
  rw [wordAt, setWord, Function.update_self, Function.update_of_ne h, Function.update_self,
    join_bytes]

/-- A word store leaves the words at other offsets alone. -/
theorem wordAt_setWord_offset (m : BitVec w → BitVec 8) (a : BitVec w) (v : BitVec 16)
    {i j : Nat} (hi : i + 1 < 2 ^ w) (hj : j + 1 < 2 ^ w) (h : i + 2 ≤ j ∨ j + 2 ≤ i) :
    wordAt (setWord m (a + BitVec.ofNat w i) v) (a + BitVec.ofNat w j) =
      wordAt m (a + BitVec.ofNat w j) := by
  have hsucc : ∀ k, a + BitVec.ofNat w k + 1 = a + BitVec.ofNat w (k + 1) := by
    intro k
    rw [BitVec.add_assoc, BitVec.ofNat_add]
    rfl
  have hne : ∀ k l, k < 2 ^ w → l < 2 ^ w → k ≠ l →
      a + BitVec.ofNat w k ≠ a + BitVec.ofNat w l :=
    fun k l hk hl hkl heq => hkl ((offset_inj a hk hl).mp heq)
  simp only [wordAt, setWord, hsucc]
  rw [Function.update_of_ne (hne _ _ (by omega) (by omega) (by omega)),
    Function.update_of_ne (hne _ _ (by omega) (by omega) (by omega)),
    Function.update_of_ne (hne _ _ (by omega) (by omega) (by omega)),
    Function.update_of_ne (hne _ _ (by omega) (by omega) (by omega))]

/-- Words stored one behind the other. -/
def setWords (m : BitVec w → BitVec 8) (a : BitVec w) : List (BitVec 16) → BitVec w → BitVec 8
  | [] => m
  | v :: vs => setWords (setWord m a v) (a + 2) vs

theorem offset_add_two (a : BitVec w) (i : Nat) :
    a + BitVec.ofNat w i + 2 = a + BitVec.ofNat w (i + 2) := by
  rw [BitVec.add_assoc, BitVec.ofNat_add]
  rfl

/-- Words before the first one are left alone. -/
theorem wordAt_setWords_before (m : BitVec w → BitVec 8) (a : BitVec w) (vs : List (BitVec 16))
    {i j : Nat} (hi : i + 2 * vs.length ≤ 2 ^ w) (hj : j + 2 ≤ i) :
    wordAt (setWords m (a + BitVec.ofNat w i) vs) (a + BitVec.ofNat w j) =
      wordAt m (a + BitVec.ofNat w j) := by
  induction vs generalizing m i with
  | nil => rfl
  | cons v vs ih =>
      rw [List.length_cons] at hi
      rw [setWords, offset_add_two, ih _ (by omega) (by omega),
        wordAt_setWord_offset m a v (by omega) (by omega) (.inr hj)]

theorem wordAt_setWords (m : BitVec w → BitVec 8) (a : BitVec w) (vs : List (BitVec 16))
    {i k : Nat} (hi : i + 2 * vs.length ≤ 2 ^ w) (hk : k < vs.length) :
    wordAt (setWords m (a + BitVec.ofNat w i) vs) (a + BitVec.ofNat w (i + 2 * k)) = vs[k] := by
  induction vs generalizing m i k with
  | nil => cases hk
  | cons v vs ih =>
      rw [List.length_cons] at hi hk
      rw [setWords, offset_add_two]
      cases k with
      | zero =>
          rw [show i + 2 * 0 = i from rfl,
            wordAt_setWords_before _ a vs (by omega) (Nat.le_refl (i + 2))]
          refine wordAt_setWord m v fun h => ?_
          have hsucc : a + BitVec.ofNat w i + 1 = a + BitVec.ofNat w (i + 1) := by
            rw [BitVec.add_assoc, BitVec.ofNat_add]
            rfl
          rw [hsucc, offset_inj a (by omega) (by omega)] at h
          omega
      | succ k =>
          rw [show i + 2 * (k + 1) = i + 2 + 2 * k by omega, ih _ (by omega) (by omega)]
          rfl

theorem eqOn_setWord (m : BitVec w → BitVec 8) (c : BitVec w) (v : BitVec 16) :
    Set.EqOn (setWord m c v) m {c, c + 1}ᶜ := by
  intro x hx
  rw [Set.mem_compl_iff, Set.mem_insert_iff, Set.mem_singleton_iff, not_or] at hx
  rw [setWord, Function.update_of_ne hx.2, Function.update_of_ne hx.1]

end CyclicMem
