import Mathlib.Data.Nat.Bitwise

/-!
# Mask tests on machine words

`tst w m` is the C condition `w & m`. On a one-bit mask it reads that bit
(`tst_twoPow`), and it distributes over the union of masks, so a claim about
masked words becomes a claim about the word's bits. A word written as two
halves determines them (`append_inj`).
-/

namespace Bits

variable {n : Nat}

/-- The truth value of the C expression `w & m`. -/
def tst (w m : BitVec n) : Bool := w &&& m != 0#n

theorem tst_iff {w m : BitVec n} :
    tst w m = true ↔ ∃ i, w.getLsbD i = true ∧ m.getLsbD i = true := by
  rw [tst, bne_iff_ne, ne_eq, BitVec.eq_of_getLsbD_eq_iff]
  push Not
  constructor
  · rintro ⟨i, -, hi⟩
    exact ⟨i, by simpa using hi⟩
  · rintro ⟨i, hw, hm⟩
    exact ⟨i, BitVec.lt_of_getLsbD hw, by simp [hw, hm]⟩

/-- A one-bit mask reads that bit. -/
theorem tst_twoPow (w : BitVec n) (i : Nat) :
    tst w (BitVec.twoPow n i) = w.getLsbD i := by
  rw [Bool.eq_iff_iff, tst_iff]
  constructor
  · rintro ⟨j, hw, hm⟩
    rw [BitVec.getLsbD_twoPow, Bool.and_eq_true, decide_eq_true_eq, decide_eq_true_eq] at hm
    rwa [hm.2]
  · intro h
    exact ⟨i, h, by simp [BitVec.lt_of_getLsbD h]⟩

@[simp] theorem tst_or_right (w a b : BitVec n) :
    tst w (a ||| b) = (tst w a || tst w b) := by
  rw [Bool.eq_iff_iff, Bool.or_eq_true]
  simp only [tst_iff, BitVec.getLsbD_or, Bool.or_eq_true]
  constructor
  · rintro ⟨i, hw, ha | hb⟩
    · exact .inl ⟨i, hw, ha⟩
    · exact .inr ⟨i, hw, hb⟩
  · rintro (⟨i, hw, ha⟩ | ⟨i, hw, hb⟩)
    · exact ⟨i, hw, .inl ha⟩
    · exact ⟨i, hw, .inr hb⟩

/-- Setting bit `k`. -/
theorem getLsbD_or_twoPow (w : BitVec n) (k i : Nat) :
    (w ||| BitVec.twoPow n k).getLsbD i =
      (w.getLsbD i || (decide (k < n) && decide (i = k))) := by
  simp only [BitVec.getLsbD_or, BitVec.getLsbD_twoPow, eq_comm]

/-- Clearing bit `k`. -/
theorem getLsbD_and_not_twoPow (w : BitVec n) (k i : Nat) :
    (w &&& ~~~ BitVec.twoPow n k).getLsbD i = (w.getLsbD i && !decide (i = k)) := by
  simp only [BitVec.getLsbD_and, BitVec.getLsbD_not, BitVec.getLsbD_twoPow]
  cases h : w.getLsbD i with
  | false => simp
  | true =>
      have hi := BitVec.lt_of_getLsbD h
      by_cases hk : i = k
      · simp [hk, hk ▸ hi]
      · simp [hk, hi, Ne.symm hk]

/-- A concatenation determines its parts. -/
theorem append_inj {m : Nat} {a c : BitVec m} {b d : BitVec n} :
    a ++ b = c ++ d ↔ a = c ∧ b = d := by
  constructor
  · intro h
    have hlow : b = d := by
      rw [← BitVec.setWidth_append_eq_right (a := a) (b := b), h, BitVec.setWidth_append_eq_right]
    rw [hlow, BitVec.append_left_inj] at h
    exact ⟨h, hlow⟩
  · rintro ⟨rfl, rfl⟩
    rfl

end Bits
