import Mathlib.Data.Nat.ModEq
import Mathlib.Data.List.Basic

/-!
# One's-complement sums

A one's-complement checksum adds words without loss and then brings the
carries back in at the low end, `fold`, until one word is left. Folding keeps
the residue modulo the base minus one and never turns a positive number into
zero, so it is the residue with `b - 1` standing for 0
(`fold_eq_top_iff`). `wordSum` is the sum of a byte string as big-endian
16-bit words, an odd last byte padded with zero.
-/

namespace OnesComplement

/-- End-around carry in base `b`. -/
def fold (b n : Nat) : Nat :=
  if 1 < b ∧ b ≤ n then fold b (n % b + n / b) else n
termination_by n
decreasing_by
  rename_i h
  have hquot : 0 < n / b := Nat.div_pos h.2 (by omega)
  have hsplit := Nat.div_add_mod n b
  have hmul : 2 * (n / b) ≤ b * (n / b) := Nat.mul_le_mul_right _ h.1
  omega

section Fold

variable {b : Nat} (hb : 1 < b)

include hb

theorem fold_lt (n : Nat) : fold b n < b := by
  fun_induction fold b n with
  | case1 n h ih => exact ih
  | case2 n h => omega

/-- Adding the carry at the low end keeps the residue modulo `b - 1`. -/
theorem carry_modEq (n : Nat) : n % b + n / b ≡ n [MOD b - 1] := by
  have hsplit : n = (n % b + n / b) + (b - 1) * (n / b) := by
    have hdiv := Nat.div_add_mod n b
    have hmul : b * (n / b) = (b - 1) * (n / b) + n / b := by
      rw [← Nat.succ_mul, Nat.succ_eq_add_one, Nat.sub_add_cancel (Nat.le_of_lt hb)]
    omega
  nth_rewrite 3 [hsplit]
  exact (Nat.add_modEq_left_iff.mpr (Dvd.intro _ rfl)).symm

theorem fold_modEq (n : Nat) : fold b n ≡ n [MOD b - 1] := by
  fun_induction fold b n with
  | case1 n h ih => exact ih.trans (carry_modEq hb n)
  | case2 n h => rfl

theorem fold_pos {n : Nat} (hn : 0 < n) : 0 < fold b n := by
  fun_induction fold b n with
  | case1 n h ih =>
      have hquot : 0 < n / b := Nat.div_pos h.2 (by omega)
      exact ih (by omega)
  | case2 n h => exact hn

/-- A positive sum folds to all ones exactly when `b - 1` divides it. -/
theorem fold_eq_top_iff {n : Nat} (hn : 0 < n) : fold b n = b - 1 ↔ b - 1 ∣ n := by
  have hlt := fold_lt hb n
  have hpos := fold_pos hb hn
  rw [← Nat.modEq_zero_iff_dvd]
  constructor
  · intro h
    have hmod := fold_modEq hb n
    rw [h] at hmod
    exact hmod.symm.trans (Nat.modEq_zero_iff_dvd.mpr (Nat.dvd_refl _))
  · intro h
    have hdvd : b - 1 ∣ fold b n := Nat.modEq_zero_iff_dvd.mp ((fold_modEq hb n).trans h)
    have hle := Nat.le_of_dvd hpos hdvd
    omega

/-- The complement of the folded sum, added to the sum, folds to all ones. -/
theorem fold_add_complement {n : Nat} (hn : 0 < n) : fold b (n + (b - 1 - fold b n)) = b - 1 := by
  have hlt := fold_lt hb n
  rw [fold_eq_top_iff hb (by omega), ← Nat.modEq_zero_iff_dvd]
  calc n + (b - 1 - fold b n) ≡ fold b n + (b - 1 - fold b n) [MOD b - 1] :=
        ((fold_modEq hb n).add_right _).symm
    _ ≡ 0 [MOD b - 1] := by
        rw [show fold b n + (b - 1 - fold b n) = b - 1 by omega]
        exact Nat.modEq_zero_iff_dvd.mpr (Nat.dvd_refl _)

end Fold

/-! ## Sums of byte strings -/

/-- The sum of the big-endian 16-bit words. -/
def wordSum : List (BitVec 8) → Nat
  | [] => 0
  | [a] => a.toNat * 256
  | a :: b :: rest => a.toNat * 256 + b.toNat + wordSum rest

theorem wordSum_append {xs : List (BitVec 8)} (hx : 2 ∣ xs.length) (ys : List (BitVec 8)) :
    wordSum (xs ++ ys) = wordSum xs + wordSum ys := by
  induction xs using wordSum.induct with
  | case1 => simp [wordSum]
  | case2 a =>
      rw [List.length_singleton] at hx
      omega
  | case3 a b rest ih =>
      rw [List.length_cons, List.length_cons] at hx
      rw [List.cons_append, List.cons_append, wordSum, wordSum, ih (by omega)]
      omega

/-- A zero byte behind an odd number of bytes changes nothing. -/
theorem wordSum_append_zero (xs : List (BitVec 8)) : wordSum (xs ++ [0]) = wordSum xs := by
  induction xs using wordSum.induct with
  | case1 => simp [wordSum]
  | case2 a => simp [wordSum]
  | case3 a b rest ih => rw [List.cons_append, List.cons_append, wordSum, wordSum, ih]

theorem wordSum_le (xs : List (BitVec 8)) : wordSum xs ≤ 65535 * ((xs.length + 1) / 2) := by
  induction xs using wordSum.induct with
  | case1 => simp [wordSum]
  | case2 a =>
      have ha := a.isLt
      simp only [wordSum, List.length_singleton]
      omega
  | case3 a b rest ih =>
      have ha := a.isLt
      have hb := b.isLt
      simp only [wordSum, List.length_cons]
      omega

/-- The weight of the byte at index `i` in its word. -/
def weight (i : Nat) : Nat := if i % 2 = 0 then 256 else 1

theorem wordSum_set {xs : List (BitVec 8)} {i : Nat} (hi : i < xs.length) (a : BitVec 8) :
    wordSum (xs.set i a) + weight i * xs[i].toNat = wordSum xs + weight i * a.toNat := by
  induction xs using wordSum.induct generalizing i with
  | case1 => exact absurd hi (Nat.not_lt_zero i)
  | case2 b =>
      obtain rfl : i = 0 := by simpa using hi
      simp only [List.set_cons_zero, List.getElem_cons_zero, wordSum, weight, if_pos]
      omega
  | case3 b c rest ih =>
      rcases i with _ | _ | i
      · simp only [List.set_cons_zero, List.getElem_cons_zero, wordSum, weight, if_pos]
        omega
      · have hone : weight 1 = 1 := rfl
        simp only [Nat.zero_add, List.set_cons_succ, List.set_cons_zero, List.getElem_cons_succ,
          List.getElem_cons_zero, wordSum, hone]
        omega
      · have hrest := ih (i := i) (by simpa using hi)
        have hweight : weight (i + 2) = weight i := by simp [weight]
        simp only [List.set_cons_succ, List.getElem_cons_succ, wordSum, hweight]
        omega

/-- A change of one byte always shows in the residue. -/
theorem eq_of_wordSum_set {xs : List (BitVec 8)} {i : Nat} (hi : i < xs.length) {a : BitVec 8}
    (h : wordSum (xs.set i a) ≡ wordSum xs [MOD 65535]) : a = xs[i] := by
  have hset := wordSum_set hi a
  have ha := a.isLt
  have hx := xs[i].isLt
  apply BitVec.eq_of_toNat_eq
  have hmod : weight i * a.toNat ≡ weight i * xs[i].toNat [MOD 65535] := by
    have hsum : wordSum xs + weight i * a.toNat ≡ wordSum xs + weight i * xs[i].toNat
        [MOD 65535] := by
      rw [← hset]
      exact h.add_right _
    exact Nat.ModEq.add_left_cancel' _ hsum
  unfold weight at hmod
  split at hmod
  · have := Nat.ModEq.eq_of_lt_of_lt hmod (by omega) (by omega)
    omega
  · have := Nat.ModEq.eq_of_lt_of_lt hmod (by omega) (by omega)
    omega

end OnesComplement
