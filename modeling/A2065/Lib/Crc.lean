import Mathlib.Data.List.Basic
import Mathlib.Logic.Function.Iterate

/-!
# Reflected cyclic redundancy checks

The shift register of a reflected CRC, one message bit at a time: least
significant bit of each byte first, the register moving right. A byte-wise
implementation moves eight places at once and looks the rest up in a table
(`feedByte_table`). That works because the move is linear in exclusive or
(`shift_xor`) and a register with clear low bits only moves down
(`shift_iterate_high`). A word sent behind the message is taken in whole
(`serial_leBytes`), and the register that results tells which word it was
(`serial_leBytes_inj`).
-/

namespace Crc

variable {w : Nat} (poly : BitVec w)

/-- The register after the message bit `b`. -/
def feed (c : BitVec w) (b : Bool) : BitVec w :=
  if (c.getLsbD 0 ^^ b) then poly ^^^ (c >>> 1) else c >>> 1

/-- The bits of a byte in the order they are sent. -/
def byteBits (b : BitVec 8) : List Bool := (List.range 8).map b.getLsbD

/-- A byte shifted in, lowest bit first. -/
def feedByte (c : BitVec w) (b : BitVec 8) : BitVec w := (byteBits b).foldl (feed poly) c

/-- The register after a message, from `init`. -/
def serial (init : BitVec w) (message : List (BitVec 8)) : BitVec w :=
  message.foldl (feedByte poly) init

/-- The move of the register when the message bit is 0. -/
def shift (c : BitVec w) : BitVec w :=
  if c.getLsbD 0 then poly ^^^ (c >>> 1) else c >>> 1

/-- A message bit can be added to the register before the move, with the bits
that follow it waiting above. -/
theorem shift_xor_message (c x : BitVec w) :
    shift poly (c ^^^ x) = feed poly c (x.getLsbD 0) ^^^ (x >>> 1) := by
  rw [shift, feed, BitVec.getLsbD_xor, BitVec.ushiftRight_xor_distrib]
  split
  · rw [BitVec.xor_assoc]
  · rfl

theorem shift_xor (a b : BitVec w) : shift poly (a ^^^ b) = shift poly a ^^^ shift poly b := by
  rw [shift_xor_message]
  unfold feed shift
  cases ha : a.getLsbD 0 <;> cases hb : b.getLsbD 0
  · rfl
  · simp only [Bool.false_xor, if_true, Bool.false_eq_true, if_false]
    ac_rfl
  · rfl
  · simp only [Bool.xor_self, if_true, Bool.false_eq_true, if_false]
    rw [BitVec.xor_comm poly, BitVec.xor_assoc, ← BitVec.xor_assoc poly, BitVec.xor_self,
      BitVec.zero_xor]

theorem shift_iterate_xor (n : Nat) (a b : BitVec w) :
    (shift poly)^[n] (a ^^^ b) = (shift poly)^[n] a ^^^ (shift poly)^[n] b := by
  induction n generalizing a b with
  | zero => rfl
  | succ n ih => simp only [Function.iterate_succ_apply, shift_xor, ih]

/-- As long as the low bits are clear the polynomial stays out. -/
theorem shift_iterate_high (n : Nat) {c : BitVec w} (hc : ∀ i < n, c.getLsbD i = false) :
    (shift poly)^[n] c = c >>> n := by
  induction n with
  | zero => rfl
  | succ n ih =>
      have hlow : (c >>> n).getLsbD 0 = false := by
        rw [BitVec.getLsbD_ushiftRight]
        exact hc n (Nat.lt_succ_self n)
      rw [Function.iterate_succ_apply', ih fun i hi => hc i (Nat.lt_succ_of_lt hi), shift, hlow,
        BitVec.shiftRight_add]
      rfl

/-- Feeding `n` bits is adding all of them and moving `n` places. -/
theorem foldl_feed (n : Nat) (c x : BitVec w) (hx : ∀ i, n ≤ i → x.getLsbD i = false) :
    ((List.range n).map x.getLsbD).foldl (feed poly) c = (shift poly)^[n] (c ^^^ x) := by
  induction n generalizing c x with
  | zero =>
      have hzero : x = 0#w := by
        apply BitVec.eq_of_getLsbD_eq
        intro i _
        rw [hx i (Nat.zero_le i), BitVec.getLsbD_zero]
      rw [hzero, BitVec.xor_zero]
      rfl
  | succ n ih =>
      have hrest : (List.range (n + 1)).map x.getLsbD =
          x.getLsbD 0 :: (List.range n).map (x >>> 1).getLsbD := by
        rw [List.range_succ_eq_map, List.map_cons, List.map_map]
        congr 1
        apply List.map_congr_left
        intro i _
        rw [BitVec.getLsbD_ushiftRight, Nat.add_comm 1 i]
        rfl
      rw [hrest, List.foldl_cons, ih, Function.iterate_succ_apply, shift_xor_message]
      intro i hi
      rw [BitVec.getLsbD_ushiftRight]
      exact hx _ (by omega)

theorem feedByte_eq_shift (hw : 8 ≤ w) (c : BitVec w) (b : BitVec 8) :
    feedByte poly c b = (shift poly)^[8] (c ^^^ b.setWidth w) := by
  have hbits : byteBits b = (List.range 8).map (b.setWidth w).getLsbD := by
    apply List.map_congr_left
    intro i hi
    have hi : i < w := Nat.lt_of_lt_of_le (List.mem_range.mp hi) hw
    rw [BitVec.getLsbD_setWidth, decide_eq_true hi, Bool.true_and]
  rw [feedByte, hbits, foldl_feed]
  intro i hi
  rw [BitVec.getLsbD_setWidth, BitVec.getLsbD_of_ge b i hi, Bool.and_false]

/-- Eight moves take in the low byte of what was added; the rest of it only
comes down. -/
theorem shift_eight (hw : 8 ≤ w) (c x : BitVec w) :
    (shift poly)^[8] (c ^^^ x) = feedByte poly c (x.setWidth 8) ^^^ (x >>> 8) := by
  have hsplit : x = (x.setWidth 8).setWidth w ^^^ ((x >>> 8) <<< 8) := by
    apply BitVec.eq_of_getLsbD_eq
    intro i hi
    by_cases h8 : i < 8
    · simp [hi, h8]
    · simp [hi, h8, show 8 + (i - 8) = i by omega]
  have hlow : ∀ i < 8, ((x >>> 8) <<< 8).getLsbD i = false := by
    intro i hi
    simp [hi]
  have hhigh : ((x >>> 8) <<< 8) >>> 8 = x >>> 8 := by
    apply BitVec.eq_of_getLsbD_eq
    intro i hi
    by_cases hw8 : 8 + i < w
    · simp [hw8]
    · rw [BitVec.getLsbD_ushiftRight, BitVec.getLsbD_ushiftRight,
        BitVec.getLsbD_of_ge _ _ (Nat.le_of_not_lt hw8),
        BitVec.getLsbD_of_ge _ _ (Nat.le_of_not_lt hw8)]
  nth_rewrite 1 [hsplit]
  rw [← BitVec.xor_assoc, shift_iterate_xor, shift_iterate_high poly 8 hlow, hhigh,
    feedByte_eq_shift poly hw]

/-- A byte at a time: the table entry of the low byte of the sum, and the
register moved down by eight places. -/
theorem feedByte_table (hw : 8 ≤ w) (c : BitVec w) (b : BitVec 8) :
    feedByte poly c b =
      (shift poly)^[8] (((c ^^^ b.setWidth w).setWidth 8).setWidth w) ^^^ (c >>> 8) := by
  have hbyte : b.setWidth w >>> 8 = 0#w := by
    apply BitVec.eq_of_getLsbD_eq
    intro i _
    rw [BitVec.getLsbD_ushiftRight, BitVec.getLsbD_setWidth,
      BitVec.getLsbD_of_ge b _ (Nat.le_add_right 8 i), Bool.and_false, BitVec.getLsbD_zero]
  have height := shift_eight poly hw 0#w (c ^^^ b.setWidth w)
  rwa [BitVec.zero_xor, ← feedByte_eq_shift poly hw, feedByte_eq_shift poly hw 0#w,
    BitVec.zero_xor, BitVec.ushiftRight_xor_distrib, hbyte, BitVec.xor_zero] at height

/-! ## A word behind the message

The register is moved its whole length by a word sent low byte first, so what
it then holds depends on the sum of register and word alone. -/

/-- The low `k` bytes of a word in the order they are sent. -/
def leBytes (x : BitVec w) : Nat → List (BitVec 8)
  | 0 => []
  | k + 1 => x.setWidth 8 :: leBytes (x >>> 8) k

theorem serial_append (init : BitVec w) (a b : List (BitVec 8)) :
    serial poly init (a ++ b) = serial poly (serial poly init a) b := List.foldl_append ..

theorem serial_leBytes (hw : 8 ≤ w) (k : Nat) (c x : BitVec w)
    (hx : ∀ i, 8 * k ≤ i → x.getLsbD i = false) :
    serial poly c (leBytes x k) = (shift poly)^[8 * k] (c ^^^ x) := by
  induction k generalizing c x with
  | zero =>
      have hzero : x = 0#w := by
        apply BitVec.eq_of_getLsbD_eq
        intro i _
        rw [hx i (Nat.zero_le i), BitVec.getLsbD_zero]
      rw [hzero, BitVec.xor_zero]
      rfl
  | succ k ih =>
      have hstep : serial poly c (leBytes x (k + 1)) =
          serial poly (feedByte poly c (x.setWidth 8)) (leBytes (x >>> 8) k) := rfl
      have hrest : ∀ i, 8 * k ≤ i → (x >>> 8).getLsbD i = false := by
        intro i hi
        rw [BitVec.getLsbD_ushiftRight]
        exact hx _ (by omega)
      rw [hstep, ih _ _ hrest, ← shift_eight poly hw, ← Function.iterate_add_apply]
      rfl

/-- No two registers move to the same one: the polynomial enters at the top
bit, which a plain move leaves clear. -/
theorem shift_injective (hpoly : poly.msb = true) : Function.Injective (shift poly) := by
  intro a b hab
  have hzero : shift poly (a ^^^ b) = 0#w := by rw [shift_xor, hab, BitVec.xor_self]
  have hmoved : ∀ x : BitVec w, (x >>> 1).msb = false := by
    intro x
    rw [BitVec.msb_ushiftRight]
    rfl
  have hlow : (a ^^^ b).getLsbD 0 = false := by
    by_contra hset
    rw [shift, if_pos (by simpa using hset)] at hzero
    have htop := congrArg BitVec.msb hzero
    rw [BitVec.msb_xor, hpoly, hmoved, BitVec.msb_zero] at htop
    exact absurd htop (by decide)
  rw [shift, if_neg (by simp [hlow])] at hzero
  have hsame : a ^^^ b = 0#w := by
    apply BitVec.eq_of_getLsbD_eq
    intro i _
    rw [BitVec.getLsbD_zero]
    cases i with
    | zero => exact hlow
    | succ i =>
        have hbit := congrArg (fun x : BitVec w => x.getLsbD i) hzero
        simpa [BitVec.getLsbD_ushiftRight, Nat.add_comm] using hbit
  exact BitVec.xor_eq_zero_iff.mp hsame

/-- Two words behind one message leave the same register only if they are the
same word. -/
theorem serial_leBytes_inj (hw : 8 ≤ w) (hpoly : poly.msb = true) {k : Nat} (hk : w = 8 * k)
    (c x y : BitVec w) :
    serial poly c (leBytes x k) = serial poly c (leBytes y k) ↔ x = y := by
  have hhigh : ∀ (v : BitVec w) (i : Nat), 8 * k ≤ i → v.getLsbD i = false := by
    intro v i hi
    exact BitVec.getLsbD_of_ge v i (by omega)
  rw [serial_leBytes poly hw k c x (hhigh x), serial_leBytes poly hw k c y (hhigh y)]
  constructor
  · intro hsame
    have hsum := (shift_injective poly hpoly).iterate (8 * k) hsame
    exact (BitVec.xor_right_inj c).mp hsum
  · intro hxy
    rw [hxy]

end Crc
