import A2065.Types
import A2065.Lib.Crc

/-!
# `crc32.cpp`

The table is a static array filled on first use; here it is the function the
fill loop computes. The last section keeps the static data as the code has
it and shows that every call, the first one included, returns the same.
-/

namespace A2065

/-- One pass of the inner loop of `build_table`. -/
def crc32Step (c : U32) : U32 :=
  if c &&& 1 != 0 then 0xEDB88320 ^^^ (c >>> 1) else c >>> 1

/-- `crc32_table[i]`: eight passes from `i`. -/
def crc32Table (i : U8) : U32 := crc32Step^[8] (i.setWidth 32)

/-- The register after the first `len` bytes of `data`. -/
def crc32Update (data : Buf) : Nat → U32
  | 0 => 0xFFFFFFFF
  | len + 1 =>
      let crc := crc32Update data len
      crc32Table (((crc ^^^ (data len).setWidth 32) &&& 0xFF).setWidth 8) ^^^ (crc >>> 8)

/-- `crc32_compute`: the complement of the register after `len` bytes. -/
def crc32Compute (data : Buf) (len : Nat) : U32 := ~~~ crc32Update data len

/-- Bytes behind the first `len` do not matter. -/
theorem crc32Compute_congr {a b : Buf} {len : Nat} (h : ∀ i < len, a i = b i) :
    crc32Compute a len = crc32Compute b len := by
  have hupdate : crc32Update a len = crc32Update b len := by
    induction len with
    | zero => rfl
    | succ n ih =>
        rw [crc32Update, crc32Update, ih fun i hi => h i (Nat.lt_succ_of_lt hi),
          h n (Nat.lt_succ_self n)]
  rw [crc32Compute, crc32Compute, hupdate]

/-! ## The table against the shift register -/

/-- The reflected CRC-32, bit by bit. -/
def crc32Serial (message : List U8) : U32 := Crc.serial 0xEDB88320 0xFFFFFFFF message

theorem crc32Step_eq_shift (c : U32) : crc32Step c = Crc.shift 0xEDB88320 c := by
  have hbit : (c &&& 1 != 0) = c.getLsbD 0 := by
    have h := Bits.tst_twoPow c 0
    exact h
  rw [crc32Step, Crc.shift, hbit]
  rfl

/-- The table-driven loop computes the shift register. -/
theorem crc32Update_eq_serial (data : Buf) (len : Nat) :
    crc32Update data len = crc32Serial ((List.range len).map data) := by
  induction len with
  | zero => rfl
  | succ len ih =>
      have hmask : ∀ x : U32, (x &&& 0xFF).setWidth 8 = x.setWidth 8 := by
        intro x
        apply BitVec.eq_of_toNat_eq
        rw [BitVec.toNat_setWidth, BitVec.toNat_setWidth, BitVec.toNat_and]
        exact (congrArg (· % 2 ^ 8) (Nat.and_two_pow_sub_one_eq_mod x.toNat 8)).trans
          (Nat.mod_mod _ _)
      have hstep : crc32Step = Crc.shift 0xEDB88320 := funext crc32Step_eq_shift
      have hlast : crc32Serial ((List.range (len + 1)).map data) =
          Crc.feedByte 0xEDB88320 (crc32Serial ((List.range len).map data)) (data len) := by
        rw [List.range_succ, List.map_append, crc32Serial, Crc.serial, List.foldl_append]
        rfl
      rw [hlast, ← ih, Crc.feedByte_table _ (by decide)]
      simp only [crc32Update, crc32Table, hmask, hstep]

/-! ## The static data -/

/-- `crc32_table` and `table_built`: a table marked as built has its entries. -/
structure CrcStatics where
  table : U8 → U32
  built : Bool
  filled : built = true → ∀ i, table i = crc32Table i

/-- The loop of `build_table`, up to the entry `n`. -/
def buildEntries (table : U8 → U32) : Nat → U8 → U32
  | 0 => table
  | n + 1 => Function.update (buildEntries table n) (.ofNat 8 n) (crc32Step^[8] (.ofNat 32 n))

theorem buildEntries_of_lt (table : U8 → U32) {n : Nat} (hn : n ≤ 256) {i : U8}
    (hi : i.toNat < n) : buildEntries table n i = crc32Table i := by
  induction n with
  | zero => exact absurd hi (Nat.not_lt_zero _)
  | succ n ih =>
      by_cases hlast : i = .ofNat 8 n
      · have hn' : n % 256 = n := Nat.mod_eq_of_lt (by omega)
        have hindex : BitVec.ofNat 32 n = i.setWidth 32 := by
          apply BitVec.eq_of_toNat_eq
          rw [hlast]
          simp [hn']
        rw [buildEntries, hlast, Function.update_self, ← hlast, crc32Table, hindex]
      · have hlt : i.toNat < n := by
          apply Nat.lt_of_le_of_ne (Nat.le_of_lt_succ hi)
          intro heq
          apply hlast
          rw [← heq, BitVec.ofNat_toNat, BitVec.setWidth_eq]
        rw [buildEntries, Function.update_of_ne hlast]
        exact ih (by omega) hlt

namespace CrcStatics

/-- As the program is loaded. -/
def boot : CrcStatics where
  table _ := 0
  built := false
  filled h := absurd h (by decide)

/-- `build_table`: all 256 entries, and the flag that they are there. -/
def buildTable (s : CrcStatics) : CrcStatics where
  table := buildEntries s.table 256
  built := true
  filled _ i := buildEntries_of_lt s.table (Nat.le_refl 256) i.isLt

/-- The byte loop of `crc32_compute` over the static table. -/
def update (s : CrcStatics) (data : Buf) : Nat → U32
  | 0 => 0xFFFFFFFF
  | len + 1 =>
      let crc := s.update data len
      s.table (((crc ^^^ (data len).setWidth 32) &&& 0xFF).setWidth 8) ^^^ (crc >>> 8)

/-- The whole function: the CRC and the static data as it leaves them. -/
def crc32Compute (s : CrcStatics) (data : Buf) (len : Nat) : U32 × CrcStatics :=
  let s := if !s.built then s.buildTable else s
  (~~~ s.update data len, s)

theorem update_eq {s : CrcStatics} (h : s.built = true) (data : Buf) (len : Nat) :
    s.update data len = crc32Update data len := by
  induction len with
  | zero => rfl
  | succ len ih => rw [update, crc32Update, ih, s.filled h]

/-- Whatever was computed before, the result is the one of the pure function. -/
theorem crc32Compute_fst (s : CrcStatics) (data : Buf) (len : Nat) :
    (s.crc32Compute data len).1 = A2065.crc32Compute data len := by
  unfold crc32Compute A2065.crc32Compute
  by_cases h : s.built = true
  · rw [if_neg (by simp [h])]
    exact congrArg (~~~ ·) (update_eq h data len)
  · rw [if_pos (by simpa using h)]
    exact congrArg (~~~ ·) (update_eq (s := s.buildTable) rfl data len)

end CrcStatics

/-- The table-driven CRC is the reflected CRC-32 taken bit by bit. -/
theorem crc32_compute_serial (s : CrcStatics) (data : Buf) (len : Nat) :
    (s.crc32Compute data len).1 =
      ~~~ Crc.serial 0xEDB88320 0xFFFFFFFF ((List.range len).map data) := by
  rw [CrcStatics.crc32Compute_fst, crc32Compute, crc32Update_eq_serial, crc32Serial]

/-- The check value of CRC-32, with the table not yet built. -/
example : (CrcStatics.boot.crc32Compute
    (fun i => [0x31, 0x32, 0x33, 0x34, 0x35, 0x36, 0x37, 0x38, 0x39].getD i 0) 9).1 =
      0xCBF43926 := by
  decide +kernel

end A2065
