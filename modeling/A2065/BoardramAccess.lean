import A2065.Types
import A2065.Lib.CyclicMem

/-!
# The flat boardram accessors of `boardram_access.h`

The window is 32 KB. The FPGA stores each 68k word little-endian, so the byte
at card offset `off` sits at window index `off ^ 1`, masked to 15 bits.
`Boardram.mem` is the window by card offset, a cyclic memory; nothing above
this module knows about the swapped lanes.
-/

namespace A2065

open Bits CyclicMem

/-- What an offset is reduced by: boardram has 32 KB. -/
def RAM_MASK : U32 := 0x7FFF

/-- The window the daemon maps: one byte per index. -/
abbrev Boardram := BitVec 15 → U8

/-- The card offset modulo the window size. -/
def cell (off : U32) : BitVec 15 := off.setWidth 15

/-- The index expression `(off ^ 1) & RAM_MASK`. -/
def ramIndex (off : U32) : BitVec 15 := ((off ^^^ 1) &&& RAM_MASK).setWidth 15

namespace Boardram

/-- `get_ram_byte` -/
def getRamByte (m : Boardram) (off : U32) : U8 := m (ramIndex off)

/-- `get_ram_word`: the high byte first, as the 68k stores a word. -/
def getRamWord (m : Boardram) (off : U32) : U16 :=
  (m.getRamByte off).setWidth 16 <<< 8 ||| (m.getRamByte (off + 1)).setWidth 16

/-- `put_ram_byte` -/
def putRamByte (m : Boardram) (off : U32) (v : U8) : Boardram :=
  Function.update m (ramIndex off) v

/-- `put_ram_word`. Each byte is masked on its own, so a word at the last cell
ends in the first. -/
def putRamWord (m : Boardram) (off : U32) (v : U16) : Boardram :=
  (m.putRamByte off ((v >>> 8).setWidth 8)).putRamByte (off + 1) (v.setWidth 8)

end Boardram

/-! ## The window by card offset -/

theorem ramMask_getLsbD : ∀ i < 15, RAM_MASK.getLsbD i = true := by decide

theorem ramIndex_eq (off : U32) : ramIndex off = cell off ^^^ 1 := by
  apply BitVec.eq_of_getLsbD_eq
  intro i hi
  simp [ramIndex, cell, ramMask_getLsbD i hi, hi]

/-- Masking to the window does not move a byte. -/
theorem cell_and_mask (off : U32) : cell (off &&& RAM_MASK) = cell off := by
  apply BitVec.eq_of_getLsbD_eq
  intro i hi
  simp [cell, ramMask_getLsbD i hi, hi]

theorem cell_add (a b : U32) : cell (a + b) = cell a + cell b := by
  simp [cell, BitVec.setWidth_add]

theorem cell_ofNat (n : Nat) : cell (BitVec.ofNat 32 n) = BitVec.ofNat 15 n := by
  rw [cell, BitVec.setWidth_ofNat_of_le (by decide)]

namespace Boardram

/-- The byte at each card offset, lanes put right. -/
def mem (m : Boardram) : BitVec 15 → U8 := fun c => m (c ^^^ 1)

theorem getRamByte_eq (m : Boardram) (off : U32) : m.getRamByte off = m.mem (cell off) := by
  rw [getRamByte, ramIndex_eq, mem]

theorem mem_putRamByte (m : Boardram) (off : U32) (v : U8) :
    (m.putRamByte off v).mem = Function.update m.mem (cell off) v := by
  funext c
  rw [mem, putRamByte, ramIndex_eq, Function.update_apply, Function.update_apply]
  have hc : c ^^^ 1 = cell off ^^^ 1 ↔ c = cell off := BitVec.xor_left_inj _
  simp only [hc, mem]

theorem getRamWord_eq (m : Boardram) (off : U32) : m.getRamWord off = wordAt m.mem (cell off) := by
  rw [getRamWord, getRamByte_eq, getRamByte_eq, cell_add]
  rfl

theorem mem_putRamWord (m : Boardram) (off : U32) (v : U16) :
    (m.putRamWord off v).mem = setWord m.mem (cell off) v := by
  rw [putRamWord, mem_putRamByte, mem_putRamByte, cell_add]
  rfl

theorem mem_injective : Function.Injective mem := by
  intro m m' h
  funext c
  have hc := congrFun h (c ^^^ 1)
  rwa [mem, mem, BitVec.xor_assoc, BitVec.xor_self, BitVec.xor_zero] at hc

theorem putRamWord_getRamWord (m : Boardram) (off : U32) :
    m.putRamWord off (m.getRamWord off) = m := by
  apply mem_injective
  rw [mem_putRamWord, getRamWord_eq, setWord_wordAt]

end Boardram

end A2065
