import A2065.BoardramAccess

/-!
# The remote boardram accessors, `boardram_remote.cpp`

With `BOARDRAM_REMOTE` the daemon reaches boardram one 16-bit word at a time.
The accessors are written over `boardram_xfer`, here a parameter, so that the
same definitions serve a transfer that always completes and one that times
out. With the first kind, transfers on a word RAM, flat and remote accessors
are two implementations of one byte array. With the second kind a byte write,
which reads the word first, can store the value of a failed read
(`boardram_wb_atomic_iff`).
-/

namespace A2065

open Bits CyclicMem

/-- `boardram_xfer(off, write, wdata)` on a state. -/
abbrev Xfer (σ : Type) := U16 → Bool → U16 → σ → U16 × σ

section Accessors

variable {σ : Type} (xfer : Xfer σ)

/-- `off & 0x7FFE`, as the `uint16_t` that `boardram_xfer` takes. -/
def xferOff (off : U32) : U16 := (off &&& 0x7FFE).setWidth 16

/-- `boardram_rb`: the half of the word that the lowest bit of `off` names. -/
def boardramRb (off : U32) (s : σ) : U8 × σ :=
  let r := xfer (xferOff off) false 0 s
  (if tst off 1 then r.1.setWidth 8 else (r.1 >>> 8).setWidth 8, r.2)

/-- `boardram_rw` -/
def boardramRw (off : U32) (s : σ) : U16 × σ := xfer (xferOff off) false 0 s

/-- `boardram_wb`: the word is read, one half replaced, and written back. -/
def boardramWb (off : U32) (val : U8) (s : σ) : σ :=
  let r := xfer (xferOff off) false 0 s
  let nw : U16 := if tst off 1 then (r.1 &&& 0xFF00) ||| val.setWidth 16
    else val.setWidth 16 <<< 8 ||| (r.1 &&& 0x00FF)
  (xfer (xferOff off) true nw r.2).2

/-- `boardram_ww` -/
def boardramWw (off : U32) (val : U16) (s : σ) : σ := (xfer (xferOff off) true val s).2

end Accessors

/-- The accessors of `boardram_access.h` that the daemon is written against. -/
structure Accessors (σ : Type) where
  getRamByte : U32 → σ → U8 × σ
  getRamWord : U32 → σ → U16 × σ
  putRamByte : U32 → U8 → σ → σ
  putRamWord : U32 → U16 → σ → σ

namespace Accessors

variable {σ : Type} (A : Accessors σ)

/-- `ram_read_block`, in both variants a loop of byte reads. -/
def ramReadBlock (off : U32) (s : σ) : Nat → List U8 × σ
  | 0 => ([], s)
  | len + 1 =>
      let r := ramReadBlock off s len
      let b := A.getRamByte (off + BitVec.ofNat 32 len) r.2
      (r.1 ++ [b.1], b.2)

/-- `ram_write_block`, in both variants a loop of byte writes. -/
def ramWriteBlock (off : U32) (src : Buf) (s : σ) : Nat → σ
  | 0 => s
  | len + 1 => A.putRamByte (off + BitVec.ofNat 32 len) (src len) (ramWriteBlock off src s len)

end Accessors

/-- The accessors without `BOARDRAM_REMOTE`. -/
def flat : Accessors Boardram where
  getRamByte off m := (m.getRamByte off, m)
  getRamWord off m := (m.getRamWord off, m)
  putRamByte off v m := m.putRamByte off v
  putRamWord off v m := m.putRamWord off v

/-- The accessors with `BOARDRAM_REMOTE`. -/
def remote {σ : Type} (xfer : Xfer σ) : Accessors σ where
  getRamByte off s := boardramRb xfer (off &&& RAM_MASK) s
  getRamWord off s := boardramRw xfer (off &&& RAM_MASK) s
  putRamByte off v s := boardramWb xfer (off &&& RAM_MASK) v s
  putRamWord off v s := boardramWw xfer (off &&& RAM_MASK) v s

/-! ## The memory they stand for -/

/-- A plain array of 32 KB, indexed modulo 0x8000. -/
abbrev PlainRam := BitVec 15 → U8

namespace PlainRam

/-- The place of the byte `i` behind `off`. -/
def index (off : U32) (i : Nat) : BitVec 15 := .ofNat 15 (off.toNat + i)

/-- The bytes at `off`, `off + 1`, ..., `off + len - 1`. -/
def readBytes (p : PlainRam) (off : U32) (len : Nat) : List U8 :=
  (List.range len).map fun i => p (index off i)

/-- The array with the bytes `src 0`, ..., `src (len - 1)` at these places. A
block of more than 32 KB comes to a place several times; the last byte stays. -/
def writeBytes (p : PlainRam) (off : U32) (src : Buf) (len : Nat) : PlainRam := fun c =>
  ((List.range len).filter fun i => index off i = c).getLast?.elim (p c) src

/-- One byte more. -/
theorem writeBytes_succ (p : PlainRam) (off : U32) (src : Buf) (len : Nat) :
    p.writeBytes off src (len + 1) =
      Function.update (p.writeBytes off src len) (index off len) (src len) := by
  funext c
  rw [Function.update_apply, writeBytes, List.range_succ, List.filter_append]
  by_cases hc : index off len = c
  · rw [if_pos hc.symm, List.filter_singleton, decide_eq_true hc, cond_true, List.getLast?_concat]
    rfl
  · rw [if_neg (Ne.symm hc), List.filter_singleton, decide_eq_false hc, cond_false,
      List.append_nil]
    rfl

end PlainRam

/-! ## Transfers that complete -/

/-- The RAM behind the adapter: 16384 words. -/
abbrev WordRam := BitVec 14 → U16

/-- The word a byte offset lies in. -/
def wordIndex (off : U16) : BitVec 14 := off.extractLsb' 1 14

/-- A transfer that always completes. A write returns what it wrote. -/
def WordRam.xfer : Xfer WordRam := fun off write wdata r =>
  let i := wordIndex (off &&& 0x7FFE)
  if write then (wdata, Function.update r i wdata) else (r i, r)

/-- The bytes of the words, high byte first. -/
def WordRam.image (r : WordRam) : PlainRam := fun c =>
  if c.getLsbD 0 then (r (c.extractLsb' 1 14)).setWidth 8
  else (r (c.extractLsb' 1 14) >>> 8).setWidth 8

theorem PlainRam.index_eq_cell (off : U32) (i : Nat) :
    index off i = cell (off + BitVec.ofNat 32 i) := by
  rw [cell_add, cell_ofNat, index, BitVec.ofNat_add, BitVec.ofNat_toNat, cell]

theorem PlainRam.index_zero (off : U32) : index off 0 = cell off := by
  rw [index, Nat.add_zero, BitVec.ofNat_toNat, cell]

/-- The word transferred is the one with the addressed byte. -/
theorem wordIndex_xferOff (off : U32) :
    wordIndex (xferOff (off &&& RAM_MASK) &&& 0x7FFE) = (cell off).extractLsb' 1 14 := by
  have hmask : ∀ i < 14,
      (0x7FFE#16).getLsbD (1 + i) = true ∧ (0x7FFE#32).getLsbD (1 + i) = true := by
    decide
  apply BitVec.eq_of_getLsbD_eq
  intro i hi
  simp [wordIndex, xferOff, cell, hi, hmask i hi, ramMask_getLsbD (1 + i) (by omega),
    show 1 + i < 15 by omega, show 1 + i < 16 by omega]

theorem tst_one_and_mask (off : U32) : tst (off &&& RAM_MASK) 1 = (cell off).getLsbD 0 := by
  have hone : (1 : U32) = .twoPow 32 0 := rfl
  rw [hone, tst_twoPow]
  simp [cell, ramMask_getLsbD 0 (by decide)]

/-- Offsets in the same word differ in their last bit only. -/
theorem eq_of_word {c e : BitVec 15} (hw : c.extractLsb' 1 14 = e.extractLsb' 1 14)
    (hb : c.getLsbD 0 = e.getLsbD 0) : c = e := by
  apply BitVec.eq_of_getLsbD_eq
  intro i hi
  cases i with
  | zero => exact hb
  | succ i =>
      have := congrArg (fun x => BitVec.getLsbD x i) hw
      simpa [show i < 14 by omega, Nat.add_comm] using this

/-- The offset behind an even one lies in the same word. -/
theorem word_succ {c : BitVec 15} (h : c.getLsbD 0 = false) :
    (c + 1).extractLsb' 1 14 = c.extractLsb' 1 14 ∧ (c + 1).getLsbD 0 = true := by
  have hone : ∀ i, (1 : BitVec 15).getLsbD i = decide (i = 0) := by
    intro i
    show (1#15).getLsbD i = _
    simp [BitVec.getLsbD_one]
  have hor : c + 1 = c ||| 1 := by
    apply BitVec.add_eq_or_of_and_eq_zero
    apply BitVec.eq_of_getLsbD_eq
    intro i hi
    by_cases h0 : i = 0
    · subst h0
      rw [BitVec.getLsbD_and, h, Bool.false_and, BitVec.getLsbD_zero]
    · rw [BitVec.getLsbD_and, hone, decide_eq_false h0, Bool.and_false, BitVec.getLsbD_zero]
  rw [hor]
  constructor
  · apply BitVec.eq_of_getLsbD_eq
    intro i hi
    simp only [BitVec.getLsbD_extractLsb', hi, decide_true, Bool.true_and, BitVec.getLsbD_or, hone]
    rw [decide_eq_false (by omega), Bool.or_false]
  · rw [BitVec.getLsbD_or, hone, decide_eq_true rfl, Bool.or_true]

/-- The offset of the other byte of the word. -/
def neighbour (c : BitVec 15) : BitVec 15 := c ^^^ 1

theorem neighbour_word (c : BitVec 15) : (neighbour c).extractLsb' 1 14 = c.extractLsb' 1 14 := by
  apply BitVec.eq_of_getLsbD_eq
  intro i hi
  have hone : (1 : BitVec 15).getLsbD (1 + i) = false := by
    show (1#15).getLsbD (1 + i) = false
    rw [BitVec.getLsbD_one, decide_eq_false (p := 1 + i = 0) (by omega), Bool.and_false]
  rw [BitVec.getLsbD_extractLsb', BitVec.getLsbD_extractLsb', neighbour, BitVec.getLsbD_xor, hone,
    Bool.xor_false]

theorem neighbour_odd (c : BitVec 15) : (neighbour c).getLsbD 0 = !c.getLsbD 0 := by
  rw [neighbour, BitVec.getLsbD_xor]
  exact Bool.xor_true _

theorem neighbour_ne (c : BitVec 15) : neighbour c ≠ c := by
  intro h
  have hodd := neighbour_odd c
  rw [h] at hodd
  exact Bool.self_ne_not _ hodd

theorem eq_or_neighbour {e c : BitVec 15} (h : e.extractLsb' 1 14 = c.extractLsb' 1 14) :
    e = c ∨ e = neighbour c := by
  by_cases hb : e.getLsbD 0 = c.getLsbD 0
  · exact .inl (eq_of_word h hb)
  · refine .inr (eq_of_word (h.trans (neighbour_word c).symm) ?_)
    rw [neighbour_odd]
    exact Bool.eq_not_of_ne hb

/-! ## The two implementations -/

namespace WordRam

theorem xfer_read (r : WordRam) (off : U32) :
    xfer (xferOff (off &&& RAM_MASK)) false 0 r = (r ((cell off).extractLsb' 1 14), r) := by
  rw [xfer, wordIndex_xferOff]
  rfl

theorem xfer_write (r : WordRam) (off : U32) (v : U16) :
    (xfer (xferOff (off &&& RAM_MASK)) true v r).2 =
      Function.update r ((cell off).extractLsb' 1 14) v := by
  rw [xfer, wordIndex_xferOff]
  rfl

theorem image_apply (r : WordRam) (c : BitVec 15) : r.image c =
    if c.getLsbD 0 then (r (c.extractLsb' 1 14)).setWidth 8
    else (r (c.extractLsb' 1 14) >>> 8).setWidth 8 := rfl

/-- The word at an even offset. -/
theorem wordAt_image (r : WordRam) {c : BitVec 15} (h : c.getLsbD 0 = false) :
    wordAt r.image c = r (c.extractLsb' 1 14) := by
  obtain ⟨hword, hodd⟩ := word_succ h
  rw [wordAt, image_apply, image_apply, h, hodd, hword]
  exact join_bytes _

/-- A changed word shows in its bytes and nowhere else. -/
theorem image_update (r : WordRam) (i : BitVec 14) (v : U16) (e : BitVec 15) :
    image (Function.update r i v) e =
      if e.extractLsb' 1 14 = i then
        if e.getLsbD 0 then v.setWidth 8 else (v >>> 8).setWidth 8
      else r.image e := by
  rw [image_apply, image_apply, Function.update_apply]
  by_cases he : e.extractLsb' 1 14 = i
  · rw [if_pos he, if_pos he]
  · rw [if_neg he, if_neg he]

theorem image_update_word (r : WordRam) {c : BitVec 15} (h : c.getLsbD 0 = false) (v : U16) :
    image (Function.update r (c.extractLsb' 1 14) v) = setWord r.image c v := by
  obtain ⟨hword, hodd⟩ := word_succ h
  have hne : c ≠ c + 1 := by
    intro heq
    rw [← heq, h] at hodd
    cases hodd
  funext e
  rw [image_update, setWord, Function.update_apply, Function.update_apply]
  by_cases he : e.extractLsb' 1 14 = c.extractLsb' 1 14
  · cases hb : e.getLsbD 0 with
    | true =>
        have hec : e = c + 1 := eq_of_word (he.trans hword.symm) (hb.trans hodd.symm)
        rw [if_pos he, if_pos rfl, if_pos hec]
    | false =>
        have hec : e = c := eq_of_word he (hb.trans h.symm)
        rw [if_pos he, if_neg Bool.false_ne_true, if_neg (hec ▸ hne), if_pos hec]
  · rw [if_neg he, if_neg (fun heq => he (by rw [heq, hword])),
      if_neg (fun heq => he (by rw [heq]))]

/-- The byte of the word that is not at `c`. -/
theorem image_neighbour (r : WordRam) (c : BitVec 15) : r.image (neighbour c) =
    if c.getLsbD 0 then (r (c.extractLsb' 1 14) >>> 8).setWidth 8
    else (r (c.extractLsb' 1 14)).setWidth 8 := by
  rw [image_apply, neighbour_word, neighbour_odd]
  cases c.getLsbD 0 <;> rfl

/-- A word that is put together from the value for one half and something for
the other. -/
theorem image_update_halves (r : WordRam) (c : BitVec 15) (v u : U8) {nw : U16}
    (hodd : c.getLsbD 0 = true → nw.setWidth 8 = v ∧ (nw >>> 8).setWidth 8 = u)
    (heven : c.getLsbD 0 = false → (nw >>> 8).setWidth 8 = v ∧ nw.setWidth 8 = u) :
    image (Function.update r (c.extractLsb' 1 14) nw) =
      Function.update (Function.update r.image c v) (neighbour c) u := by
  funext e
  rw [image_update, Function.update_apply, Function.update_apply]
  by_cases he : e.extractLsb' 1 14 = c.extractLsb' 1 14
  · rw [if_pos he]
    rcases eq_or_neighbour he with heq | heq
    · subst heq
      rw [if_neg (neighbour_ne e).symm, if_pos rfl]
      cases hc : e.getLsbD 0 with
      | true => exact (hodd hc).1
      | false => exact (heven hc).1
    · subst heq
      rw [if_pos rfl, neighbour_odd]
      cases hc : c.getLsbD 0 with
      | true => exact (hodd hc).2
      | false => exact (heven hc).2
  · rw [if_neg he, if_neg (fun heq => he (by rw [heq, neighbour_word])),
      if_neg (fun heq => he (by rw [heq]))]

/-- Rewriting one half of a word changes one byte. -/
theorem image_update_byte (r : WordRam) (c : BitVec 15) (v : U8) {nw : U16}
    (hodd : c.getLsbD 0 = true → nw.setWidth 8 = v ∧
      (nw >>> 8).setWidth 8 = (r (c.extractLsb' 1 14) >>> 8).setWidth 8)
    (heven : c.getLsbD 0 = false → (nw >>> 8).setWidth 8 = v ∧
      nw.setWidth 8 = (r (c.extractLsb' 1 14)).setWidth 8) :
    image (Function.update r (c.extractLsb' 1 14) nw) = Function.update r.image c v := by
  have hother := image_neighbour r c
  rw [image_update_halves r c v (r.image (neighbour c)), Function.update_eq_self_iff,
    Function.update_of_ne (neighbour_ne c)]
  · intro hc
    rw [if_pos hc] at hother
    rw [hother]
    exact hodd hc
  · intro hc
    rw [if_neg (Bool.eq_false_iff.mp hc)] at hother
    rw [hother]
    exact heven hc

end WordRam

/-- Seen through `view`, the accessors are those of the plain array. -/
structure Refines {σ : Type} (A : Accessors σ) (view : σ → PlainRam) : Prop where
  getByte : ∀ off s, (A.getRamByte off s).1 = view s (cell off) ∧
    view (A.getRamByte off s).2 = view s
  getWord : ∀ off s, off.getLsbD 0 = false → (A.getRamWord off s).1 = wordAt (view s) (cell off) ∧
    view (A.getRamWord off s).2 = view s
  putByte : ∀ off v s, view (A.putRamByte off v s) = Function.update (view s) (cell off) v
  putWord : ∀ off v s, off.getLsbD 0 = false →
    view (A.putRamWord off v s) = setWord (view s) (cell off) v

theorem flat_refines : Refines flat Boardram.mem where
  getByte off m := ⟨m.getRamByte_eq off, rfl⟩
  getWord off m _ := ⟨m.getRamWord_eq off, rfl⟩
  putByte off v m := m.mem_putRamByte off v
  putWord off v m _ := m.mem_putRamWord off v

theorem cell_getLsbD_zero (off : U32) : (cell off).getLsbD 0 = off.getLsbD 0 := by
  simp [cell]

/-- The half-words `boardram_wb` puts together. -/
theorem mergeLow_bytes (w : U16) (v : U8) :
    ((w &&& 0xFF00) ||| v.setWidth 16).setWidth 8 = v ∧
      (((w &&& 0xFF00) ||| v.setWidth 16) >>> 8).setWidth 8 = (w >>> 8).setWidth 8 := by
  have hmask : ∀ i < 8, (0xFF00#16).getLsbD i = false ∧ (0xFF00#16).getLsbD (8 + i) = true := by
    decide
  constructor <;> (apply BitVec.eq_of_getLsbD_eq; intro i hi)
  · simp only [BitVec.getLsbD_setWidth, BitVec.getLsbD_or, BitVec.getLsbD_and]
    grind
  · simp only [BitVec.getLsbD_setWidth, BitVec.getLsbD_ushiftRight, BitVec.getLsbD_or,
      BitVec.getLsbD_and, v.getLsbD_of_ge (8 + i) (by omega)]
    grind

theorem mergeHigh_bytes (w : U16) (v : U8) :
    ((v.setWidth 16 <<< 8 ||| (w &&& 0x00FF)) >>> 8).setWidth 8 = v ∧
      (v.setWidth 16 <<< 8 ||| (w &&& 0x00FF)).setWidth 8 = w.setWidth 8 := by
  have hmask : ∀ i < 8, (0x00FF#16).getLsbD i = true ∧ (0x00FF#16).getLsbD (8 + i) = false := by
    decide
  constructor <;> (apply BitVec.eq_of_getLsbD_eq; intro i hi)
  · simp only [BitVec.getLsbD_setWidth, BitVec.getLsbD_ushiftRight, BitVec.getLsbD_or,
      BitVec.getLsbD_and, BitVec.getLsbD_shiftLeft]
    grind
  · simp only [BitVec.getLsbD_setWidth, BitVec.getLsbD_or, BitVec.getLsbD_and,
      BitVec.getLsbD_shiftLeft]
    grind

theorem remote_refines : Refines (remote WordRam.xfer) WordRam.image where
  getByte off r := by
    simp only [remote, boardramRb, WordRam.xfer_read, tst_one_and_mask]
    exact ⟨rfl, trivial⟩
  getWord off r h := by
    simp only [remote, boardramRw, WordRam.xfer_read]
    exact ⟨(WordRam.wordAt_image r (by rw [cell_getLsbD_zero, h])).symm, trivial⟩
  putByte off v r := by
    simp only [remote, boardramWb, WordRam.xfer_read, WordRam.xfer_write, tst_one_and_mask]
    apply WordRam.image_update_byte
    · intro hodd
      rw [if_pos hodd]
      exact mergeLow_bytes _ v
    · intro heven
      rw [if_neg (Bool.eq_false_iff.mp heven)]
      exact mergeHigh_bytes _ v
  putWord off v r h := by
    simp only [remote, boardramWw, WordRam.xfer_write]
    exact WordRam.image_update_word r (by rw [cell_getLsbD_zero, h]) v

/-! ## Sequences of calls -/

/-- A call of one of the six accessors. -/
inductive Call where
  | getByte (off : U32)
  | getWord (off : U32)
  | putByte (off : U32) (v : U8)
  | putWord (off : U32) (v : U16)
  | readBlock (off : U32) (len : Nat)
  | writeBlock (off : U32) (src : Buf) (len : Nat)

namespace Call

/-- What a call returns. -/
inductive Returned where
  | nothing
  | byte (b : U8)
  | word (w : U16)
  | bytes (bs : List U8)
  deriving DecidableEq

variable {σ : Type}

/-- A call of the accessors. -/
def run (A : Accessors σ) (s : σ) : Call → Returned × σ
  | getByte off => ((A.getRamByte off s).map .byte id)
  | getWord off => ((A.getRamWord off s).map .word id)
  | putByte off v => (.nothing, A.putRamByte off v s)
  | putWord off v => (.nothing, A.putRamWord off v s)
  | readBlock off len => ((A.ramReadBlock off s len).map .bytes id)
  | writeBlock off src len => (.nothing, A.ramWriteBlock off src s len)

/-- The same call on the plain array, by its indices alone. A word has its
high byte first. -/
def onPlain (p : PlainRam) : Call → Returned × PlainRam
  | getByte off => (.byte (p (PlainRam.index off 0)), p)
  | getWord off => (.word (wordAt p (PlainRam.index off 0)), p)
  | putByte off v => (.nothing, Function.update p (PlainRam.index off 0) v)
  | putWord off v => (.nothing, setWord p (PlainRam.index off 0) v)
  | readBlock off len => (.bytes (p.readBytes off len), p)
  | writeBlock off src len => (.nothing, p.writeBytes off src len)

/-- What the calls return one after the other, and the memory they leave. -/
def runAll (call : σ → Call → Returned × σ) (s : σ) : List Call → List Returned × σ
  | [] => ([], s)
  | c :: cs => ((call s c).1 :: (runAll call (call s c).2 cs).1, (runAll call (call s c).2 cs).2)

/-- Words are accessed at even offsets. -/
def Aligned : Call → Prop
  | getWord off | putWord off _ => off.getLsbD 0 = false
  | _ => True

end Call

namespace Refines

variable {σ : Type} {A : Accessors σ} {view : σ → PlainRam}

theorem ramReadBlock (h : Refines A view) (off : U32) (s : σ) (len : Nat) :
    (A.ramReadBlock off s len).1 = (view s).readBytes off len ∧
      view (A.ramReadBlock off s len).2 = view s := by
  induction len with
  | zero => exact ⟨rfl, rfl⟩
  | succ len ih =>
      obtain ⟨hbytes, hview⟩ := ih
      obtain ⟨hbyte, hview'⟩ := h.getByte (off + BitVec.ofNat 32 len) (A.ramReadBlock off s len).2
      refine ⟨?_, hview'.trans hview⟩
      rw [Accessors.ramReadBlock, hbytes, hbyte, hview, ← PlainRam.index_eq_cell,
        PlainRam.readBytes, PlainRam.readBytes, List.range_succ, List.map_append]
      rfl

theorem ramWriteBlock (h : Refines A view) (off : U32) (src : Buf) (s : σ) (len : Nat) :
    view (A.ramWriteBlock off src s len) = (view s).writeBytes off src len := by
  induction len with
  | zero => rfl
  | succ len ih =>
      rw [Accessors.ramWriteBlock, h.putByte, ih, ← PlainRam.index_eq_cell,
        PlainRam.writeBytes_succ]

/-- One call is a call on the plain array. -/
theorem run (h : Refines A view) {c : Call} (hc : c.Aligned) (s : σ) :
    (c.run A s).1 = (c.onPlain (view s)).1 ∧ view (c.run A s).2 = (c.onPlain (view s)).2 := by
  cases c with
  | getByte off =>
      obtain ⟨hv, hm⟩ := h.getByte off s
      exact ⟨congrArg Call.Returned.byte (by rw [hv, PlainRam.index_zero]), hm⟩
  | getWord off =>
      obtain ⟨hv, hm⟩ := h.getWord off s hc
      exact ⟨congrArg Call.Returned.word (by rw [hv, PlainRam.index_zero]), hm⟩
  | putByte off v => exact ⟨rfl, by rw [Call.onPlain, PlainRam.index_zero]; exact h.putByte off v s⟩
  | putWord off v =>
      exact ⟨rfl, by rw [Call.onPlain, PlainRam.index_zero]; exact h.putWord off v s hc⟩
  | readBlock off len =>
      obtain ⟨hv, hm⟩ := h.ramReadBlock off s len
      exact ⟨congrArg Call.Returned.bytes hv, hm⟩
  | writeBlock off src len => exact ⟨rfl, h.ramWriteBlock off src s len⟩

/-- Whole sequences of calls. -/
theorem runAll (h : Refines A view) {cs : List Call} (hcs : ∀ c ∈ cs, c.Aligned) (s : σ) :
    (Call.runAll (Call.run A) s cs).1 = (Call.runAll Call.onPlain (view s) cs).1 ∧
      view (Call.runAll (Call.run A) s cs).2 = (Call.runAll Call.onPlain (view s) cs).2 := by
  induction cs generalizing s with
  | nil => exact ⟨rfl, rfl⟩
  | cons c cs ih =>
      obtain ⟨hv, hs⟩ := h.run (hcs c (List.mem_cons_self ..)) s
      obtain ⟨hvs, hend⟩ := ih (fun c' hc' => hcs c' (List.mem_cons_of_mem _ hc')) (c.run A s).2
      rw [hs] at hvs hend
      exact ⟨by simp only [Call.runAll, hv, hvs], hend⟩

end Refines

/-- Flat and remote accessors, started on memories that hold the same bytes,
return the same values in every sequence of calls, those of a plain array
indexed modulo 0x8000, and leave the bytes that array has. -/
theorem flat_remote_plain (cs : List Call) (hcs : ∀ c ∈ cs, c.Aligned) (m : Boardram)
    (r : WordRam) (p : PlainRam) (hm : m.mem = p) (hr : r.image = p) :
    let expected := Call.runAll Call.onPlain p cs
    (Call.runAll (Call.run flat) m cs).1 = expected.1 ∧
    (Call.runAll (Call.run (remote WordRam.xfer)) r cs).1 = expected.1 ∧
    (Call.runAll (Call.run flat) m cs).2.mem = expected.2 ∧
    WordRam.image (Call.runAll (Call.run (remote WordRam.xfer)) r cs).2 = expected.2 := by
  subst hm
  obtain ⟨hflat, hmem⟩ := flat_refines.runAll hcs m
  obtain ⟨hremote, himage⟩ := remote_refines.runAll hcs r
  rw [hr] at hremote himage
  exact ⟨hflat, hremote, hmem, himage⟩

/-- A block over the end of the RAM, read back by words and bytes. -/
def wrappingCalls : List Call :=
  [.writeBlock 0x7FFE (fun i => BitVec.ofNat 8 (i + 1)) 3, .getWord 0x7FFE, .getByte 0x8000,
    .readBlock 0xFFFF 2]

theorem flat_remote_plain_wrapping :
    (Call.runAll (Call.run flat) (fun _ => 0) wrappingCalls).1 =
      [.nothing, .word 0x0102, .byte 3, .bytes [2, 3]] ∧
    (Call.runAll (Call.run (remote WordRam.xfer)) (fun _ => 0) wrappingCalls).1 =
      [.nothing, .word 0x0102, .byte 3, .bytes [2, 3]] := by
  have hzero : WordRam.image (fun _ => 0) = fun _ => 0 := by
    funext c
    simp [WordRam.image]
  obtain ⟨hflat, hremote, -⟩ := flat_remote_plain wrappingCalls
    (by simp [wrappingCalls, Call.Aligned]) (fun _ => 0) (fun _ => 0) (fun _ => 0) rfl hzero
  exact ⟨hflat.trans (by decide), hremote.trans (by decide)⟩

/-! ## Transfers that time out

After its last attempt `boardram_xfer` returns 0xFFFF, and `boardram_wb` takes
that for the word it asked for. -/

/-- The RAM, and for each transfer to come whether it completes. -/
structure FaultyRam where
  ram : WordRam
  completes : Nat → Bool

/-- The transfer as the next entry of the schedule has it: it completes, or it
times out and returns all ones. -/
def FaultyRam.xfer : Xfer FaultyRam := fun off write wdata s =>
  let later : Nat → Bool := fun i => s.completes (i + 1)
  if s.completes 0 then
    let r := WordRam.xfer off write wdata s.ram
    (r.1, ⟨r.2, later⟩)
  else (0xFFFF, ⟨s.ram, later⟩)

/-- The masks of the accessor and of `boardram_wb` pick the same word. -/
theorem xferOff_mask (off : U32) : xferOff (off &&& RAM_MASK) = xferOff off := by
  have hmask : RAM_MASK &&& 0x7FFE = 0x7FFE := by decide
  rw [xferOff, xferOff, BitVec.and_assoc, hmask]

theorem tst_one_cell (off : U32) : tst off 1 = (cell off).getLsbD 0 := by
  have hone : (1 : U32) = .twoPow 32 0 := rfl
  rw [hone, tst_twoPow, cell_getLsbD_zero]

namespace FaultyRam

theorem xfer_read (s : FaultyRam) (off : U32) :
    (xfer (xferOff off) false 0 s).1 =
        (if s.completes 0 then s.ram ((cell off).extractLsb' 1 14) else 0xFFFF) ∧
      (xfer (xferOff off) false 0 s).2 = ⟨s.ram, fun i => s.completes (i + 1)⟩ := by
  have hread := WordRam.xfer_read s.ram off
  rw [xferOff_mask] at hread
  unfold xfer
  cases s.completes 0 with
  | true => simp only [if_true, hread, and_self]
  | false => exact ⟨rfl, rfl⟩

theorem xfer_write (s : FaultyRam) (off : U32) (v : U16) :
    (xfer (xferOff off) true v s).2.ram =
      if s.completes 0 then Function.update s.ram ((cell off).extractLsb' 1 14) v else s.ram := by
  have hwrite := WordRam.xfer_write s.ram off v
  rw [xferOff_mask] at hwrite
  unfold xfer
  cases s.completes 0 with
  | true => simp only [if_true, hwrite]
  | false => rfl

/-- Without the write nothing happens; with it the other byte is the one read. -/
theorem image_boardramWb (s : FaultyRam) (off : U32) (val : U8) :
    (boardramWb xfer off val s).ram.image =
      if s.completes 1 then
        Function.update (Function.update s.ram.image (cell off) val) (neighbour (cell off))
          (if s.completes 0 then s.ram.image (neighbour (cell off)) else 0xFF)
      else s.ram.image := by
  obtain ⟨hword, hrest⟩ := xfer_read s off
  simp only [boardramWb, tst_one_cell, hrest, xfer_write, hword]
  cases hsecond : s.completes 1 with
  | false => simp
  | true =>
      simp only [if_true]
      apply WordRam.image_update_halves
      · intro hodd
        have hbytes := mergeLow_bytes
          (if s.completes 0 = true then s.ram ((cell off).extractLsb' 1 14) else 0xFFFF) val
        refine ⟨by rw [if_pos hodd, hbytes.1], ?_⟩
        rw [if_pos hodd, hbytes.2, WordRam.image_neighbour, if_pos hodd]
        cases s.completes 0 <;> simp
      · intro heven
        have hnot := Bool.eq_false_iff.mp heven
        have hbytes := mergeHigh_bytes
          (if s.completes 0 = true then s.ram ((cell off).extractLsb' 1 14) else 0xFFFF) val
        refine ⟨by rw [if_neg hnot, hbytes.1], ?_⟩
        rw [if_neg hnot, hbytes.2, WordRam.image_neighbour, if_neg hnot]
        cases s.completes 0 <;> simp

end FaultyRam

/-- Nothing has changed but, at most, the addressed byte to the new value. -/
def WroteOrNot (off : U32) (val : U8) (before after : PlainRam) : Prop :=
  after = before ∨ after = Function.update before (cell off) val

/-- A byte write is atomic unless its read times out, its write completes and
the other byte of the word is not 0xFF. -/
theorem boardram_wb_atomic_iff (off : U32) (val : U8) (s : FaultyRam) :
    WroteOrNot off val s.ram.image (boardramWb FaultyRam.xfer off val s).ram.image ↔
      ¬ (s.completes 0 = false ∧ s.completes 1 = true ∧
        s.ram.image (neighbour (cell off)) ≠ 0xFF) := by
  rw [WroteOrNot, FaultyRam.image_boardramWb]
  have hbyte : Function.update s.ram.image (cell off) val (neighbour (cell off)) =
      s.ram.image (neighbour (cell off)) := Function.update_of_ne (neighbour_ne _) ..
  cases hsecond : s.completes 1 with
  | false => simp
  | true =>
      cases hfirst : s.completes 0 with
      | true =>
          have hsame : Function.update (Function.update s.ram.image (cell off) val)
              (neighbour (cell off)) (s.ram.image (neighbour (cell off))) =
                Function.update s.ram.image (cell off) val :=
            Function.update_eq_self_iff.mpr hbyte.symm
          simp [hsame]
      | false =>
          simp only [if_true, Bool.false_eq_true, if_false, true_and, not_not]
          constructor
          · -- at the other byte the two memories of the property agree
            intro h
            rcases h with h | h
            · have hat := congrFun h (neighbour (cell off))
              rw [Function.update_self] at hat
              exact hat.symm
            · have hat := congrFun h (neighbour (cell off))
              rw [Function.update_self, hbyte] at hat
              exact hat.symm
          · intro h
            exact .inr (Function.update_eq_self_iff.mpr (h.symm.trans hbyte.symm))

/-- The read of `boardram_wb(1, 0x56)` times out and its write completes: the
word 0x1234 becomes 0xFF56. -/
theorem boardram_wb_not_atomic : ¬ ∀ (off : U32) (val : U8) (s : FaultyRam),
    WroteOrNot off val s.ram.image (boardramWb FaultyRam.xfer off val s).ram.image := by
  intro h
  have hbyte : (boardramWb FaultyRam.xfer 1 0x56 ⟨fun _ => 0x1234, fun i => i == 1⟩).ram.image 0 =
      0xFF := by decide +kernel
  rcases h 1 0x56 ⟨fun _ => 0x1234, fun i => i == 1⟩ with h | h
  · rw [h] at hbyte
    exact absurd hbyte (by decide +kernel)
  · rw [h] at hbyte
    exact absurd hbyte (by decide +kernel)

end A2065
