import A2065.Commands

/-!
# The init block

`chip_init` turns twelve words of boardram into a configuration. The words
are what the two sides meet at: the driver's encoding and the decoding are
both functions of them, and so is the configuration the direct registers
CSR8 to CSR78 program one by one.
-/

namespace A2065

open Bits CyclicMem

/-- What initialization configures: the statics of `registers.cpp`. -/
structure Config where
  mode : U16
  ladrf : U64
  fakemac : Mac
  rdra : U32
  rlen : U32
  tdra : U32
  tlen : U32
  rdrOffset : U32
  tdrOffset : U32
  deriving DecidableEq

/-- The part of the daemon the initialization block decides. -/
def Daemon.config (d : Daemon) : Config where
  mode := d.amMode
  ladrf := d.amLadrf
  fakemac := d.fakemac
  rdra := d.amRdrRdra
  rlen := d.amRdrRlen
  tdra := d.amTdrTdra
  tlen := d.amTdrTlen
  rdrOffset := d.rdrOffset
  tdrOffset := d.tdrOffset

/-- The init block's place in the window. -/
def Daemon.initBlock (d : Daemon) : U32 :=
  (((d.csr 2 &&& 0xff).setWidth 32 <<< 16) ||| (d.csr 1).setWidth 32) &&& RAM_MASK

/-- The base and the length two words of a ring pointer stand for. -/
def ringBase (lo hi : U16) : U32 :=
  ((hi.setWidth 32 <<< 16 ||| lo.setWidth 32) &&& 0x00fffff8) &&& RAM_MASK

/-- The number of descriptors, from the top three bits of the ring pointer. -/
def ringLength (lo hi : U16) : U32 :=
  1#32 <<< (((hi.setWidth 32 <<< 16 ||| lo.setWidth 32) >>> 29) &&& 7)

/-- The 64 bits of LADRF, from the low word up. -/
def ladrfOf (l0 l1 l2 l3 : U16) : U64 :=
  (l3.setWidth 64 <<< 48) ||| (l2.setWidth 64 <<< 32) ||| (l1.setWidth 64 <<< 16) ||| l0.setWidth 64

/-- The address whose low byte of each pair comes first. -/
def macOf (p0 p1 p2 : U16) : Mac :=
  #v[p0.setWidth 8, (p0 >>> 8).setWidth 8, p1.setWidth 8, (p1 >>> 8).setWidth 8,
    p2.setWidth 8, (p2 >>> 8).setWidth 8]

/-- The configuration of a block, by its words. -/
def Config.ofWords (word : Nat → U16) : Config where
  mode := word 0
  ladrf := ladrfOf (word 4) (word 5) (word 6) (word 7)
  fakemac := macOf (word 1) (word 2) (word 3)
  rdra := ringBase (word 8) (word 9)
  rlen := ringLength (word 8) (word 9)
  tdra := ringBase (word 10) (word 11)
  tlen := ringLength (word 10) (word 11)
  rdrOffset := 0
  tdrOffset := 0

/-- Word `k` of the block at `off`. -/
def blockWord (m : Boardram) (off : U32) (k : Nat) : U16 :=
  m.getRamWord (off + BitVec.ofNat 32 (2 * k))

/-- The daemon with a configuration loaded, in both copies of the station
address. -/
def Daemon.load (d : Daemon) (c : Config) : Daemon :=
  { d with
    amMode := c.mode
    amLadrf := c.ladrf
    fakemac := c.fakemac
    macFakemac := c.fakemac
    amRdrRdra := c.rdra
    amRdrRlen := c.rlen
    amTdrTdra := c.tdra
    amTdrTlen := c.tlen
    rdrOffset := c.rdrOffset
    tdrOffset := c.tdrOffset }

theorem blockWord_lo (m : Boardram) (off : U32) (k : Nat) :
    (blockWord m off k).setWidth 8 = m.getRamByte (off + BitVec.ofNat 32 (2 * k + 1)) := by
  rw [blockWord, Boardram.getRamWord_eq, wordAt_lo, Boardram.getRamByte_eq, BitVec.ofNat_add,
    ← BitVec.add_assoc, cell_add (off + _)]
  rfl

theorem blockWord_hi (m : Boardram) (off : U32) (k : Nat) :
    (blockWord m off k >>> 8).setWidth 8 = m.getRamByte (off + BitVec.ofNat 32 (2 * k)) := by
  rw [blockWord, Boardram.getRamWord_eq, wordAt_hi, Boardram.getRamByte_eq]

/-- `chip_init` loads what the twelve words of the block say. -/
theorem chipInit_exec (d : Daemon) (w : World) :
    (chipInit d).exec w = (d.load (Config.ofWords (blockWord w.ram d.initBlock)), w) := by
  have hmac : macOf (blockWord w.ram d.initBlock 1) (blockWord w.ram d.initBlock 2)
      (blockWord w.ram d.initBlock 3) =
      #v[w.ram.getRamByte (d.initBlock + 3), w.ram.getRamByte (d.initBlock + 2),
        w.ram.getRamByte (d.initBlock + 5), w.ram.getRamByte (d.initBlock + 4),
        w.ram.getRamByte (d.initBlock + 7), w.ram.getRamByte (d.initBlock + 6)] := by
    simp only [macOf, blockWord_lo, blockWord_hi]
    rfl
  simp only [Config.ofWords, hmac]
  rfl

/-! ## Initializing a stopped chip -/

theorem RingFrame.initBlock {d d' : Daemon} (h : RingFrame d d') : d'.initBlock = d.initBlock := by
  rw [Daemon.initBlock, Daemon.initBlock, h.csr 1 (by decide), h.csr 2 (by decide)]

@[simp] theorem Daemon.config_setCsr (d : Daemon) (n : Nat) (v : U16) :
    (d.setCsr n v).config = d.config := rfl

@[simp] theorem Daemon.config_load (d : Daemon) (c : Config) : (d.load c).config = c := rfl

@[simp] theorem config_startEngines (d : Daemon) : (startEngines d).config = d.config := by
  unfold startEngines
  simp only
  split <;> split <;> rfl

/-- A CSR0 write without a transmit demand: the command, then `rethink`. -/
theorem wputCsr0_exec (cb : Callback) (onTransmit : Daemon → DProg Daemon) {v : U16}
    {d d₁ : Daemon} {w : World}
    (hcmd : (csr0Command d.csr0 (d.setCsr 0 (csr0Merge d.csr0 v))).exec w = (d₁, w))
    (htdmd : d₁.csr0.getLsbD 3 = false) :
    ((wputCsr0 cb onTransmit v d).exec w).1 = d₁.setCsr 0 (rethinkCsr0 d₁.csr0) ∧
      SameMem w ((wputCsr0 cb onTransmit v d).exec w).2 := by
  have hdemand : csr0Demand onTransmit d₁ = pure d₁ := by
    unfold csr0Demand
    rw [if_neg (by simp only [CSR0.tst_bits, htdmd]; decide)]
  rw [wputCsr0, DProg.exec_bind, hcmd, hdemand, pure_bind]
  exact rethink_exec cb d₁ w

section Initialize

variable {v : U16} {d : Daemon} (hq : Quiet d.csr0) (hs : tst d.csr0 CSR0.STOP = true)
  (hv : tst v CSR0.INIT = true) (w : World)

include hq hs hv

/-- INIT and STRT in one value: the engines start on the mode there was, then
the block is loaded. -/
theorem initStrt_exec (hvs : tst v CSR0.STRT = true) :
    (csr0Command d.csr0 (d.setCsr 0 (csr0Merge d.csr0 v))).exec w =
      ({ ((startEngines (d.setCsr 0 (csr0Merge d.csr0 v))).load
          (Config.ofWords (blockWord w.ram d.initBlock))).csr0Set CSR0.IDON with
        amInitialized := true }, w) := by
  have hquiet := hq (by simpa only [CSR0.tst_bits] using hs)
  have hinit : tst d.csr0 CSR0.INIT = false := by simpa only [CSR0.tst_bits] using hquiet.1
  have hstrt : tst d.csr0 CSR0.STRT = false := by simpa only [CSR0.tst_bits] using hquiet.2
  have hframe : RingFrame d (startEngines (d.setCsr 0 (csr0Merge d.csr0 v))) :=
    ((RingFrame.refl d).setCsr0 _).trans (startEngines_frame _)
  rw [csr0Command_strt d (fun _ => hs) hstrt (by rw [tst_or_right, hs, Bool.true_or]) hvs,
    if_pos ⟨hv, hinit⟩, DProg.exec_bind, chipInit_exec, hframe.initBlock]
  rfl

theorem init_exec (hvs : tst v CSR0.STRT = false) :
    (csr0Command d.csr0 (d.setCsr 0 (csr0Merge d.csr0 v))).exec w =
      ({ (((d.setCsr 0 (csr0Merge d.csr0 v)).load
          (Config.ofWords (blockWord w.ram d.initBlock))).csr0Set CSR0.IDON).csr0Clr
            (CSR0.RXON ||| CSR0.TXON ||| CSR0.STOP) with
        amInitialized := true }.setCsr 3 0, w) := by
  have hquiet := hq (by simpa only [CSR0.tst_bits] using hs)
  have hinit : tst d.csr0 CSR0.INIT = false := by simpa only [CSR0.tst_bits] using hquiet.1
  have hstrt : tst d.csr0 CSR0.STRT = false := by simpa only [CSR0.tst_bits] using hquiet.2
  have hframe : RingFrame d (d.setCsr 0 (csr0Merge d.csr0 v)) := (RingFrame.refl d).setCsr0 _
  rw [csr0Command_init d hs hstrt hinit hv hvs, DProg.exec_bind, chipInit_exec, hframe.initBlock]
  rfl

end Initialize

theorem wputCsr0_initializes (cb : Callback) (onTransmit : Daemon → DProg Daemon) {v : U16}
    {d : Daemon} (hq : Quiet d.csr0) (hidle : d.csr0.getLsbD 3 = false)
    (hs : tst d.csr0 CSR0.STOP = true) (hv : tst v CSR0.INIT = true)
    (hd : tst v CSR0.TDMD = false) (w : World) :
    ((wputCsr0 cb onTransmit v d).exec w).1.config =
        Config.ofWords (blockWord w.ram d.initBlock) ∧
      ((wputCsr0 cb onTransmit v d).exec w).1.macFakemac =
        (Config.ofWords (blockWord w.ram d.initBlock)).fakemac := by
  have hmerge := csr0Merge_command d.csr0 v 3 (by decide)
  simp only [CSR0.tst_bits] at hd
  rw [hidle, hd, Bool.or_false] at hmerge
  cases hvs : tst v CSR0.STRT with
  | true =>
      have hcmd := initStrt_exec hq hs hv w hvs
      have hstart := (startEngines_csr0 (d.setCsr 0 (csr0Merge d.csr0 v))).2 3 (by decide)
        (by decide) (by decide)
      rw [Daemon.csr0_setCsr0, hmerge] at hstart
      have htdmd : ((startEngines (d.setCsr 0 (csr0Merge d.csr0 v))).csr0 |||
          CSR0.IDON).getLsbD 3 = false := by
        rw [CSR0.masks.2.2.2.2.2.2.2.1, getLsbD_or_twoPow, hstart]
        simp
      have hcsr0 := Daemon.csr0_csr0Set ((startEngines (d.setCsr 0 (csr0Merge d.csr0 v))).load
        (Config.ofWords (blockWord w.ram d.initBlock))) CSR0.IDON
      rw [(wputCsr0_exec cb onTransmit hcmd ((congrArg (·.getLsbD 3) hcsr0).trans htdmd)).1]
      exact ⟨rfl, rfl⟩
  | false =>
      have hcmd := init_exec hq hs hv w hvs
      have hcsr0 := Daemon.csr0_csr0Clr (((d.setCsr 0 (csr0Merge d.csr0 v)).load
        (Config.ofWords (blockWord w.ram d.initBlock))).csr0Set CSR0.IDON)
        (CSR0.RXON ||| CSR0.TXON ||| CSR0.STOP)
      have htdmd : ((csr0Merge d.csr0 v ||| CSR0.IDON) &&&
          ~~~ (CSR0.RXON ||| CSR0.TXON ||| CSR0.STOP)).getLsbD 3 = false := by
        rw [BitVec.getLsbD_and, CSR0.masks.2.2.2.2.2.2.2.1, getLsbD_or_twoPow, hmerge]
        simp
      rw [Daemon.csr0_csr0Set] at hcsr0
      have hload : ((d.setCsr 0 (csr0Merge d.csr0 v)).load
          (Config.ofWords (blockWord w.ram d.initBlock))).csr0 = csr0Merge d.csr0 v :=
        Daemon.csr0_setCsr0 d _
      rw [hload] at hcsr0
      rw [(wputCsr0_exec cb onTransmit hcmd ?_).1]
      · exact ⟨rfl, rfl⟩
      · rw [Daemon.csr0_setCsr_ne _ (by decide)]
        exact (congrArg (·.getLsbD 3) hcsr0).trans htdmd

/-! ## What the driver stores -/

/-- A 68k store of the word `v` at an even offset of the window. -/
def Boardram.store68k (m : Boardram) (off : BitVec 15) (v : U16) : Boardram :=
  Function.update (Function.update m off (v.setWidth 8)) (off + 1) ((v >>> 8).setWidth 8)

/-- Words stored one behind the other. -/
def Boardram.storeWords (m : Boardram) (off : BitVec 15) : List U16 → Boardram
  | [] => m
  | v :: vs => (m.store68k off v).storeWords (off + 2) vs

theorem even_add_one {off : BitVec 15} (h : off.getLsbD 0 = false) : off + 1 = off ^^^ 1 := by
  have hand : off &&& 1 = 0 := by
    have hbit := BitVec.and_one_eq_setWidth_ofBool_getLsbD (x := off)
    rw [h] at hbit
    exact hbit
  apply BitVec.eq_of_getLsbD_eq
  intro i hi
  rw [BitVec.add_eq_or_of_and_eq_zero _ _ hand, BitVec.getLsbD_or, BitVec.getLsbD_xor]
  by_cases h0 : i = 0
  · rw [h0, h]
    rfl
  · simp [h0]

theorem even_add_two {off : BitVec 15} (h : off.getLsbD 0 = false) :
    (off + 2).getLsbD 0 = false := by
  have hmod : off.toNat % 2 = 0 := by
    rw [← BitVec.testBit_toNat, Nat.testBit_zero] at h
    have := of_decide_eq_false h
    omega
  rw [← BitVec.testBit_toNat, Nat.testBit_zero, BitVec.toNat_add]
  have htwo : (2 : BitVec 15).toNat = 2 := rfl
  rw [htwo]
  exact decide_eq_false (by omega)

/-- The lanes come out right: the word is where the daemon looks for it. -/
theorem mem_store68k (m : Boardram) {off : BitVec 15} (h : off.getLsbD 0 = false) (v : U16) :
    (m.store68k off v).mem = setWord m.mem off v := by
  have hxor : ∀ a b : BitVec 15, a ^^^ 1 = b ↔ a = b ^^^ 1 := by
    intro a b
    constructor
    · rintro rfl
      rw [BitVec.xor_assoc, BitVec.xor_self, BitVec.xor_zero]
    · rintro rfl
      rw [BitVec.xor_assoc, BitVec.xor_self, BitVec.xor_zero]
  have hback : (off + 1) ^^^ 1 = off := by
    rw [even_add_one h, BitVec.xor_assoc, BitVec.xor_self, BitVec.xor_zero]
  funext c
  simp only [Boardram.mem, Boardram.store68k, setWord, Function.update_apply, hxor, hback,
    ← even_add_one h]
  by_cases hc : c = off
  · simp [hc]
  · simp [hc]

theorem mem_storeWords (m : Boardram) {off : BitVec 15} (h : off.getLsbD 0 = false)
    (vs : List U16) : (m.storeWords off vs).mem = setWords m.mem off vs := by
  induction vs generalizing m off with
  | nil => rfl
  | cons v vs ih => rw [Boardram.storeWords, ih _ (even_add_two h), mem_store68k m h, setWords]

/-- The words of a block are found where the driver has put them. -/
theorem blockWord_storeWords (m : Boardram) {off : BitVec 15} (h : off.getLsbD 0 = false)
    (vs : List U16) (hlen : 2 * vs.length ≤ 2 ^ 15) {base : U32} (hbase : cell base = off) {k : Nat}
    (hk : k < vs.length) : blockWord (m.storeWords off vs) base k = vs[k] := by
  have hget := wordAt_setWords m.mem off vs (i := 0) (by omega) hk
  rw [blockWord, Boardram.getRamWord_eq, mem_storeWords m h, cell_add, cell_ofNat, hbase]
  rwa [BitVec.add_zero, Nat.zero_add] at hget

/-! ## The encoding -/

/-- What a driver puts into an init block. -/
structure InitBlock where
  mode : U16
  mac : Mac
  ladrf : U64
  /-- the exponents of the ring lengths, and the bits behind them -/
  rexp : BitVec 3
  rres : BitVec 5
  texp : BitVec 3
  tres : BitVec 5
  rdra : BitVec 24
  tdra : BitVec 24
  rdra_aligned : 8 ∣ rdra.toNat
  tdra_aligned : 8 ∣ tdra.toNat

namespace InitBlock

/-- Two bytes of the station address, the first one low. -/
def pair (lo hi : U8) : U16 := hi.setWidth 16 <<< 8 ||| lo.setWidth 16

/-- The two words of a ring pointer. -/
def pointerLo (addr : BitVec 24) : U16 := addr.setWidth 16

/-- The high word of a ring pointer: the length, five reserved bits and the
address. -/
def pointerHi (exp : BitVec 3) (res : BitVec 5) (addr : BitVec 24) : U16 :=
  exp.setWidth 16 <<< 13 ||| res.setWidth 16 <<< 8 ||| (addr >>> 16).setWidth 16

/-- The block from its start up. -/
def words (b : InitBlock) : List U16 :=
  [b.mode, pair b.mac[0]! b.mac[1]!, pair b.mac[2]! b.mac[3]!, pair b.mac[4]! b.mac[5]!,
    b.ladrf.setWidth 16, (b.ladrf >>> 16).setWidth 16, (b.ladrf >>> 32).setWidth 16,
    (b.ladrf >>> 48).setWidth 16,
    pointerLo b.rdra, pointerHi b.rexp b.rres b.rdra,
    pointerLo b.tdra, pointerHi b.texp b.tres b.tdra]

/-- What the block is meant to configure. -/
def config (b : InitBlock) : Config where
  mode := b.mode
  ladrf := b.ladrf
  fakemac := b.mac
  rdra := BitVec.ofNat 32 (b.rdra.toNat % 0x8000)
  rlen := BitVec.ofNat 32 (2 ^ b.rexp.toNat)
  tdra := BitVec.ofNat 32 (b.tdra.toNat % 0x8000)
  tlen := BitVec.ofNat 32 (2 ^ b.texp.toNat)
  rdrOffset := 0
  tdrOffset := 0

end InitBlock

/-! ## Decoding the words -/

section Decode

theorem ladrfOf_words (l : U64) : ladrfOf (l.setWidth 16) ((l >>> 16).setWidth 16)
    ((l >>> 32).setWidth 16) ((l >>> 48).setWidth 16) = l := by
  apply BitVec.eq_of_getLsbD_eq
  intro i hi
  simp only [ladrfOf, BitVec.getLsbD_or, BitVec.getLsbD_shiftLeft, BitVec.getLsbD_setWidth,
    BitVec.getLsbD_ushiftRight]
  rcases (by omega : i < 16 ∨ (16 ≤ i ∧ i < 32) ∨ (32 ≤ i ∧ i < 48) ∨ 48 ≤ i) with
    h | h | h | h
  · simp [hi, h, show i < 32 by omega, show i < 48 by omega]
  · simp [hi, show ¬ i < 16 by omega, show i < 32 by omega, show i < 48 by omega,
      show i - 16 < 16 by omega, show i - 16 < 64 by omega, show 16 + (i - 16) = i by omega]
  · simp [hi, show ¬ i < 16 by omega, show ¬ i < 32 by omega, show i < 48 by omega,
      show i - 32 < 16 by omega, show i - 32 < 64 by omega, show 32 + (i - 32) = i by omega,
      show ¬ i - 16 < 16 by omega]
  · simp [hi, show ¬ i < 16 by omega, show ¬ i < 32 by omega, show ¬ i < 48 by omega,
      show i - 48 < 16 by omega, show i - 48 < 64 by omega, show 48 + (i - 48) = i by omega,
      show ¬ i - 16 < 16 by omega, show ¬ i - 32 < 16 by omega]

theorem macOf_pairs (mac : Mac) : macOf (InitBlock.pair mac[0]! mac[1]!)
    (InitBlock.pair mac[2]! mac[3]!) (InitBlock.pair mac[4]! mac[5]!) = mac := by
  have hlo : ∀ lo hi : U8, (InitBlock.pair lo hi).setWidth 8 = lo := by
    intro lo hi
    apply BitVec.eq_of_getLsbD_eq
    intro i hi'
    simp [InitBlock.pair, hi']
  have hhi : ∀ lo hi : U8, (InitBlock.pair lo hi >>> 8).setWidth 8 = hi := by
    intro lo hi
    apply BitVec.eq_of_getLsbD_eq
    intro i hi'
    simp [InitBlock.pair, hi', show 8 + i < 16 by omega, show ¬ 8 + i < 8 by omega]
  ext j hj
  simp only [macOf, hlo, hhi]
  interval_cases j <;> rfl

variable (exp : BitVec 3) (res : BitVec 5) (addr : BitVec 24)

theorem ringBase_pointer (haligned : 8 ∣ addr.toNat) :
    ringBase (InitBlock.pointerLo addr) (InitBlock.pointerHi exp res addr) =
      BitVec.ofNat 32 (addr.toNat % 0x8000) := by
  have hlow : ∀ i < 3, addr.getLsbD i = false := by
    intro i hi
    obtain ⟨q, hq⟩ := haligned
    rw [← BitVec.testBit_toNat, hq, show (8 : Nat) = 2 ^ 3 from rfl, Nat.testBit_two_pow_mul]
    simp [hi]
  have hmask : ∀ i < 15, ((0x00fffff8 : U32) &&& RAM_MASK).getLsbD i = decide (3 ≤ i) := by decide
  have hhigh : ∀ i < 32, 15 ≤ i → ((0x00fffff8 : U32) &&& RAM_MASK).getLsbD i = false := by decide
  have hmod : BitVec.ofNat 32 (addr.toNat % 0x8000) = (addr.setWidth 15).setWidth 32 := by
    apply BitVec.eq_of_toNat_eq
    simp only [BitVec.toNat_ofNat, BitVec.toNat_setWidth]
  rw [hmod]
  apply BitVec.eq_of_getLsbD_eq
  intro i hi
  rw [ringBase, BitVec.and_assoc, BitVec.getLsbD_and]
  by_cases h15 : i < 15
  · rw [hmask i h15]
    by_cases h3 : 3 ≤ i
    · simp [InitBlock.pointerLo, hi, h15, h3, show i < 16 by omega]
    · simp [h3, hlow i (by omega)]
  · rw [hhigh i hi (by omega)]
    simp [h15]

theorem ringLength_pointer : ringLength (InitBlock.pointerLo addr)
    (InitBlock.pointerHi exp res addr) = BitVec.ofNat 32 (2 ^ exp.toNat) := by
  have hshift : (((InitBlock.pointerHi exp res addr).setWidth 32 <<< 16 |||
      (InitBlock.pointerLo addr).setWidth 32) >>> 29) &&& 7 = exp.setWidth 32 := by
    have hseven : ∀ i < 32, (7 : U32).getLsbD i = decide (i < 3) := by decide
    apply BitVec.eq_of_getLsbD_eq
    intro i hi
    rw [BitVec.getLsbD_and, hseven i hi]
    by_cases h3 : i < 3
    · have hres : res.getLsbD (29 + i - 16 - 8) = false := BitVec.getLsbD_of_ge _ _ (by omega)
      have haddr : addr.getLsbD (16 + (29 + i - 16)) = false := BitVec.getLsbD_of_ge _ _ (by omega)
      have hlo : addr.getLsbD (29 + i) = false := BitVec.getLsbD_of_ge _ _ (by omega)
      simp [InitBlock.pointerHi, InitBlock.pointerLo, h3, hi, hres, haddr, hlo,
        show 29 + i < 32 by omega, show ¬ 29 + i < 16 by omega, show 29 + i - 16 < 16 by omega,
        show ¬ 29 + i - 16 < 13 by omega, show 29 + i - 16 - 13 = i by omega]
    · simp [h3, BitVec.getLsbD_of_ge exp i (by omega)]
  have hpow : ∀ e : BitVec 3, 1#32 <<< e.setWidth 32 = BitVec.ofNat 32 (2 ^ e.toNat) := by decide
  rw [ringLength, hshift, hpow]

end Decode

theorem InitBlock.ofWords (b : InitBlock) :
    Config.ofWords (fun k => b.words.getD k 0) = b.config := by
  unfold Config.ofWords InitBlock.config InitBlock.words
  simp only [List.getD_cons_zero, List.getD_cons_succ, ladrfOf_words, macOf_pairs,
    ringBase_pointer _ _ _ b.rdra_aligned, ringBase_pointer _ _ _ b.tdra_aligned,
    ringLength_pointer]

theorem Config.ofWords_congr {f g : Nat → U16} (h : ∀ k < 12, f k = g k) :
    Config.ofWords f = Config.ofWords g := by
  simp only [Config.ofWords, h 0 (by decide), h 1 (by decide), h 2 (by decide), h 3 (by decide),
    h 4 (by decide), h 5 (by decide), h 6 (by decide), h 7 (by decide), h 8 (by decide),
    h 9 (by decide), h 10 (by decide), h 11 (by decide)]

/-! ## Programming the registers -/

/-- A write to the register address port. -/
def writeRap (n : U16) : Move := .op (.wput A2065_RAP_OFF n)

/-- Select a register and write it. -/
def writeCsr (n v : U16) : List Move := [writeRap n, writeRdp v]

theorem apply_writeRap (W : Wiring) (n : U16) (d : Daemon) (w : World) :
    (writeRap n).apply W (d, w) = ({ d with rap := (n &&& 0x7f).setWidth 8 }, w) := rfl

theorem apply_writeRdp (W : Wiring) (v : U16) {d : Daemon} (w : World) (hrap : d.rap = 0) :
    (writeRdp v).apply W (d, w) = (wputCsr0 W.onInterrupt W.onTransmit v d).exec w := by
  rw [writeRdp, Move.apply, Op.prog, chipWput_csr0 _ _ _ hrap]

/-- A register other than CSR0. -/
theorem runMoves_writeCsr (W : Wiring) {n : U16} (v : U16) (rest : List Move) (d : Daemon)
    (w : World) (hn : 0 < n.toNat ∧ n.toNat < 128) :
    runMoves W (writeCsr n v ++ rest) (d, w) =
      runMoves W rest (wputOther v { d with rap := n.setWidth 8 }, w) := by
  have hmask : n &&& 0x7f = n := by
    apply BitVec.eq_of_toNat_eq
    rw [BitVec.toNat_and]
    exact (Nat.and_two_pow_sub_one_eq_mod n.toNat 7).trans (Nat.mod_eq_of_lt hn.2)
  have hrap : (n.setWidth 8).toNat = n.toNat := by
    rw [BitVec.toNat_setWidth]
    omega
  have hne : n.setWidth 8 ≠ 0 := by
    intro h
    rw [h] at hrap
    exact absurd hrap (Nat.ne_of_lt hn.1)
  rw [writeCsr, runMoves, List.foldl_append, List.foldl_cons, List.foldl_cons, List.foldl_nil,
    apply_writeRap, hmask, writeRdp, Move.apply, Op.prog, chipWput, if_neg (by decide),
    if_neg (by rw [hrap]; exact Nat.not_le.mpr hn.2), if_neg hne]
  rfl

/-- The driver's way to initialise a stopped chip: the address of the block in
CSR1 and CSR2, then `v` in CSR0. -/
def initSequence (iaddr : BitVec 24) (v : U16) : List Move :=
  writeCsr 1 (iaddr.setWidth 16) ++ writeCsr 2 ((iaddr >>> 16).setWidth 16) ++ writeCsr 0 v

theorem cell_initBlock (d : Daemon) : cell d.initBlock = (d.csr 1).setWidth 15 := by
  rw [Daemon.initBlock, cell_and_mask, cell]
  apply BitVec.eq_of_getLsbD_eq
  intro i hi
  simp [hi, show i < 16 by omega]

/-- CSR1 drops bit 0, which an even address does not have. -/
theorem setWidth_even {iaddr : BitVec 24} (heven : iaddr.getLsbD 0 = false) :
    (iaddr.setWidth 16 &&& ~~~ (1 : U16)).setWidth 15 = iaddr.setWidth 15 := by
  apply BitVec.eq_of_getLsbD_eq
  intro i hi
  have hone : (1 : U16).getLsbD i = decide (i = 0) := by
    simp [show i < 16 by omega]
  rw [BitVec.getLsbD_setWidth, BitVec.getLsbD_and, BitVec.getLsbD_not, hone,
    BitVec.getLsbD_setWidth, BitVec.getLsbD_setWidth]
  by_cases h0 : i = 0
  · rw [h0, heven, Bool.and_false, Bool.false_and, Bool.and_false]
  · simp [h0, show i < 16 by omega]

/-- The daemon with the block's address in CSR1 and CSR2, and CSR0 selected. -/
def Daemon.pointedAt (d : Daemon) (iaddr : BitVec 24) : Daemon :=
  { (d.setCsr 1 (iaddr.setWidth 16 &&& ~~~ 1)).setCsr 2
      ((iaddr >>> 16).setWidth 16 &&& 0x00ff) with rap := 0 }

theorem cell_pointedAt (d : Daemon) {iaddr : BitVec 24} (heven : iaddr.getLsbD 0 = false) :
    cell (d.pointedAt iaddr).initBlock = iaddr.setWidth 15 := by
  have hcsr1 : (d.pointedAt iaddr).csr 1 = iaddr.setWidth 16 &&& ~~~ 1 := rfl
  rw [cell_initBlock, hcsr1, setWidth_even heven]

/-- The first five of these writes program the address of the block. -/
def pointSequence (iaddr : BitVec 24) : List Move :=
  writeCsr 1 (iaddr.setWidth 16) ++ writeCsr 2 ((iaddr >>> 16).setWidth 16) ++ [writeRap 0]

theorem pointSequence_runs (W : Wiring) (iaddr : BitVec 24) {d : Daemon} (w : World)
    (hs : tst d.csr0 CSR0.STOP = true) :
    runMoves W (pointSequence iaddr) (d, w) = (d.pointedAt iaddr, w) := by
  -- CSR1 and CSR2 are writable because STOP is set, and leave it set.
  have hcsr1 : wputOther (iaddr.setWidth 16) { d with rap := 1 } =
      { d with rap := 1 }.setCsr 1 (iaddr.setWidth 16 &&& ~~~ 1) := if_pos hs
  have hcsr2 : wputOther ((iaddr >>> 16).setWidth 16)
      { { d with rap := 1 }.setCsr 1 (iaddr.setWidth 16 &&& ~~~ 1) with rap := 2 } =
      { (d.setCsr 1 (iaddr.setWidth 16 &&& ~~~ 1)).setCsr 2
        ((iaddr >>> 16).setWidth 16 &&& 0x00ff) with rap := 2 } := if_pos hs
  rw [pointSequence, List.append_assoc, runMoves_writeCsr W _ _ d w (by decide),
    show ((1 : U16).setWidth 8 : U8) = 1 from rfl, hcsr1,
    runMoves_writeCsr W _ _ _ w (by decide), show ((2 : U16).setWidth 8 : U8) = 2 from rfl, hcsr2]
  rfl

theorem initSequence_eq (iaddr : BitVec 24) (v : U16) :
    initSequence iaddr v = pointSequence iaddr ++ [writeRdp v] := by
  rw [initSequence, pointSequence, List.append_assoc _ [_] [_]]
  rfl

theorem initSequence_runs (W : Wiring) (iaddr : BitVec 24) (v : U16) {d : Daemon} (w : World)
    (hs : tst d.csr0 CSR0.STOP = true) :
    runMoves W (initSequence iaddr v) (d, w) =
      (wputCsr0 W.onInterrupt W.onTransmit v (d.pointedAt iaddr)).exec w := by
  rw [initSequence_eq, runMoves_append, pointSequence_runs W iaddr w hs]
  exact apply_writeRdp W v w rfl

/-- `chip_init` reads the stored block back. -/
theorem blockWord_words (b : InitBlock) (m : Boardram) (d : Daemon) {iaddr : BitVec 24}
    (heven : iaddr.getLsbD 0 = false) :
    Config.ofWords (blockWord (m.storeWords (iaddr.setWidth 15) b.words)
      (d.pointedAt iaddr).initBlock) = b.config := by
  have hlen : b.words.length = 12 := rfl
  have hbit : (iaddr.setWidth 15).getLsbD 0 = false := by
    rw [BitVec.getLsbD_setWidth, heven, Bool.and_false]
  rw [← b.ofWords]
  apply Config.ofWords_congr
  intro k hk
  rw [blockWord_storeWords m hbit b.words (by rw [hlen]; decide) (cell_pointedAt d heven)
    (hlen ▸ hk), List.getD_eq_getElem _ _ (hlen ▸ hk)]

/-- From every stopped state a run reaches: the driver stores a block at an
even address, programs the address and writes INIT, with or without STRT.
`chip_init` yields what the driver has encoded. -/
theorem init_block_decoded (W : Wiring) (fakemac macFakemac macRealmac : Mac) (w₀ : World)
    (moves : List Move) (d : Daemon) (w : World) (b : InitBlock) (iaddr : BitVec 24) (v : U16)
    (hrun : d = (runMoves W moves
      (registersReset (.bootWith fakemac macFakemac macRealmac), w₀)).1)
    (hs : tst d.csr0 CSR0.STOP = true) (heven : iaddr.getLsbD 0 = false)
    (hv : tst v CSR0.INIT = true) (hd : tst v CSR0.TDMD = false) :
    let s := runMoves W (initSequence iaddr v)
      (d, { w with ram := w.ram.storeWords (iaddr.setWidth 15) b.words })
    s.1.config = b.config ∧ s.1.macFakemac = b.mac := by
  have hreached : Reached d := hrun ▸ reached_runMoves W fakemac macFakemac macRealmac w₀ moves
  obtain ⟨hconfig, hmac⟩ := wputCsr0_initializes W.onInterrupt W.onTransmit
    (d := d.pointedAt iaddr) hreached.quiet hreached.csr0.tdmd hs hv hd
    { w with ram := w.ram.storeWords (iaddr.setWidth 15) b.words }
  dsimp only
  rw [initSequence_runs W iaddr v _ hs, hconfig, hmac, blockWord_words b w.ram d heven]
  exact ⟨rfl, rfl⟩

/-- A block for two rings of 16 descriptors, with reserved bits set. -/
def someBlock : InitBlock where
  mode := 0x8000
  mac := #v[0x00, 0x80, 0x10, 0x12, 0x34, 0x56]
  ladrf := 0x0123456789ABCDEF
  rexp := 4
  rres := 0x1F
  texp := 4
  tres := 0x0A
  rdra := 0xE90400
  tdra := 0x000480
  rdra_aligned := by decide
  tdra_aligned := by decide

/-- The block wraps around the end of the window. -/
theorem init_block_decoded_wrapped :
    (runMoves .null (initSequence 0x7FF8 (CSR0.INIT ||| CSR0.STRT))
      (registersReset (.bootWith BROADCAST_MAC BROADCAST_MAC BROADCAST_MAC),
        { World.blank with
          ram := Boardram.storeWords (fun _ => 0) 0x7FF8 someBlock.words })).1.config =
      someBlock.config :=
  (init_block_decoded .null BROADCAST_MAC BROADCAST_MAC BROADCAST_MAC .blank [] _ .blank someBlock
    0x7FF8 (CSR0.INIT ||| CSR0.STRT) rfl (by decide) (by decide) (by decide) (by decide)).1

end A2065
