import A2065.InitBlock

/-!
# The direct registers

CSR8 to CSR15, CSR24 to CSR31 and CSR76, CSR78 program the same statics as
the init block does, one word at a time. Written with the words of a block
they reach the configuration of that block, except that CSR8 to CSR11 fill
LADRF from the high word down, while the block holds its low word first.
-/

namespace A2065

open Bits

/-- One write to register `n`, none of them CSR0. -/
def direct (d : Daemon) (nv : U16 × U16) : Daemon :=
  wputOther nv.2 { d with rap := nv.1.setWidth 8 }

/-- The words of a block, each in the register that holds it, and the ring
lengths as the negative numbers CSR76 and CSR78 want. -/
def InitBlock.registers (b : InitBlock) : List (U16 × U16) :=
  let word := fun k => b.words.getD k 0
  [(15, word 0), (12, word 1), (13, word 2), (14, word 3),
    (8, word 4), (9, word 5), (10, word 6), (11, word 7),
    (24, b.rdra.setWidth 16), (25, (b.rdra >>> 16).setWidth 16),
    (30, b.tdra.setWidth 16), (31, (b.tdra >>> 16).setWidth 16),
    (76, - BitVec.ofNat 16 (2 ^ b.rexp.toNat)), (78, - BitVec.ofNat 16 (2 ^ b.texp.toNat))]

/-- The driver's writes. -/
def writeRegisters (l : List (U16 × U16)) : List Move := l.flatMap fun nv => writeCsr nv.1 nv.2

theorem runMoves_writeRegisters (W : Wiring) (l : List (U16 × U16))
    (hl : ∀ n ∈ l.map Prod.fst, 0 < n.toNat ∧ n.toNat < 128) (d : Daemon) (w : World) :
    runMoves W (writeRegisters l) (d, w) = (l.foldl direct d, w) := by
  induction l generalizing d with
  | nil => rfl
  | cons nv l ih =>
    rw [writeRegisters, List.flatMap_cons, runMoves_writeCsr W _ _ d w (hl nv.1 (by simp)),
      List.foldl_cons]
    exact ih (fun n h => hl n (List.mem_cons_of_mem _ h)) (direct d nv)

/-! ## The fields the writes build -/

section Fields

/-- Four words, each written over its quarter of the register. -/
theorem ladrf_written (x : U64) (l0 l1 l2 l3 : U16) :
    ((((((x &&& 0x0000ffffffffffff#64) ||| (l0.setWidth 64 <<< 48)) &&& 0xffff0000ffffffff#64) |||
      (l1.setWidth 64 <<< 32)) &&& 0xffffffff0000ffff#64) ||| (l2.setWidth 64 <<< 16)) &&&
      0xffffffffffff0000#64 ||| l3.setWidth 64 = ladrfOf l3 l2 l1 l0 := by
  have h8 : ∀ i < 64, (0x0000ffffffffffff#64).getLsbD i = decide (i < 48) := by decide
  have h9 : ∀ i < 64, (0xffff0000ffffffff#64).getLsbD i = decide (i < 32 ∨ 48 ≤ i) := by decide
  have h10 : ∀ i < 64, (0xffffffff0000ffff#64).getLsbD i = decide (i < 16 ∨ 32 ≤ i) := by decide
  have h11 : ∀ i < 64, (0xffffffffffff0000#64).getLsbD i = decide (16 ≤ i) := by decide
  apply BitVec.eq_of_getLsbD_eq
  intro i hi
  simp only [ladrfOf, BitVec.getLsbD_or, BitVec.getLsbD_and, h8 i hi, h9 i hi, h10 i hi, h11 i hi,
    BitVec.getLsbD_shiftLeft, BitVec.getLsbD_setWidth]
  rcases (by omega : i < 16 ∨ (16 ≤ i ∧ i < 32) ∨ (32 ≤ i ∧ i < 48) ∨ 48 ≤ i) with
    h | h | h | h
  · simp [hi, h, show i < 32 by omega, show i < 48 by omega, show ¬ 16 ≤ i by omega]
  · simp [hi, h.1, h.2, show ¬ i < 16 by omega, show i < 48 by omega, show ¬ 32 ≤ i by omega]
  · simp [hi, h.1, h.2, show ¬ i < 16 by omega, show ¬ i < 32 by omega, show 16 ≤ i by omega,
      show ¬ 48 ≤ i by omega, BitVec.getLsbD_of_ge l2 (i - 16) (by omega)]
  · simp [hi, h, show ¬ i < 16 by omega, show ¬ i < 32 by omega, show ¬ i < 48 by omega,
      show 16 ≤ i by omega, show 32 ≤ i by omega, BitVec.getLsbD_of_ge l2 (i - 16) (by omega),
      BitVec.getLsbD_of_ge l1 (i - 32) (by omega)]

/-- The words of LADRF are its four quarters. -/
theorem ladrfOf_eq_append (l0 l1 l2 l3 : U16) : ladrfOf l0 l1 l2 l3 = l3 ++ l2 ++ l1 ++ l0 := by
  rw [← BitVec.setWidth_eq (l3 ++ l2 ++ l1 ++ l0),
    BitVec.setWidth_append_append_append_eq_shiftLeft_setWidth_or]
  rfl

/-- So it determines them. -/
theorem ladrfOf_inj {a0 a1 a2 a3 b0 b1 b2 b3 : U16} :
    ladrfOf a0 a1 a2 a3 = ladrfOf b0 b1 b2 b3 ↔ a0 = b0 ∧ a1 = b1 ∧ a2 = b2 ∧ a3 = b3 := by
  constructor
  · intro h
    rw [ladrfOf_eq_append, ladrfOf_eq_append] at h
    obtain ⟨h, h0⟩ := Bits.append_inj.mp h
    obtain ⟨h, h1⟩ := Bits.append_inj.mp h
    obtain ⟨h3, h2⟩ := Bits.append_inj.mp h
    exact ⟨h0, h1, h2, h3⟩
  · rintro ⟨rfl, rfl, rfl, rfl⟩
    rfl

/-- Low word, mask, high word, mask: what is left is the address in the window. -/
theorem rdra_written (x : U32) (addr : BitVec 24) :
    (((((x &&& 0xffff0000#32) ||| (addr.setWidth 16).setWidth 32) &&& RAM_MASK) &&&
      0x0000ffff#32) ||| (((addr >>> 16).setWidth 16).setWidth 32 <<< 16)) &&& RAM_MASK =
      BitVec.ofNat 32 (addr.toNat % 0x8000) := by
  have hmod : BitVec.ofNat 32 (addr.toNat % 0x8000) = (addr.setWidth 15).setWidth 32 := by
    apply BitVec.eq_of_toNat_eq
    simp only [BitVec.toNat_ofNat, BitVec.toNat_setWidth]
  have hram : ∀ i < 32, RAM_MASK.getLsbD i = decide (i < 15) := by decide
  have hhi : ∀ i < 32, (0xffff0000#32).getLsbD i = decide (16 ≤ i) := by decide
  have hlo : ∀ i < 32, (0x0000ffff#32).getLsbD i = decide (i < 16) := by decide
  rw [hmod]
  apply BitVec.eq_of_getLsbD_eq
  intro i hi
  simp only [BitVec.getLsbD_and, BitVec.getLsbD_or, hram i hi, hhi i hi, hlo i hi]
  by_cases h15 : i < 15
  · simp [h15, hi, show i < 16 by omega]
  · simp [h15]

theorem rlen_written (e : BitVec 3) :
    (- (- BitVec.ofNat 16 (2 ^ e.toNat)).signExtend 32) &&& 0xffff =
      BitVec.ofNat 32 (2 ^ e.toNat) := by
  revert e
  decide

end Fields

/-! ## The four groups of writes -/

theorem direct_mac (d : Daemon) (p0 p1 p2 : U16) :
    List.foldl direct d [(12, p0), (13, p1), (14, p2)] =
      { d with rap := 14, fakemac := macOf p0 p1 p2 } := by
  have hbytes : (((((d.fakemac.set 1 ((p0 >>> 8).setWidth 8)).set 0 (p0.setWidth 8)).set 3
      ((p1 >>> 8).setWidth 8)).set 2 (p1.setWidth 8)).set 5 ((p2 >>> 8).setWidth 8)).set 4
      (p2.setWidth 8) = macOf p0 p1 p2 := by
    ext j hj
    interval_cases j <;> simp [macOf]
  rw [← hbytes]
  rfl

theorem direct_ladrf (d : Daemon) (l0 l1 l2 l3 : U16) :
    List.foldl direct d [(8, l0), (9, l1), (10, l2), (11, l3)] =
      { d with rap := 11, amLadrf := ladrfOf l3 l2 l1 l0 } := by
  rw [← ladrf_written d.amLadrf]
  rfl

/-- Each of the four pointer writes masks both pointers and resets both
cursors. -/
theorem direct_pointers (d : Daemon) (rdra tdra : BitVec 24) :
    List.foldl direct d [(24, rdra.setWidth 16), (25, (rdra >>> 16).setWidth 16),
        (30, tdra.setWidth 16), (31, (tdra >>> 16).setWidth 16)] =
      { d with
        rap := 31
        amRdrRdra := BitVec.ofNat 32 (rdra.toNat % 0x8000)
        amTdrTdra := BitVec.ofNat 32 (tdra.toNat % 0x8000)
        tdrOffset := 0
        rdrOffset := 0 } := by
  have hmask : ∀ x : U32, x &&& RAM_MASK &&& RAM_MASK = x &&& RAM_MASK := by
    intro x
    rw [BitVec.and_assoc, BitVec.and_self]
  have hrdra : BitVec.ofNat 32 (rdra.toNat % 0x8000) &&& RAM_MASK &&& RAM_MASK =
      BitVec.ofNat 32 (rdra.toNat % 0x8000) := by
    rw [← rdra_written d.amRdrRdra rdra, hmask, hmask]
  rw [← hrdra, ← rdra_written d.amRdrRdra rdra,
    ← rdra_written (d.amTdrTdra &&& RAM_MASK &&& RAM_MASK) tdra]
  rfl

theorem direct_lengths (d : Daemon) (rexp texp : BitVec 3) :
    List.foldl direct d [(76, - BitVec.ofNat 16 (2 ^ rexp.toNat)),
        (78, - BitVec.ofNat 16 (2 ^ texp.toNat))] =
      { d with
        rap := 78
        amRdrRlen := BitVec.ofNat 32 (2 ^ rexp.toNat)
        amTdrTlen := BitVec.ofNat 32 (2 ^ texp.toNat) } := by
  rw [← rlen_written rexp, ← rlen_written texp]
  rfl

/-- What the writes leave, from whatever was configured before. -/
theorem config_registers (b : InitBlock) (d : Daemon) :
    (b.registers.foldl direct d).config =
      { b.config with
        ladrf := ladrfOf (b.words.getD 7 0) (b.words.getD 6 0) (b.words.getD 5 0)
          (b.words.getD 4 0) } := by
  have hgroups : b.registers = ([[(15, b.mode)],
      [(12, b.words.getD 1 0), (13, b.words.getD 2 0), (14, b.words.getD 3 0)],
      [(8, b.words.getD 4 0), (9, b.words.getD 5 0), (10, b.words.getD 6 0),
        (11, b.words.getD 7 0)],
      [(24, b.rdra.setWidth 16), (25, (b.rdra >>> 16).setWidth 16), (30, b.tdra.setWidth 16),
        (31, (b.tdra >>> 16).setWidth 16)],
      [(76, - BitVec.ofNat 16 (2 ^ b.rexp.toNat)),
        (78, - BitVec.ofNat 16 (2 ^ b.texp.toNat))]] : List (List (U16 × U16))).flatten := rfl
  have hmac : macOf (b.words.getD 1 0) (b.words.getD 2 0) (b.words.getD 3 0) = b.mac :=
    macOf_pairs b.mac
  rw [hgroups, List.foldl_flatten, List.foldl_cons, List.foldl_cons, direct_mac, hmac,
    List.foldl_cons, direct_ladrf, List.foldl_cons, direct_pointers, List.foldl_cons,
    direct_lengths]
  rfl

/-- The direct registers, written with the words of a block that is in
boardram, give the configuration `chip_init` gives, when and only when
LADRF reads the same from either end. -/
theorem direct_csr_iff (W : Wiring) (b : InitBlock) (d d₀ : Daemon) (w w₀ : World)
    (hblock : ∀ k < 12, blockWord w₀.ram d₀.initBlock k = b.words.getD k 0) :
    (runMoves W (writeRegisters b.registers) (d, w)).1.config =
        ((chipInit d₀).exec w₀).1.config ↔
      b.words.getD 4 0 = b.words.getD 7 0 ∧ b.words.getD 5 0 = b.words.getD 6 0 := by
  have hnums : b.registers.map Prod.fst = [15, 12, 13, 14, 8, 9, 10, 11, 24, 25, 30, 31, 76, 78] :=
    rfl
  have hregs : ∀ n ∈ b.registers.map Prod.fst, 0 < n.toNat ∧ n.toNat < 128 := by
    rw [hnums]
    simp
  have hinit : ((chipInit d₀).exec w₀).1.config = b.config := by
    rw [chipInit_exec, Daemon.config_load, Config.ofWords_congr hblock, InitBlock.ofWords]
  have hladrf : b.config.ladrf = ladrfOf (b.words.getD 4 0) (b.words.getD 5 0)
      (b.words.getD 6 0) (b.words.getD 7 0) := by
    rw [← b.ofWords]
    rfl
  rw [runMoves_writeRegisters W _ hregs, hinit, config_registers]
  constructor
  · intro h
    have hsame := congrArg Config.ladrf h
    rw [hladrf, ladrfOf_inj] at hsame
    exact ⟨hsame.1.symm, hsame.2.1.symm⟩
  · rintro ⟨h47, h56⟩
    rw [h47, h56] at hladrf
    rw [h47, h56, ← hladrf]

/-- A block at offset 0 of an otherwise empty window. -/
def blockWorld (b : InitBlock) : World :=
  { World.blank with ram := Boardram.storeWords (fun _ => 0) 0 b.words }

/-- Two rings inside the window, and a filter that is not a palindrome of
words. -/
def lowRings : InitBlock := { someBlock with rdra := 0x000400, rdra_aligned := by decide }

/-- A block that accepts every multicast. -/
def allMulticast : InitBlock := { lowRings with ladrf := 0xFFFFFFFFFFFFFFFF }

theorem direct_csr_all_multicast :
    (runMoves .null (writeRegisters allMulticast.registers)
        (.boot, blockWorld allMulticast)).1.config =
      ((chipInit .boot).exec (blockWorld allMulticast)).1.config :=
  (direct_csr_iff .null allMulticast .boot .boot _ _ (by decide)).mpr ⟨rfl, rfl⟩

/-- The direct registers hold the words of LADRF in the opposite order. -/
theorem direct_csr_reversed :
    lowRings.rdra.toNat < 0x8000 ∧ lowRings.tdra.toNat < 0x8000 ∧
      (List.range 12).map (blockWord (blockWorld lowRings).ram Daemon.boot.initBlock) =
        lowRings.words ∧
      (runMoves .null (writeRegisters lowRings.registers) (.boot, blockWorld lowRings)).1.config
        ≠ ((chipInit .boot).exec (blockWorld lowRings)).1.config := by
  decide

end A2065
