import A2065.Scatter
import A2065.CsrInvariant
import A2065.TransmitQueue

/-!
# Internal loopback

With MODE_LOOP set `do_transmit` hands the gathered frame to `gotfunc`. Both
walks are composed here: what `txChain` gathers is what `rxRing` scatters, and
neither the padding nor the translation nor a filter comes in between.
-/

namespace A2065

open Bits CyclicMem Circular

/-- Both engines on in loopback mode; a frame `k` places behind the TX cursor,
chained over `tx`; and from the RX cursor on the descriptors `rx` it needs. -/
structure LoopSetup (d : Daemon) (w : World) (k : Nat) (txInit : List Desc) (txLast : Desc)
    (rxInit : List Desc) (rxLast : Desc) : Prop where
  loop : tst d.amMode MODE.LOOP = true
  coll : tst d.amMode MODE.COLL = false
  txon : tst d.csr0 CSR0.TXON = true
  rxon : tst d.csr0 CSR0.RXON = true
  txRing : ringAccepted d.amTdrTdra d.amTdrTlen = true
  rxRing : ringAccepted d.amRdrRdra d.amRdrRlen = true
  near : k < d.amTdrTlen.toNat
  first : ∀ j < k,
    readyAt w.ram.mem d.amTdrTdra (slot d.amTdrTlen.toNat d.tdrOffset.toNat j) = false
  ready : readyAt w.ram.mem d.amTdrTdra (slot d.amTdrTlen.toNat d.tdrOffset.toNat k) = true
  chain : TxChain w.ram.mem d.amTdrTdra d.amTdrTlen.toNat (d.tdrOffset.toNat + k) txInit txLast
  min : 20 ≤ capacity (txInit ++ [txLast])
  max : capacity (txInit ++ [txLast]) ≤ 4092
  run : RxRun w.ram.mem d.amRdrRdra d.amRdrRlen.toNat d.rdrOffset.toNat (rxInit ++ [rxLast])
  clear : ∀ x ∈ rxInit ++ [rxLast], tst x.md1 (RX.STP ||| RX.ENP) = false
  need : capacity rxInit < capacity (txInit ++ [txLast]) + 4
  room : capacity (txInit ++ [txLast]) + 4 ≤ capacity (rxInit ++ [rxLast])
  rings : Disjoint (ringCells d.amRdrRdra d.amRdrRlen.toNat)
    (ringCells d.amTdrTdra d.amTdrTlen.toNat)
  buffers : ∀ x ∈ rxInit ++ [rxLast], Disjoint x.cells (ringCells d.amTdrTdra d.amTdrTlen.toNat)

/-! ## The receiving half -/

theorem rxAccepts_loop {d : Daemon} (h : tst d.amMode MODE.LOOP = true) (tmp : Buf) :
    rxAccepts d tmp = true := by
  unfold rxAccepts
  simp only
  rw [if_pos h]

/-- In loopback the frame is stored as it is. -/
theorem bufTake_loop {d : Daemon} (h : tst d.amMode MODE.LOOP = true) (stack databuf : Buf)
    (n : Nat) : bufTake (rxFrame d stack databuf n) n = bufTake databuf n := by
  apply List.map_congr_left
  intro i hi
  unfold rxFrame
  rw [if_pos h, if_pos (List.mem_range.mp hi)]

/-- The end of `do_transmit` in loopback mode without collision. -/
theorem txFinish_loop (cb : Callback) (addFcs : Bool) {t : TxWalk} {d : Daemon} (w : World)
    (herr : t.err = false) (hloop : tst d.amMode MODE.LOOP = true)
    (hcoll : tst d.amMode MODE.COLL = false) :
    (txFinish cb addFcs t d).exec w =
      let r := (gotfunc cb d.transmitbuffer t.outsize d).exec
        { w with ram := (w.ram.putRamWord (t.off + 2) t.tmd1).putRamWord (t.off + 6) t.tmd3 }
      (r.1.2, r.2) := by
  have hands : t.Hands d := ⟨herr, hcoll, .inl hloop⟩
  rw [txFinish_eq, if_pos hands, handOver, if_pos hloop]
  simp only [DProg.exec_bind, exec_putRamWord, DProg.exec_pure]

/-! ## Both halves -/

/-- The frame of the TX chain has come out of the RX ring: `tx` stood from
place `p` of the TX ring on, `rx` from the RX cursor on. -/
structure LoopedBack (d : Daemon) (w : World) (p : Nat) (tx rx : List Desc)
    (r : (Nat × Daemon) × World) : Prop where
  taken : r.1.1 = 1
  wire : r.2.wire = w.wire
  data : (gathered r.2.ram.mem rx).take (capacity tx + 4) =
    gathered w.ram.mem tx ++ fcs (gathered w.ram.mem tx)
  enp : ∀ j < rx.length, tst (descAt r.2.ram.mem d.amRdrRdra
    (slot d.amRdrRlen.toNat d.rdrOffset.toNat j)).md1 RX.ENP = (j + 1 == rx.length)
  mcnt : ∀ j, j + 1 = rx.length → (descAt r.2.ram.mem d.amRdrRdra
    (slot d.amRdrRlen.toNat d.rdrOffset.toNat j)).md3.toNat = capacity tx + 4
  txOwn : ∀ i < d.amTdrTlen.toNat, tst (descAt r.2.ram.mem d.amTdrTdra i).md1 TX.OWN = true ↔
    tst (descAt w.ram.mem d.amTdrTdra i).md1 TX.OWN = true ∧
      ∀ j < tx.length, i ≠ slot d.amTdrTlen.toNat p j
  rxOwn : ∀ i < d.amRdrRlen.toNat, tst (descAt r.2.ram.mem d.amRdrRdra i).md1 RX.OWN = true ↔
    tst (descAt w.ram.mem d.amRdrRdra i).md1 RX.OWN = true ∧
      ∀ j < rx.length, i ≠ slot d.amRdrRlen.toNat d.rdrOffset.toNat j
  tint : tst r.1.2.csr0 CSR0.TINT = true
  rint : tst r.1.2.csr0 CSR0.RINT = true

/-- TINT and RINT after both halves. -/
theorem loop_interrupts (c : U16) :
    tst (rethinkCsr0 (rethinkCsr0 (c ||| CSR0.RINT) ||| CSR0.TINT)) CSR0.TINT = true ∧
      tst (rethinkCsr0 (rethinkCsr0 (c ||| CSR0.RINT) ||| CSR0.TINT)) CSR0.RINT = true := by
  simp only [CSR0.tst_bits, rethinkCsr0_getLsbD, BitVec.getLsbD_or]
  simp [CSR0.masks]

/-- The TX walk leaves the RX descriptors where they were. -/
theorem RxRun.of_eqOn {m m' : BitVec 15 → U8} {rdra : U32} {n p : Nat} {xs : List Desc}
    (h : RxRun m rdra n p xs) (hn : n ≤ 512) (heq : Set.EqOn m' m (ringCells rdra n)) :
    RxRun m' rdra n p xs := by
  refine ⟨h.descs.congr fun k hk => ?_, h.length_le, h.own, h.size, h.buffers, h.apart⟩
  have := h.length_le
  exact descAt_congr rdra hn (slot_lt (by omega) p k) heq

/-- One call is two steps in memory: the chain is released, then the run of
descriptors is filled with the frame and its FCS. -/
theorem doTransmit_loop (cb : Callback) {d : Daemon} {w : World} {k : Nat}
    {txInit : List Desc} {txLast : Desc} {rxInit : List Desc} {rxLast : Desc}
    (h : LoopSetup d w k txInit txLast rxInit rxLast) {r : (Nat × Daemon) × World}
    (hr : (doTransmit cb d).exec w = r) :
    ∃ m : BitVec 15 → U8,
      RingStep d.amTdrTdra d.amTdrTlen.toNat (d.tdrOffset.toNat + k) ∅ w.ram.mem m
        ((txInit ++ [txLast]).map Desc.release) ∧
      RingStep d.amRdrRdra d.amRdrRlen.toNat d.rdrOffset.toNat (bufferCells (rxInit ++ [rxLast]))
        m r.2.ram.mem (fillChain (capacity (txInit ++ [txLast]) + 4) true rxInit rxLast) ∧
      (gathered r.2.ram.mem (rxInit ++ [rxLast])).take (capacity (txInit ++ [txLast]) + 4) =
        gathered w.ram.mem (txInit ++ [txLast]) ++ fcs (gathered w.ram.mem (txInit ++ [txLast])) ∧
      r.1.1 = 1 ∧ r.2.wire = w.wire ∧
      r.1.2.csr0 = rethinkCsr0 (rethinkCsr0 (d.csr0 ||| CSR0.RINT) ||| CSR0.TINT) := by
  obtain ⟨-, htlen, -⟩ := ringAccepted_iff.mp h.txRing
  obtain ⟨-, hrlen, -⟩ := ringAccepted_iff.mp h.rxRing
  have hpad : paddedSize d (capacity (txInit ++ [txLast])) = capacity (txInit ++ [txLast]) := by
    rw [paddedSize, if_neg (by simp [h.loop])]
  -- the TX half: gather, and write the last descriptor back
  obtain ⟨o, ram, tb, ho, htake, htx, hexec⟩ := doTransmit_chain cb (p := d.tdrOffset.toNat)
    h.txon h.txRing (BitVec.toNat_umod ..) h.near h.first h.ready h.chain
  rw [hpad, Nat.sub_self, List.replicate_zero, List.append_nil] at htake
  rw [hr, hpad] at hexec
  have htx' := h.chain.finish htlen htx txLast.release.md1 txLast.md3
  rw [← ho, ← mem_store_status] at htx'
  have hfin := txFinish_loop cb
    (tst (descAt w.ram.mem d.amTdrTdra (slot d.amTdrTlen.toNat d.tdrOffset.toNat k)).md1 TX.ADD_FCS)
    (t := ⟨descOff d.amTdrTdra o, txLast.release.md1, txLast.md3, capacity (txInit ++ [txLast]),
      false⟩) (d := { d with tdrOffset := o + 1, transmitbuffer := tb }) { w with ram := ram }
    rfl h.loop h.coll
  generalize (ram.putRamWord (descOff d.amTdrTdra o + 2) txLast.release.md1).putRamWord
    (descOff d.amTdrTdra o + 6) txLast.md3 = ram₁ at htx' hfin
  -- the RX half: scatter
  have hrun := h.run.of_eqOn hrlen (htx'.eqOn_of_disjoint h.rings (Set.disjoint_empty _))
  obtain ⟨o', ram₂, -, hdata, hrx, hgot⟩ := gotfunc_stores cb
    (d := { d with tdrOffset := o + 1, transmitbuffer := tb }) (w := { w with ram := ram₁ }) tb
    h.rxon h.rxRing h.min (rxAccepts_loop h.loop _) hrun h.need h.room
  rw [bufTake_loop (by exact h.loop)] at hdata
  rw [hgot] at hfin
  obtain ⟨hleave, hsame⟩ := rxLeave_eq cb .delivered
    ({ d with tdrOffset := o + 1, transmitbuffer := tb, rdrOffset := o' + 1 }.csr0Set CSR0.RINT)
    { w with ram := ram₂ }
  generalize rxLeave cb .delivered _ _ = l at hfin hleave hsame
  obtain ⟨hval, hsame'⟩ := txTail_exec cb _ _ hfin
  rw [← hexec] at hval hsame'
  have hram : r.2.ram = ram₂ := hsame'.ram.trans hsame.ram
  refine ⟨ram₁.mem, ?_, ?_, ?_, ?_, hsame'.wire.trans hsame.wire, ?_⟩
  · rw [List.map_append]
    exact htx'
  · rw [hram]
    exact hrx
  · rw [hram, hdata, htake]
  · rw [hval]
  · rw [hval, hleave]
    rfl

/-- Internal loopback is the identity on frames. -/
theorem loopback_identity (cb : Callback) {d : Daemon} {w : World} {k : Nat}
    {txInit : List Desc} {txLast : Desc} {rxInit : List Desc} {rxLast : Desc}
    (h : LoopSetup d w k txInit txLast rxInit rxLast) :
    LoopedBack d w (d.tdrOffset.toNat + k) (txInit ++ [txLast]) (rxInit ++ [rxLast])
      ((doTransmit cb d).exec w) := by
  obtain ⟨-, htlen, -⟩ := ringAccepted_iff.mp h.txRing
  obtain ⟨-, hrlen, -⟩ := ringAccepted_iff.mp h.rxRing
  generalize hr : (doTransmit cb d).exec w = r
  obtain ⟨m, htx, hrx, hdata, htaken, hwire, hcsr⟩ := doTransmit_loop cb h hr
  refine ⟨htaken, hwire, hdata, ?_, ?_, ?_, ?_, ?_, ?_⟩
  · intro j hj
    have hclear := h.clear _ (List.getElem_mem hj)
    rw [tst_or_right, Bool.or_eq_false_iff] at hclear
    rw [hrx.filled hj, enp_fill _ _ _ hclear.2]
    simp
  · intro j hj
    have hlast : (j == rxInit.length) = true := by simpa using hj
    have hmax := h.max
    rw [hrx.filled (j := j) (by omega), hlast]
    exact (BitVec.toNat_ofNat ..).trans (Nat.mod_eq_of_lt (by omega))
  · intro i hi
    have hclear : ∀ x ∈ (txInit ++ [txLast]).map Desc.release, tst x.md1 TX.OWN = false := by
      intro x hx
      obtain ⟨y, -, rfl⟩ := List.mem_map.mp hx
      exact own_release y
    -- the TX ring is apart from all the RX half writes
    have hkept : descAt r.2.ram.mem d.amTdrTdra i = descAt m d.amTdrTdra i :=
      descAt_congr d.amTdrTdra htlen hi (hrx.eqOn_of_disjoint h.rings.symm
        (disjoint_bufferCells fun x hx => (h.buffers x hx).symm))
    rw [hkept, htx.flag_iff hclear hi, List.length_map]
  · intro i hi
    have hkept : descAt m d.amRdrRdra i = descAt w.ram.mem d.amRdrRdra i :=
      descAt_congr d.amRdrRdra hrlen hi (htx.eqOn_of_disjoint h.rings (Set.disjoint_empty _))
    rw [hrx.flag_iff (fun y hy => own_fillChain hy) hi, hkept, length_fillChain,
      List.length_append, List.length_singleton]
  · rw [hcsr]
    exact (loop_interrupts d.csr0).1
  · rw [hcsr]
    exact (loop_interrupts d.csr0).2

/-- Two RX descriptors at 0, four TX descriptors at 0x40. -/
def loopDaemon : Daemon :=
  { (registersReset .boot).csr0Set (CSR0.TXON ||| CSR0.RXON) with
    amMode := MODE.LOOP
    amRdrRlen := 2
    amTdrTdra := 0x40
    amTdrTlen := 4 }

/-- A frame of 12 and 10 bytes behind the TX cursor, RX buffers of 16 bytes. -/
def loopWorld : World :=
  .holding [(0x00, 0x300), (0x02, 0x8000), (0x04, 0xFFF0), (0x08, 0x400), (0x0A, 0x8000),
    (0x0C, 0xFFF0), (0x48, 0x100), (0x4A, 0x8200), (0x4C, 0xFFF4), (0x50, 0x200), (0x52, 0x8100),
    (0x54, 0xFFF6), (0x100, 0x1234), (0x200, 0x5678)]

theorem loopWorld_setup : LoopSetup loopDaemon loopWorld 1 [⟨0x100, 0x8200, 0xFFF4, 0⟩]
    ⟨0x200, 0x8100, 0xFFF6, 0⟩ [⟨0x300, 0x8000, 0xFFF0, 0⟩] ⟨0x400, 0x8000, 0xFFF0, 0⟩ where
  loop := by decide +kernel
  coll := by decide +kernel
  txon := by decide +kernel
  rxon := by decide +kernel
  txRing := by decide +kernel
  rxRing := by decide +kernel
  near := by decide +kernel
  first := by decide +kernel
  ready := by decide +kernel
  chain :=
    { descs := ⟨by decide +kernel, by decide +kernel, trivial⟩
      length_le := by decide +kernel
      own := by decide +kernel
      enp := by decide +kernel
      last_enp := by decide +kernel
      size := by decide +kernel
      buffers := by decide +kernel }
  min := by decide +kernel
  max := by decide +kernel
  run :=
    { descs := ⟨by decide +kernel, by decide +kernel, trivial⟩
      length_le := by decide +kernel
      own := by decide +kernel
      size := by decide +kernel
      buffers := by decide +kernel
      apart := by decide +kernel }
  clear := by decide +kernel
  need := by decide +kernel
  room := by decide +kernel
  rings := disjoint_block_iff.mpr (by decide +kernel)
  buffers := by decide +kernel

/-- The scan skips one descriptor; both frames are split in two. -/
theorem loopback_identity_split : LoopedBack loopDaemon loopWorld 1
    [⟨0x100, 0x8200, 0xFFF4, 0⟩, ⟨0x200, 0x8100, 0xFFF6, 0⟩]
    [⟨0x300, 0x8000, 0xFFF0, 0⟩, ⟨0x400, 0x8000, 0xFFF0, 0⟩]
    ((doTransmit .null loopDaemon).exec loopWorld) :=
  loopback_identity .null loopWorld_setup

end A2065
