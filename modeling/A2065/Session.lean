import A2065.Acknowledge
import A2065.FullDuplex
import A2065.InitStart
import A2065.Stop

/-!
# A session

The driver takes the card down, lays out boardram and brings the card up
again. Whatever happened to the card before, in whatever state a ring error
has left its engines and cursors, the rings then work as `FullDuplex` says.
-/

namespace A2065

open Bits CyclicMem Circular

/-! ## CSR0 writes without a transmit demand -/

/-- No command sets TDMD. -/
theorem CommandStep.tdmd {oreg : U16} {d d' : Daemon} (h : CommandStep oreg d d')
    (hd : d.csr0.getLsbD 3 = false) : d'.csr0.getLsbD 3 = false := by
  have hstart := (startEngines_csr0 d).2 3 (by decide) (by decide) (by decide)
  cases h with
  | stop =>
      rw [Daemon.csr0_setCsr_ne _ (by decide), Daemon.csr0_setCsr0]
      decide
  | start => rw [hstart, hd]
  | @startInit d₁ hi =>
      have hcsr0 : (d₁.csr0Set CSR0.IDON).csr0 = _ := d₁.csr0_csr0Set _
      refine (congrArg (·.getLsbD 3) hcsr0).trans ?_
      rw [BitVec.getLsbD_or, hi.csr0, hstart, hd]
      decide
  | @init d₁ hi =>
      have hcsr0 : ((d₁.csr0Set CSR0.IDON).csr0Clr
        (CSR0.RXON ||| CSR0.TXON ||| CSR0.STOP)).csr0 = _ := Daemon.csr0_csr0Clr _ _
      rw [Daemon.csr0_setCsr_ne _ (by decide)]
      refine (congrArg (·.getLsbD 3) hcsr0).trans ?_
      rw [BitVec.getLsbD_and, Daemon.csr0_csr0Set, BitVec.getLsbD_or, hi.csr0, hd]
      decide
  | keep => exact hd

/-- Such a write leaves boardram and the wire alone. -/
theorem wputCsr0_sameMem (W : Wiring) {v : U16} {d : Daemon} (w : World)
    (hd : d.csr0.getLsbD 3 = false) (hv : v.getLsbD 3 = false) :
    SameMem w ((wputCsr0 W.onInterrupt W.onTransmit v d).exec w).2 := by
  have hmerge : (d.setCsr 0 (csr0Merge d.csr0 v)).csr0.getLsbD 3 = false := by
    rw [Daemon.csr0_setCsr0, csr0Merge_command _ _ 3 (by decide), hd, hv]
    rfl
  have hcommand := always_exec (csr0Command_step d.csr0 (d.setCsr 0 (csr0Merge d.csr0 v))) w
  have hdemand := hcommand.tdmd hmerge
  have hword := csr0Command_exec d.csr0 (d.setCsr 0 (csr0Merge d.csr0 v)) w
  simp only [wputCsr0, DProg.exec_bind, hword]
  rw [csr0Demand, if_neg (by simp only [CSR0.tst_bits, hdemand]; decide), DProg.exec_pure]
  exact (rethink_exec _ _ _).2

/-! ## Down -/

/-- STOP alone stops the chip, from every state. -/
theorem wputCsr0_stops (W : Wiring) {d : Daemon} (h : Csr0Inv d.csr0) (w : World) :
    tst ((wputCsr0 W.onInterrupt W.onTransmit CSR0.STOP d).exec w).1.csr0 CSR0.STOP = true := by
  cases hs : tst d.csr0 CSR0.STOP with
  | false =>
      rw [wputCsr0_stop _ _ hs (by decide), (rethink_exec _ _ _).1, Daemon.csr0_setCsr0,
        Daemon.csr0_setCsr_ne _ (by decide), Daemon.csr0_setCsr0]
      decide
  | true =>
      obtain ⟨c, hc, heq⟩ := wputCsr0_stopped W.onInterrupt h hs (v := CSR0.STOP) (by decide)
        (.inr (by decide))
      rw [heq, (rethink_exec _ _ _).1, Daemon.csr0_setCsr0]
      simp only [CSR0.tst_bits, rethinkCsr0_getLsbD, Daemon.csr0_setCsr0]
      exact hc

/-! ## Up -/

/-- INIT and then STRT, from a stopped state with the block's address
programmed: the engines come on as the block's mode says. -/
theorem started (W : Wiring) {d : Daemon} (h : Reached d) (hs : tst d.csr0 CSR0.STOP = true)
    (hrap : d.rap = 0) (inea : Bool) (w : World) {c : Config}
    (hc : Config.ofWords (blockWord w.ram d.initBlock) = c) :
    (initThenStart W inea (d, w)).1.csr0 = startedCsr0 d.csr0 inea c.mode ∧
      (initThenStart W inea (d, w)).1.config = c ∧ (initThenStart W inea (d, w)).1.rap = 0 ∧
      SameMem w (initThenStart W inea (d, w)).2 := by
  obtain ⟨hbits, hconfig, -⟩ := init_alone h hs inea w W
  have hrap₁ := always_exec (wputCsr0_rap W (CSR0.INIT ||| ineaBit inea) d) w
  have hsame₁ := wputCsr0_sameMem W (v := CSR0.INIT ||| ineaBit inea) w h.csr0.tdmd
    (by cases inea <;> decide)
  have happly : (writeRdp (CSR0.INIT ||| ineaBit inea)).apply W (d, w) = _ :=
    apply_writeRdp W _ w hrap
  unfold initThenStart runMoves
  rw [List.foldl_cons, List.foldl_cons, List.foldl_nil, happly]
  generalize (wputCsr0 W.onInterrupt W.onTransmit (CSR0.INIT ||| ineaBit inea) d).exec w = r at *
  obtain ⟨d₁, w₁⟩ := r
  have hmode : d₁.amMode = c.mode := by
    rw [← hc, ← hconfig]
    rfl
  rw [hrap] at hrap₁
  obtain ⟨hcsr0, hconfig', -⟩ := strt_alone W (o := d.csr0) w₁ hbits
  have htdmd : d₁.csr0.getLsbD 3 = false := by
    rw [hbits 3 (by decide) (by decide)]
    simp
  have hsame₂ := wputCsr0_sameMem W (v := CSR0.STRT ||| ineaBit inea) w₁ htdmd
    (by cases inea <;> decide)
  have hrap₂ := always_exec (wputCsr0_rap W (CSR0.STRT ||| ineaBit inea) d₁) w₁
  rw [apply_writeRdp W _ w₁ hrap₁]
  refine ⟨by rw [hcsr0, hmode], hconfig'.trans (hconfig.trans hc), hrap₂.trans hrap₁, ?_⟩
  exact ⟨hsame₂.ram.trans hsame₁.ram, hsame₂.wire.trans hsame₁.wire,
    hsame₂.stack.trans hsame₁.stack⟩

/-! ## Boardram as the driver lays it out -/

/-- A configuration and boardram for it: the RX ring armed, with its buffers
in `R`, the TX ring empty and elsewhere; no loopback, no forced collisions and
no engine disabled. -/
structure Layout (R : Set (BitVec 15)) (c : Config) (m : BitVec 15 → U8) : Prop where
  mode : c.mode &&& (MODE.LOOP ||| MODE.COLL ||| MODE.DTX ||| MODE.DRX) = 0
  rxRing : ringAccepted c.rdra c.rlen = true
  txRing : ringAccepted c.tdra c.tlen = true
  rxBuffers : RxBuffers m c.rdra c.rlen.toNat
  armed : ∀ i < c.rlen.toNat, (descAt m c.rdra i).md1 &&& 0xFF00 = RX.OWN
  free : ∀ i < c.tlen.toNat, readyAt m c.tdra i = false
  ring : ringCells c.rdra c.rlen.toNat ⊆ R
  buffers : ∀ i < c.rlen.toNat, (descAt m c.rdra i).cells ⊆ R
  apart : Disjoint (ringCells c.tdra c.tlen.toNat) R

/-- The mode has none of these bits. -/
theorem Layout.mode_off {R : Set (BitVec 15)} {c : Config} {m : BitVec 15 → U8} (h : Layout R c m)
    {mask : U16} (hmask : mask &&& (MODE.LOOP ||| MODE.COLL ||| MODE.DTX ||| MODE.DRX) = mask) :
    tst c.mode mask = false := by
  have hand : c.mode &&& mask = 0 := by
    rw [← hmask, BitVec.and_comm mask, ← BitVec.and_assoc, h.mode]
    exact BitVec.zero_and
  simp [tst, hand]

/-- A started daemon on such a boardram is ready for traffic. -/
theorem Layout.ready {R : Set (BitVec 15)} {d : Daemon} {w : World} {o : U16} {inea : Bool}
    (h : Layout R d.config w.ram.mem) (hcsr0 : d.csr0 = startedCsr0 o inea d.config.mode) :
    Duplex.Ready R d w := by
  have hon : tst d.csr0 CSR0.TXON = true ∧ tst d.csr0 CSR0.RXON = true := by
    have hdtx : tst d.config.mode MODE.DTX = false := h.mode_off (by decide)
    have hdrx : tst d.config.mode MODE.DRX = false := h.mode_off (by decide)
    rw [hcsr0]
    simp only [CSR0.tst_bits]
    rw [startedCsr0_getLsbD _ _ _ (by decide), startedCsr0_getLsbD _ _ _ (by decide)]
    simp [hdtx, hdrx]
  exact {
    armed := ⟨h.rxRing, hon.2, h.rxBuffers, h.armed⟩
    conf := ⟨hon.1, h.mode_off (by decide), h.mode_off (by decide), h.txRing⟩
    free := h.free
    inside := ⟨h.ring, h.buffers⟩
    apart := h.apart }

/-! ## Down and up again -/

/-- STOP, a new boardram with an init block, its address, INIT and STRT. -/
def restart (iaddr : BitVec 24) (ram : Boardram) (stack : Buf) (inea : Bool) : List Move :=
  writeCsr 0 CSR0.STOP ++ [.host ram stack] ++ initSequence iaddr (CSR0.INIT ||| ineaBit inea) ++
    [writeRdp (CSR0.STRT ||| ineaBit inea)]

/-- Every history can be ended with STOP. -/
theorem down_runs (W : Wiring) {s : Sys} (hs : Reached s.1) :
    tst (runMoves W (writeCsr 0 CSR0.STOP) s).1.csr0 CSR0.STOP = true := by
  have happly : runMoves W (writeCsr 0 CSR0.STOP) s =
      (wputCsr0 W.onInterrupt W.onTransmit CSR0.STOP { s.1 with rap := 0 }).exec s.2 :=
    apply_writeRdp W CSR0.STOP s.2 rfl
  have hcsr0 : Csr0Inv ({ s.1 with rap := 0 } : Daemon).csr0 := hs.csr0
  rw [happly]
  exact wputCsr0_stops W hcsr0 s.2

/-- A stopped card is brought up from a block in boardram. -/
theorem up_runs (W : Wiring) {d : Daemon} {iaddr : BitVec 24} (h : Reached (d.pointedAt iaddr))
    (hs : tst d.csr0 CSR0.STOP = true) (heven : iaddr.getLsbD 0 = false) (b : InitBlock) {w : World}
    {ram : Boardram} (hram : w.ram = ram.storeWords (iaddr.setWidth 15) b.words) (inea : Bool) :
    let s := runMoves W (pointSequence iaddr ++
      [writeRdp (CSR0.INIT ||| ineaBit inea), writeRdp (CSR0.STRT ||| ineaBit inea)]) (d, w)
    s.1.csr0 = startedCsr0 d.csr0 inea b.config.mode ∧ s.1.config = b.config ∧ s.1.rap = 0 ∧
      s.2.ram = w.ram := by
  have hstop : tst (d.pointedAt iaddr).csr0 CSR0.STOP = true := hs
  have hblock : Config.ofWords (blockWord w.ram (d.pointedAt iaddr).initBlock) = b.config := by
    rw [hram]
    exact blockWord_words b ram d heven
  obtain ⟨hcsr0, hconfig, hrap, hsame⟩ := started W h hstop rfl inea w hblock
  have hrun : runMoves W (pointSequence iaddr ++
      [writeRdp (CSR0.INIT ||| ineaBit inea), writeRdp (CSR0.STRT ||| ineaBit inea)]) (d, w) =
      initThenStart W inea (d.pointedAt iaddr, w) := by
    rw [runMoves_append, pointSequence_runs W iaddr w hs, initThenStart]
  dsimp only
  rw [hrun]
  exact ⟨hcsr0, hconfig, hrap, hsame.ram⟩

/-- Whatever happened before, the restarted card has the new configuration and
both engines on. -/
theorem restart_runs (W : Wiring) (fakemac macFakemac macRealmac : Mac) (w₀ : World)
    (moves : List Move) (b : InitBlock) {iaddr : BitVec 24} (heven : iaddr.getLsbD 0 = false)
    (ram : Boardram) (stack : Buf) (inea : Bool) :
    let s := runMoves W (moves ++ restart iaddr (ram.storeWords (iaddr.setWidth 15) b.words) stack
      inea) (registersReset (.bootWith fakemac macFakemac macRealmac), w₀)
    (∃ o, s.1.csr0 = startedCsr0 o inea b.config.mode) ∧ s.1.config = b.config ∧ s.1.rap = 0 ∧
      s.2.ram = ram.storeWords (iaddr.setWidth 15) b.words := by
  have hreached := reached_runMoves W fakemac macFakemac macRealmac w₀
  generalize (registersReset (.bootWith fakemac macFakemac macRealmac), w₀) = s₀ at hreached ⊢
  generalize hram : ram.storeWords (iaddr.setWidth 15) b.words = ram'
  obtain ⟨s₁, hs₁⟩ : ∃ s₁, runMoves W (moves ++ writeCsr 0 CSR0.STOP) s₀ = s₁ := ⟨_, rfl⟩
  have hdown : tst s₁.1.csr0 CSR0.STOP = true := by
    rw [← hs₁, runMoves_append]
    exact down_runs W (hreached moves)
  have hpointed : Reached (s₁.1.pointedAt iaddr) := by
    have hall := hreached (moves ++ writeCsr 0 CSR0.STOP ++
      ([.host ram' stack] ++ pointSequence iaddr))
    rw [runMoves_append, hs₁, runMoves_append] at hall
    have hpoint := pointSequence_runs W iaddr { s₁.2 with ram := ram', stack := stack } hdown
    rwa [show runMoves W [.host ram' stack] s₁ =
      (s₁.1, { s₁.2 with ram := ram', stack := stack }) from rfl, hpoint] at hall
  have hup := up_runs W hpointed hdown heven b
    (w := { s₁.2 with ram := ram', stack := stack }) hram.symm inea
  have hrun : runMoves W (moves ++ restart iaddr ram' stack inea) s₀ =
      runMoves W (pointSequence iaddr ++ [writeRdp (CSR0.INIT ||| ineaBit inea),
        writeRdp (CSR0.STRT ||| ineaBit inea)])
        (s₁.1, { s₁.2 with ram := ram', stack := stack }) := by
    simp only [restart, initSequence_eq, runMoves_append] at hs₁ ⊢
    rw [hs₁]
    rfl
  dsimp only at hup ⊢
  rw [hrun]
  exact ⟨⟨_, hup.1⟩, hup.2⟩

/-- After any history the driver restarts the card with a fresh layout. From
then on both rings are lossless queues, under every interleaving of the
driver, the daemon and the network. -/
theorem restart_full_duplex (W : Wiring) (fakemac macFakemac macRealmac : Mac) (w₀ : World)
    (moves : List Move) (b : InitBlock) (iaddr : BitVec 24) (ram : Boardram) (stack : Buf)
    (inea : Bool) (R : Set (BitVec 15)) (heven : iaddr.getLsbD 0 = false)
    (hlayout : Layout R b.config (ram.storeWords (iaddr.setWidth 15) b.words).mem)
    (s : Sys) (hs : s = runMoves W (moves ++ restart iaddr
      (ram.storeWords (iaddr.setWidth 15) b.words) stack inea)
      (registersReset (.bootWith fakemac macFakemac macRealmac), w₀))
    (steps : List DuplexStep)
    (hsteps : Watch (Duplex.step W) (Duplex.Legal R) (.start s.1 s.2) steps) :
    (Duplex.run W steps (.start s.1 s.2)).rx.IsFifo W.onInterrupt ∧
      (Duplex.run W steps (.start s.1 s.2)).tx.InOrder W.onInterrupt s.1 s.2 := by
  obtain ⟨⟨o, hcsr0⟩, hconfig, -, hram⟩ :=
    restart_runs W fakemac macFakemac macRealmac w₀ moves b heven ram stack inea
  rw [← hs] at hcsr0 hconfig hram
  rw [← hconfig, ← hram] at hlayout
  rw [← hconfig] at hcsr0
  exact (hlayout.ready hcsr0).queues W steps hsteps

/-- A block for the rings of `smallStationRam`. -/
def smallBlock : InitBlock where
  mode := 0#16
  mac := #v[0x00#8, 0x80#8, 0x10#8, 0x12#8, 0x34#8, 0x56#8]
  ladrf := 0#64
  rexp := 1#3
  rres := 0#5
  texp := 1#3
  tres := 0#5
  rdra := 0x000#24
  tdra := 0x100#24
  rdra_aligned := ⟨0, rfl⟩
  tdra_aligned := ⟨0x20, rfl⟩

theorem smallBlock_layout : Layout (block 0 0x100) smallBlock.config
    (smallStationRam.ram.storeWords 0x400 smallBlock.words).mem where
  mode := by decide +kernel
  rxRing := by decide +kernel
  txRing := by decide +kernel
  rxBuffers := ⟨by decide +kernel, by decide +kernel, by decide +kernel⟩
  armed := by decide +kernel
  free := by decide +kernel
  ring := block_subset (by decide +kernel)
  buffers i hi := by
    have hall : ∀ i < smallBlock.config.rlen.toNat,
        ((descAt (smallStationRam.ram.storeWords 0x400 smallBlock.words).mem
            smallBlock.config.rdra i).start - 0#15).toNat +
          (descAt (smallStationRam.ram.storeWords 0x400 smallBlock.words).mem
            smallBlock.config.rdra i).size ≤ 0x100 := by
      decide +kernel
    exact block_subset (hall i hi)
  apart := disjoint_block_iff.mpr (by decide +kernel)

/-- A card started on empty memory, which has missed a frame, is restarted. -/
theorem restart_full_duplex_small :
    let s := runMoves .null ([writeRdp (CSR0.INIT ||| CSR0.STRT), .op (.recv (fun _ => 0xFF) 20)] ++
        restart 0x400 (smallStationRam.ram.storeWords 0x400 smallBlock.words) (fun _ => 0) true)
      (registersReset (.bootWith smallBlock.mac smallBlock.mac smallBlock.mac), .blank)
    let e := Duplex.run .null
      [.tx (.commit 0x8300 0), .rx (.recv (fun _ => 0xFF) 20 fun _ => 0),
        .csr0 (CSR0.RINT ||| CSR0.TDMD ||| CSR0.INEA), .rx .take, .tx .reap] (.start s.1 s.2)
    e.rx.IsFifo .null ∧ e.tx.InOrder .null s.1 s.2 :=
  restart_full_duplex .null smallBlock.mac smallBlock.mac smallBlock.mac .blank _ smallBlock 0x400
    smallStationRam.ram (fun _ => 0) true (block 0 0x100) (by decide) smallBlock_layout _ rfl _
    (by decide +kernel)

end A2065
