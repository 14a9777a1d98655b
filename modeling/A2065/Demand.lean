import A2065.Commands
import A2065.MacBytes
import A2065.MainDoorbell
import A2065.TransmitQueue

/-!
# Transmit demand

A write of TDMD calls `do_transmit` once, and one call takes one frame. A
queue of several frames is therefore not emptied by one demand, and
`main_doorbell` makes no other calls.
-/

namespace A2065

open Bits CyclicMem Circular

/-! ## From the register write to do_transmit -/

theorem startEngines_tdrOffset (d : Daemon) : (startEngines d).tdrOffset = d.tdrOffset := by
  unfold startEngines
  simp only
  split <;> split <;> rfl

/-- Without STOP and INIT the command bits can only start the engines. -/
theorem csr0Command_engines (oreg : U16) {v : U16} (hstop : tst v CSR0.STOP = false)
    (hinit : tst v CSR0.INIT = false) (d : Daemon) :
    ∃ d₁, csr0Command oreg (d.setCsr 0 (csr0Merge oreg v)) = pure d₁ ∧
      (d₁ = d.setCsr 0 (csr0Merge oreg v) ∨ d₁ = startEngines (d.setCsr 0 (csr0Merge oreg v))) := by
  set d' := d.setCsr 0 (csr0Merge oreg v) with hd'
  have hbit : ∀ i < 4, d'.csr0.getLsbD i = (oreg.getLsbD i || v.getLsbD i) := by
    intro i hi
    rw [hd', Daemon.csr0_setCsr0]
    exact csr0Merge_command oreg v i hi
  simp only [CSR0.tst_bits] at hstop hinit
  have hnostop : ¬ (tst d'.csr0 CSR0.STOP = true ∧ ¬ tst oreg CSR0.STOP = true) := by
    simp only [CSR0.tst_bits, hbit 2 (by decide), hstop, Bool.or_false]
    exact fun h => h.2 h.1
  have hnoinit : ¬ (tst d'.csr0 CSR0.INIT = true ∧ ¬ tst oreg CSR0.INIT = true) := by
    simp only [CSR0.tst_bits, hbit 0 (by decide), hinit, Bool.or_false]
    exact fun h => h.2 h.1
  have hkept : (startEngines d').csr0.getLsbD 0 = d'.csr0.getLsbD 0 :=
    (startEngines_csr0 d').2 0 (by decide) (by decide) (by decide)
  unfold csr0Command
  rw [if_neg hnostop]
  split
  · dsimp only
    rw [if_neg]
    · exact ⟨_, rfl, .inr rfl⟩
    · simp only [CSR0.tst_bits] at hnoinit ⊢
      rwa [hkept]
  · rw [if_neg fun h => hnoinit ⟨h.1, h.2.1⟩]
    exact ⟨_, rfl, .inl rfl⟩

/-- A write with TDMD, on an initialised chip whose transmitter is not
disabled, is one call of `do_transmit`, as far as boardram and the wire go. -/
theorem wputCsr0_transmits (W : Wiring) {v : U16} {d : Daemon} (hv : tst v CSR0.TDMD = true)
    (hstop : tst v CSR0.STOP = false) (hinit : tst v CSR0.INIT = false)
    (hinitialized : d.amInitialized = true) (hdtx : tst d.amMode MODE.DTX = false) (w : World) :
    ∃ d₁, RingFrame d d₁ ∧ d₁.tdrOffset = d.tdrOffset ∧ tst d₁.csr0 CSR0.TXON = true ∧
      SameMem ((doTransmit W.onInterrupt d₁).exec w).2
        ((wputCsr0 W.onInterrupt W.onTransmit v d).exec w).2 := by
  obtain ⟨d₁, hcmd, hd₁⟩ := csr0Command_engines d.csr0 hstop hinit d
  have hmerge : RingFrame d (d.setCsr 0 (csr0Merge d.csr0 v)) := (RingFrame.refl d).setCsr0 _
  have htdmd : (d.setCsr 0 (csr0Merge d.csr0 v)).csr0.getLsbD 3 = true := by
    simp only [CSR0.tst_bits] at hv
    rw [Daemon.csr0_setCsr0, csr0Merge_command d.csr0 v 3 (by decide), hv, Bool.or_true]
  -- the command keeps the configuration, the cursor and TDMD
  have hframe : RingFrame d d₁ ∧ d₁.tdrOffset = d.tdrOffset ∧ d₁.csr0.getLsbD 3 = true := by
    rcases hd₁ with rfl | rfl
    · exact ⟨hmerge, rfl, htdmd⟩
    · refine ⟨hmerge.trans (startEngines_frame _), startEngines_tdrOffset _, ?_⟩
      rwa [(startEngines_csr0 _).2 3 (by decide) (by decide) (by decide)]
  obtain ⟨hf, hoffset, hdemand⟩ := hframe
  set dT : Daemon := if tst d₁.csr0 CSR0.TXON then d₁ else startEngines d₁ with hdT
  have hon : RingFrame d dT ∧ dT.tdrOffset = d.tdrOffset ∧ tst dT.csr0 CSR0.TXON = true := by
    rw [hdT]
    split
    · rename_i h
      exact ⟨hf, hoffset, h⟩
    · refine ⟨hf.trans (startEngines_frame _), (startEngines_tdrOffset _).trans hoffset, ?_⟩
      simp only [CSR0.tst_bits, startEngines_txon, hf.amMode, hdtx]
      simp
  refine ⟨dT, hon.1, hon.2.1, hon.2.2, ?_⟩
  have htst : tst d₁.csr0 CSR0.TDMD = true := by
    simp only [CSR0.tst_bits]
    exact hdemand
  have hprog : wputCsr0 W.onInterrupt W.onTransmit v d = (do
      let d ← W.onTransmit dT
      rethink W.onInterrupt (d.csr0Clr CSR0.TDMD)) := by
    rw [wputCsr0, hcmd, pure_bind, csr0Demand, if_pos htst,
      if_pos (hf.amInitialized.trans hinitialized), ← hdT, bind_assoc]
    rfl
  rw [hprog]
  simp only [DProg.exec_pure, DProg.exec_bind, Wiring.onTransmit]
  -- what follows the call are signals
  generalize (doTransmit W.onInterrupt dT).exec w = r
  have hafter := signals_exec ((W.afterTransmit r.1.1).signals r.1.2) r.2
  have hrethink := (rethink_exec W.onInterrupt (r.1.2.csr0Clr CSR0.TDMD)
    (((W.afterTransmit r.1.1).call r.1.2).exec r.2).2).2
  exact ⟨hrethink.ram.trans hafter.ram, hrethink.wire.trans hafter.wire,
    hrethink.stack.trans hafter.stack⟩

/-! ## The queue -/

/-- From `tdr_offset` on the ring holds the frames `q`, over `fill`
descriptors, and no other descriptor is ready. -/
structure Backlog (d : Daemon) (m : BitVec 15 → U8) (fill : Nat) (q : List TxFrame) : Prop where
  laid : Laid m d.amTdrTdra d.amTdrTlen.toNat d.tdrOffset.toNat 0 fill q
  fits : fill ≤ d.amTdrTlen.toNat
  free : ∀ c, fill ≤ c → c < d.amTdrTlen.toNat →
    readyAt m d.amTdrTdra (slot d.amTdrTlen.toNat d.tdrOffset.toNat c) = false

/-- No descriptor is ready any more, and the frames were taken in ring order. -/
structure Drained (d : Daemon) (w : World) (q : List TxFrame) (w' : World) : Prop where
  none : ∀ i < d.amTdrTlen.toNat, readyAt w'.ram.mem d.amTdrTdra i = false
  processed : ∃ log : List TxOutcome, List.Forall₂ (Processed d) q log ∧
    w'.wire = w.wire ++ log.flatMap TxOutcome.sent ∧
    ∀ o ∈ log, o.last = descAt w'.ram.mem d.amTdrTdra o.place

/-- The chip is initialised, with the transmitter enabled and neither loopback
nor forced collisions, and CSR0 is selected. -/
structure TxEnabled (d : Daemon) : Prop where
  rap : d.rap = 0
  initialized : d.amInitialized = true
  dtx : tst d.amMode MODE.DTX = false
  loop : tst d.amMode MODE.LOOP = false
  coll : tst d.amMode MODE.COLL = false

/-- A demand, without STOP or INIT in the same value. -/
structure IsDemand (v : U16) : Prop where
  tdmd : tst v CSR0.TDMD = true
  stop : tst v CSR0.STOP = false
  init : tst v CSR0.INIT = false

section Drain

variable (W : Wiring) {d : Daemon} {w : World} {v : U16} {fill : Nat} {q : List TxFrame}

/-- Boardram and the wire after the write. -/
theorem demand_exec (hd : TxEnabled d) (hv : IsDemand v) :
    ∃ d₁, RingFrame d d₁ ∧ d₁.tdrOffset = d.tdrOffset ∧ tst d₁.csr0 CSR0.TXON = true ∧
      SameMem ((doTransmit W.onInterrupt d₁).exec w).2
        ((chipWput W.onInterrupt W.onTransmit A2065_RDP_OFF v d).exec w).2 := by
  rw [chipWput_csr0 _ _ _ hd.rap]
  exact wputCsr0_transmits W hv.tdmd hv.stop hv.init hd.initialized hd.dtx w

theorem Backlog.inv {d₁ : Daemon} (h : Backlog d w.ram.mem fill q) (hd : TxEnabled d)
    (hf : RingFrame d d₁) (hoffset : d₁.tdrOffset = d.tdrOffset)
    (hon : tst d₁.csr0 CSR0.TXON = true)
    (hring : ringAccepted d.amTdrTdra d.amTdrTlen = true) :
    TxLink.Inv d w ⟨d₁, w, d.tdrOffset.toNat, fill, 0, q, []⟩ 0 [] q := by
  have htdra := hf.amTdrTdra
  have htlen := hf.amTdrTlen
  refine ⟨⟨hon, ?_, ?_, ?_⟩, hf, ?_, Nat.le_refl 0, ?_, ?_, ?_, rfl, .nil, ?_⟩
  · rw [hf.amMode]
    exact hd.loop
  · rw [hf.amMode]
    exact hd.coll
  · rw [htdra, htlen]
    exact hring
  · dsimp only [TxLink.tlen]
    rw [hoffset, BitVec.toNat_umod]
    rfl
  · dsimp only [TxLink.tlen]
    rw [htlen, Nat.zero_add]
    exact h.fits
  · dsimp only [TxLink.tlen, TxLink.tdra]
    rw [htlen, htdra]
    exact h.laid
  · dsimp only [TxLink.tlen, TxLink.tdra]
    rw [htlen, htdra, Nat.zero_add]
    exact h.free
  · exact (List.append_nil _).symm

/-- An empty queue is drained. -/
theorem Backlog.drained_nil (h : Backlog d w.ram.mem fill []) (hd : TxEnabled d)
    (hv : IsDemand v) :
    Drained d w [] ((chipWput W.onInterrupt W.onTransmit A2065_RDP_OFF v d).exec w).2 := by
  obtain ⟨d₁, hf, -, -, hsame⟩ := demand_exec W (w := w) hd hv
  have hnone : ∀ i < d.amTdrTlen.toNat, readyAt w.ram.mem d.amTdrTdra i = false := by
    intro i hi
    obtain ⟨k, hk, rfl⟩ := exists_slot hi d.tdrOffset.toNat
    have hfill : 0 = fill := h.laid
    exact h.free k (by omega) hk
  obtain ⟨o, -, hexec⟩ := doTransmit_none W.onInterrupt (d := d₁) (w := w)
    (by rw [hf.amTdrTlen, hf.amTdrTdra]; exact hnone)
  rw [hexec] at hsame
  refine ⟨?_, [], .nil, ?_, ?_⟩
  · rw [hsame.ram]
    exact hnone
  · rw [hsame.wire]
    exact (List.append_nil _).symm
  · intro o ho
    cases ho

/-- On a ring that the guards reject nothing is taken. -/
theorem Backlog.not_drained_rejected {f : TxFrame} (h : Backlog d w.ram.mem fill (f :: q))
    (hd : TxEnabled d) (hv : IsDemand v)
    (hring : ringAccepted d.amTdrTdra d.amTdrTlen = false) {q' : List TxFrame} :
    ¬ Drained d w q' ((chipWput W.onInterrupt W.onTransmit A2065_RDP_OFF v d).exec w).2 := by
  obtain ⟨d₁, hf, -, hon, hsame⟩ := demand_exec W (w := w) hd hv
  have hexec : (doTransmit W.onInterrupt d₁).exec w = ((0, d₁), w) := by
    unfold doTransmit
    rw [if_neg (not_not.mpr hon), if_pos (by rw [hf.amTdrTdra, hf.amTdrTlen]; simp [hring])]
    rfl
  obtain ⟨more, hcomplete, -, hq⟩ := h.laid
  have hle := hq.le
  have hfits := h.fits
  intro hdrained
  have hnone := hdrained.none _ (slot_lt (by omega) (d.tdrOffset.toNat + 0) 0)
  rw [hsame.ram, hexec, hcomplete.ready] at hnone
  exact absurd hnone (by decide)

/-- One frame is taken, and that is all. -/
theorem Backlog.taken_one {f : TxFrame} (h : Backlog d w.ram.mem fill (f :: q))
    (hd : TxEnabled d) (hv : IsDemand v)
    (hring : ringAccepted d.amTdrTdra d.amTdrTlen = true) :
    ∃ (s : TxLink) (done : Nat), TxLink.Inv d w s done [f] q ∧ s.tlen = d.amTdrTlen.toNat ∧
      s.tdra = d.amTdrTdra ∧
      SameMem s.w ((chipWput W.onInterrupt W.onTransmit A2065_RDP_OFF v d).exec w).2 ∧
      ∀ o ∈ s.log, o.last = descAt s.w.ram.mem d.amTdrTdra o.place := by
  obtain ⟨d₁, hf, hoffset, hon, hsame⟩ := demand_exec W (w := w) hd hv
  have hinv := h.inv hd hf hoffset hon hring
  obtain ⟨htaken, done, hinv'⟩ := hinv.call_busy W.onInterrupt
  refine ⟨_, done, hinv', ?_, ?_, hsame, ?_⟩
  · exact congrArg BitVec.toNat hinv'.frame.amTdrTlen
  · exact hinv'.frame.amTdrTdra
  · intro o ho
    rw [TxLink.after, if_pos htaken, List.nil_append, List.mem_singleton] at ho
    rw [ho, TxLink.outcome, ← hf.amTdrTdra]
    rfl

/-- A single frame is drained. -/
theorem Backlog.drained_one {f : TxFrame} (h : Backlog d w.ram.mem fill [f]) (hd : TxEnabled d)
    (hv : IsDemand v) (hring : ringAccepted d.amTdrTdra d.amTdrTlen = true) :
    Drained d w [f] ((chipWput W.onInterrupt W.onTransmit A2065_RDP_OFF v d).exec w).2 := by
  obtain ⟨s, done, hinv, htlen, htdra, hsame, hlast⟩ := h.taken_one W hd hv hring
  refine ⟨?_, s.log, hinv.processed, ?_, ?_⟩
  · intro i hi
    have hnone := hinv.none_ready (by rwa [htlen])
    rwa [← htdra, hsame.ram]
  · rw [hsame.wire]
    exact hinv.wire
  · rw [hsame.ram]
    exact hlast

/-- Of several frames the second is still there. -/
theorem Backlog.not_drained_more {f g : TxFrame} (h : Backlog d w.ram.mem fill (f :: g :: q))
    (hd : TxEnabled d) (hv : IsDemand v)
    (hring : ringAccepted d.amTdrTdra d.amTdrTlen = true) {q' : List TxFrame} :
    ¬ Drained d w q' ((chipWput W.onInterrupt W.onTransmit A2065_RDP_OFF v d).exec w).2 := by
  obtain ⟨s, done, hinv, htlen, htdra, hsame, -⟩ := h.taken_one W hd hv hring
  obtain ⟨i, hi, hready⟩ := hinv.some_ready
  intro hdrained
  have hnone := hdrained.none i (htlen ▸ hi)
  rw [hsame.ram, ← htdra, hready] at hnone
  exact absurd hnone (by decide)

end Drain

/-- In every state with the transmitter enabled and any number of complete
frames queued: a demand drains the ring exactly when there is no frame, or
one and the ring is one that `do_transmit` accepts. -/
theorem demand_drains_iff (W : Wiring) (d : Daemon) (w : World) (v : U16) (fill : Nat)
    (q : List TxFrame) (hd : TxEnabled d) (hv : IsDemand v) (h : Backlog d w.ram.mem fill q) :
    Drained d w q ((chipWput W.onInterrupt W.onTransmit A2065_RDP_OFF v d).exec w).2 ↔
      (q.length = 0 ∨ q.length = 1 ∧ ringAccepted d.amTdrTdra d.amTdrTlen = true) := by
  cases q with
  | nil => exact iff_of_true (h.drained_nil W hd hv) (.inl rfl)
  | cons f q =>
      by_cases hring : ringAccepted d.amTdrTdra d.amTdrTlen = true
      case neg =>
        have hrejected := Bool.eq_false_of_not_eq_true hring
        refine iff_of_false (h.not_drained_rejected W hd hv hrejected) ?_
        rintro (hlen | ⟨-, hacc⟩)
        · exact absurd hlen (Nat.succ_ne_zero _)
        · exact hring hacc
      cases q with
      | nil => exact iff_of_true (h.drained_one W hd hv hring) (.inr ⟨rfl, hring⟩)
      | cons g q =>
          refine iff_of_false (h.not_drained_more W hd hv hring) ?_
          simp

/-- Four TX descriptors at 0x40, and the transmitter enabled. -/
def demandDaemon : Daemon :=
  { (registersReset (.bootWith someFakemac someFakemac someRealmac)).setCsr 0
      (CSR0.TXON ||| CSR0.STRT ||| CSR0.INIT) with
    amInitialized := true
    amTdrTdra := 0x40
    amTdrTlen := 4 }

/-- Two descriptors with the given TMD1, and a frame of 64 bytes at 0x100. -/
def demandWorld (first second : U16) : World :=
  .holding [(0x40, 0x100), (0x42, first), (0x44, 0xFFC0), (0x48, 0x100), (0x4A, second),
    (0x4C, 0xFFC0), (0x100, 0xFFFF)]

theorem demandDaemon_enabled : TxEnabled demandDaemon := by
  constructor <;> decide

theorem demand_drains_one : Drained demandDaemon (demandWorld 0x8300 0)
    [frameFrom (demandWorld 0x8300 0).ram.mem 0x40 4 0 0]
    ((chipWput doorbell.onInterrupt doorbell.onTransmit A2065_RDP_OFF CSR0.TDMD demandDaemon).exec
      (demandWorld 0x8300 0)).2 :=
  (demand_drains_iff doorbell demandDaemon (demandWorld 0x8300 0) CSR0.TDMD 1
    [frameFrom (demandWorld 0x8300 0).ram.mem 0x40 4 0 0] demandDaemon_enabled
    ⟨by decide, by decide, by decide⟩
    ⟨⟨0, by decide +kernel, rfl, rfl⟩, by decide, by decide +kernel⟩).mpr
      (.inr ⟨rfl, by decide +kernel⟩)

/-- Two frames, one demand: the second frame is left. -/
theorem demand_leaves_frame : TxEnabled demandDaemon ∧ IsDemand CSR0.TDMD ∧
    Backlog demandDaemon (demandWorld 0x8300 0x8300).ram.mem 2
      [frameFrom (demandWorld 0x8300 0x8300).ram.mem 0x40 4 0 0,
        frameFrom (demandWorld 0x8300 0x8300).ram.mem 0x40 4 1 0] ∧
    ¬ Drained demandDaemon (demandWorld 0x8300 0x8300)
      [frameFrom (demandWorld 0x8300 0x8300).ram.mem 0x40 4 0 0,
        frameFrom (demandWorld 0x8300 0x8300).ram.mem 0x40 4 1 0]
      ((chipWput doorbell.onInterrupt doorbell.onTransmit A2065_RDP_OFF CSR0.TDMD
        demandDaemon).exec (demandWorld 0x8300 0x8300)).2 := by
  have hv : IsDemand CSR0.TDMD := ⟨by decide, by decide, by decide⟩
  have hbacklog : Backlog demandDaemon (demandWorld 0x8300 0x8300).ram.mem 2
      [frameFrom (demandWorld 0x8300 0x8300).ram.mem 0x40 4 0 0,
        frameFrom (demandWorld 0x8300 0x8300).ram.mem 0x40 4 1 0] :=
    ⟨⟨0, by decide +kernel, rfl, 0, by decide +kernel, rfl, rfl⟩, by decide, by decide +kernel⟩
  exact ⟨demandDaemon_enabled, hv, hbacklog,
    hbacklog.not_drained_more doorbell demandDaemon_enabled hv (by decide +kernel)⟩

end A2065
