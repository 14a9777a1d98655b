import A2065.Demand
import A2065.InterruptSettling
import A2065.Quiesce

/-!
# A demand that comes too early

The 68k hands over its descriptors in boardram and its demand through the
mailbox, and the demand may be there first. `do_transmit` then finds nothing,
and the mailbox daemon of `main_ddr3.cpp` tries again, once in each of the
next sixteen turns. Such a demand is as good as one made when the descriptors
are there, if that is within sixteen turns; after that the frame waits for
another demand.

The turns are those without other requests.
-/

namespace A2065

open Bits CyclicMem Circular

/-- No TX descriptor is ready. -/
def NoneReady (d : Daemon) (m : BitVec 15 → U8) : Prop :=
  ∀ i < d.amTdrTlen.toNat, readyAt m d.amTdrTdra i = false

theorem NoneReady.of_frame {d d' : Daemon} {m : BitVec 15 → U8} (h : NoneReady d m)
    (hf : RingFrame d d') : NoneReady d' m := by
  rw [NoneReady, hf.amTdrTlen, hf.amTdrTdra]
  exact h

/-! ## The demand -/

section Demand

variable {d : Daemon} {w : World} {v : U16}

/-- A write with TDMD, on an initialised chip whose transmitter is not
disabled, as a program. -/
theorem wputCsr0_demand_eq (W : Wiring) (hv : IsDemand v) (hd : TxEnabled d) :
    ∃ d₁, RingFrame d d₁ ∧ tst d₁.csr0 CSR0.TXON = true ∧
      wputCsr0 W.onInterrupt W.onTransmit v d = (do
        let d ← W.onTransmit d₁
        rethink W.onInterrupt (d.csr0Clr CSR0.TDMD)) := by
  obtain ⟨d₁, hcmd, hd₁⟩ := csr0Command_engines d.csr0 hv.stop hv.init d
  have hmerge : RingFrame d (d.setCsr 0 (csr0Merge d.csr0 v)) := (RingFrame.refl d).setCsr0 _
  have htdmd : (d.setCsr 0 (csr0Merge d.csr0 v)).csr0.getLsbD 3 = true := by
    have hbit := hv.tdmd
    simp only [CSR0.tst_bits] at hbit
    rw [Daemon.csr0_setCsr0, csr0Merge_command d.csr0 v 3 (by decide), hbit, Bool.or_true]
  have hframe : RingFrame d d₁ ∧ tst d₁.csr0 CSR0.TDMD = true := by
    simp only [CSR0.tst_bits]
    rcases hd₁ with rfl | rfl
    · exact ⟨hmerge, htdmd⟩
    · refine ⟨hmerge.trans (startEngines_frame _), ?_⟩
      rwa [(startEngines_csr0 _).2 3 (by decide) (by decide) (by decide)]
  obtain ⟨hf, hdemand⟩ := hframe
  refine ⟨if tst d₁.csr0 CSR0.TXON then d₁ else startEngines d₁, ?_, ?_, ?_⟩
  · split
    · exact hf
    · exact hf.trans (startEngines_frame _)
  · split
    · assumption
    · simp only [CSR0.tst_bits, startEngines_txon, hf.amMode, hd.dtx]
      simp
  · rw [wputCsr0, hcmd, pure_bind, csr0Demand, if_pos hdemand,
      if_pos (hf.amInitialized.trans hd.initialized), bind_assoc]
    rfl

/-- `assert_mbx_int` is all `rethink` may call. -/
theorem slots_rethink (d : Daemon) (w : World) :
    ((rethink mailbox.onInterrupt d).exec w).2.slots TDMD_RETRY = w.slots TDMD_RETRY ∧
      ((rethink mailbox.onInterrupt d).exec w).2.slots MBX_REQ_OFF = w.slots MBX_REQ_OFF := by
  have hassert : ∀ b ∈ [assertTrace], ∀ m : Nat → U64,
      (m TDMD_RETRY = w.slots TDMD_RETRY ∧ m MBX_REQ_OFF = w.slots MBX_REQ_OFF) →
      (b.foldl storeSlot m TDMD_RETRY = w.slots TDMD_RETRY ∧
        b.foldl storeSlot m MBX_REQ_OFF = w.slots MBX_REQ_OFF) := by
    intro b hb m hm
    obtain rfl := List.mem_singleton.mp hb
    exact hm
  have hcalls : (rethink mailbox.onInterrupt d).Traces (Calls [assertTrace]) :=
    rethink_traces (admits_calls _) (fun _ => assertMbxInt_calls (List.mem_singleton_self _)) d
  exact Calls.keep hassert hcalls ⟨rfl, rfl⟩

/-- A demand that finds nothing asks for sixteen retries. -/
theorem demand_schedules (hd : TxEnabled d) (hv : IsDemand v) (hnone : NoneReady d w.ram.mem) :
    let r := (chipWput mailbox.onInterrupt mailbox.onTransmit A2065_RDP_OFF v d).exec w
    RingFrame d r.1 ∧ tst r.1.csr0 CSR0.TXON = true ∧ SameMem w r.2 ∧
      r.2.slots TDMD_RETRY = 16 ∧ r.2.slots MBX_REQ_OFF = w.slots MBX_REQ_OFF := by
  obtain ⟨d₁, hf, hon, hprog⟩ := wputCsr0_demand_eq mailbox hv hd
  obtain ⟨o, -, hcall⟩ := doTransmit_none mailbox.onInterrupt (hnone.of_frame hf)
  set d₂ : Daemon := Daemon.csr0Clr { d₁ with tdrOffset := o } CSR0.TDMD with hd₂
  set w₁ : World := ((wr64 TDMD_RETRY 16).exec w).2 with hw₁
  have hexec : (chipWput mailbox.onInterrupt mailbox.onTransmit A2065_RDP_OFF v d).exec w =
      (rethink mailbox.onInterrupt d₂).exec w₁ := by
    rw [chipWput_csr0 _ _ _ hd.rap, hprog, DProg.exec_bind, Wiring.onTransmit, DProg.exec_bind,
      hcall]
    rfl
  obtain ⟨hval, hsame⟩ := rethink_exec mailbox.onInterrupt d₂ w₁
  obtain ⟨hretry, hreq⟩ := slots_rethink d₂ w₁
  rw [hexec]
  refine ⟨?_, ?_, ⟨hsame.ram, hsame.wire, hsame.stack⟩, ?_, ?_⟩
  · rw [hval]
    exact ((hf.cursors o d₁.rdrOffset d₁.transmitbuffer).setCsr0 _).setCsr0 _
  · simp only [CSR0.tst_bits] at hon ⊢
    rw [hval, Daemon.csr0_setCsr0, rethinkCsr0_getLsbD, if_neg (by decide), hd₂,
      Daemon.csr0_csr0Clr]
    simp only [CSR0.masks, getLsbD_and_not_twoPow]
    have hcsr0 : Daemon.csr0 { d₁ with tdrOffset := o } = d₁.csr0 := rfl
    rw [hcsr0, hon]
    rfl
  · rw [hretry, hw₁, slots_wr64]
  · rw [hreq, hw₁, slots_wr64_ne w (by decide)]

end Demand

/-! ## The retries -/

namespace Ddr3

/-- The loop is about to try again, and there is no other work for it. -/
structure Quiet (s : Ddr3) : Prop where
  main : s.main = .retry
  pending : s.pending = false
  deferred : s.deferred.isEmpty = true

/-- From one try to the next. -/
def cycle (s : Ddr3) : Ddr3 := { s.turn with main := .retry }

/-- The host changes boardram, then comes a try. -/
def attempt (s : Ddr3) (ram : Boardram) : Ddr3 := (s.step (.host ram s.w.stack)).cycle

/-- One call after the other, with boardram as each of them finds it. -/
def attempts (rams : List Boardram) (s : Ddr3) : Ddr3 := rams.foldl attempt s

section Cycle

variable {s : Ddr3}

theorem turn_of_retry (h : s.main = .retry) : s.turn = { refreshInt
    { holdOrWrite { s.retryTransmit with main := .hold } with main := .refresh } with
      main := .poll } := by
  obtain ⟨d, w, deferred, intRefresh, main⟩ := s
  obtain rfl : main = .retry := h
  rfl

/-- The steps of the loop from one try to the next. -/
theorem Quiet.steps (h : s.Quiet) : ∃ k ≤ 7, stepMain^[k] s = s.cycle := by
  have hidle : s.turn.Idle := Idle.turn (s := { s with main := .poll }) ⟨rfl, h.pending, h.deferred⟩
  have hretry : s.stepMain = { s.retryTransmit with main := .hold } := by
    simp only [stepMain, h.main]
  obtain ⟨k, hk, hhold⟩ := stepMain_hold { s.retryTransmit with main := .hold } rfl
  have hturn : stepMain^[k + 1 + 1] s = s.turn := by
    rw [Function.iterate_succ_apply, hretry, Function.iterate_succ_apply', hhold,
      turn_of_retry h.main]
    rfl
  have hdrain : stepMain { s.turn with main := .drain } = { s.turn with main := .retry } :=
    stepMain_drain rfl hidle.deferred
  refine ⟨k + 1 + 1 + 1 + 1, by omega, ?_⟩
  rw [Function.iterate_succ_apply', Function.iterate_succ_apply', hturn,
    stepMain_poll hidle.main hidle.pending, hdrain]
  rfl

theorem Quiet.cycle (h : s.Quiet) : s.cycle.Quiet := by
  have hidle : s.turn.Idle := Idle.turn (s := { s with main := .poll }) ⟨rfl, h.pending, h.deferred⟩
  exact ⟨rfl, hidle.pending, hidle.deferred⟩

theorem mem_put (s : Ddr3) (off : Nat) (v : U64) : SameMem s.w (s.put off v).w := ⟨rfl, rfl, rfl⟩

theorem mem_holdOrWrite (s : Ddr3) : SameMem s.w s.holdOrWrite.w := by
  unfold holdOrWrite
  split
  · exact s.mem_put _ _
  split <;> exact ⟨rfl, rfl, rfl⟩

theorem mem_refreshInt (s : Ddr3) : SameMem s.w s.refreshInt.w := by
  unfold refreshInt
  split
  · split <;> exact ⟨rfl, rfl, rfl⟩
  · exact ⟨rfl, rfl, rfl⟩

/-- Behind the try boardram and the wire are left alone. -/
theorem mem_cycle (h : s.main = .retry) : SameMem s.retryTransmit.w s.cycle.w := by
  have hhold := mem_holdOrWrite { s.retryTransmit with main := .hold }
  have hrefresh := mem_refreshInt
    { holdOrWrite { s.retryTransmit with main := .hold } with main := .refresh }
  have hturn : s.cycle.w = (refreshInt
      { holdOrWrite { s.retryTransmit with main := .hold } with main := .refresh }).w := by
    rw [cycle, turn_of_retry h]
  rw [hturn]
  exact ⟨hrefresh.ram.trans hhold.ram, hrefresh.wire.trans hhold.wire,
    hrefresh.stack.trans hhold.stack⟩

theorem frame_cycle (h : s.main = .retry) : Frame s.retryTransmit s.cycle := by
  have hframe := s.turn_frame
  obtain ⟨d, w, deferred, intRefresh, main⟩ := s
  obtain rfl : main = .retry := h
  exact ⟨hframe.d, hframe.deferred, hframe.req, hframe.retry⟩

/-- The counter is taken down before the call. -/
def counted (s : Ddr3) : Ddr3 := s.put TDMD_RETRY (s.tdmdRetry - 1)

theorem retryTransmit_on (hon : tst s.d.csr0 CSR0.TXON = true) (hcount : 0 < s.tdmdRetry) :
    s.retryTransmit = if s.counted.transmit.1 ≠ 0 then s.counted.transmit.2.put TDMD_RETRY 0
      else s.counted.transmit.2 := by
  rw [retryTransmit, if_pos hcount]
  exact if_pos hon

/-- A try with nothing to send moves the cursor at most. -/
theorem retryTransmit_none (hon : tst s.d.csr0 CSR0.TXON = true)
    (hnone : NoneReady s.d s.w.ram.mem) : ∃ o, s.retryTransmit.d = { s.d with tdrOffset := o } ∧
      SameMem s.w s.retryTransmit.w ∧ s.retryTransmit.tdmdRetry.toNat = s.tdmdRetry.toNat - 1 := by
  by_cases hcount : 0 < s.tdmdRetry
  · obtain ⟨o, -, hcall⟩ := doTransmit_none mailbox.onInterrupt (d := s.d) (w := s.counted.w) hnone
    have htransmit : s.counted.transmit =
        (0, { s.counted with d := { s.d with tdrOffset := o } }) :=
      congrArg (fun r : (Nat × Daemon) × World =>
        (r.1.1, ({ s.counted with d := r.1.2, w := r.2 } : Ddr3))) hcall
    rw [retryTransmit_on hon hcount, htransmit, if_neg (by simp)]
    refine ⟨o, rfl, ⟨rfl, rfl, rfl⟩, ?_⟩
    have hslot : tdmdRetry { s.counted with d := { s.d with tdrOffset := o } } =
        s.tdmdRetry - 1 := slots_wr64 s.w TDMD_RETRY _
    rw [hslot]
    bv_omega
  · have hzero : s.tdmdRetry.toNat = 0 := by bv_omega
    rw [retryTransmit, if_neg hcount, hzero]
    exact ⟨s.d.tdrOffset, rfl, ⟨rfl, rfl, rfl⟩, rfl⟩

/-- The call of a try that finds a frame. -/
theorem retryTransmit_some (hon : tst s.d.csr0 CSR0.TXON = true) (hcount : 0 < s.tdmdRetry)
    (hloop : tst s.d.amMode MODE.LOOP = false) (hready : ∃ i, StartsAt s.d s.w.ram.mem i) :
    let r := (doTransmit mailbox.onInterrupt s.d).exec s.counted.w
    r.1.1 = 1 ∧ s.retryTransmit.d = r.1.2 ∧ SameMem r.2 s.retryTransmit.w := by
  intro r
  obtain ⟨i, hi⟩ := hready
  have hstart : StartsAt s.d s.counted.w.ram.mem i := hi
  have hret : r.1.1 = 1 := (hstart.releases mailbox.onInterrupt hloop).2.2
  have htransmit : s.counted.transmit = (r.1.1, { s.counted with d := r.1.2, w := r.2 }) := rfl
  rw [retryTransmit_on hon hcount, htransmit, hret, if_pos (by simp)]
  exact ⟨rfl, rfl, rfl, rfl, rfl⟩

theorem retryTransmit_over (hcount : s.tdmdRetry.toNat = 0) : s.retryTransmit = s := by
  rw [retryTransmit, if_neg (by bv_omega)]

end Cycle

/-! ## A row of tries -/

section Attempts

variable {s : Ddr3} {ram : Boardram} {rams : List Boardram}

/-- `n` tries have found nothing. -/
structure Tried (n : Nat) (s e : Ddr3) : Prop where
  quiet : e.Quiet
  frame : RingFrame s.d e.d
  txon : tst e.d.csr0 CSR0.TXON = true
  wire : e.w.wire = s.w.wire
  count : e.tdmdRetry.toNat = s.tdmdRetry.toNat - n

/-- The host's store to boardram. -/
def hosted (s : Ddr3) (ram : Boardram) : Ddr3 := s.step (.host ram s.w.stack)

theorem Tried.attempt {n : Nat} {e : Ddr3} (h : Tried n s e) (hnone : NoneReady s.d ram.mem) :
    Tried (n + 1) s (e.attempt ram) := by
  have hquiet : (e.hosted ram).Quiet := ⟨h.quiet.main, h.quiet.pending, h.quiet.deferred⟩
  obtain ⟨o, hd, hmem, hcount⟩ := retryTransmit_none (s := e.hosted ram) h.txon
    (hnone.of_frame h.frame)
  have hframe := frame_cycle hquiet.main
  have hcycle := mem_cycle hquiet.main
  have hd' : (e.attempt ram).d = { e.d with tdrOffset := o } := hframe.d.trans hd
  constructor
  case quiet => exact hquiet.cycle
  case frame =>
    rw [hd']
    exact h.frame.cursors o e.d.rdrOffset e.d.transmitbuffer
  case txon =>
    rw [hd']
    exact h.txon
  case wire => exact (hcycle.wire.trans hmem.wire).trans h.wire
  case count =>
    have hretry : (e.attempt ram).tdmdRetry.toNat = e.tdmdRetry.toNat - 1 :=
      (congrArg BitVec.toNat hframe.retry).trans hcount
    rw [hretry, h.count]
    omega

theorem Tried.attempts {n : Nat} {e : Ddr3} (h : Tried n s e)
    (hnone : ∀ r ∈ rams, NoneReady s.d r.mem) :
    Tried (n + rams.length) s (e.attempts rams) := by
  induction rams generalizing n e with
  | nil => exact h
  | cons r rams ih =>
      have hnext := ih (h.attempt (hnone r List.mem_cons_self)) fun r' hr' =>
        hnone r' (List.mem_cons_of_mem r hr')
      rw [List.length_cons, Nat.add_comm rams.length 1, ← Nat.add_assoc]
      exact hnext

/-- When the tries are used up nothing is sent any more. -/
theorem attempts_over (hquiet : s.Quiet) (hcount : s.tdmdRetry.toNat = 0) (rams : List Boardram) :
    (s.attempts rams).d = s.d ∧ (s.attempts rams).w.wire = s.w.wire := by
  induction rams generalizing s with
  | nil => exact ⟨rfl, rfl⟩
  | cons r rams ih =>
      have hhost : (s.hosted r).Quiet := ⟨hquiet.main, hquiet.pending, hquiet.deferred⟩
      have hskip : (s.hosted r).retryTransmit = s.hosted r := retryTransmit_over hcount
      have hframe := frame_cycle hhost.main
      have hmem := mem_cycle hhost.main
      rw [hskip] at hframe hmem
      have hzero : (s.attempt r).tdmdRetry.toNat = 0 :=
        (congrArg BitVec.toNat hframe.retry).trans hcount
      obtain ⟨hd, hwire⟩ := ih hhost.cycle hzero
      exact ⟨hd.trans hframe.d, hwire.trans hmem.wire⟩

/-- A try that finds a frame is a call of `do_transmit`. -/
theorem Tried.attempt_some {n : Nat} {e : Ddr3} (h : Tried n s e) (hn : n < s.tdmdRetry.toNat)
    (hloop : tst s.d.amMode MODE.LOOP = false)
    (hring : ringAccepted s.d.amTdrTdra s.d.amTdrTlen = true)
    (hready : ∃ i < s.d.amTdrTlen.toNat, readyAt ram.mem s.d.amTdrTdra i = true) :
    ∃ w₁ : World, w₁.ram = ram ∧ w₁.wire = s.w.wire ∧
      ((doTransmit mailbox.onInterrupt e.d).exec w₁).1.1 = 1 ∧
      (e.attempt ram).d = ((doTransmit mailbox.onInterrupt e.d).exec w₁).1.2 ∧
      SameMem ((doTransmit mailbox.onInterrupt e.d).exec w₁).2 (e.attempt ram).w := by
  have hquiet : (e.hosted ram).Quiet := ⟨h.quiet.main, h.quiet.pending, h.quiet.deferred⟩
  have hcount : 0 < (e.hosted ram).tdmdRetry := by
    have hleft : (e.hosted ram).tdmdRetry.toNat = s.tdmdRetry.toNat - n := h.count
    bv_omega
  have hstart : ∃ i, StartsAt (e.hosted ram).d (e.hosted ram).w.ram.mem i := by
    refine exists_startsAt_iff.mpr ⟨h.txon, ?_, ?_⟩
    · show ringAccepted e.d.amTdrTdra e.d.amTdrTlen = true
      rw [h.frame.amTdrTdra, h.frame.amTdrTlen]
      exact hring
    · show ∃ i < e.d.amTdrTlen.toNat, readyAt ram.mem e.d.amTdrTdra i = true
      rw [h.frame.amTdrTdra, h.frame.amTdrTlen]
      exact hready
  have hloop' : tst (e.hosted ram).d.amMode MODE.LOOP = false := by
    show tst e.d.amMode MODE.LOOP = false
    rw [h.frame.amMode]
    exact hloop
  obtain ⟨hret, hd, hmem⟩ := retryTransmit_some (s := e.hosted ram) h.txon hcount hloop' hstart
  have hframe := frame_cycle hquiet.main
  have hcycle := mem_cycle hquiet.main
  refine ⟨(e.hosted ram).counted.w, rfl, h.wire, hret, hframe.d.trans hd, ?_⟩
  exact ⟨hcycle.ram.trans hmem.ram, hcycle.wire.trans hmem.wire, hcycle.stack.trans hmem.stack⟩

/-- What the end of a register write keeps. -/
structure Written (s e : Ddr3) : Prop where
  d : e.d = s.d
  mem : SameMem s.w e.w
  deferred : e.deferred = s.deferred
  req : e.w.slots MBX_REQ_OFF = s.w.slots MBX_REQ_OFF
  retry : e.tdmdRetry = s.tdmdRetry

theorem written_afterWrite (s : Ddr3) (doInitDelay intCleared : Bool) :
    Written s (s.afterWrite doInitDelay intCleared) := by
  refine afterWrite_keep (P := Written s) (fun e he => ?_) (fun e he => ?_) doInitDelay intCleared
    ⟨rfl, ⟨rfl, rfl, rfl⟩, rfl, rfl, rfl⟩
  · exact ⟨he.d, ⟨he.mem.ram, he.mem.wire, he.mem.stack⟩, he.deferred, he.req, he.retry⟩
  · exact ⟨he.d, ⟨he.mem.ram, he.mem.wire, he.mem.stack⟩, he.deferred, he.req, he.retry⟩

/-- A demand is in hand that finds nothing: it is written, and the loop comes
to its first try. -/
theorem demand_taken {req : U64} (hmain : s.main = .apply req) (hpending : s.pending = false)
    (hdeferred : s.deferred.isEmpty = true) (haddr : reqAddr req = A2065_RDP_OFF)
    (hv : IsDemand (reqData req)) (hd : TxEnabled s.d) (hnone : NoneReady s.d s.w.ram.mem) :
    let e := stepMain^[3] s
    RingFrame s.d e.d ∧ e.w.wire = s.w.wire ∧ e.tdmdRetry.toNat = 16 ∧ Tried 0 e e := by
  obtain ⟨hframe, hon, hmem, hretry, hreq⟩ := demand_schedules hd hv hnone
  set m : Ddr3 := s.make (.wput A2065_RDP_OFF (reqData req)) with hm
  have hwrite : ∃ b₁ b₂, s.stepMain = { m with main := .settle b₁ b₂ } := by
    simp only [stepMain, hmain, haddr]
    exact ⟨_, _, rfl⟩
  obtain ⟨b₁, b₂, hwrite⟩ := hwrite
  have hafter := written_afterWrite { m with main := .settle b₁ b₂ } b₁ b₂
  have hsettle : stepMain { m with main := .settle b₁ b₂ } =
      { afterWrite b₁ b₂ { m with main := .settle b₁ b₂ } with main := .drain } := rfl
  have hempty : (afterWrite b₁ b₂ { m with main := .settle b₁ b₂ }).deferred.isEmpty = true := by
    rw [hafter.deferred]
    exact hdeferred
  have hdrain : stepMain
        { afterWrite b₁ b₂ { m with main := .settle b₁ b₂ } with main := .drain } =
      { afterWrite b₁ b₂ { m with main := .settle b₁ b₂ } with main := .retry } :=
    stepMain_drain rfl hempty
  have hend : stepMain^[3] s =
      { afterWrite b₁ b₂ { m with main := .settle b₁ b₂ } with main := .retry } := by
    rw [Function.iterate_succ_apply, hwrite, Function.iterate_succ_apply, hsettle]
    exact hdrain
  rw [hend]
  have hd' : (afterWrite b₁ b₂ { m with main := .settle b₁ b₂ }).d = m.d := hafter.d
  have hcount : (afterWrite b₁ b₂ { m with main := .settle b₁ b₂ }).tdmdRetry = 16 :=
    hafter.retry.trans hretry
  refine ⟨?_, hafter.mem.wire.trans hmem.wire, ?_, ⟨rfl, ?_, hempty⟩, .refl _, ?_, rfl, rfl⟩
  · rw [hd']
    exact hframe
  · exact congrArg BitVec.toNat hcount
  · have hslot := hafter.req.trans hreq
    show tst ((afterWrite b₁ b₂ { m with main := .settle b₁ b₂ }).w.slots MBX_REQ_OFF) _ = false
    rw [hslot]
    exact hpending
  · rw [hd']
    exact hon

end Attempts

end Ddr3

/-- A demand for which no descriptor is ready yet, taken from the mailbox:
`rams` are the contents of boardram at the tries that follow, seven steps of
the loop apart at most. If a descriptor is ready at one of the next sixteen
tries, that try is a call of `do_transmit` with nothing but the cursor changed
since; after sixteen tries with none ready nothing is sent any more. -/
theorem early_demand (s : Ddr3) (req : U64) (hmain : s.main = .apply req)
    (hpending : s.pending = false) (hdeferred : s.deferred.isEmpty = true)
    (haddr : reqAddr req = A2065_RDP_OFF) (hv : IsDemand (reqData req)) (hd : TxEnabled s.d)
    (hring : ringAccepted s.d.amTdrTdra s.d.amTdrTlen = true)
    (hnone : NoneReady s.d s.w.ram.mem) (rams : List Boardram)
    (hrams : ∀ r ∈ rams, NoneReady s.d r.mem) :
    let e := (Ddr3.stepMain^[3] s).attempts rams
    (∀ ram : Boardram, ∃ k ≤ 7,
      Ddr3.stepMain^[k] (e.step (.host ram e.w.stack)) = e.attempt ram) ∧
    (rams.length < 16 → ∀ ram : Boardram,
      (∃ i < s.d.amTdrTlen.toNat, readyAt ram.mem s.d.amTdrTdra i = true) →
      RingFrame s.d e.d ∧ ∃ w₁ : World, w₁.ram = ram ∧ w₁.wire = s.w.wire ∧
        ((doTransmit mailbox.onInterrupt e.d).exec w₁).1.1 = 1 ∧
        (e.attempt ram).d = ((doTransmit mailbox.onInterrupt e.d).exec w₁).1.2 ∧
        SameMem ((doTransmit mailbox.onInterrupt e.d).exec w₁).2 (e.attempt ram).w) ∧
    (16 ≤ rams.length → ∀ later : List Boardram,
      (e.attempts later).d = e.d ∧ (e.attempts later).w.wire = s.w.wire) := by
  intro e
  obtain ⟨hframe, hwire, hcount, htried⟩ :=
    Ddr3.demand_taken hmain hpending hdeferred haddr hv hd hnone
  have hend : Ddr3.Tried rams.length (Ddr3.stepMain^[3] s) e := by
    have h := htried.attempts fun r hr => (hrams r hr).of_frame hframe
    rwa [Nat.zero_add] at h
  refine ⟨fun ram => ?_, fun hlt ram hready => ?_, fun hle later => ?_⟩
  · have hquiet : (e.step (.host ram e.w.stack)).Quiet :=
      ⟨hend.quiet.main, hend.quiet.pending, hend.quiet.deferred⟩
    exact hquiet.steps
  · rw [← hframe.amTdrTdra, ← hframe.amTdrTlen] at hring hready
    obtain ⟨w₁, hram, hwire₁, hret, hres, hmem⟩ := hend.attempt_some (by omega)
      (by rw [hframe.amMode]; exact hd.loop) hring hready
    exact ⟨hframe.trans hend.frame, w₁, hram, hwire₁.trans hwire, hret, hres, hmem⟩
  · have hzero : e.tdmdRetry.toNat = 0 := by
      rw [hend.count, hcount]
      omega
    obtain ⟨hsame, hstill⟩ := Ddr3.attempts_over hend.quiet hzero later
    exact ⟨hsame, hstill.trans (hend.wire.trans hwire)⟩

/-- TDMD has been taken from the mailbox, for a ring without a frame. -/
def demandInHand : Ddr3 where
  d := demandDaemon
  w := demandWorld 0 0
  deferred := (Mailbox.start demandDaemon (demandWorld 0 0)).deferred
  intRefresh := 0
  main := .apply 0x2003#64

/-- The frame is there at the third try. -/
theorem early_demand_third :
    let e := (Ddr3.stepMain^[3] demandInHand).attempts (.replicate 2 (demandWorld 0 0).ram)
    ∃ w₁ : World, w₁.ram = (demandWorld 0x8300 0).ram ∧
      ((doTransmit mailbox.onInterrupt e.d).exec w₁).1.1 = 1 := by
  have hnone : NoneReady demandDaemon (demandWorld 0 0).ram.mem := by
    unfold NoneReady
    decide +kernel
  have hrams : ∀ r ∈ List.replicate 2 (demandWorld 0 0).ram, NoneReady demandDaemon r.mem := by
    intro r hr
    rw [List.eq_of_mem_replicate hr]
    exact hnone
  obtain ⟨-, hsome, -⟩ := early_demand demandInHand 0x2003 rfl (by decide) (by decide) (by decide)
    ⟨by decide, by decide, by decide⟩ demandDaemon_enabled (by decide) hnone
    (.replicate 2 (demandWorld 0 0).ram) hrams
  obtain ⟨-, w₁, hram, -, hret, -⟩ := hsome (by decide) (demandWorld 0x8300 0).ram
    ⟨0, by decide, by decide +kernel⟩
  exact ⟨w₁, hram, hret⟩

end A2065
