import A2065.Bridge
import A2065.Commands
import A2065.CsrInvariant
import A2065.Exec

/-!
# The local register file

`a2065_registers.v` with `BRIDGE_LOCAL` answers the 68k itself, from a register
file that repeats the rules of `chip_wput`. `LocalSys` puts the two side by
side: each clock that selects the chip is one access, served by the register
file and by the daemon.

The rules are the same (`writeCsr0_eq`), but the register file applies them to
reads: it takes `cpu_rw = 1` for a write, where the bus and the bridge branch of
the same module take it for a read. It also loads RAP on a read of RAP, and
its reset leaves CSR1 to CSR3 as they were. The two agree as long as nothing
of that shows (`local_follows_iff`).
-/

namespace A2065

open Bits

/-! ## `gen_local` -/

/-- The registers of `gen_local`. -/
structure LocalRegs where
  csr : BitVec 7 → U16
  rap : BitVec 7
  localOut : U16
  localOutEn : Bool

namespace LocalRegs

/-- The reset branch: of the CSRs it sets two. -/
def reset (g : LocalRegs) : LocalRegs where
  csr := Function.update (Function.update g.csr 0 0x0004) 4 0x0115
  rap := 0
  localOut := 0
  localOutEn := false

/-- The blocking assignments of `7'd0`, and the non-blocking one behind them. -/
def writeCsr0 (c v : U16) : U16 :=
  let c := c &&& ~~~ 0x0040
  let c := c ||| (v &&& 0x0040)
  let c := c ||| (v &&& (0x0001 ||| 0x0002 ||| 0x0004 ||| 0x0008))
  let c := c &&& ~~~ (v &&& (0x0100 ||| 0x0200 ||| 0x0400 ||| 0x0800 ||| 0x1000 ||| 0x2000 |||
    0x4000))
  let c := c &&& ~~~ 0x8000
  if tst v 0x0004 && tst (~~~ c) 0x0004 then 0x0004 else c

/-- The branch under `if (cpu_rw)`. -/
def write (g : LocalRegs) (v : U16) : LocalRegs :=
  if g.rap = 0 then { g with csr := Function.update g.csr 0 (writeCsr0 (g.csr 0) v) }
  else if g.rap = 1 then
    if tst (g.csr 0) 0x0004 then { g with csr := Function.update g.csr 1 (v &&& ~~~ 0x0001) } else g
  else if g.rap = 2 then
    if tst (g.csr 0) 0x0004 then { g with csr := Function.update g.csr 2 (v &&& 0x00FF) } else g
  else if g.rap = 3 then
    if tst (g.csr 0) 0x0004 then { g with csr := Function.update g.csr 3 (v &&& 0x0007) } else g
  else { g with csr := Function.update g.csr g.rap v }

/-- What the other branch puts out. -/
def out (g : LocalRegs) : U16 :=
  if g.rap = 0 then
    if tst (g.csr 0) (0x4000 ||| 0x2000 ||| 0x1000 ||| 0x0800) then g.csr 0 ||| 0x8000 else g.csr 0
  else if g.rap = 88 then 0x0001
  else if g.rap = 89 then 0x3003
  else g.csr g.rap

/-- The clocked block outside reset. -/
def clock (g : LocalRegs) (p : CpuBus) : LocalRegs :=
  let g := { g with localOutEn := false }
  if p.selChipreg then
    if p.cpuAddr.extractLsb' 0 2 = 2#2 then { g with rap := p.cpuDataIn.setWidth 7 }
    else if p.cpuRw then g.write p.cpuDataIn
    else { g with localOutEn := true, localOut := g.out }
  else g

/-- RAP and CSR0 to CSR3 are the same. -/
@[mk_iff same_iff]
structure Same (g g' : LocalRegs) : Prop where
  rap : g'.rap = g.rap
  csr : ∀ n < 4, g'.csr (.ofNat 7 n) = g.csr (.ofNat 7 n)

end LocalRegs

/-! ## Register file and daemon -/

/-- The register file, and a daemon that gets the same accesses. -/
structure LocalSys where
  regs : LocalRegs
  d : Daemon
  w : World

/-- The two hold the same RAP and the same CSR0 to CSR3. -/
structure Agree (g : LocalRegs) (d : Daemon) : Prop where
  rap : g.rap.setWidth 8 = d.rap
  csr : ∀ n < 4, g.csr (.ofNat 7 n) = d.csr n

namespace LocalSys

/-- Reset and `registers_reset`. -/
def start (g : LocalRegs) (d : Daemon) (w : World) : LocalSys := ⟨g.reset, registersReset d, w⟩

section Step

variable (cb : Callback) (onTransmit : Daemon → DProg Daemon)

/-- One clock. For the daemon it is a call of `chip_wput` if it is a write, and
otherwise at most one of `chip_wget`, which changes nothing. -/
def step (s : LocalSys) (p : CpuBus) : LocalSys :=
  let r := if p.selChipreg ∧ ¬ p.cpuRw then
      (chipWput cb onTransmit p.offset p.cpuDataIn s.d).exec s.w
    else (s.d, s.w)
  ⟨s.regs.clock p, r.1, r.2⟩

/-- After an access the two agree, and if it was a read neither has changed. -/
def FollowsAt (s : LocalSys) (p : CpuBus) : Prop :=
  p.selChipreg = true →
    Agree (s.step cb onTransmit p).regs (s.step cb onTransmit p).d ∧
    (p.cpuRw = true → s.regs.Same (s.step cb onTransmit p).regs ∧
      (s.step cb onTransmit p).d.rap = s.d.rap ∧
      ∀ n < 4, (s.step cb onTransmit p).d.csr n = s.d.csr n)

end Step

/-- INIT, STRT and TDMD are not written to CSR0. -/
def AllowedAt (s : LocalSys) (p : CpuBus) : Prop :=
  p.selChipreg = true → p.cpuRw = false → p.offset ≠ A2065_RAP_OFF → s.d.rap = 0 →
    p.cpuDataIn &&& (CSR0.INIT ||| CSR0.STRT ||| CSR0.TDMD) = 0

end LocalSys

/-- CSR `n` of the first four, which was `c`, after `v` is written to it while
STOP is set. -/
def csrWritten (n : Nat) (c v : U16) : U16 :=
  if n = 0 then csr0Merge c v
  else if n = 1 then v &&& ~~~ 1
  else if n = 2 then v &&& 0x00ff
  else v &&& 7

/-- A read of RAP finds the value of RAP on the data bus; for any access to RDP
with one of the first four CSRs selected, what is on the data bus would not
change that CSR if it were written. -/
def LocalSys.HarmlessAt (s : LocalSys) (p : CpuBus) : Prop :=
  p.selChipreg = true →
    if p.offset = A2065_RAP_OFF then
      p.cpuRw = true → (p.cpuDataIn &&& 0x7f).setWidth 8 = s.d.rap
    else s.d.rap.toNat < 4 →
      csrWritten s.d.rap.toNat (s.d.csr s.d.rap.toNat) p.cpuDataIn = s.d.csr s.d.rap.toNat

/-! ## The daemon at rest -/

/-- Without INIT, STRT and TDMD the chip stays stopped, with no cause set. -/
structure Halted (d : Daemon) : Prop where
  csr0 : d.csr0 = 0x0004 ∨ d.csr0 = 0x0044
  rap : d.rap.toNat < 128

theorem Halted.stop {d : Daemon} (h : Halted d) : tst d.csr0 CSR0.STOP = true := by
  rcases h.csr0 with h | h <;> rw [h] <;> decide

theorem csr0Merge_halted {c v : U16} (hc : c = 0x0004 ∨ c = 0x0044)
    (hv : v &&& (CSR0.INIT ||| CSR0.STRT ||| CSR0.TDMD) = 0) :
    csr0Merge c v = 0x0004 ∨ csr0Merge c v = 0x0044 := by
  have hbits : ∀ i, i = 0 ∨ i = 1 ∨ i = 3 → v.getLsbD i = false := by
    intro i hi
    have hand := congrArg (fun x : U16 => x.getLsbD i) hv
    rcases hi with rfl | rfl | rfl <;> simpa [CSR0.masks, BitVec.getLsbD_twoPow] using hand
  have hmerge : csr0Merge c v = 0x0004 ||| (v &&& CSR0.INEA) := by
    apply BitVec.eq_of_getLsbD_eq
    intro i hi
    rw [csr0Merge_getLsbD c v hi]
    have h0 : v[0] = false := hbits 0 (.inl rfl)
    have h1 : v[1] = false := hbits 1 (.inr (.inl rfl))
    have h3 : v[3] = false := hbits 3 (.inr (.inr rfl))
    rcases hc with rfl | rfl <;> interval_cases i <;> simp [h0, h1, h3, CSR0.masks]
  rw [hmerge, show CSR0.INEA = BitVec.twoPow 16 6 from rfl, BitVec.and_twoPow]
  cases v.getLsbD 6
  · exact .inl rfl
  · exact .inr rfl

theorem wputCsr0_halted (cb : Callback) (onTransmit : Daemon → DProg Daemon) {v : U16}
    {d : Daemon} (hd : Halted d) (hv : v &&& (CSR0.INIT ||| CSR0.STRT ||| CSR0.TDMD) = 0)
    (w : World) :
    ((wputCsr0 cb onTransmit v d).exec w).1 = d.setCsr 0 (csr0Merge d.csr0 v) := by
  have hmerge := csr0Merge_halted hd.csr0 hv
  have hcommand : csr0Command d.csr0 (d.setCsr 0 (csr0Merge d.csr0 v)) =
      pure (d.setCsr 0 (csr0Merge d.csr0 v)) := by
    apply csr0Command_stopped hd.stop
    rw [show CSR0.INIT ||| CSR0.STRT ||| CSR0.TDMD = CSR0.STRT ||| CSR0.INIT ||| CSR0.TDMD by rfl,
      BitVec.and_or_distrib_left] at hv
    simpa [tst] using (BitVec.or_eq_zero_iff.mp hv).1
  have hdemand : csr0Demand onTransmit (d.setCsr 0 (csr0Merge d.csr0 v)) =
      pure (d.setCsr 0 (csr0Merge d.csr0 v)) := by
    unfold csr0Demand
    rw [Daemon.csr0_setCsr0]
    rcases hmerge with h | h <;> rw [h, if_neg (by decide)]
  unfold wputCsr0
  simp only [hcommand, hdemand, pure_bind]
  rw [(rethink_exec cb _ w).1, Daemon.csr0_setCsr0]
  have hrethink : rethinkCsr0 (csr0Merge d.csr0 v) = csr0Merge d.csr0 v := by
    rcases hmerge with h | h <;> rw [h] <;> decide
  rw [hrethink]
  simp [Daemon.setCsr]

theorem csr_wputOther (v : U16) {d : Daemon} (hd : Halted d) (hrap : d.rap ≠ 0) {n : Nat}
    (hn : n < 4) :
    (wputOther v d).csr n = if d.rap.toNat = n then csrWritten n (d.csr n) v else d.csr n := by
  have hne : d.rap.toNat ≠ 0 := fun h => hrap (BitVec.eq_of_toNat_eq h)
  unfold wputOther
  split
  case h_1 hr | h_2 hr | h_3 hr =>
    simp only [hr, hd.stop, if_true, Daemon.setCsr, Function.update_apply]
    interval_cases n <;> simp [csrWritten]
  case h_18 =>
    split
    · rename_i hfour
      rw [if_neg (by omega), Daemon.setCsr]
      exact Function.update_of_ne (by omega) ..
    · grind
  all_goals
    rename_i hr
    rw [hr]
    exact (if_neg (by omega)).symm

theorem rap_wputOther (v : U16) (d : Daemon) : (wputOther v d).rap = d.rap := by
  unfold wputOther
  split <;> first | rfl | (split <;> rfl)

/-- `d'` is `d` after `v` was written to the CSR that RAP selects. -/
structure WroteCsr (v : U16) (d d' : Daemon) : Prop where
  rap : d'.rap = d.rap
  csr : ∀ n < 4, d'.csr n = if d.rap.toNat = n then csrWritten n (d.csr n) v else d.csr n

theorem chipWput_rdp (cb : Callback) (onTransmit : Daemon → DProg Daemon) {off : U8} {v : U16}
    {d : Daemon} (hd : Halted d) (hoff : off ≠ A2065_RAP_OFF)
    (hv : d.rap = 0 → v &&& (CSR0.INIT ||| CSR0.STRT ||| CSR0.TDMD) = 0) (w : World) :
    WroteCsr v d ((chipWput cb onTransmit off v d).exec w).1 ∧
      Halted ((chipWput cb onTransmit off v d).exec w).1 := by
  have hsize : ¬ d.rap.toNat ≥ RAP_SIZE := by
    have := hd.rap
    simp only [RAP_SIZE]
    omega
  rw [chipWput, if_neg hoff, if_neg hsize]
  by_cases hrap : d.rap = 0
  · rw [if_pos hrap, wputCsr0_halted cb onTransmit hd (hv hrap)]
    refine ⟨⟨rfl, ?_⟩, ⟨?_, hd.rap⟩⟩
    · intro n _
      by_cases hn : n = 0
      · subst hn
        simp [hrap, Daemon.setCsr, csrWritten, Daemon.csr0]
      · simp [hrap, Daemon.setCsr, hn, Ne.symm hn]
    · rw [Daemon.csr0_setCsr0]
      exact csr0Merge_halted hd.csr0 (hv hrap)
  · rw [if_neg hrap]
    refine ⟨⟨rap_wputOther v d, fun n hn => csr_wputOther v hd hrap hn⟩, ⟨?_, ?_⟩⟩
    · rw [DProg.exec_pure, csr0_wputOther]
      exact hd.csr0
    · rw [DProg.exec_pure, rap_wputOther]
      exact hd.rap

theorem halted_registersReset (d : Daemon) : Halted (registersReset d) where
  csr0 := .inl rfl
  rap := by simp [registersReset]

/-! ## The register file -/

namespace LocalRegs

/-- The guard on the last assignment never holds: what STOP writes is already
in the register. -/
theorem writeCsr0_eq (c v : U16) : writeCsr0 c v = csr0Merge c v := by
  have hset : tst v CSR0.STOP = true → tst (~~~ csr0Merge c v) CSR0.STOP = false := by
    intro hv
    simp only [CSR0.tst_bits] at hv ⊢
    rw [BitVec.getLsbD_not, csr0Merge_command c v 2 (by decide), hv]
    simp
  change (if tst v CSR0.STOP && tst (~~~ csr0Merge c v) CSR0.STOP then _ else _) = _
  apply if_neg
  intro h
  rw [Bool.and_eq_true] at h
  exact Bool.false_ne_true ((hset h.1).symm.trans h.2)

@[simp] theorem rap_write (g : LocalRegs) (v : U16) : (g.write v).rap = g.rap := by
  unfold write
  split_ifs <;> rfl

theorem csr_write (g : LocalRegs) (hstop : tst (g.csr 0) 0x0004 = true) (v : U16) {n : Nat}
    (hn : n < 4) :
    (g.write v).csr (.ofNat 7 n) =
      if g.rap.toNat = n then csrWritten n (g.csr (.ofNat 7 n)) v else g.csr (.ofNat 7 n) := by
  unfold write
  simp only [writeCsr0_eq, hstop, if_true]
  by_cases hrap : g.rap = .ofNat 7 n
  · rw [hrap]
    interval_cases n <;> simp [csrWritten]
  · have hne : g.rap.toNat ≠ n := by
      intro h
      exact hrap (by rw [← h, BitVec.ofNat_toNat, BitVec.setWidth_eq])
    rw [if_neg hne]
    -- whichever register is written, it is the one RAP selects
    split_ifs with h0 h1 h2 h3 <;> simp only [*] at hrap ⊢ <;>
      exact Function.update_of_ne (Ne.symm hrap) ..

theorem setWidth_rap (v : U16) : (v.setWidth 7).setWidth 8 = (v &&& 0x7f).setWidth 8 := by
  apply BitVec.eq_of_toNat_eq
  rw [BitVec.toNat_setWidth, BitVec.toNat_setWidth, BitVec.toNat_setWidth, BitVec.toNat_and]
  exact congrArg (· % 2 ^ 8) (Nat.and_two_pow_sub_one_eq_mod v.toNat 7).symm

theorem rap_inj {a b : BitVec 7} (h : a.setWidth 8 = b.setWidth 8) : a = b := by
  have hback := congrArg (BitVec.setWidth 7) h
  simpa using hback

end LocalRegs

theorem CpuBus.offset_eq_rap (p : CpuBus) :
    p.cpuAddr.extractLsb' 0 2 = 2#2 ↔ p.offset = A2065_RAP_OFF := by
  unfold offset A2065_RAP_OFF
  generalize p.cpuAddr.extractLsb' 0 2 = a
  revert a
  decide

/-! ## One clock -/

theorem Agree.toNat_rap {g : LocalRegs} {d : Daemon} (h : Agree g d) :
    g.rap.toNat = d.rap.toNat := by
  rw [← h.rap, BitVec.toNat_setWidth, Nat.mod_eq_of_lt (by omega)]

theorem csrWritten_same_iff {r : Nat} {v : U16} {c : Nat → U16} :
    (∀ n < 4, c n = if r = n then csrWritten n (c n) v else c n) ↔
      (r < 4 → csrWritten r (c r) v = c r) := by
  constructor
  · intro h hr
    have := h r hr
    rw [if_pos rfl] at this
    exact this.symm
  · intro h n hn
    split
    · subst r
      exact (h hn).symm
    · rfl

namespace LocalSys

section

variable (cb : Callback) (onTransmit : Daemon → DProg Daemon) (s : LocalSys) {p : CpuBus}

theorem step_unselected (hsel : p.selChipreg = false) :
    s.regs.Same (s.step cb onTransmit p).regs ∧ (s.step cb onTransmit p).d = s.d := by
  simp [step, LocalRegs.clock, hsel, LocalRegs.same_iff]

theorem step_rap (hsel : p.selChipreg = true) (hoff : p.offset = A2065_RAP_OFF) :
    (s.step cb onTransmit p).regs.csr = s.regs.csr ∧
      (s.step cb onTransmit p).regs.rap = p.cpuDataIn.setWidth 7 := by
  simp [step, LocalRegs.clock, hsel, p.offset_eq_rap.mpr hoff]

theorem step_rap_write (hsel : p.selChipreg = true) (hrw : p.cpuRw = false)
    (hoff : p.offset = A2065_RAP_OFF) :
    (s.step cb onTransmit p).d = { s.d with rap := (p.cpuDataIn &&& 0x7f).setWidth 8 } := by
  simp [step, hsel, hrw, chipWput, hoff]

theorem step_read (hrw : p.cpuRw = true) : (s.step cb onTransmit p).d = s.d := by
  simp [step, hrw]

theorem step_rdp_read (hstop : tst (s.regs.csr 0) 0x0004 = true) (hsel : p.selChipreg = true)
    (hrw : p.cpuRw = true) (hoff : p.offset ≠ A2065_RAP_OFF) :
    (s.step cb onTransmit p).regs.rap = s.regs.rap ∧
    ∀ n < 4, (s.step cb onTransmit p).regs.csr (.ofNat 7 n) =
      if s.regs.rap.toNat = n then csrWritten n (s.regs.csr (.ofNat 7 n)) p.cpuDataIn
      else s.regs.csr (.ofNat 7 n) := by
  have hlow := mt p.offset_eq_rap.mp hoff
  simp only [step, LocalRegs.clock, hsel, hrw, hlow, if_true, if_false]
  exact ⟨LocalRegs.rap_write _ _,
    fun n hn => LocalRegs.csr_write { s.regs with localOutEn := false } hstop _ hn⟩

theorem step_rdp_write (hsel : p.selChipreg = true) (hrw : p.cpuRw = false)
    (hoff : p.offset ≠ A2065_RAP_OFF) :
    s.regs.Same (s.step cb onTransmit p).regs ∧
    (s.step cb onTransmit p).d =
      ((chipWput cb onTransmit p.offset p.cpuDataIn s.d).exec s.w).1 := by
  have hlow := mt p.offset_eq_rap.mp hoff
  simp [step, LocalRegs.clock, hsel, hrw, hlow, LocalRegs.same_iff]

variable {s}

theorem halted_step (hd : Halted s.d) (hallowed : s.AllowedAt p) :
    Halted (s.step cb onTransmit p).d := by
  cases hsel : p.selChipreg with
  | false =>
      rw [(step_unselected cb onTransmit s hsel).2]
      exact hd
  | true =>
      cases hrw : p.cpuRw with
      | true =>
          rw [step_read cb onTransmit s hrw]
          exact hd
      | false =>
          by_cases hoff : p.offset = A2065_RAP_OFF
          · rw [step_rap_write cb onTransmit s hsel hrw hoff]
            refine ⟨hd.csr0, ?_⟩
            rw [← LocalRegs.setWidth_rap, BitVec.toNat_setWidth]
            exact (Nat.mod_le ..).trans_lt (p.cpuDataIn.setWidth 7).isLt
          · rw [(step_rdp_write cb onTransmit s hsel hrw hoff).2]
            exact (chipWput_rdp cb onTransmit hd hoff (hallowed hsel hrw hoff) s.w).2

variable {cb onTransmit}

theorem FollowsAt.agree (h : s.FollowsAt cb onTransmit p) (hagree : Agree s.regs s.d) :
    Agree (s.step cb onTransmit p).regs (s.step cb onTransmit p).d := by
  cases hsel : p.selChipreg with
  | true => exact (h hsel).1
  | false =>
      have hstep := step_unselected cb onTransmit s hsel
      rw [hstep.2]
      exact ⟨hstep.1.rap ▸ hagree.rap, fun n hn => (hstep.1.csr n hn).trans (hagree.csr n hn)⟩

/-- Reading RAP loads it from the data bus. -/
theorem followsAt_rap_read (hagree : Agree s.regs s.d) (hsel : p.selChipreg = true)
    (hrw : p.cpuRw = true) (hoff : p.offset = A2065_RAP_OFF) :
    s.FollowsAt cb onTransmit p ↔ (p.cpuDataIn &&& 0x7f).setWidth 8 = s.d.rap := by
  obtain ⟨hcsr, hrap⟩ := step_rap cb onTransmit s hsel hoff
  have hd := step_read cb onTransmit s hrw
  constructor
  · intro h
    rw [← LocalRegs.setWidth_rap, ← hrap, (h hsel).1.rap, hd]
  · intro h _
    rw [hd]
    rw [← LocalRegs.setWidth_rap, ← hrap] at h
    refine ⟨⟨h, ?_⟩, fun _ => ⟨⟨?_, ?_⟩, rfl, fun _ _ => rfl⟩⟩
    · intro n hn
      rw [hcsr, hagree.csr n hn]
    · exact LocalRegs.rap_inj (h.trans hagree.rap.symm)
    · intro n _
      rw [hcsr]

theorem followsAt_rap_write (hagree : Agree s.regs s.d) (hsel : p.selChipreg = true)
    (hrw : p.cpuRw = false) (hoff : p.offset = A2065_RAP_OFF) :
    s.FollowsAt cb onTransmit p := by
  obtain ⟨hcsr, hrap⟩ := step_rap cb onTransmit s hsel hoff
  intro _
  rw [step_rap_write cb onTransmit s hsel hrw hoff]
  refine ⟨⟨?_, ?_⟩, by simp [hrw]⟩
  · rw [hrap, LocalRegs.setWidth_rap]
  · intro n hn
    rw [hcsr, hagree.csr n hn]

/-- Reading RDP writes the selected CSR. -/
theorem followsAt_rdp_read (hagree : Agree s.regs s.d) (hd : Halted s.d)
    (hsel : p.selChipreg = true) (hrw : p.cpuRw = true) (hoff : p.offset ≠ A2065_RAP_OFF) :
    s.FollowsAt cb onTransmit p ↔ (s.d.rap.toNat < 4 →
      csrWritten s.d.rap.toNat (s.d.csr s.d.rap.toNat) p.cpuDataIn = s.d.csr s.d.rap.toNat) := by
  have hstop : tst (s.regs.csr 0) 0x0004 = true := by
    rw [show s.regs.csr 0 = s.d.csr 0 from hagree.csr 0 (by decide)]
    exact hd.stop
  obtain ⟨hrap, hwrote⟩ := step_rdp_read cb onTransmit s hstop hsel hrw hoff
  have hsame := step_read cb onTransmit s hrw
  have hcsr : ∀ n < 4, (s.step cb onTransmit p).regs.csr (.ofNat 7 n) =
      if s.d.rap.toNat = n then csrWritten n (s.d.csr n) p.cpuDataIn else s.d.csr n := by
    intro n hn
    rw [hwrote n hn, hagree.csr n hn, hagree.toNat_rap]
  rw [← csrWritten_same_iff]
  constructor
  · intro h n hn
    rw [← hcsr n hn, (h hsel).1.csr n hn, hsame]
  · intro h _
    rw [hsame]
    refine ⟨⟨?_, ?_⟩, fun _ => ⟨⟨hrap, ?_⟩, rfl, fun _ _ => rfl⟩⟩
    · rw [hrap, hagree.rap]
    · intro n hn
      rw [hcsr n hn, ← h n hn]
    · intro n hn
      rw [hcsr n hn, ← h n hn, hagree.csr n hn]

/-- Writing RDP does nothing to the register file. -/
theorem followsAt_rdp_write (hagree : Agree s.regs s.d) (hd : Halted s.d)
    (hallowed : s.AllowedAt p) (hsel : p.selChipreg = true) (hrw : p.cpuRw = false)
    (hoff : p.offset ≠ A2065_RAP_OFF) :
    s.FollowsAt cb onTransmit p ↔ (s.d.rap.toNat < 4 →
      csrWritten s.d.rap.toNat (s.d.csr s.d.rap.toNat) p.cpuDataIn = s.d.csr s.d.rap.toNat) := by
  obtain ⟨hsame, hd'⟩ := step_rdp_write cb onTransmit s hsel hrw hoff
  obtain ⟨hwrote, -⟩ := chipWput_rdp cb onTransmit hd hoff (hallowed hsel hrw hoff) s.w
  rw [← hd'] at hwrote
  rw [← csrWritten_same_iff]
  constructor
  · intro h n hn
    rw [← hwrote.csr n hn, ← (h hsel).1.csr n hn, hsame.csr n hn, hagree.csr n hn]
  · intro h _
    refine ⟨⟨?_, ?_⟩, by simp [hrw]⟩
    · rw [hsame.rap, hwrote.rap, hagree.rap]
    · intro n hn
      rw [hsame.csr n hn, hwrote.csr n hn, ← h n hn, hagree.csr n hn]

theorem followsAt_iff (hagree : Agree s.regs s.d) (hd : Halted s.d) (hallowed : s.AllowedAt p) :
    s.FollowsAt cb onTransmit p ↔ s.HarmlessAt p := by
  cases hsel : p.selChipreg with
  | false => simp [FollowsAt, HarmlessAt, hsel]
  | true =>
      unfold HarmlessAt
      rw [hsel]
      by_cases hoff : p.offset = A2065_RAP_OFF
      · cases hrw : p.cpuRw with
        | true => simp [followsAt_rap_read hagree hsel hrw hoff, hoff]
        | false => simp [followsAt_rap_write hagree hsel hrw hoff, hoff]
      · simp only [if_neg hoff, forall_const]
        cases hrw : p.cpuRw with
        | true => exact followsAt_rdp_read hagree hd hsel hrw hoff
        | false => exact followsAt_rdp_write hagree hd hallowed hsel hrw hoff

/-! ## Runs -/

/-- What a run keeps: the register file agrees with a daemon at rest. -/
structure InStep (s : LocalSys) : Prop where
  agree : Agree s.regs s.d
  halted : Halted s.d

theorem InStep.step (h : s.InStep) (hallowed : s.AllowedAt p)
    (hfollows : s.FollowsAt cb onTransmit p) : (s.step cb onTransmit p).InStep :=
  ⟨hfollows.agree h.agree, halted_step cb onTransmit h.halted hallowed⟩

/-- From there, the run keeps it as long as each clock is harmless. -/
theorem watch_followsAt_iff {ps : List CpuBus} (h : s.InStep)
    (hallowed : Watch (step cb onTransmit) AllowedAt s ps) :
    Watch (step cb onTransmit) (FollowsAt cb onTransmit) s ps ↔
      Watch (step cb onTransmit) HarmlessAt s ps := by
  constructor
  · intro hruns
    refine (hallowed.and hruns).entails ?_ h
    intro s p hs ⟨hallowed, hfollows⟩
    exact ⟨hs.step hallowed hfollows, (followsAt_iff hs.agree hs.halted hallowed).mp hfollows⟩
  · intro hruns
    refine (hallowed.and hruns).entails ?_ h
    intro s p hs ⟨hallowed, hharmless⟩
    have hfollows : s.FollowsAt cb onTransmit p :=
      (followsAt_iff hs.agree hs.halted hallowed).mpr hharmless
    exact ⟨hs.step hallowed hfollows, hfollows⟩

/-- With RAP 0 no access changes CSR1, CSR2 or CSR3. -/
theorem csr_step_of_rap_zero (cb : Callback) (onTransmit : Daemon → DProg Daemon)
    (hstop : tst (s.regs.csr 0) 0x0004 = true) (hrap : s.regs.rap = 0)
    (hd : Halted s.d) (hdrap : s.d.rap = 0) (hallowed : s.AllowedAt p) {n : Nat} (hpos : 0 < n)
    (hn : n < 4) (hsel : p.selChipreg = true) :
    (s.step cb onTransmit p).regs.csr (.ofNat 7 n) = s.regs.csr (.ofNat 7 n) ∧
      (s.step cb onTransmit p).d.csr n = s.d.csr n := by
  by_cases hoff : p.offset = A2065_RAP_OFF
  · rw [(step_rap cb onTransmit s hsel hoff).1]
    cases hrw : p.cpuRw with
    | true =>
        rw [step_read cb onTransmit s hrw]
        exact ⟨rfl, rfl⟩
    | false =>
        rw [step_rap_write cb onTransmit s hsel hrw hoff]
        exact ⟨rfl, rfl⟩
  · cases hrw : p.cpuRw with
    | true =>
        rw [step_read cb onTransmit s hrw,
          (step_rdp_read cb onTransmit s hstop hsel hrw hoff).2 n hn, hrap]
        exact ⟨if_neg hpos.ne, rfl⟩
    | false =>
        obtain ⟨hsame, hd'⟩ := step_rdp_write cb onTransmit s hsel hrw hoff
        obtain ⟨hwrote, -⟩ := chipWput_rdp cb onTransmit hd hoff (hallowed hsel hrw hoff) s.w
        rw [hsame.csr n hn, hd', hwrote.csr n hn, hdrap]
        exact ⟨rfl, if_neg hpos.ne⟩

/-- What reset left different differs after the first access. -/
theorem unselected_of_differ {ps : List CpuBus} (hstop : tst (s.regs.csr 0) 0x0004 = true)
    (hrap : s.regs.rap = 0) (hd : Halted s.d) (hdrap : s.d.rap = 0) {n : Nat} (hpos : 0 < n)
    (hn : n < 4) (hdiffer : s.regs.csr (.ofNat 7 n) ≠ s.d.csr n)
    (hallowed : Watch (step cb onTransmit) AllowedAt s ps)
    (h : Watch (step cb onTransmit) (FollowsAt cb onTransmit) s ps) :
    ∀ p ∈ ps, p.selChipreg = false := by
  induction ps generalizing s with
  | nil => simp
  | cons p ps ih =>
      cases hsel : p.selChipreg with
      | true =>
          obtain ⟨hregs, hdaemon⟩ :=
            csr_step_of_rap_zero cb onTransmit hstop hrap hd hdrap hallowed.1 hpos hn hsel
          have hafter := (h.1 hsel).1.csr n hn
          rw [hregs, hdaemon] at hafter
          exact absurd hafter hdiffer
      | false =>
          obtain ⟨hsame, hd'⟩ := step_unselected cb onTransmit s hsel
          have hrest : ∀ q ∈ ps, q.selChipreg = false := by
            apply ih _ (hsame.rap.trans hrap) (hd' ▸ hd) (hd' ▸ hdrap) _ hallowed.2 h.2
            · rw [show (s.step cb onTransmit p).regs.csr 0 = s.regs.csr 0 from
                hsame.csr 0 (by decide)]
              exact hstop
            · rw [hsame.csr n hn, hd']
              exact hdiffer
          simpa [hsel] using hrest

/-! ## From reset -/

theorem agree_start {g : LocalRegs} (d : Daemon) (w : World)
    (hzero : ∀ n, 0 < n → n < 4 → g.csr (.ofNat 7 n) = 0) :
    Agree (start g d w).regs (start g d w).d := by
  refine ⟨rfl, ?_⟩
  intro n hn
  have hcsr := hzero n
  interval_cases n
  · rfl
  all_goals exact hcsr (by decide) (by decide)

end

/-- From reset, register file and daemon hold the same RAP and CSR0 to CSR3
after every access, and reads change nothing, exactly if each access is
harmless and reset found CSR1 to CSR3 of the register file zero. -/
theorem local_follows_iff (cb : Callback) (onTransmit : Daemon → DProg Daemon) (g : LocalRegs)
    (d : Daemon) (w : World) (ps : List CpuBus)
    (hallowed : Watch (step cb onTransmit) AllowedAt (start g d w) ps) :
    Watch (step cb onTransmit) (FollowsAt cb onTransmit) (start g d w) ps ↔
      ((∃ p ∈ ps, p.selChipreg = true) → ∀ n, 0 < n → n < 4 → g.csr (.ofNat 7 n) = 0) ∧
        Watch (step cb onTransmit) HarmlessAt (start g d w) ps := by
  have hd : Halted (start g d w).d := halted_registersReset d
  by_cases hzero : ∀ n, 0 < n → n < 4 → g.csr (.ofNat 7 n) = 0
  · rw [watch_followsAt_iff ⟨agree_start d w hzero, hd⟩ hallowed]
    exact ⟨fun h => ⟨fun _ => hzero, h⟩, And.right⟩
  · constructor
    · intro h
      obtain ⟨n, hpos, hn, hne⟩ : ∃ n, 0 < n ∧ n < 4 ∧ g.csr (.ofNat 7 n) ≠ 0 := by
        simpa using hzero
      have hdiffer : (start g d w).regs.csr (.ofNat 7 n) ≠ (start g d w).d.csr n := by
        interval_cases n <;> exact hne
      have hstop : tst ((start g d w).regs.csr 0) 0x0004 = true := by
        rw [show (start g d w).regs.csr 0 = 0x0004 from rfl]
        decide
      have hsel := unselected_of_differ hstop rfl hd rfl hpos hn hdiffer hallowed h
      refine ⟨?_, Watch.of_forall fun p hp s => by simp [HarmlessAt, hsel p hp]⟩
      rintro ⟨p, hp, hselp⟩
      exact absurd (hsel p hp) (by simp [hselp])
    · rintro ⟨himp, -⟩
      have hsel : ∀ p ∈ ps, p.selChipreg = false := by
        intro p hp
        by_contra hselp
        exact hzero (himp ⟨p, hp, by simpa using hselp⟩)
      exact Watch.of_forall fun p hp s => by simp [FollowsAt, hsel p hp]

end LocalSys

/-! ## The driver's first access -/

/-- A write of the address port. -/
def rapWrite (v : U16) : CpuBus := { rapRead with cpuRw := false, cpuDataIn := v }

/-- A write of the data port. -/
def rdpWrite (v : U16) : CpuBus := { rdpRead with cpuRw := false, cpuDataIn := v }

/-- A register file with every register zero. -/
def LocalRegs.blank : LocalRegs := ⟨fun _ => 0, 0, 0, false⟩

namespace LocalSys

theorem local_follows_zero_write :
    Watch (step .null pure) (FollowsAt .null pure) (start .blank .boot .blank)
      [rapWrite 1, rdpWrite 0x0001] := by
  refine (local_follows_iff .null pure .blank .boot .blank [rapWrite 1, rdpWrite 0x0001]
    ⟨?_, ?_, trivial⟩).mpr ⟨?_, ?_, ?_, trivial⟩
  · unfold AllowedAt
    decide +kernel
  · unfold AllowedAt
    decide +kernel
  · intro _ _ _ _
    rfl
  · unfold HarmlessAt
    decide +kernel
  · unfold HarmlessAt
    decide +kernel

/-- The 68k selects CSR1 and writes the low half of the init block's address.
The daemon has it, the register file does not. -/
theorem local_drops_csr1 :
    ¬ ∀ (cb : Callback) (onTransmit : Daemon → DProg Daemon) (g : LocalRegs) (d : Daemon)
      (w : World) (ps : List CpuBus), Watch (step cb onTransmit) AllowedAt (start g d w) ps →
        Watch (step cb onTransmit) (FollowsAt cb onTransmit) (start g d w) ps := by
  intro h
  obtain ⟨-, hwrite, -⟩ := h .null pure .blank .boot .blank [rapWrite 1, rdpWrite 0x1234]
    ⟨by unfold AllowedAt; decide +kernel, by unfold AllowedAt; decide +kernel, trivial⟩
  have hcsr := (hwrite (by decide +kernel)).1.csr 1 (by decide)
  revert hcsr
  decide +kernel

end LocalSys

end A2065
