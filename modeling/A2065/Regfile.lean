import A2065.MainDoorbell
import A2065.CsrInvariant

/-!
# The register file, `a2065_regfile.v`

`Regfile` holds the module's registers and `Pins` what its inputs show during
one clock. `cpuDataOut` is the read mux within that clock, `clock` the edge at
its end. The 68k reads CSR0 to CSR3 here, from the word `push_csr_shadow`
last stored, and never through `chip_wget`; the last section compares the two.
-/

namespace A2065

open Bits

/-- The 68k side of a register access. -/
structure CpuBus where
  cpuAddr : BitVec 24
  cpuRw : Bool
  cpuAsN : Bool
  cpuDsN : Bool
  cpuDataIn : U16
  cardBase : U8
  cardConfigured : Bool

namespace CpuBus

/-- The wire `sel_chipreg`. -/
def selChipreg (p : CpuBus) : Bool :=
  p.cardConfigured && p.cpuAddr.extractLsb' 16 8 == p.cardBase &&
    p.cpuAddr.extractLsb' 2 14 == 0x1000#14 && !p.cpuAsN && !p.cpuDsN

/-- The wire `is_rap`. -/
def isRap (p : CpuBus) : Bool := p.cpuAddr.getLsbD 1

/-- A read of the data port. -/
def readsRdp (p : CpuBus) : Bool := p.selChipreg && p.cpuRw && !p.isRap

/-- A write of the data port. -/
def writesRdp (p : CpuBus) : Bool := p.selChipreg && !p.cpuRw && !p.isRap

/-- A write of the address port. -/
def writesRap (p : CpuBus) : Bool := p.selChipreg && !p.cpuRw && p.isRap

end CpuBus

/-- The registers of `a2065_regfile`. -/
structure Regfile where
  rap : BitVec 7
  csrShadow : Fin 4 → U16
  cmdPending : Bool
  cmdRap : BitVec 7
  cmdData : U16
  cmdClearS : Bool
  cmdClearS1 : Bool

namespace Regfile

/-- The bus of the 68k, reset, and what the ARM side drives. -/
structure Pins extends CpuBus where
  rstN : Bool
  cmdClear : Bool
  /-- `csr0_in` to `csr3_in` -/
  csrIn : Fin 4 → U16

/-- What the data port shows: the chip id at 88 and 89, else the shadow. -/
def chipIdOut (f : Regfile) : U16 :=
  if f.rap = 88 then 0x0001
  else if f.rap = 89 then 0x3003
  else if h : f.rap.toNat < 4 then f.csrShadow ⟨f.rap.toNat, h⟩
  else 0

/-- The read mux. -/
def cpuDataOut (f : Regfile) (p : Pins) : U16 :=
  if p.selChipreg && p.cpuRw then
    if p.isRap then f.rap.setWidth 16 else f.chipIdOut
  else 0

/-- The three clocked blocks. The shadow and the two flip-flops behind
`cmd_clear` have no reset; of the two assignments to `cmd_pending` the later
one, the write, wins. -/
def clock (f : Regfile) (p : Pins) : Regfile :=
  let g := { f with csrShadow := p.csrIn, cmdClearS := p.cmdClear, cmdClearS1 := f.cmdClearS }
  if !p.rstN then { g with rap := 0, cmdPending := false, cmdRap := 0, cmdData := 0 }
  else
    let g := if f.cmdClearS1 then { g with cmdPending := false } else g
    let g := if p.writesRdp then
        { g with cmdRap := f.rap, cmdData := p.cpuDataIn, cmdPending := true } else g
    if p.writesRap then { g with rap := p.cpuDataIn.setWidth 7 } else g

@[simp] theorem csrShadow_clock (f : Regfile) (p : Pins) : (f.clock p).csrShadow = p.csrIn := by
  unfold clock
  split
  · rfl
  · dsimp only
    split_ifs <;> rfl

@[simp] theorem cmdClearS_clock (f : Regfile) (p : Pins) : (f.clock p).cmdClearS = p.cmdClear := by
  unfold clock
  split
  · rfl
  · dsimp only
    split_ifs <;> rfl

@[simp] theorem cmdClearS1_clock (f : Regfile) (p : Pins) :
    (f.clock p).cmdClearS1 = f.cmdClearS := by
  unfold clock
  split
  · rfl
  · dsimp only
    split_ifs <;> rfl

theorem cmdPending_clock (f : Regfile) {p : Pins} (h : p.rstN = true) :
    (f.clock p).cmdPending = (p.writesRdp || (f.cmdPending && !f.cmdClearS1)) := by
  unfold clock
  rw [if_neg (by simp [h])]
  dsimp only
  split_ifs <;> simp_all

theorem command_clock (f : Regfile) {p : Pins} (h : p.rstN = true) (hw : p.writesRdp = true) :
    (f.clock p).cmdRap = f.rap ∧ (f.clock p).cmdData = p.cpuDataIn := by
  unfold clock
  rw [if_neg (by simp [h])]
  dsimp only
  split_ifs <;> exact ⟨rfl, rfl⟩

end Regfile

/-! ## Reading through the shadow -/

/-- What `csr0_in` to `csr3_in` show of the word in the CSR slot. -/
def unpackCsr (packed : U64) (i : Fin 4) : U16 := packed.extractLsb' (16 * i) 16

theorem unpackCsr_packCsr (d : Daemon) (i : Fin 4) : unpackCsr (packCsr d) i = d.csr i := by
  apply BitVec.eq_of_getLsbD_eq
  intro j hj
  have hout : ∀ (x : U16) (k : Nat), 16 ≤ k → x.getLsbD k = false := fun x k h =>
    x.getLsbD_of_ge k h
  obtain ⟨i, hi⟩ := i
  simp only [unpackCsr, packCsr, BitVec.getLsbD_extractLsb', hj, decide_true, Bool.true_and,
    BitVec.getLsbD_or, BitVec.getLsbD_shiftLeft, BitVec.getLsbD_setWidth]
  interval_cases i <;> grind

/-- The bits ERR summarises. -/
def CSR0.ERRORS : U16 := BABL ||| CERR ||| MISS ||| MERR

/-- With the shadow clocked in, an RDP read of one of the first four registers
shows the stored word. -/
theorem Regfile.cpuDataOut_shadow {f : Regfile} {p : Pins} {d : Daemon}
    (hcsr : f.csrShadow = unpackCsr (packCsr d)) (hrap : f.rap.toNat < 4)
    (hread : p.readsRdp = true) : f.cpuDataOut p = d.csr f.rap.toNat := by
  simp only [CpuBus.readsRdp, Bool.and_eq_true, Bool.not_eq_true'] at hread
  obtain ⟨⟨hsel, hrw⟩, hrdp⟩ := hread
  have h88 : f.rap ≠ 88 := fun h => by simp [h] at hrap
  have h89 : f.rap ≠ 89 := fun h => by simp [h] at hrap
  rw [cpuDataOut, if_pos (by simp [hsel, hrw]), if_neg (by simp [hrdp]), chipIdOut, if_neg h88,
    if_neg h89, dif_pos hrap, hcsr, unpackCsr_packCsr]

/-- The daemon's own answer for these registers differs from the stored word
in ERR alone. -/
theorem chipWget_shadow {d : Daemon} {rap : BitVec 7} (hrap : rap.toNat < 4) :
    chipWget A2065_RDP_OFF { d with rap := rap.setWidth 8 } =
      if rap = 0#7 ∧ tst d.csr0 CSR0.ERRORS then d.csr0 ||| CSR0.ERR else d.csr rap.toNat := by
  have hnat : (rap.setWidth 8).toNat = rap.toNat := by
    rw [BitVec.toNat_setWidth, Nat.mod_eq_of_lt (by omega)]
  have hne : ∀ n : Nat, 4 ≤ n → n < 256 → rap.setWidth 8 ≠ BitVec.ofNat 8 n := by
    intro n hn hlt h
    have := congrArg BitVec.toNat h
    rw [hnat, BitVec.toNat_ofNat, Nat.mod_eq_of_lt (by omega)] at this
    omega
  have hzero : rap.setWidth 8 = 0#8 ↔ rap = 0#7 := by
    simp only [BitVec.toNat_eq, hnat, BitVec.toNat_ofNat, Nat.zero_mod]
  unfold chipWget
  rw [if_neg (by decide), if_neg (by rw [hnat]; unfold RAP_SIZE; omega)]
  simp only [hnat]
  have h88 : rap.setWidth 8 ≠ (88 : U8) := hne 88 (by decide) (by decide)
  have h89 : rap.setWidth 8 ≠ (89 : U8) := hne 89 (by decide) (by decide)
  rw [if_neg h89, if_neg h88]
  by_cases h0 : rap = 0#7
  · subst h0
    simp only [true_and, show (0#7).setWidth 8 = (0 : U8) from rfl]
    rfl
  · rw [if_neg (fun h => h0 (hzero.mp h.1)), if_neg (fun h => h0 h.1)]

/-- In every reachable register state, with the shadow holding the word packed
for it, an RDP read of the register file returns what `chip_wget` returns
exactly when it is not a read of CSR0 with an error bit set. -/
theorem shadow_read_iff (W : Wiring) (fakemac macFakemac macRealmac : Mac) (w : World)
    (moves : List Move) (d : Daemon)
    (hd : d = (runMoves W moves (registersReset (.bootWith fakemac macFakemac macRealmac), w)).1)
    (f : Regfile) (clk rd : Regfile.Pins) (hcsr : clk.csrIn = unpackCsr (packCsr d))
    (hrap : (f.clock clk).rap.toNat < 4) (hread : rd.readsRdp = true) :
    (f.clock clk).cpuDataOut rd =
        chipWget A2065_RDP_OFF { d with rap := (f.clock clk).rap.setWidth 8 } ↔
      ((f.clock clk).rap = 0#7 → tst d.csr0 CSR0.ERRORS = false) := by
  have hinv : Csr0Inv d.csr0 := by
    rw [hd]
    exact (runMoves_inv W (op_invariant W) moves _ (reset_invariant _ _ _)).1
  have herr : d.csr 0 ≠ d.csr0 ||| CSR0.ERR := by
    intro h
    have hbit : (d.csr0 ||| CSR0.ERR).getLsbD 15 = false := by
      rw [← h]
      exact hinv.err
    simp [CSR0.masks] at hbit
  rw [Regfile.cpuDataOut_shadow (by rw [Regfile.csrShadow_clock, hcsr]) hrap hread,
    chipWget_shadow hrap]
  generalize (f.clock clk).rap = r at hrap ⊢
  by_cases h0 : r = 0#7
  · subst h0
    cases tst d.csr0 CSR0.ERRORS with
    | false => simp
    | true => simpa using herr
  · simp only [h0, false_and, if_false, false_implies]

/-- The pins of an idle clock with `packed` in the CSR slot. -/
def Regfile.idlePins (packed : U64) : Regfile.Pins where
  cpuAddr := 0
  cpuRw := true
  cpuAsN := true
  cpuDsN := true
  cpuDataIn := 0
  cardBase := 0xE9
  cardConfigured := true
  rstN := true
  cmdClear := false
  csrIn := unpackCsr packed

/-- A 68k read of RDP. -/
def Regfile.rdpReadPins (packed : U64) : Regfile.Pins :=
  { idlePins packed with cpuAddr := 0xE94000, cpuAsN := false, cpuDsN := false }

/-- The registers after reset, an empty doorbell. -/
def Regfile.fresh : Regfile := ⟨0, fun _ => 0, false, 0, 0, false, false⟩

/-- Initialised and started from an empty init block, no receive descriptor
owned, one broadcast received: MISS is set. -/
def missedFrame : List Move :=
  [.op (.wput A2065_RDP_OFF (CSR0.INIT ||| CSR0.STRT)), .op (.recv (fun _ => 0xFF) 20)]

/-- The register state after `moves`, in the doorbell daemon with all memory
zero. -/
def afterMoves (moves : List Move) : Daemon :=
  (runMoves doorbell moves
    (registersReset (.bootWith (.replicate 6 0) (.replicate 6 0) (.replicate 6 0)), .blank)).1

/-- With nothing received yet the two reads of CSR0 agree. -/
theorem shadow_read_after_reset :
    (Regfile.fresh.clock (Regfile.idlePins (packCsr (afterMoves [])))).cpuDataOut
        (Regfile.rdpReadPins 0) =
      chipWget A2065_RDP_OFF { afterMoves [] with rap := 0 } :=
  (shadow_read_iff doorbell _ _ _ .blank [] (afterMoves []) rfl Regfile.fresh _
    (Regfile.rdpReadPins 0) rfl (by decide) (by decide)).mpr (fun _ => by decide)

/-- After the missed frame the 68k reads CSR0 as 0x11B3, without the ERR of
the daemon's own 0x91B3. -/
theorem shadow_read_without_err : ¬ ∀ (W : Wiring) (fakemac macFakemac macRealmac : Mac)
    (w : World) (moves : List Move) (d : Daemon),
    d = (runMoves W moves (registersReset (.bootWith fakemac macFakemac macRealmac), w)).1 →
    ∀ (f : Regfile) (clk rd : Regfile.Pins), clk.csrIn = unpackCsr (packCsr d) →
    (f.clock clk).rap.toNat < 4 → rd.readsRdp = true →
    (f.clock clk).cpuDataOut rd =
      chipWget A2065_RDP_OFF { d with rap := (f.clock clk).rap.setWidth 8 } := by
  intro h
  have heq := h doorbell _ _ _ .blank missedFrame (afterMoves missedFrame) rfl Regfile.fresh
    (Regfile.idlePins (packCsr (afterMoves missedFrame))) (Regfile.rdpReadPins 0) rfl
    (by decide) (by decide)
  have hread : (Regfile.fresh.clock
      (Regfile.idlePins (packCsr (afterMoves missedFrame)))).cpuDataOut (Regfile.rdpReadPins 0) =
        0x11B3 := by decide +kernel
  have hwget : chipWget A2065_RDP_OFF { afterMoves missedFrame with rap := 0 } = 0x91B3 := by
    decide +kernel
  exact absurd (hread.symm.trans (heq.trans hwget)) (by decide)

end A2065
