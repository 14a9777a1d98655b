import A2065.Lib.Loop
import A2065.Rings

/-!
# The two ring walks end

`do_transmit` and `gotfunc` walk their rings in `for (;;)` loops that change
the memory they read, and an RX buffer may lie over the descriptors. The OWN
bits are therefore no measure. The bytes still to be moved are: a byte count
is never 0 (`byteCount_pos`), so each turn moves at least one of them, whatever
the memory answers.

The model writes the walks as recursive functions with that measure. Here
they stand as the loops of the source, cut off after a given number of turns;
cut off after 4097 and `len + 5` turns they are the functions of the model.
-/

namespace A2065

open Bits
open Prog (turns turns_eq)

/-- One turn of the gather loop, from the daemon's state and `outsize`. -/
def gatherTurn (tdra tlen : U32) (s : Daemon × Nat) :
    DProg ((Daemon × Nat) ⊕ (TxWalk × Daemon)) := do
  let d := { s.1 with tdrOffset := s.1.tdrOffset % tlen }
  let off := descOff tdra d.tdrOffset
  let tmd0 ← getRamWord off 0
  let tmd1 ← getRamWord off 2
  let tmd2 ← getRamWord off 4
  let tmd3 ← getRamWord off 6
  let addr := descAddr tmd0 tmd1
  if ¬ tst tmd1 TX.OWN then
    let tmd3 := tmd3 ||| (TX.BUFF ||| TX.UFLO)
    let tmd1 := tmd1 ||| TX.ERR
    let d := d.csr0Clr CSR0.TXON
    putRamWord off 2 tmd1
    putRamWord off 6 tmd3
    pure (.inr (⟨off, tmd1, tmd3, s.2, true⟩, d))
  else
    let tmd1 := tmd1 &&& ~~~ TX.OWN
    let size := min (byteCount tmd2) MAX_PACKET_SIZE
    if s.2 + size > MAX_PACKET_SIZE then
      putRamWord off 2 tmd1
      putRamWord off 6 tmd3
      pure (.inr (⟨off, tmd1, tmd3, s.2, false⟩, d))
    else
      let bytes ← ramReadBlock addr size
      let d := { d with transmitbuffer := bufWrite d.transmitbuffer s.2 bytes }
      let p := txPad d tmd1 (s.2 + size)
      let d := { p.1 with tdrOffset := p.1.tdrOffset + 1 }
      if tst tmd1 TX.ENP then
        pure (.inr (⟨off, tmd1, tmd3, p.2, false⟩, d))
      else
        putRamWord off 2 tmd1
        putRamWord off 6 tmd3
        pure (.inl (d, p.2))

theorem txChain_turn (tdra tlen : U32) (s : Daemon × Nat) :
    txChain tdra tlen s.1 s.2 =
      gatherTurn tdra tlen s >>= Sum.elim (fun s => txChain tdra tlen s.1 s.2) pure := by
  rw [txChain, gatherTurn]
  simp only [bind_assoc]
  congr 1
  funext tmd0
  congr 1
  funext tmd1
  congr 1
  funext tmd2
  congr 1
  funext tmd3
  split
  · simp only [bind_assoc, pure_bind, Sum.elim_inr]
  · split
    · simp only [bind_assoc, pure_bind, Sum.elim_inr]
    · simp only [bind_assoc]
      congr 1
      funext bytes
      split
      · rfl
      · simp only [bind_assoc, pure_bind, Sum.elim_inl]

/-- A turn that is followed by another one has gathered at least a byte, and
there was room for it. -/
theorem gatherTurn_left (tdra tlen : U32) (s : Daemon × Nat) :
    (gatherTurn tdra tlen s).Always fun r => ∀ s', r = .inl s' →
      MAX_PACKET_SIZE - s'.2 < MAX_PACKET_SIZE - s.2 := by
  unfold gatherTurn
  refine .bind_any fun tmd0 => .bind_any fun tmd1 => .bind_any fun tmd2 => .bind_any fun tmd3 => ?_
  simp only
  split
  · refine .bind_any fun _ => .bind_any fun _ => .pure ?_
    intro s' h
    cases h
  split
  · refine .bind_any fun _ => .bind_any fun _ => .pure ?_
    intro s' h
    cases h
  rename_i hsize
  refine .bind_any fun bytes => ?_
  split
  · apply Prog.Always.pure
    intro s' h
    cases h
  · refine .bind_any fun _ => .bind_any fun _ => .pure ?_
    intro s' h
    cases h
    have hpos := byteCount_pos tmd2
    have hmax : 0 < MAX_PACKET_SIZE := by decide
    have hle := le_txPad { s.1 with
      tdrOffset := s.1.tdrOffset % tlen
      transmitbuffer := bufWrite s.1.transmitbuffer s.2 bytes } (tmd1 &&& ~~~ TX.OWN)
      (s.2 + min (byteCount tmd2) MAX_PACKET_SIZE)
    exact Nat.sub_lt_sub_left (by omega) (Nat.lt_of_lt_of_le (by omega) hle)

/-- One turn of the scatter loop, from the daemon's state, `insize` and
`first`. -/
def scatterTurn (onInterrupt : Callback) (rdra rlen : U32) (tmp : Buf) (len : Nat)
    (s : Daemon × Nat × Bool) : DProg ((Daemon × Nat × Bool) ⊕ (RxExit × Daemon)) := do
  let d := { s.1 with rdrOffset := s.1.rdrOffset % rlen }
  let off := descOff rdra d.rdrOffset
  let rmd0 ← getRamWord off 0
  let rmd1 ← getRamWord off 2
  let rmd2 ← getRamWord off 4
  let rmd3 ← getRamWord off 6
  let addr := descAddr rmd0 rmd1
  if ¬ tst rmd1 RX.OWN then
    let rmd1 := if s.2.2 then rmd1 else rmd1 ||| (RX.BUFF ||| RX.OFLO)
    let d := if s.2.2 then d.csr0Set CSR0.MISS else d.csr0Clr CSR0.RXON
    putRamWord off 2 rmd1
    let d ← rethink onInterrupt d
    pure (.inr (if s.2.2 then .missed else .overrun, d))
  else
    let rmd1 := rmd1 &&& ~~~ RX.OWN
    let d := { d with rdrOffset := d.rdrOffset + 1 }
    let rmd1 := if s.2.2 then rmd1 ||| RX.STP else rmd1
    let size := byteCount rmd2
    ramWriteBlock addr (fun i => tmp (s.2.1 + i)) size
    if s.2.1 + size ≥ len then
      putRamWord off 2 (rmd1 ||| RX.ENP)
      putRamWord off 6 (BitVec.ofNat 16 len)
      let d ← rethink onInterrupt (d.csr0Set CSR0.RINT)
      pure (.inr (.delivered, d))
    else
      putRamWord off 2 rmd1
      putRamWord off 6 rmd3
      pure (.inl (d, s.2.1 + size, false))

theorem rxRing_turn (cb : Callback) (rdra rlen : U32) (tmp : Buf) (len : Nat)
    (s : Daemon × Nat × Bool) : rxRing cb rdra rlen tmp len s.1 s.2.1 s.2.2 =
      scatterTurn cb rdra rlen tmp len s >>=
        Sum.elim (fun s => rxRing cb rdra rlen tmp len s.1 s.2.1 s.2.2) pure := by
  rw [rxRing, scatterTurn]
  simp only [bind_assoc]
  congr 1
  funext rmd0
  congr 1
  funext rmd1
  congr 1
  funext rmd2
  congr 1
  funext rmd3
  split
  · simp only [bind_assoc, pure_bind, Sum.elim_inr]
  · simp only [bind_assoc]
    congr 1
    funext _
    split
    · simp only [bind_assoc, pure_bind, Sum.elim_inr]
    · simp only [bind_assoc, pure_bind, Sum.elim_inl]

/-- A turn that is followed by another one has stored at least a byte, and not
yet the last one. -/
theorem scatterTurn_left (cb : Callback) (rdra rlen : U32) (tmp : Buf) (len : Nat)
    (s : Daemon × Nat × Bool) :
    (scatterTurn cb rdra rlen tmp len s).Always fun r => ∀ s', r = .inl s' →
      len - s'.2.1 < len - s.2.1 := by
  unfold scatterTurn
  refine .bind_any fun rmd0 => .bind_any fun rmd1 => .bind_any fun rmd2 => .bind_any fun rmd3 => ?_
  simp only
  split
  · refine .bind_any fun _ => .bind_any fun _ => .pure ?_
    intro s' h
    cases h
  refine .bind_any fun _ => ?_
  split
  · refine .bind_any fun _ => .bind_any fun _ => .bind_any fun _ => .pure ?_
    intro s' h
    cases h
  · refine .bind_any fun _ => .bind_any fun _ => .pure ?_
    intro s' h
    cases h
    have hpos := byteCount_pos rmd2
    simp only
    omega

/-! ## The two functions with their loops cut off -/

/-- `do_transmit`, given up when the gather loop wants more than `n` turns. -/
def doTransmitWithin (n : Nat) (onInterrupt : Callback) (d : Daemon) :
    DProg (Option (Nat × Daemon)) :=
  if ¬ tst d.csr0 CSR0.TXON then pure (some (0, d))
  else if ¬ ringAccepted d.amTdrTdra d.amTdrTlen then pure (some (0, d))
  else do
    let start := d.tdrOffset % d.amTdrTlen
    let scan ← txScan d.amTdrTdra d.amTdrTlen start
    if ¬ txReady scan.1 then pure (some (0, { d with tdrOffset := start }))
    else
      let addFcs := tst scan.1 TX.ADD_FCS
      let walk ← turns (gatherTurn d.amTdrTdra d.amTdrTlen) n ({ d with tdrOffset := scan.2 }, 0)
      walk.elim (fun _ => pure none) fun walk => do
        let d ← txFinish onInterrupt addFcs walk.1 walk.2
        let d ← rethink onInterrupt (d.csr0Set CSR0.TINT)
        pure (some (1, d))

/-- `gotfunc`, given up when the scatter loop wants more than `n` turns. -/
def gotfuncWithin (n : Nat) (onInterrupt : Callback) (databuf : Buf) (len : Nat) (d : Daemon) :
    DProg (Option (RxExit × Daemon)) :=
  if ¬ tst d.csr0 CSR0.RXON then pure (some (.dropped, d))
  else if len < 20 then pure (some (.dropped, d))
  else if ¬ ringAccepted d.amRdrRdra d.amRdrRlen then pure (some (.dropped, d))
  else do
    let stack ← uninit
    let tmp := rxFrame d stack databuf len
    if ¬ rxAccepts d tmp then pure (some (.dropped, d))
    else do
      let walk ← turns (scatterTurn onInterrupt d.amRdrRdra d.amRdrRlen (appendFcs tmp len)
        (len + 4)) n (d, 0, true)
      walk.elim (fun _ => pure none) fun r => pure (some r)

theorem gather_ends (tdra tlen : U32) (d : Daemon) :
    turns (gatherTurn tdra tlen) 4097 (d, 0) =
      txChain tdra tlen d 0 >>= fun r => pure (.inr r) :=
  turns_eq (fun s : Daemon × Nat => txChain tdra tlen s.1 s.2) (fun s => MAX_PACKET_SIZE - s.2)
    (txChain_turn tdra tlen) (gatherTurn_left tdra tlen) (Nat.lt_succ_self MAX_PACKET_SIZE)

theorem scatter_ends (cb : Callback) (rdra rlen : U32) (tmp : Buf) (len : Nat) (d : Daemon) :
    turns (scatterTurn cb rdra rlen tmp (len + 4)) (len + 5) (d, 0, true) =
      rxRing cb rdra rlen tmp (len + 4) d 0 true >>= fun r => pure (.inr r) :=
  turns_eq (fun s : Daemon × Nat × Bool => rxRing cb rdra rlen tmp (len + 4) s.1 s.2.1 s.2.2)
    (fun s => len + 4 - s.2.1) (rxRing_turn cb rdra rlen tmp (len + 4))
    (scatterTurn_left cb rdra rlen tmp (len + 4)) (Nat.lt_succ_self _)

/-- Whatever the registers are and the memory answers, the gather loop ends
within 4097 turns and the scatter loop within `len + 5`: cut off there, the
two functions never give up and are those of the model. -/
theorem ring_walks_end (cb : Callback) (databuf : Buf) (len : Nat) (d : Daemon) :
    doTransmitWithin 4097 cb d = some <$> doTransmit cb d ∧
      gotfuncWithin (len + 5) cb databuf len d = some <$> gotfunc cb databuf len d := by
  constructor
  · unfold doTransmitWithin doTransmit
    split
    · rfl
    split
    · rfl
    simp only [map_bind]
    congr 1
    funext scan
    split
    · rfl
    · simp only [gather_ends, bind_assoc, pure_bind, map_bind, map_pure]
      rfl
  · unfold gotfuncWithin gotfunc
    split
    · rfl
    split
    · rfl
    split
    · rfl
    simp only [map_bind]
    congr 1
    funext stack
    split
    · rfl
    · simp only [scatter_ends, bind_assoc, pure_bind, map_eq_pure_bind]
      rfl

end A2065
