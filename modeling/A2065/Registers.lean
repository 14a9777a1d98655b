import A2065.Effects
import A2065.Mac
import A2065.Crc32

/-!
# The Am7990 registers, `registers.cpp`

`Daemon` is the daemon's private memory: the statics of `registers.cpp`,
`mac.cpp` and `rings.cpp`. Its functions take the state and return the new
one inside `DProg`, so a call is explicit about what it changes and about
every access the other parties can see. Debug output is left out.
-/

namespace A2065

open Bits

/-- The static variables of `registers.cpp`, `rings.cpp` and `mac.cpp`. -/
structure Daemon where
  /-- `csr[RAP_SIZE]`; only indices below `RAP_SIZE` are used. -/
  csr : Nat → U16
  rap : U8
  amInitialized : Bool
  amMode : U16
  amLadrf : U64
  amRdrRlen : U32
  amRdrRdra : U32
  amTdrTlen : U32
  amTdrTdra : U32
  /-- `int` counters, as the `uint32_t` every use converts them to. -/
  tdrOffset : U32
  rdrOffset : U32
  /-- The station address of `registers.cpp`. -/
  fakemac : Mac
  /-- The two addresses of `mac.cpp`. -/
  macFakemac : Mac
  macRealmac : Mac
  transmitbuffer : Buf

namespace Daemon

/-- Static storage before `main` runs. -/
def boot : Daemon where
  csr := fun _ => 0
  rap := 0
  amInitialized := false
  amMode := 0
  amLadrf := 0
  amRdrRlen := 0
  amRdrRdra := 0
  amTdrTlen := 0
  amTdrTdra := 0
  tdrOffset := 0
  rdrOffset := 0
  fakemac := .replicate 6 0
  macFakemac := .replicate 6 0
  macRealmac := .replicate 6 0
  transmitbuffer := fun _ => 0

/-- The same, with the station addresses the start-up code has set. -/
def bootWith (fakemac macFakemac macRealmac : Mac) : Daemon :=
  { boot with fakemac, macFakemac, macRealmac }

/-- `csr[0]` -/
def csr0 (d : Daemon) : U16 := d.csr 0

/-- `csr[n] = v` -/
def setCsr (d : Daemon) (n : Nat) (v : U16) : Daemon :=
  { d with csr := Function.update d.csr n v }

/-- `registers_csr0_set` -/
def csr0Set (d : Daemon) (v : U16) : Daemon := d.setCsr 0 (d.csr0 ||| v)

/-- `registers_csr0_clr` -/
def csr0Clr (d : Daemon) (v : U16) : Daemon := d.setCsr 0 (d.csr0 &&& ~~~ v)

end Daemon

/-! ## Callbacks -/

/-- A `void (*)(void)` callback. It may signal the FPGA and nothing else: all
three daemons register callbacks that only store to their slots. -/
structure Callback where
  call : Daemon → DProg Unit
  signals : ∀ d, (call d).Only Eff.IsSignal

/-- A callback pointer that was never registered. -/
def Callback.null : Callback := ⟨fun _ => pure (), fun _ => .pure _⟩

/-- The interrupt-cause bits of CSR0. -/
def CSR0.CAUSES : U16 :=
  BABL ||| MISS ||| MERR ||| RINT ||| TINT ||| IDON

/-- CSR0 with INTR recomputed. -/
def rethinkCsr0 (c : U16) : U16 :=
  let c := c &&& ~~~ CSR0.INTR
  if tst c CSR0.CAUSES then c ||| CSR0.INTR else c

/-- `rethink`: the summary bits follow the others, and an enabled interrupt calls
the callback. -/
def rethink (onInterrupt : Callback) (d : Daemon) : DProg Daemon := do
  let d := d.setCsr 0 (rethinkCsr0 d.csr0)
  if tst d.csr0 CSR0.INTR ∧ tst d.csr0 CSR0.INEA then
    onInterrupt.call d
  pure d

/-! ## Initialization -/

/-- The end of `chip_init`: ring addresses are reduced to boardram and both rings
start over. -/
def chipInitMask (d : Daemon) : Daemon :=
  { d with
    amRdrRdra := d.amRdrRdra &&& RAM_MASK
    amTdrTdra := d.amTdrTdra &&& RAM_MASK
    tdrOffset := 0
    rdrOffset := 0 }

/-- `chip_init`: the initialization block is read word by word, in the order of
the source. -/
def chipInit (d : Daemon) : DProg Daemon := do
  let iaddr : U32 := ((d.csr 2 &&& 0xff).setWidth 32 <<< 16) ||| (d.csr 1).setWidth 32
  let off := iaddr &&& RAM_MASK
  let mode ← getRamWord off 0
  let l3 ← getRamWord off 14
  let l2 ← getRamWord off 12
  let l1 ← getRamWord off 10
  let l0 ← getRamWord off 8
  let rhi ← getRamWord off 18
  let rlo ← getRamWord off 16
  let rdr : U32 := (rhi.setWidth 32 <<< 16) ||| rlo.setWidth 32
  let thi ← getRamWord off 22
  let tlo ← getRamWord off 20
  let tdr : U32 := (thi.setWidth 32 <<< 16) ||| tlo.setWidth 32
  let m0 ← getRamByte (off + 3)
  let m1 ← getRamByte (off + 2)
  let m2 ← getRamByte (off + 5)
  let m3 ← getRamByte (off + 4)
  let m4 ← getRamByte (off + 7)
  let m5 ← getRamByte (off + 6)
  let fakemac : Mac := #v[m0, m1, m2, m3, m4, m5]
  pure (chipInitMask
    { d with
      amMode := mode
      amLadrf := (l3.setWidth 64 <<< 48) ||| (l2.setWidth 64 <<< 32) |||
        (l1.setWidth 64 <<< 16) ||| l0.setWidth 64
      amRdrRlen := 1#32 <<< ((rdr >>> 29) &&& 7)
      amTdrTlen := 1#32 <<< ((tdr >>> 29) &&& 7)
      amRdrRdra := rdr &&& 0x00fffff8
      amTdrTdra := tdr &&& 0x00fffff8
      fakemac := fakemac
      -- `mac_set_fakemac(fakemac)`
      macFakemac := fakemac })

/-! ## Register access -/

/-- `chip_wget`: the value a 68k register read returns. -/
def chipWget (regOffset : U8) (d : Daemon) : U16 :=
  if regOffset = A2065_RAP_OFF then d.rap.setWidth 16
  else if d.rap.toNat ≥ RAP_SIZE then 0
  else
    let v := d.csr d.rap.toNat
    let v := if d.rap = 0 ∧ tst v (CSR0.BABL ||| CSR0.CERR ||| CSR0.MISS ||| CSR0.MERR)
      then v ||| CSR0.ERR else v
    let v := if d.rap = 88 then 1#16 <<< 12 else v
    if d.rap = 89 then 0x3003 else v

/-- The bits a write of 1 acknowledges. -/
def CSR0.ACKS : U16 :=
  IDON ||| TINT ||| RINT ||| MERR ||| MISS ||| CERR ||| BABL

/-- The first four statements of `case 0`: CSR0 merged with the value
written. -/
def csr0Merge (oreg v : U16) : U16 :=
  let c := oreg &&& ~~~ CSR0.INEA
  let c := c ||| (v &&& CSR0.INEA)
  let c := c ||| (v &&& (CSR0.INIT ||| CSR0.STRT ||| CSR0.STOP ||| CSR0.TDMD))
  let c := c &&& ~~~ (v &&& CSR0.ACKS)
  c &&& ~~~ CSR0.ERR

/-- The receiver and transmitter come on unless the mode disables them. -/
def startEngines (d : Daemon) : Daemon :=
  let d := d.csr0Clr CSR0.STOP
  let d := if tst d.amMode MODE.DTX then d else d.csr0Set CSR0.TXON
  if tst d.amMode MODE.DRX then d else d.csr0Set CSR0.RXON

/-- The `STOP` / `STRT` / `INIT` chain of `case 0`. -/
def csr0Command (oreg : U16) (d : Daemon) : DProg Daemon :=
  if tst d.csr0 CSR0.STOP ∧ ¬ tst oreg CSR0.STOP then
    pure ((d.setCsr 0 CSR0.STOP).setCsr 3 0)
  else if tst d.csr0 CSR0.STRT ∧ ¬ tst oreg CSR0.STRT ∧
      tst oreg (CSR0.STOP ||| CSR0.INIT) then do
    let d := startEngines d
    if tst d.csr0 CSR0.INIT ∧ ¬ tst oreg CSR0.INIT then
      let d ← chipInit d
      pure { d.csr0Set CSR0.IDON with amInitialized := true }
    else pure d
  else if tst d.csr0 CSR0.INIT ∧ ¬ tst oreg CSR0.INIT ∧ tst oreg CSR0.STOP then do
    let d ← chipInit d
    let d := (d.csr0Set CSR0.IDON).csr0Clr (CSR0.RXON ||| CSR0.TXON ||| CSR0.STOP)
    pure ({ d with amInitialized := true }.setCsr 3 0)
  else pure d

/-- The transmit demand of `case 0`. -/
def csr0Demand (onTransmit : Daemon → DProg Daemon) (d : Daemon) : DProg Daemon :=
  if tst d.csr0 CSR0.TDMD then do
    let d ← if d.amInitialized then
        onTransmit (if tst d.csr0 CSR0.TXON then d else startEngines d)
      else pure d
    pure (d.csr0Clr CSR0.TDMD)
  else pure d

/-- `case 0` of the register switch. -/
def wputCsr0 (onInterrupt : Callback) (onTransmit : Daemon → DProg Daemon)
    (v : U16) (d : Daemon) : DProg Daemon := do
  let oreg := d.csr0
  let d ← csr0Command oreg (d.setCsr 0 (csr0Merge oreg v))
  let d ← csr0Demand onTransmit d
  rethink onInterrupt d

/-- The other cases of the register switch. -/
def wputOther (v : U16) (d : Daemon) : Daemon :=
  match d.rap.toNat with
  | 1 => if tst d.csr0 CSR0.STOP then d.setCsr 1 (v &&& ~~~ 1) else d
  | 2 => if tst d.csr0 CSR0.STOP then d.setCsr 2 (v &&& 0x00ff) else d
  | 3 => if tst d.csr0 CSR0.STOP then d.setCsr 3 (v &&& 7) else d
  | 8 => { d with amLadrf := (d.amLadrf &&& 0x0000ffffffffffff#64) ||| (v.setWidth 64 <<< 48) }
  | 9 => { d with amLadrf := (d.amLadrf &&& 0xffff0000ffffffff#64) ||| (v.setWidth 64 <<< 32) }
  | 10 => { d with amLadrf := (d.amLadrf &&& 0xffffffff0000ffff#64) ||| (v.setWidth 64 <<< 16) }
  | 11 => { d with amLadrf := (d.amLadrf &&& 0xffffffffffff0000#64) ||| v.setWidth 64 }
  | 12 => { d with fakemac := (d.fakemac.set 1 ((v >>> 8).setWidth 8)).set 0 (v.setWidth 8) }
  | 13 => { d with fakemac := (d.fakemac.set 3 ((v >>> 8).setWidth 8)).set 2 (v.setWidth 8) }
  | 14 => { d with fakemac := (d.fakemac.set 5 ((v >>> 8).setWidth 8)).set 4 (v.setWidth 8) }
  | 15 => { d with amMode := v }
  | 24 => chipInitMask { d with amRdrRdra := (d.amRdrRdra &&& 0xffff0000#32) ||| v.setWidth 32 }
  | 25 => chipInitMask
      { d with amRdrRdra := (d.amRdrRdra &&& 0x0000ffff#32) ||| (v.setWidth 32 <<< 16) }
  | 30 => chipInitMask { d with amTdrTdra := (d.amTdrTdra &&& 0xffff0000#32) ||| v.setWidth 32 }
  | 31 => chipInitMask
      { d with amTdrTdra := (d.amTdrTdra &&& 0x0000ffff#32) ||| (v.setWidth 32 <<< 16) }
  | 76 => { d with amRdrRlen := (- v.signExtend 32) &&& 0xffff }
  | 78 => { d with amTdrTlen := (- v.signExtend 32) &&& 0xffff }
  | n => if 4 ≤ n then d.setCsr n v else d

/-- `chip_wput`: a 68k register write. -/
def chipWput (onInterrupt : Callback) (onTransmit : Daemon → DProg Daemon)
    (regOffset : U8) (v : U16) (d : Daemon) : DProg Daemon :=
  if regOffset = A2065_RAP_OFF then pure { d with rap := (v &&& 0x7f).setWidth 8 }
  else if d.rap.toNat ≥ RAP_SIZE then pure d
  else if d.rap = 0 then wputCsr0 onInterrupt onTransmit v d
  else pure (wputOther v d)

/-- `registers_reset`. What the last initialization block set stays. -/
def registersReset (d : Daemon) : Daemon :=
  { d with
    csr := fun n => if n = 0 then CSR0.STOP else if n = 4 then 0x0115 else 0
    rap := 0
    amInitialized := false
    tdrOffset := 0
    rdrOffset := 0 }

end A2065
