import A2065.Registers

/-!
# The descriptor-ring walkers, `rings.cpp`

`doTransmit` and `gotfunc` are cut at their loops: the scan for a frame to
send, the chain loop that gathers it, and the ring loop that scatters a
received frame. Each loop runs on the measure that makes the C loop end, so
no bound on the number of iterations is assumed.
-/

namespace A2065

open Bits

/-- Offset of the descriptor with index `i` in the ring at `base`. -/
def descOff (base i : U32) : U32 := base + i * 8

/-- Buffer address of a descriptor, from its first two words. -/
def descAddr (md0 md1 : U16) : U32 :=
  (md0.setWidth 32 ||| ((md1 &&& 0xff).setWidth 32 <<< 16)) &&& RAM_MASK

/-- The size the two's-complement byte count stands for. -/
def byteCount (md2 : U16) : Nat := 65536 - md2.toNat

theorem byteCount_pos (md2 : U16) : 0 < byteCount md2 := by
  have := md2.isLt
  unfold byteCount
  omega

/-- The guard both walkers make on their ring. -/
def ringAccepted (base len : U32) : Bool :=
  len ≠ 0 ∧ ¬ len > 512 ∧ ¬ base + (len - 1) * 8 > RAM_MASK

/-- The first `n` bytes of a buffer. -/
def bufTake (b : Buf) (n : Nat) : List U8 := (List.range n).map b

/-- A buffer with `bytes` copied to index `i`. -/
def bufWrite (b : Buf) (i : Nat) (bytes : List U8) : Buf := fun k =>
  if i ≤ k then (bytes[k - i]?).getD (b k) else b k

/-! ## gotfunc -/

/-- How `gotfunc` left. The C function returns nothing; the model says which
of its exits it took. -/
inductive RxExit where
  /-- receiver off, frame too short, ring refused or frame filtered out -/
  | dropped
  /-- the first descriptor was not owned: MISS -/
  | missed
  /-- a later descriptor was not owned: BUFF and OFLO, receiver off -/
  | overrun
  | delivered
  deriving DecidableEq, Repr

/-- The address filters, on the frame after translation. -/
def rxAccepts (d : Daemon) (tmp : Buf) : Bool :=
  let dstmac := macAt tmp 0
  let srcmac := macAt tmp 6
  let wanted :=
    if tst (tmp 0) 0x01 then
      if ¬ tst d.amMode MODE.PROM ∧ dstmac ≠ BROADCAST_MAC then
        let hash := (~~~ crc32Compute tmp 6) >>> 26
        tst d.amLadrf (1#64 <<< hash.toNat)
      else true
    else tst d.amMode MODE.PROM || dstmac = d.fakemac || dstmac = BROADCAST_MAC
  if tst d.amMode MODE.LOOP then true
  else wanted && ¬ (dstmac = d.fakemac ∧ srcmac = d.fakemac) &&
    ¬ (dstmac = BROADCAST_MAC ∧ srcmac = d.fakemac)

/-- The received frame in `tmp`: copied over what the stack held and, outside
internal loopback, translated. -/
def rxFrame (d : Daemon) (stack databuf : Buf) (len : Nat) : Buf :=
  let tmp : Buf := fun i => if i < len then databuf i else stack i
  if tst d.amMode MODE.LOOP then tmp
  else (mungepacket d.macFakemac d.macRealmac tmp len).2

/-- The four FCS bytes behind the frame, high byte first. -/
def appendFcs (tmp : Buf) (len : Nat) : Buf :=
  let crc := crc32Compute tmp len
  bufWrite tmp len [(crc >>> 24).setWidth 8, (crc >>> 16).setWidth 8,
    (crc >>> 8).setWidth 8, crc.setWidth 8]

/-- The ring loop: `insize` bytes are stored, `len` (with FCS) are to be. -/
def rxRing (onInterrupt : Callback) (rdra rlen : U32) (tmp : Buf) (len : Nat)
    (d : Daemon) (insize : Nat) (first : Bool) : DProg (RxExit × Daemon) := do
  let d := { d with rdrOffset := d.rdrOffset % rlen }
  let off := descOff rdra d.rdrOffset
  let rmd0 ← getRamWord off 0
  let rmd1 ← getRamWord off 2
  let rmd2 ← getRamWord off 4
  let rmd3 ← getRamWord off 6
  let addr := descAddr rmd0 rmd1
  if ¬ tst rmd1 RX.OWN then
    let rmd1 := if first then rmd1 else rmd1 ||| (RX.BUFF ||| RX.OFLO)
    let d := if first then d.csr0Set CSR0.MISS else d.csr0Clr CSR0.RXON
    putRamWord off 2 rmd1
    let d ← rethink onInterrupt d
    pure (if first then .missed else .overrun, d)
  else
    let rmd1 := rmd1 &&& ~~~ RX.OWN
    let d := { d with rdrOffset := d.rdrOffset + 1 }
    let rmd1 := if first then rmd1 ||| RX.STP else rmd1
    let size := byteCount rmd2
    ramWriteBlock addr (fun i => tmp (insize + i)) size
    if insize + size ≥ len then
      putRamWord off 2 (rmd1 ||| RX.ENP)
      putRamWord off 6 (BitVec.ofNat 16 len)
      let d ← rethink onInterrupt (d.csr0Set CSR0.RINT)
      pure (.delivered, d)
    else
      putRamWord off 2 rmd1
      putRamWord off 6 rmd3
      rxRing onInterrupt rdra rlen tmp len d (insize + size) false
termination_by len - insize
decreasing_by
  have := byteCount_pos rmd2
  omega

/-- `gotfunc`: a frame of `len` bytes at `databuf` for the RX ring. Lengths
past `MAX_PACKET_SIZE - 4` overrun `tmp`; the model goes on as if the bytes
behind it were free. -/
def gotfunc (onInterrupt : Callback) (databuf : Buf) (len : Nat) (d : Daemon) :
    DProg (RxExit × Daemon) :=
  if ¬ tst d.csr0 CSR0.RXON then pure (.dropped, d)
  else if len < 20 then pure (.dropped, d)
  else if ¬ ringAccepted d.amRdrRdra d.amRdrRlen then pure (.dropped, d)
  else do
    let stack ← uninit
    let tmp := rxFrame d stack databuf len
    if ¬ rxAccepts d tmp then pure (.dropped, d)
    else rxRing onInterrupt d.amRdrRdra d.amRdrRlen (appendFcs tmp len) (len + 4) d 0 true

/-! ## do_transmit -/

/-- Owned by the chip and the start of a packet. -/
def txReady (tmd1 : U16) : Bool := tst tmd1 TX.OWN && tst tmd1 TX.STP

/-- The scan loop from `start`: iterations `i`, `i + 1`, ..., `n` of them
left. Returns the last TMD1 loaded and its index. -/
def txScanFrom (tdra tlen start : U32) (i : Nat) (tmd1 : U16) (offset : U32) :
    Nat → DProg (U16 × U32)
  | 0 => pure (tmd1, offset)
  | n + 1 => do
      let offset := (start + BitVec.ofNat 32 i) % tlen
      let tmd1 ← getRamWord (descOff tdra offset) 2
      if txReady tmd1 then pure (tmd1, offset)
      else txScanFrom tdra tlen start (i + 1) tmd1 offset n

/-- The descriptor to start from: the current one, or else the next one in
ring order that is ready. -/
def txScan (tdra tlen start : U32) : DProg (U16 × U32) := do
  let tmd1 ← getRamWord (descOff tdra start) 2
  if txReady tmd1 then pure (tmd1, start)
  else txScanFrom tdra tlen start 0 tmd1 start tlen.toNat

/-- The locals of `do_transmit` when the chain loop ends. -/
structure TxWalk where
  off : U32
  tmd1 : U16
  tmd3 : U16
  outsize : Nat
  err : Bool

/-- `while (outsize < 60) transmitbuffer[outsize++] = 0`, on the last
descriptor outside loopback. -/
def txPad (d : Daemon) (tmd1 : U16) (outsize : Nat) : Daemon × Nat :=
  if tst tmd1 TX.ENP ∧ outsize < 60 ∧ ¬ tst d.amMode MODE.LOOP then
    ({ d with transmitbuffer :=
        bufWrite d.transmitbuffer outsize (List.replicate (60 - outsize) 0) }, 60)
  else (d, outsize)

theorem le_txPad (d : Daemon) (tmd1 : U16) (outsize : Nat) :
    outsize ≤ (txPad d tmd1 outsize).2 := by
  unfold txPad
  split
  · simp only
    omega
  · exact Nat.le_refl _

/-- The chain loop: `outsize` bytes are gathered. -/
def txChain (tdra tlen : U32) (d : Daemon) (outsize : Nat) : DProg (TxWalk × Daemon) := do
  let d := { d with tdrOffset := d.tdrOffset % tlen }
  let off := descOff tdra d.tdrOffset
  let tmd0 ← getRamWord off 0
  let tmd1 ← getRamWord off 2
  let tmd2 ← getRamWord off 4
  let tmd3 ← getRamWord off 6
  let addr := descAddr tmd0 tmd1
  if ¬ tst tmd1 TX.OWN then
    let tmd3 := tmd3 ||| (TX.BUFF ||| TX.UFLO)
    let tmd1 := tmd1 ||| TX.ERR
    let d := d.csr0Clr CSR0.TXON
    putRamWord off 2 tmd1
    putRamWord off 6 tmd3
    pure (⟨off, tmd1, tmd3, outsize, true⟩, d)
  else
    let tmd1 := tmd1 &&& ~~~ TX.OWN
    let size := min (byteCount tmd2) MAX_PACKET_SIZE
    if outsize + size > MAX_PACKET_SIZE then
      putRamWord off 2 tmd1
      putRamWord off 6 tmd3
      pure (⟨off, tmd1, tmd3, outsize, false⟩, d)
    else
      let bytes ← ramReadBlock addr size
      let d := { d with transmitbuffer := bufWrite d.transmitbuffer outsize bytes }
      let p := txPad d tmd1 (outsize + size)
      let d := { p.1 with tdrOffset := p.1.tdrOffset + 1 }
      if tst tmd1 TX.ENP then
        pure (⟨off, tmd1, tmd3, p.2, false⟩, d)
      else
        putRamWord off 2 tmd1
        putRamWord off 6 tmd3
        txChain tdra tlen d p.2
termination_by MAX_PACKET_SIZE + 1 - outsize
decreasing_by
  have hpos := byteCount_pos tmd2
  have hmax : 0 < MAX_PACKET_SIZE := by decide
  exact Nat.sub_lt_sub_left (by omega) (Nat.lt_of_lt_of_le (by omega) (le_txPad _ _ _))

/-- The end of `do_transmit` outside loopback: mark a collision, or send. -/
def txWire (addFcs : Bool) (t : TxWalk) (d : Daemon) : DProg Daemon := do
  let coll := tst d.amMode MODE.COLL ||
    (t.outsize ≥ 6 && macAt d.transmitbuffer 0 = d.fakemac)
  if coll then
    putRamWord t.off 2 (t.tmd1 ||| TX.ERR)
    putRamWord t.off 6 (t.tmd3 ||| TX.RTRY)
    pure d
  else
    putRamWord t.off 2 t.tmd1
    putRamWord t.off 6 t.tmd3
    let transmitlen :=
      if tst d.amMode MODE.DTCR ∧ ¬ addFcs then t.outsize - 4 else t.outsize
    let d := { d with transmitbuffer :=
      (mungepacket d.macFakemac d.macRealmac d.transmitbuffer transmitlen).2 }
    ethernetSend (bufTake d.transmitbuffer transmitlen)
    pure d

/-- The end of `do_transmit` in loopback: mark a collision, or receive. -/
def txLoop (onInterrupt : Callback) (t : TxWalk) (d : Daemon) : DProg Daemon := do
  if tst d.amMode MODE.COLL then
    putRamWord t.off 2 (t.tmd1 ||| TX.ERR)
    putRamWord t.off 6 (t.tmd3 ||| TX.RTRY)
    pure d
  else
    putRamWord t.off 2 t.tmd1
    putRamWord t.off 6 t.tmd3
    let r ← gotfunc onInterrupt d.transmitbuffer t.outsize d
    pure r.2

/-- What `do_transmit` does with a gathered chain. -/
def txFinish (onInterrupt : Callback) (addFcs : Bool) (t : TxWalk) (d : Daemon) :
    DProg Daemon := do
  if t.err then pure d
  else if t.outsize < 60 ∧ ¬ tst d.amMode MODE.LOOP then
    putRamWord t.off 6 (t.tmd3 ||| (TX.BUFF ||| TX.UFLO))
    putRamWord t.off 2 (t.tmd1 ||| TX.ERR)
    pure (d.csr0Clr CSR0.TXON)
  else if tst d.amMode MODE.LOOP then txLoop onInterrupt t d
  else txWire addFcs t d

/-- `do_transmit`: one frame off the TX ring. Returns 1 when it took one. -/
def doTransmit (onInterrupt : Callback) (d : Daemon) : DProg (Nat × Daemon) :=
  if ¬ tst d.csr0 CSR0.TXON then pure (0, d)
  else if ¬ ringAccepted d.amTdrTdra d.amTdrTlen then pure (0, d)
  else do
    let start := d.tdrOffset % d.amTdrTlen
    let (tmd1, offset) ← txScan d.amTdrTdra d.amTdrTlen start
    if ¬ txReady tmd1 then pure (0, { d with tdrOffset := start })
    else
      let addFcs := tst tmd1 TX.ADD_FCS
      let (t, d) ← txChain d.amTdrTdra d.amTdrTlen { d with tdrOffset := offset } 0
      let d ← txFinish onInterrupt addFcs t d
      let d ← rethink onInterrupt (d.csr0Set CSR0.TINT)
      pure (1, d)

end A2065
