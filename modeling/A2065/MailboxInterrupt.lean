import A2065.MainDdr3
import A2065.MainDoorbell

/-!
# The interrupt slot of the mailbox daemon

`main_ddr3.cpp` shows the FPGA in `MBX_INT` whether INTR and INEA are set. The
callback and the main loop raise the slot with `assert_mbx_int`, which also
starts a hold-off of `INT_HOLD_ITER` turns. A turn without hold-off compares
the registers with `last_mbx_int` and stores what has changed, without the
lock. Every tenth turn stores a one again as long as `last_mbx_int` is one.

Where the main loop writes the slot without the lock, its steps are single
loads and stores. Elsewhere a step takes several accesses together, although a
frame may come between them: `serve` the load of the registers, the
announcement and the clearing of the request; `settle` and `retry` the test of
a counter and its store; `hold` the test of `int_hold` and the load of CSR0;
`refresh` the test of `last_mbx_int` and the store of a one. Nothing is lost by
that. All a frame changes here is that it adds causes to CSR0 and stores the
constants of `assert_mbx_int`. In the middle of `serve`, `settle`, `retry` or
`refresh` it leaves what it leaves before or behind the whole step. In the
middle of `hold` it leaves what it leaves behind the comparison: if it has
raised the slot, the comparison finds nothing to store, and otherwise CSR0 has
the line it had. In the middle of `drain`, between taking a value and the lock,
only the queue can change, at its other end. The stores of `assert_mbx_int` are
one step for the same reason. The answers to the requests are those of
`Mailbox` and left out here.
-/

namespace A2065

open Bits

/-- The slot of the register requests. -/
def MBX_REQ_OFF : Nat := 0x8000

/-- The slot the FPGA takes the interrupt line from. -/
def MBX_INT_OFF : Nat := 0x8020

/-! The variables a callback stores to are kept with the slots, behind the
window of `MAP_SIZE` bytes. -/

/-- `last_mbx_int` -/
def LAST_MBX_INT : Nat := 0x10000

/-- `int_hold` -/
def INT_HOLD : Nat := 0x10001

/-- `tdmd_retry` -/
def TDMD_RETRY : Nat := 0x10002

/-- What `int_hold` starts from. -/
def INT_HOLD_ITER : U64 := 100

/-- `assert_mbx_int`. The slot is stored three times over. -/
def assertMbxInt : DProg Unit := do
  wr64 MBX_INT_OFF 1
  wr64 MBX_INT_OFF 1
  wr64 MBX_INT_OFF 1
  wr64 LAST_MBX_INT 1
  wr64 INT_HOLD INT_HOLD_ITER

/-- The counter never passes 16, so the guarded store is a store. -/
def scheduleTdmdRetry : DProg Unit := wr64 TDMD_RETRY 16

/-- The callbacks of `main_ddr3.cpp`: an interrupt is asserted, and a transmit
demand that found nothing is tried again. -/
def mailbox : Wiring where
  onInterrupt :=
    { call := fun _ => assertMbxInt
      signals := fun _ => .bind (.perform trivial) fun _ => .bind (.perform trivial) fun _ =>
        .bind (.perform trivial) fun _ => .bind (.perform trivial) fun _ => .perform trivial }
  afterTransmit r :=
    if r = 0 then { call := fun _ => scheduleTdmdRetry, signals := fun _ => .perform trivial }
    else .null

/-! ## The main loop -/

/-- Where the main loop is. -/
inductive TurnPc where
  | poll
  /-- `MBX_REQ` has been read, nothing answered yet -/
  | serve (req : U64)
  /-- answered and cleared, the write still to be made -/
  | apply (req : U64)
  /-- behind the lock of a register write, with what was found there -/
  | settle (doInitDelay intCleared : Bool)
  | drain
  | retry
  | hold
  /-- `int_hold` has been read, the store of one less is due -/
  | count (rest : U64)
  /-- CSR0 has been read -/
  | compare (val : U64)
  /-- the slot has been stored, `last_mbx_int` not yet -/
  | store (val : U64)
  | refresh
  deriving DecidableEq

/-- The daemon of `main_ddr3.cpp`, with the main loop at one of its points. -/
structure Ddr3 where
  d : Daemon
  w : World
  deferred : RingBuffer U16 8
  intRefresh : Nat
  main : TurnPc

/-- What can happen next; every interleaving is allowed. -/
inductive TurnStep where
  | main
  /-- The receive thread calls `gotfunc`. -/
  | recv (rxbuf : Buf) (len : Nat)
  /-- The FPGA posts a request into an empty slot. -/
  | post (req : U64)
  /-- `service_bridge_safe` is called from within `boardram_xfer`. -/
  | safe
  | host (ram : Boardram) (stack : Buf)

namespace Ddr3

/-- The interrupt slot. -/
def int (s : Ddr3) : U64 := s.w.slots MBX_INT_OFF

/-- What the main loop takes to be in the slot. -/
def last (s : Ddr3) : U64 := s.w.slots LAST_MBX_INT

/-- The turns for which the slot is not compared with CSR0. -/
def intHold (s : Ddr3) : U64 := s.w.slots INT_HOLD

/-- The turns in which a transmission is still to be tried. -/
def tdmdRetry (s : Ddr3) : U64 := s.w.slots TDMD_RETRY

/-- A request waits. -/
def pending (s : Ddr3) : Bool := tst (s.w.slots MBX_REQ_OFF) MBX_PENDING

/-- A store of the main loop. -/
def put (off : Nat) (v : U64) (s : Ddr3) : Ddr3 := { s with w := ((wr64 off v).exec s.w).2 }

/-- The main loop calls `assert_mbx_int`. -/
def assert (s : Ddr3) : Ddr3 := { s with w := (assertMbxInt.exec s.w).2 }

/-- An operation of the daemon, run to its end. -/
def make (o : Op) (s : Ddr3) : Ddr3 :=
  { s with d := ((o.prog mailbox s.d).exec s.w).1, w := ((o.prog mailbox s.d).exec s.w).2 }

/-- `service_bridge` up to the answer: an interrupt that is read, or that the
write may be about to raise, goes out first. -/
def announce (req : U64) (s : Ddr3) : Ddr3 :=
  let result := if reqRw req then 0 else chipWget (reqAddr req) s.d
  let s :=
    if ¬ reqRw req ∧ reqAddr req = 0 ∧ tst result CSR0.INTR ∧ tst result CSR0.INEA then s.assert
    else s
  if reqRw req ∧ reqAddr req = 0 ∧ tst (reqData req) (CSR0.INIT ||| CSR0.TDMD ||| CSR0.STRT) ∧
      tst (reqData req ||| s.d.csr0) CSR0.INEA then s.assert
  else s

/-- A register write and what is found behind it, both under the lock. -/
def writeRegister (addr : U8) (data : U16) (doInitDelay : Bool) (s : Ddr3) : Ddr3 :=
  let s := s.make (.wput addr data)
  let intr := tst s.d.csr0 CSR0.INTR
  { s with main := .settle (addr == 0 && doInitDelay && intr) (addr == 0 && !intr) }

/-- Behind the lock: another announcement after INIT, and an interrupt that is
acknowledged cuts the hold-off short. -/
def afterWrite (doInitDelay intCleared : Bool) (s : Ddr3) : Ddr3 :=
  let s := if doInitDelay then s.assert else s
  if intCleared ∧ 0 < s.intHold then s.put INT_HOLD 1 else s

/-- `do_transmit` under the lock. -/
def transmit (s : Ddr3) : Nat × Ddr3 :=
  let r := (doTransmit mailbox.onInterrupt s.d).exec s.w
  (r.1.1, { s with d := r.1.2, w := r.2 })

/-- The retry of a transmission that found nothing to send. -/
def retryTransmit (s : Ddr3) : Ddr3 :=
  if 0 < s.tdmdRetry then
    let s := s.put TDMD_RETRY (s.tdmdRetry - 1)
    if tst s.d.csr0 CSR0.TXON then
      let r := s.transmit
      if r.1 ≠ 0 then r.2.put TDMD_RETRY 0 else r.2
    else s.put TDMD_RETRY 0
  else s

/-- An asserted slot is stored again every tenth turn. -/
def refreshInt (s : Ddr3) : Ddr3 :=
  if s.last = 1 then
    if s.intRefresh + 1 ≥ 10 then { s.put MBX_INT_OFF 1 with intRefresh := 0 }
    else { s with intRefresh := s.intRefresh + 1 }
  else { s with intRefresh := 0 }

/-- The main loop goes on to its next point. -/
def stepMain (s : Ddr3) : Ddr3 :=
  match s.main with
  | .poll => { s with main := if s.pending then .serve (s.w.slots MBX_REQ_OFF) else .drain }
  | .serve req =>
      { (s.announce req).put MBX_REQ_OFF 0 with main := if reqRw req then .apply req else .drain }
  | .apply req => s.writeRegister (reqAddr req) (reqData req) (tst (reqData req) CSR0.INIT)
  | .settle doInitDelay intCleared =>
      { s.afterWrite doInitDelay intCleared with main := .drain }
  | .drain =>
      match s.deferred.pop with
      | none => { s with main := .retry }
      | some (saved, q) => { s.writeRegister 0 saved false with deferred := q }
  | .retry => { s.retryTransmit with main := .hold }
  | .hold => { s with
      main := if 0 < s.intHold then .count (s.intHold - 1) else .compare (intState s.d) }
  | .count rest => { s.put INT_HOLD rest with main := .refresh }
  | .compare val =>
      if val ≠ s.last then { s.put MBX_INT_OFF val with main := .store val }
      else { s with main := .refresh }
  | .store val => { s.put LAST_MBX_INT val with main := .refresh }
  | .refresh => { s.refreshInt with main := .poll }

/-- `service_bridge_safe`, but for the value it answers. -/
def serviceBridgeSafe (s : Ddr3) : Ddr3 :=
  let req := s.w.slots MBX_REQ_OFF
  if tst req MBX_PENDING then
    let s := s.put MBX_REQ_OFF 0
    if reqRw req then
      if reqAddr req = A2065_RAP_OFF then s.make (.wput (reqAddr req) (reqData req))
      else if reqAddr req = 0 then { s with deferred := s.deferred.push (reqData req) }
      else s
    else s
  else s

/-- One step. -/
def step (s : Ddr3) : TurnStep → Ddr3
  | .main => s.stepMain
  | .recv rxbuf len => s.make (.recv rxbuf len)
  | .post req => if s.pending then s else s.put MBX_REQ_OFF req
  | .safe => s.serviceBridgeSafe
  | .host ram stack => { s with w.ram := ram, w.stack := stack }

/-- The steps in turn. -/
def run (steps : List TurnStep) (s : Ddr3) : Ddr3 := steps.foldl step s

/-- Where `main` enters its loop: the slots are cleared, the registers reset. -/
def start (d : Daemon) (w : World) : Ddr3 where
  d := registersReset d
  w := { w with slots := fun off =>
    if off = MBX_REQ_OFF ∨ off = MBX_INT_OFF ∨ off = INT_HOLD ∨ off = TDMD_RETRY then 0#64
    -- -1
    else if off = LAST_MBX_INT then 0xFFFFFFFFFFFFFFFF#64 else w.slots off }
  deferred := (Mailbox.start d w).deferred
  intRefresh := 0
  main := .poll

end Ddr3

end A2065
