import A2065.Operations
import A2065.Lib.RingBuffer

/-!
# The mailbox daemon, `main_ddr3.cpp`

The FPGA posts one register request at a time in `MBX_REQ`. The main loop
takes it with `service_bridge`. While a register write, a transmission or a
reception waits for boardram, `boardram_xfer` lets `service_bridge_safe` take
requests instead; of these it applies RAP writes and defers RDP writes to the
next turn of the main loop.

The operations run under the register lock. One step makes a whole operation,
at its start; it is in progress during the steps of `service_bridge_safe` that
follow. No operation looks at `rap` after its start, so a RAP write in between
is the same before and after it. Of the registers `chip_wget` shows, an
operation may still be about to change CSR0 and CSR3, so a read in between
finds there whatever the step says.

The interrupt slot, which the daemon writes and never reads, the retry count
of failed transmissions and the debug output are left out.
-/

namespace A2065

open Bits

/-- The lowest bit of a request. -/
def MBX_PENDING : U64 := 1

/-- `(req >> 1) & 1` -/
def reqRw (req : U64) : Bool := tst (req >>> 1) 1

/-- `(req >> 2) & 0xFF` -/
def reqAddr (req : U64) : U8 := ((req >>> 2) &&& 0xFF).setWidth 8

/-- `(req >> 10) & 0xFFFF` -/
def reqData (req : U64) : U16 := ((req >>> 10) &&& 0xFFFF).setWidth 16

/-- What the 68k asks for. -/
inductive Request where
  | read (addr : U8)
  | write (addr : U8) (data : U16)
  deriving DecidableEq

/-- What a request word stands for. -/
def Request.ofWord (req : U64) : Request :=
  if reqRw req then .write (reqAddr req) (reqData req) else .read (reqAddr req)

/-- Where the main loop is. -/
inductive LoopPc where
  | poll
  /-- `MBX_REQ` has been read, nothing answered yet -/
  | serve (req : U64)
  /-- answered and cleared, the write still to be made -/
  | apply (req : U64)
  | drain
  /-- a deferred value is taken from the queue, the lock is not yet -/
  | saved (data : U16)
  | retry
  deriving DecidableEq

/-- The request the main loop has in hand. -/
def LoopPc.inHand : LoopPc → Option U64
  | .serve req | .apply req => some req
  | _ => none

/-- The deferred write it has in hand. -/
def LoopPc.taken : LoopPc → Option U16
  | .saved data => some data
  | _ => none

/-- The daemon, its request slot and the queue of deferred writes, with the
requests and answers so far. -/
structure Mailbox where
  d : Daemon
  w : World
  mbxReq : U64
  deferred : RingBuffer U16 8
  main : LoopPc
  /-- The request `service_bridge_safe` has read. -/
  safe : Option U64
  /-- The requests posted so far. -/
  posted : List Request
  /-- The requests answered so far, with what went to `MBX_RSP`. -/
  answers : List (Request × U16)
  /-- What happened so far besides register accesses. -/
  ops : List Move

/-- What can happen next; every interleaving is allowed. -/
inductive Step where
  /-- The FPGA posts a request into an empty slot. -/
  | post (req : U64)
  /-- The main loop goes on; `again` says whether a transmission is due for
  a retry. -/
  | main (again : Bool)
  | safePoll
  /-- `csr0` and `csr3` are what the operation in progress has there. -/
  | safeServe (csr0 csr3 : U16)
  /-- The receive thread calls `gotfunc`. -/
  | recv (rxbuf : Buf) (len : Nat)
  | host (ram : Boardram) (stack : Buf)

namespace Mailbox

/-- An empty slot and an empty queue. -/
def start (d : Daemon) (w : World) : Mailbox where
  d := d
  w := w
  mbxReq := 0
  deferred := ⟨fun _ => 0, 0, 0, by decide, by decide⟩
  main := .poll
  safe := none
  posted := []
  answers := []
  ops := []

/-- The daemon and its world. -/
def sys (s : Mailbox) : Sys := (s.d, s.w)

/-- A request waits. -/
def pending (s : Mailbox) : Bool := tst s.mbxReq MBX_PENDING

/-- The daemon makes the move `m`. -/
def make (W : Wiring) (m : Move) (s : Mailbox) : Mailbox :=
  { s with d := (m.apply W s.sys).1, w := (m.apply W s.sys).2 }

/-- `MBX_RSP` is written and `MBX_REQ` cleared. -/
def answer (req : U64) (d : Daemon) (s : Mailbox) : Mailbox :=
  { s with
    mbxReq := 0
    answers := s.answers ++ [(.ofWord req, if reqRw req then 0 else chipWget (reqAddr req) d)] }

/-- An operation that is no register access. -/
def other (W : Wiring) (m : Move) (s : Mailbox) : Mailbox :=
  { s.make W m with ops := s.ops ++ [m] }

/-- The main loop goes on to its next point. -/
def stepMain (W : Wiring) (again : Bool) (s : Mailbox) : Mailbox :=
  match s.main with
  | .poll => { s with main := if s.pending then .serve s.mbxReq else .drain }
  | .serve req => { s.answer req s.d with main := if reqRw req then .apply req else .drain }
  | .apply req =>
      { s.make W (.op (.wput (reqAddr req) (reqData req))) with main := .drain }
  | .drain =>
      match s.deferred.pop with
      | none => { s with main := .retry }
      | some (saved, q) => { s with deferred := q, main := .saved saved }
  | .saved data => { s.make W (.op (.wput A2065_RDP_OFF data)) with main := .drain }
  | .retry => { if again then s.other W (.op .transmit) else s with main := .poll }

/-- The second half of `service_bridge_safe`. -/
def serveSafe (W : Wiring) (csr0 csr3 : U16) (req : U64) (s : Mailbox) : Mailbox :=
  let s := { s.answer req ((s.d.setCsr 0 csr0).setCsr 3 csr3) with safe := none }
  if reqRw req then
    if reqAddr req = A2065_RAP_OFF then s.make W (.op (.wput (reqAddr req) (reqData req)))
    else if reqAddr req = 0 then { s with deferred := s.deferred.push (reqData req) }
    else s
  else s

/-- A request of the 68k side: one of the two ports. -/
def posts (s : Mailbox) (req : U64) : Bool :=
  !s.pending && tst req MBX_PENDING &&
    (reqAddr req == A2065_RDP_OFF || reqAddr req == A2065_RAP_OFF)

/-- One step. The FPGA posts only into an empty slot. -/
def step (W : Wiring) (s : Mailbox) : Step → Mailbox
  | .post req =>
      if s.posts req then { s with mbxReq := req, posted := s.posted ++ [.ofWord req] } else s
  | .main again => s.stepMain W again
  | .safePoll => if s.pending ∧ s.safe = none then { s with safe := some s.mbxReq } else s
  | .safeServe csr0 csr3 =>
      match s.safe with
      | none => s
      | some req => s.serveSafe W csr0 csr3 req
  | .recv rxbuf len => s.other W (.op (.recv rxbuf len))
  | .host ram stack => s.other W (.host ram stack)

/-- The steps in turn. -/
def run (W : Wiring) (steps : List Step) (s : Mailbox) : Mailbox := steps.foldl (step W) s

end Mailbox

end A2065
