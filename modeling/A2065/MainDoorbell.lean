import A2065.Operations

/-!
# The doorbell daemon, `main_doorbell.cpp`

Two threads share the registers and the DDR3 slots. Atomic are a section
between `registers_lock` and `registers_unlock` (the lock is recursive, so
the callbacks run inside the section of their caller), one `rd64` and one
`wr64`. `Doorbell.step` makes one atomic step of a thread, of the FPGA or of
the host.
-/

namespace A2065

open Bits

/-- The slot of the commands. -/
def DDR3_CMD_OFF : Nat := 0x8000

/-- The slot of the packed registers. -/
def DDR3_CSR_OFF : Nat := 0x8010

/-- The slot of the interrupt line. -/
def DDR3_INT_OFF : Nat := 0x8018

/-- The lowest bit of a command. -/
def DDR3_CMD_PENDING_BIT : U64 := 1

/-- The register a command selects. -/
def cmdRap (cmd : U64) : U8 := ((cmd >>> 1) &&& 0x7F).setWidth 8

/-- The value it writes. -/
def cmdData (cmd : U64) : U16 := ((cmd >>> 8) &&& 0xFFFF).setWidth 16

/-! ## Publication and callbacks -/

/-- CSR0 to CSR3 in one word. -/
def packCsr (d : Daemon) : U64 :=
  (d.csr 0).setWidth 64 ||| (d.csr 1).setWidth 64 <<< 16 ||| (d.csr 2).setWidth 64 <<< 32 |||
    (d.csr 3).setWidth 64 <<< 48

/-- The interrupt line. -/
def intState (d : Daemon) : U64 :=
  if tst d.csr0 CSR0.INTR ∧ tst d.csr0 CSR0.INEA then 1 else 0

/-- Inside a locked section, snapshot and store are one. -/
def pushCsrShadow (d : Daemon) : DProg Unit := wr64 DDR3_CSR_OFF (packCsr d)

/-- The same for the interrupt line. -/
def updateIntState (d : Daemon) : DProg Unit := wr64 DDR3_INT_OFF (intState d)

/-- `on_interrupt_cb` publishes both words. -/
def onInterruptCb : Callback where
  call d := do
    pushCsrShadow d
    updateIntState d
  signals _ := .bind (.perform trivial) fun _ => .perform trivial

/-- `on_transmit_cb` publishes after `do_transmit`, whatever it returned. -/
def doorbell : Wiring := ⟨onInterruptCb, fun _ => onInterruptCb⟩

/-- The locked section of the main loop: select the register, write it. -/
def handleCommand (cmd : U64) (d : Daemon) : DProg Daemon := do
  let d ← chipWput doorbell.onInterrupt doorbell.onTransmit A2065_RAP_OFF
    ((cmdRap cmd).setWidth 16) d
  chipWput doorbell.onInterrupt doorbell.onTransmit A2065_RDP_OFF (cmdData cmd) d

/-! ## Threads -/

/-- The four steps of `push_csr_shadow(); update_int_state();` outside the
lock. A snapshot is held until it is stored. -/
inductive Publish where
  | snapCsr
  | writeCsr (packed : U64)
  | snapInt
  | writeInt (val : U64)
  deriving DecidableEq

/-- Where the main loop is. -/
inductive MainPc where
  | poll
  | taken (cmd : U64)
  | drain
  | publish (p : Publish)
  deriving DecidableEq

/-- Where the receive thread is. -/
inductive RxPc where
  | recv
  | got (rxbuf : Buf) (len : Nat)
  | publish (p : Publish)

/-- The daemon of `main_doorbell.cpp` with its two threads. -/
structure Doorbell where
  d : Daemon
  w : World
  main : MainPc
  rx : RxPc

/-- The next step of a publication, `none` when it is over. -/
def Publish.step (d : Daemon) (w : World) : Publish → Option Publish × World
  | .snapCsr => (some (.writeCsr (packCsr d)), w)
  | .writeCsr packed => (some .snapInt, ((wr64 DDR3_CSR_OFF packed).exec w).2)
  | .snapInt => (some (.writeInt (intState d)), w)
  | .writeInt val => (none, ((wr64 DDR3_INT_OFF val).exec w).2)

/-- What can happen next; every interleaving is allowed. -/
inductive Act where
  | main
  /-- what `ethernet_recv` returns if the thread is at it -/
  | rx (rxbuf : Buf) (len : Nat)
  /-- the FPGA posts a command into an empty slot -/
  | post (cmd : U64)
  | host (ram : Boardram) (stack : Buf)

namespace Doorbell

/-- The main loop: poll, run the command under the lock, clear the slot, publish
without the lock. -/
def stepMain (s : Doorbell) : Doorbell :=
  match s.main with
  | .poll =>
      let cmd := s.w.slots DDR3_CMD_OFF
      if tst cmd DDR3_CMD_PENDING_BIT then { s with main := .taken cmd } else s
  | .taken cmd =>
      let r := (handleCommand cmd s.d).exec s.w
      { s with d := r.1, w := r.2, main := .drain }
  | .drain => { s with w := ((wr64 DDR3_CMD_OFF 0).exec s.w).2, main := .publish .snapCsr }
  | .publish p =>
      let r := p.step s.d s.w
      { s with w := r.2, main := r.1.elim .poll .publish }

/-- The receive thread: wait for a frame, hand it to `gotfunc` under the lock,
publish without it. -/
def stepRx (rxbuf : Buf) (len : Nat) (s : Doorbell) : Doorbell :=
  match s.rx with
  | .recv => if 0 < len then { s with rx := .got rxbuf len } else s
  | .got rxbuf len =>
      let r := (gotfunc doorbell.onInterrupt rxbuf len s.d).exec s.w
      { s with d := r.1.2, w := r.2, rx := .publish .snapCsr }
  | .publish p =>
      let r := p.step s.d s.w
      { s with w := r.2, rx := r.1.elim .recv .publish }

/-- One step. -/
def step (s : Doorbell) : Act → Doorbell
  | .main => s.stepMain
  | .rx rxbuf len => s.stepRx rxbuf len
  | .post cmd =>
      if tst (s.w.slots DDR3_CMD_OFF) DDR3_CMD_PENDING_BIT then s
      else { s with w.slots := Function.update s.w.slots DDR3_CMD_OFF cmd }
  | .host ram stack => { s with w.ram := ram, w.stack := stack }

/-- The steps in turn. -/
def run (acts : List Act) (s : Doorbell) : Doorbell := acts.foldl step s

/-- What `daemon_set_default_mac` stores, from the address it has resolved:
the vendor's half and the low half of `nic`, for all three copies. -/
def setDefaultMac (nic : Mac) (d : Daemon) : Daemon :=
  let mac : Mac := #v[0x00, 0x80, 0x10, nic[3]!, nic[4]!, nic[5]!]
  { d with fakemac := mac, macFakemac := mac, macRealmac := mac }

/-- Where `main` enters its loop and the receive thread starts. -/
def start (nic : Mac) (w : World) : Doorbell where
  d := setDefaultMac nic (registersReset .boot)
  w :=
    let d := setDefaultMac nic (registersReset .boot)
    let w := ((wr64 DDR3_CMD_OFF 0).exec w).2
    ((onInterruptCb.call d).exec w).2
  main := .poll
  rx := .recv

end Doorbell

end A2065
