import A2065.MainDdr3
import A2065.Regfile

/-!
# Register accesses through the bridge

`a2065_registers.v` without `BRIDGE_LOCAL` holds the bus while the daemon of
`main.cpp` serves the access: `bridge_new_req` stays up until the daemon has
set DONE, or until the watchdog ends the access with a bus error. Neither flag
says which access it belongs to.

`BridgeSys` is the two of them with the 68k. `AccessLog` records what the
68k sees, and which call of `chip_wput` or `chip_wget` was made for which of
its accesses.
-/

namespace A2065

/-- `ST_IDLE`, `ST_WAIT_ARM`, `ST_RELEASE` and `ST_BERR`. -/
inductive BridgeState where
  | idle
  | waitArm
  | release
  | berr
  deriving DecidableEq

/-- The registers of `gen_bridge`. -/
structure Bridge where
  state : BridgeState
  watchdog : BitVec 20
  cpuDtackN : Bool
  cpuBerrN : Bool
  cpuDataOut : U16
  bridgeData : U16
  bridgeAddrOff : U8
  bridgeRw : Bool
  bridgeNewReq : Bool
  bridgeDoneClr : Bool

/-- How long the bridge waits for the ARM before it reports a bus error. -/
def WATCHDOG_CYCLES : Nat := 700000

/-- `{6'b0, cpu_addr[1:0]}` -/
def CpuBus.offset (p : CpuBus) : U8 := (p.cpuAddr.extractLsb' 0 2).setWidth 8

namespace Bridge

/-- The state after a reset. -/
def reset : Bridge := ⟨.idle, 0, true, true, 0, 0, 0, false, false, false⟩

/-- `ST_WAIT_ARM` gives up at this clock. -/
def expires (limit : Nat) (b : Bridge) (done : Bool) : Bool :=
  b.state == .waitArm && !done && BitVec.ofNat 20 limit ≤ b.watchdog

/-- One edge of the clock, with the registers DONE and RESULT as the ARM has
left them. `limit` stands for `WATCHDOG_CYCLES`. -/
def clock (limit : Nat) (b : Bridge) (p : CpuBus) (done : Bool) (result : U16) : Bridge :=
  let g := { b with bridgeDoneClr := false }
  match b.state with
  | .idle =>
      let g := { g with cpuDtackN := true, cpuBerrN := true, cpuDataOut := 0 }
      if p.selChipreg then
        { g with
          bridgeData := p.cpuDataIn
          bridgeAddrOff := p.offset
          bridgeRw := !p.cpuRw
          bridgeNewReq := true
          watchdog := 0
          state := .waitArm }
      else g
  | .waitArm =>
      let g := { g with bridgeNewReq := true, watchdog := b.watchdog + 1 }
      if done then
        { g with bridgeDoneClr := true, bridgeNewReq := false, cpuDataOut := result,
                 state := .release }
      else if BitVec.ofNat 20 limit ≤ b.watchdog then
        { g with bridgeNewReq := false, state := .berr }
      else g
  | .release =>
      if p.cpuAsN then { g with cpuDtackN := true, state := .idle }
      else { g with cpuDtackN := false }
  | .berr =>
      if p.cpuAsN then { g with cpuBerrN := true, state := .idle }
      else { g with cpuBerrN := false }

end Bridge

/-! ## What the 68k sees -/

/-- What the 68k asks for in this access. -/
def CpuBus.request (p : CpuBus) : Request :=
  if p.cpuRw then .read p.offset else .write p.offset p.cpuDataIn

/-- A call of `chip_wput` or `chip_wget`, made because access number `access`
had raised `bridge_new_req`. -/
structure ChipCall where
  access : Nat
  request : Request
  result : U16
  deriving DecidableEq

/-- An access that ended with DTACK, and the data bus at that moment. -/
structure Acknowledged where
  access : Nat
  request : Request
  dataOut : U16
  deriving DecidableEq

/-- What has gone over the bus so far: the accesses the 68k began, the calls
the daemon made for them, and the accesses that were acknowledged. -/
structure AccessLog where
  /-- The access in progress, as the bus showed it when it was selected. -/
  bus : Option CpuBus
  accesses : Nat
  calls : List ChipCall
  ended : List Acknowledged

namespace AccessLog

/-- Before the first access. -/
def start : AccessLog := ⟨none, 0, [], []⟩

/-- An access lasts from the clock that selects it to the clock that finds AS
high again. -/
def clock (l : AccessLog) (b : Bridge) (p : CpuBus) : AccessLog :=
  match l.bus with
  | none => if p.selChipreg then { l with bus := some p, accesses := l.accesses + 1 } else l
  | some a =>
      if p.cpuAsN then
        { l with
          bus := none
          ended := if b.cpuDtackN then l.ended
            else l.ended ++ [⟨l.accesses, a.request, b.cpuDataOut⟩] }
      else l

/-- The calls made for one access. -/
def callsFor (l : AccessLog) (access : Nat) : List ChipCall :=
  l.calls.filter (·.access == access)

/-- Each access that ended with DTACK caused one call, with its own address
and data, and a read showed what this call returned. -/
def Answered (l : AccessLog) : Prop :=
  ∀ e ∈ l.ended, ∃ result, l.callsFor e.access = [⟨e.access, e.request, result⟩] ∧
    ∀ off, e.request = .read off → e.dataOut = result

end AccessLog

/-! ## The two sides together -/

/-- Where `service_bridge` is. -/
inductive ServicePc where
  | poll
  | addr
  | rw (addrOff : U8)
  | data (addrOff : U8) (rw : Bool)
  | call (addrOff : U8) (rw : Bool) (data : U16)
  | result (result : U16)
  | done
  deriving DecidableEq

/-- The bridge, the daemon with its surroundings, and the place `service_bridge`
has reached. -/
structure BridgeSys where
  d : Daemon
  w : World
  regs : Bridge
  /-- The registers DONE and RESULT. -/
  done : Bool
  result : U16
  pc : ServicePc
  /-- The access that was waiting when `service_bridge` found NEW_REQ set. -/
  serving : Nat
  log : AccessLog

/-- What can happen next; every interleaving is allowed. -/
inductive BridgeStep where
  | clock (p : CpuBus)
  /-- `service_bridge` makes its next access of the bridge, or its call. -/
  | service
  | transmit
  | recv (rxbuf : Buf) (len : Nat)
  | host (ram : Boardram) (stack : Buf)

namespace BridgeSys

/-- The bridge after a reset, with `service_bridge` about to poll. -/
def start (d : Daemon) (w : World) : BridgeSys :=
  ⟨d, w, .reset, false, 0, .poll, 0, .start⟩

/-- The daemon makes the move `m`. -/
def make (W : Wiring) (m : Move) (s : BridgeSys) : BridgeSys :=
  { s with d := (m.apply W (s.d, s.w)).1, w := (m.apply W (s.d, s.w)).2 }

/-- The call for the access being served has returned `result`. -/
def record (request : Request) (result : U16) (s : BridgeSys) : BridgeSys :=
  { s with
    pc := .result result
    log := { s.log with calls := s.log.calls ++ [⟨s.serving, request, result⟩] } }

/-- `service_bridge`, one access of the bridge at a time: it polls NEW_REQ, reads
the three registers of the request, makes the call, and stores RESULT and
DONE. -/
def stepService (W : Wiring) (s : BridgeSys) : BridgeSys :=
  match s.pc with
  | .poll => if s.regs.bridgeNewReq then { s with pc := .addr, serving := s.log.accesses } else s
  | .addr => { s with pc := .rw s.regs.bridgeAddrOff }
  | .rw addrOff => { s with pc := .data addrOff s.regs.bridgeRw }
  | .data addrOff rw => { s with pc := .call addrOff rw s.regs.bridgeData }
  | .call addrOff rw data =>
      if rw then (s.make W (.op (.wput addrOff data))).record (.write addrOff data) 0
      else s.record (.read addrOff) (chipWget addrOff s.d)
  | .result result => { s with result := result, pc := .done }
  | .done => { s with done := true, pc := .poll }

/-- DONE is cleared as the test benches do it, by a register that looks at
`bridge_done_clr`. -/
def step (W : Wiring) (limit : Nat) (s : BridgeSys) : BridgeStep → BridgeSys
  | .clock p =>
      { s with
        regs := s.regs.clock limit p s.done s.result
        done := s.done && !s.regs.bridgeDoneClr
        log := s.log.clock s.regs p }
  | .service => s.stepService W
  | .transmit => s.make W (.op .transmit)
  | .recv rxbuf len => s.make W (.op (.recv rxbuf len))
  | .host ram stack => s.make W (.host ram stack)

/-- The 68k keeps AS low until it sees DTACK or BERR. -/
def Holds (s : BridgeSys) : BridgeStep → Prop
  | .clock p => s.log.bus ≠ none → p.cpuAsN = true →
      s.regs.cpuDtackN = false ∨ s.regs.cpuBerrN = false
  | _ => True

/-- The watchdog does not expire while `service_bridge` is serving, and
`service_bridge` does not look at NEW_REQ while its DONE is still set. -/
def Prompt (limit : Nat) (s : BridgeSys) : BridgeStep → Prop
  | .clock _ => s.regs.expires limit s.done = true → s.pc = .poll
  | .service => s.pc = .poll → s.regs.bridgeNewReq = true → s.done = false
  | _ => True

end BridgeSys

/-! ## Numbering -/

namespace AccessLog

/-- Calls and ended accesses belong to accesses made so far, and nothing but
calls belongs to the one in progress. -/
structure Numbered (l : AccessLog) : Prop where
  answered : l.Answered
  calls_le : ∀ c ∈ l.calls, c.access ≤ l.accesses
  ended_le : ∀ e ∈ l.ended, e.access ≤ l.accesses
  ended_lt : l.bus ≠ none → ∀ e ∈ l.ended, e.access < l.accesses

variable {l : AccessLog}

theorem callsFor_eq_nil {n : Nat} (h : ∀ c ∈ l.calls, c.access ≤ n) : l.callsFor (n + 1) = [] := by
  apply List.filter_eq_nil_iff.mpr
  intro c hc
  have := h c hc
  simp only [beq_iff_eq]
  omega

theorem Numbered.select (h : l.Numbered) (p : CpuBus) :
    Numbered { l with bus := some p, accesses := l.accesses + 1 } where
  answered := h.answered
  calls_le c hc := Nat.le_succ_of_le (h.calls_le c hc)
  ended_le e he := Nat.le_succ_of_le (h.ended_le e he)
  ended_lt _ e he := Nat.lt_succ_of_le (h.ended_le e he)

/-- A call for the access in progress is not one for an ended access. -/
theorem Numbered.call (h : l.Numbered) (hbus : l.bus ≠ none) (request : Request) (result : U16) :
    Numbered { l with calls := l.calls ++ [⟨l.accesses, request, result⟩] } where
  answered e he := by
    obtain ⟨r, hr, hout⟩ := h.answered e he
    have hne : l.accesses ≠ e.access := Nat.ne_of_gt (h.ended_lt hbus e he)
    refine ⟨r, ?_, hout⟩
    rw [← hr]
    simp [callsFor, hne]
  calls_le c hc := by
    rcases List.mem_append.mp hc with hc | hc
    · exact h.calls_le c hc
    · rw [List.mem_singleton.mp hc]
  ended_le := h.ended_le
  ended_lt := h.ended_lt

theorem callsFor_call (request : Request) (result : U16) :
    AccessLog.callsFor { l with calls := l.calls ++ [⟨l.accesses, request, result⟩] } l.accesses =
      l.callsFor l.accesses ++ [⟨l.accesses, request, result⟩] := by
  simp [callsFor]

theorem Numbered.drop (h : l.Numbered) : Numbered { l with bus := none } where
  answered := h.answered
  calls_le := h.calls_le
  ended_le := h.ended_le
  ended_lt hbus := absurd rfl hbus

theorem Numbered.acknowledge (h : l.Numbered) {request : Request} {out : U16}
    (hcalls : l.callsFor l.accesses = [⟨l.accesses, request, out⟩]) :
    Numbered { l with bus := none, ended := l.ended ++ [⟨l.accesses, request, out⟩] } where
  answered e he := by
    rcases List.mem_append.mp he with he | he
    · exact h.answered e he
    · rw [List.mem_singleton.mp he]
      exact ⟨out, hcalls, fun _ _ => rfl⟩
  calls_le := h.calls_le
  ended_le e he := by
    rcases List.mem_append.mp he with he | he
    · exact h.ended_le e he
    · rw [List.mem_singleton.mp he]
  ended_lt hbus := absurd rfl hbus

end AccessLog

/-! ## The stages of an access -/

/-- The bridge registers show access `a`. -/
def Bridge.Latched (b : Bridge) (a : CpuBus) : Prop :=
  b.bridgeAddrOff = a.offset ∧ b.bridgeRw = !a.cpuRw ∧ b.bridgeData = a.cpuDataIn

namespace BridgeSys

/-- The calls made for the access begun last. -/
def ownCalls (s : BridgeSys) : List ChipCall := s.log.callsFor s.log.accesses

/-- How far `service_bridge` is with access `a`. -/
inductive Serving (s : BridgeSys) (a : CpuBus) : Prop where
  | poll (pc : s.pc = .poll) (calls : s.ownCalls = [])
  | addr (pc : s.pc = .addr) (mine : s.serving = s.log.accesses) (calls : s.ownCalls = [])
  | rw (pc : s.pc = .rw a.offset) (mine : s.serving = s.log.accesses) (calls : s.ownCalls = [])
  | data (pc : s.pc = .data a.offset (!a.cpuRw)) (mine : s.serving = s.log.accesses)
      (calls : s.ownCalls = [])
  | call (pc : s.pc = .call a.offset (!a.cpuRw) a.cpuDataIn) (mine : s.serving = s.log.accesses)
      (calls : s.ownCalls = [])
  | result (r : U16) (pc : s.pc = .result r)
      (calls : s.ownCalls = [⟨s.log.accesses, a.request, r⟩])
  | done (pc : s.pc = .done) (calls : s.ownCalls = [⟨s.log.accesses, a.request, s.result⟩])

/-- How far the current access has come, as the registers and the program
counter of `service_bridge` show it. -/
inductive Stage (s : BridgeSys) : Prop where
  | idle (bus : s.log.bus = none) (state : s.regs.state = .idle)
      (req : s.regs.bridgeNewReq = false) (clr : s.regs.bridgeDoneClr = false)
      (done : s.done = false) (pc : s.pc = .poll)
  | waiting (a : CpuBus) (bus : s.log.bus = some a) (state : s.regs.state = .waitArm)
      (dtack : s.regs.cpuDtackN = true) (berr : s.regs.cpuBerrN = true)
      (clr : s.regs.bridgeDoneClr = false) (done : s.done = false)
      (latched : s.regs.Latched a) (serving : s.Serving a)
  | answered (a : CpuBus) (bus : s.log.bus = some a) (state : s.regs.state = .waitArm)
      (dtack : s.regs.cpuDtackN = true) (berr : s.regs.cpuBerrN = true)
      (clr : s.regs.bridgeDoneClr = false) (done : s.done = true) (pc : s.pc = .poll)
      (calls : s.ownCalls = [⟨s.log.accesses, a.request, s.result⟩])
  | released (a : CpuBus) (bus : s.log.bus = some a) (state : s.regs.state = .release)
      (berr : s.regs.cpuBerrN = true) (req : s.regs.bridgeNewReq = false)
      (clr : s.done = s.regs.bridgeDoneClr) (pc : s.pc = .poll)
      (calls : s.ownCalls = [⟨s.log.accesses, a.request, s.regs.cpuDataOut⟩])
  | failed (a : CpuBus) (bus : s.log.bus = some a) (state : s.regs.state = .berr)
      (dtack : s.regs.cpuDtackN = true) (req : s.regs.bridgeNewReq = false)
      (clr : s.regs.bridgeDoneClr = false) (done : s.done = false) (pc : s.pc = .poll)

/-- What holds between any two steps. -/
structure Inv (s : BridgeSys) : Prop where
  stage : s.Stage
  numbered : s.log.Numbered

variable {s : BridgeSys} {W : Wiring} {limit : Nat}

theorem Serving.frame {t : BridgeSys} {a : CpuBus} (h : s.Serving a) (hpc : t.pc = s.pc)
    (hserving : t.serving = s.serving) (hresult : t.result = s.result) (hlog : t.log = s.log) :
    t.Serving a := by
  have hcalls : t.ownCalls = s.ownCalls := by rw [ownCalls, ownCalls, hlog]
  have hmine : s.serving = s.log.accesses → t.serving = t.log.accesses := by
    rw [hserving, hlog]
    exact id
  cases h with
  | poll pc calls => exact .poll (hpc.trans pc) (hcalls.trans calls)
  | addr pc mine calls => exact .addr (hpc.trans pc) (hmine mine) (hcalls.trans calls)
  | rw pc mine calls => exact .rw (hpc.trans pc) (hmine mine) (hcalls.trans calls)
  | data pc mine calls => exact .data (hpc.trans pc) (hmine mine) (hcalls.trans calls)
  | call pc mine calls => exact .call (hpc.trans pc) (hmine mine) (hcalls.trans calls)
  | result r pc calls => exact .result r (hpc.trans pc) (by rw [hcalls, hlog, calls])
  | done pc calls => exact .done (hpc.trans pc) (by rw [hcalls, hlog, hresult, calls])

theorem Inv.make (h : s.Inv) (m : Move) : (s.make W m).Inv := by
  refine ⟨?_, h.numbered⟩
  cases h.stage with
  | idle bus state req clr done pc => exact .idle bus state req clr done pc
  | waiting a bus state dtack berr clr done latched serving =>
      exact .waiting a bus state dtack berr clr done latched (serving.frame rfl rfl rfl rfl)
  | answered a bus state dtack berr clr done pc calls =>
      exact .answered a bus state dtack berr clr done pc calls
  | released a bus state berr req clr pc calls => exact .released a bus state berr req clr pc calls
  | failed a bus state dtack req clr done pc => exact .failed a bus state dtack req clr done pc

/-- Without a request in sight `service_bridge` returns at once. -/
theorem stepService_idle (hpc : s.pc = .poll) (hreq : s.regs.bridgeNewReq = false) :
    s.stepService W = s := by
  simp only [stepService, hpc, hreq, Bool.false_eq_true, if_false]

theorem request_eq (a : CpuBus) :
    a.request = if !a.cpuRw then .write a.offset a.cpuDataIn else .read a.offset := by
  unfold CpuBus.request
  cases a.cpuRw <;> rfl

theorem Inv.record (h : s.Inv) {a : CpuBus} (bus : s.log.bus = some a)
    (state : s.regs.state = .waitArm) (dtack : s.regs.cpuDtackN = true)
    (berr : s.regs.cpuBerrN = true) (clr : s.regs.bridgeDoneClr = false) (done : s.done = false)
    (latched : s.regs.Latched a) (mine : s.serving = s.log.accesses) (calls : s.ownCalls = [])
    {request : Request} (hreq : request = a.request) (r : U16) : (s.record request r).Inv := by
  have hlog : (s.record request r).log =
      { s.log with calls := s.log.calls ++ [⟨s.log.accesses, a.request, r⟩] } := by
    rw [BridgeSys.record, hreq, mine]
  constructor
  · refine .waiting a bus state dtack berr clr done latched (.result r rfl ?_)
    unfold ownCalls at calls ⊢
    rw [hlog, AccessLog.callsFor_call, calls]
    rfl
  · rw [hlog]
    exact h.numbered.call (by rw [bus]; exact Option.some_ne_none a) _ _

theorem Inv.stepService (h : s.Inv) (hp : s.Prompt limit .service) : (s.stepService W).Inv := by
  cases h.stage with
  | idle _ _ req _ _ pc => rw [stepService_idle pc req]; exact h
  | released _ _ _ _ req _ pc => rw [stepService_idle pc req]; exact h
  | failed _ _ _ _ req _ _ pc => rw [stepService_idle pc req]; exact h
  | answered a bus state dtack berr clr done pc calls =>
      have hreq : s.regs.bridgeNewReq = false := by
        rw [Bool.eq_false_iff]
        intro hreq
        rw [hp pc hreq] at done
        cases done
      rw [stepService_idle pc hreq]
      exact h
  | waiting a bus state dtack berr clr done latched serving =>
      have next : ∀ {pc : ServicePc} {serving : Nat} {result : U16},
          Serving { s with pc := pc, serving := serving, result := result } a →
          Inv { s with pc := pc, serving := serving, result := result } := fun hs =>
        ⟨.waiting a bus state dtack berr clr done latched hs, h.numbered⟩
      cases serving with
      | poll pc calls =>
          rw [BridgeSys.stepService, pc]
          dsimp only
          split
          · exact next (.addr rfl rfl calls)
          · exact h
      | addr pc mine calls =>
          rw [BridgeSys.stepService, pc, latched.1]
          exact next (.rw rfl mine calls)
      | rw pc mine calls =>
          rw [BridgeSys.stepService, pc, latched.2.1]
          exact next (.data rfl mine calls)
      | data pc mine calls =>
          rw [BridgeSys.stepService, pc, latched.2.2]
          exact next (.call rfl mine calls)
      | call pc mine calls =>
          rw [BridgeSys.stepService, pc]
          dsimp only
          split
          case isTrue hw =>
            exact (h.make _).record bus state dtack berr clr done latched mine calls
              (by rw [request_eq, if_pos hw]) 0
          case isFalse hr =>
            exact h.record bus state dtack berr clr done latched mine calls
              (by rw [request_eq, if_neg hr]) _
      | result r pc calls =>
          rw [BridgeSys.stepService, pc]
          exact next (.done rfl calls)
      | done pc calls =>
          rw [BridgeSys.stepService, pc]
          exact ⟨.answered a bus state dtack berr clr rfl rfl calls, h.numbered⟩

theorem Inv.clock_idle (h : s.Inv) (p : CpuBus) (bus : s.log.bus = none)
    (state : s.regs.state = .idle) (req : s.regs.bridgeNewReq = false) (done : s.done = false)
    (pc : s.pc = .poll) : (s.step W limit (.clock p)).Inv := by
  by_cases hsel : p.selChipreg = true
  · simp only [step, Bridge.clock, AccessLog.clock, state, bus, done, hsel, if_true,
      Bool.false_and]
    exact ⟨.waiting p rfl rfl rfl rfl rfl rfl ⟨rfl, rfl, rfl⟩
      (.poll pc (AccessLog.callsFor_eq_nil h.numbered.calls_le)), h.numbered.select p⟩
  · simp only [step, Bridge.clock, AccessLog.clock, state, bus, done, hsel, Bool.false_and]
    exact ⟨.idle bus rfl req rfl rfl pc, h.numbered⟩

/-- While the bridge holds the bus, AS stays low. -/
theorem asN_of_quiet {p : CpuBus} (hh : s.Holds (.clock p)) {a : CpuBus}
    (bus : s.log.bus = some a) (dtack : s.regs.cpuDtackN = true)
    (berr : s.regs.cpuBerrN = true) : p.cpuAsN = false := by
  rw [Bool.eq_false_iff]
  intro has
  rcases hh (by rw [bus]; exact Option.some_ne_none a) has with h | h
  · rw [dtack] at h; cases h
  · rw [berr] at h; cases h

theorem Inv.clock (h : s.Inv) (p : CpuBus) (hh : s.Holds (.clock p))
    (hp : s.Prompt limit (.clock p)) : (s.step W limit (.clock p)).Inv := by
  cases h.stage with
  | idle bus state req clr done pc => exact h.clock_idle p bus state req done pc
  | waiting a bus state dtack berr clr done latched serving =>
      have has : p.cpuAsN = false := asN_of_quiet hh bus dtack berr
      by_cases hexp : BitVec.ofNat 20 limit ≤ s.regs.watchdog
      · have hpc : s.pc = .poll := hp (by simp [Bridge.expires, state, done, hexp])
        simp only [step, Bridge.clock, AccessLog.clock, state, bus, done, has, hexp, if_true,
          Bool.false_eq_true, if_false, Bool.false_and]
        exact ⟨.failed a bus rfl dtack rfl rfl rfl hpc, h.numbered⟩
      · simp only [step, Bridge.clock, AccessLog.clock, state, bus, done, has, hexp,
          Bool.false_eq_true, if_false, Bool.false_and]
        exact ⟨.waiting a bus rfl dtack berr rfl rfl latched (serving.frame rfl rfl rfl rfl),
          h.numbered⟩
  | answered a bus state dtack berr clr done pc calls =>
      have has : p.cpuAsN = false := asN_of_quiet hh bus dtack berr
      simp only [step, Bridge.clock, AccessLog.clock, state, bus, done, has, clr, if_true,
        Bool.false_eq_true, if_false, Bool.not_false, Bool.and_self]
      exact ⟨.released a bus rfl berr rfl rfl pc calls, h.numbered⟩
  | released a bus state berr req clr pc calls =>
      have hdone : (s.done && !s.regs.bridgeDoneClr) = false := by
        rw [clr, Bool.and_not_self]
      by_cases has : p.cpuAsN = true
      · have hdtack : s.regs.cpuDtackN = false := by
          rcases hh (by rw [bus]; exact Option.some_ne_none a) has with h | h
          · exact h
          · rw [berr] at h; cases h
        simp only [step, Bridge.clock, AccessLog.clock, state, bus, hdone, has, hdtack, if_true,
          Bool.false_eq_true, if_false]
        exact ⟨.idle rfl rfl req rfl rfl pc, h.numbered.acknowledge calls⟩
      · simp only [step, Bridge.clock, AccessLog.clock, state, bus, hdone, has]
        exact ⟨.released a bus rfl berr req rfl pc calls, h.numbered⟩
  | failed a bus state dtack req clr done pc =>
      by_cases has : p.cpuAsN = true
      · simp only [step, Bridge.clock, AccessLog.clock, state, bus, done, has, dtack, if_true,
          Bool.false_and]
        exact ⟨.idle rfl rfl req rfl rfl pc, h.numbered.drop⟩
      · simp only [step, Bridge.clock, AccessLog.clock, state, bus, done, has, Bool.false_and]
        exact ⟨.failed a bus rfl dtack req rfl rfl pc, h.numbered⟩

theorem Inv.step (h : s.Inv) (e : BridgeStep) (hh : s.Holds e) (hp : s.Prompt limit e) :
    (s.step W limit e).Inv := by
  cases e with
  | clock p => exact h.clock p hh hp
  | service => exact h.stepService hp
  | transmit => exact h.make _
  | recv rxbuf len => exact h.make _
  | host ram stack => exact h.make _

theorem inv_start (d : Daemon) (w : World) : (start d w).Inv where
  stage := .idle rfl rfl rfl rfl rfl rfl
  numbered :=
    { answered := fun _ h => nomatch h
      calls_le := fun _ h => nomatch h
      ended_le := fun _ h => nomatch h
      ended_lt := fun _ _ h => nomatch h }

end BridgeSys

open BridgeSys

/-- In every run in which the 68k holds its accesses and the daemon is prompt,
whatever the interleaving, each access that ended with DTACK caused one call
with its own address and data, and a read returned what that call returned. -/
theorem access_answered_once (W : Wiring) (limit : Nat) (d : Daemon) (w : World)
    (steps : List BridgeStep)
    (h : Watch (BridgeSys.step W limit) (fun s e => s.Holds e ∧ s.Prompt limit e)
      (BridgeSys.start d w) steps) :
    (steps.foldl (BridgeSys.step W limit) (BridgeSys.start d w)).log.Answered := by
  have hstep : ∀ (s : BridgeSys) (e : BridgeStep), s.Inv → s.Holds e ∧ s.Prompt limit e →
      (s.step W limit e).Inv := fun s e hs he => hs.step e he.1 he.2
  exact (Watch.preserves hstep (inv_start d w) h).numbered.answered

/-! ## Runs -/

instance BridgeSys.decidableHolds (s : BridgeSys) : (e : BridgeStep) → Decidable (s.Holds e)
  | .clock _ => inferInstanceAs (Decidable (_ ≠ _ → _ = true → _ = false ∨ _ = false))
  | .service | .transmit | .recv _ _ | .host _ _ => .isTrue trivial

instance BridgeSys.decidablePrompt (limit : Nat) (s : BridgeSys) :
    (e : BridgeStep) → Decidable (s.Prompt limit e)
  | .clock _ => inferInstanceAs (Decidable (_ = true → _ = _))
  | .service => inferInstanceAs (Decidable (_ = _ → _ = true → _ = false))
  | .transmit | .recv _ _ | .host _ _ => .isTrue trivial

/-- A read of the data port. -/
def rdpRead : CpuBus := (Regfile.rdpReadPins 0).toCpuBus

/-- A read of the address port. -/
def rapRead : CpuBus := { rdpRead with cpuAddr := 0xE94002 }

/-- No access on the bus. -/
def busIdle : CpuBus := (Regfile.idlePins 0).toCpuBus

/-- From the clock that selects the access to the end of `service_bridge`. -/
def servedAccess (p : CpuBus) : List BridgeStep :=
  .clock p :: List.replicate 7 .service

/-- DONE is seen, DTACK given, AS released. -/
def acknowledgedAccess (p : CpuBus) : List BridgeStep :=
  [.clock p, .clock p, .clock busIdle]

/-- CSR0 is read, then RAP. -/
theorem access_answered_once_in_turn :
    (List.foldl (BridgeSys.step .null WATCHDOG_CYCLES)
      (BridgeSys.start (afterMoves []) .blank)
      (servedAccess rdpRead ++ acknowledgedAccess rdpRead ++
        servedAccess rapRead ++ acknowledgedAccess rapRead)).log.Answered :=
  access_answered_once .null WATCHDOG_CYCLES (afterMoves []) .blank _ (by decide +kernel)

/-- `n` more clocks on the watchdog. -/
def BridgeSys.waited (s : BridgeSys) (n : BitVec 20) : BridgeSys :=
  { s with regs := { s.regs with watchdog := s.regs.watchdog + n } }

theorem clock_waits {s : BridgeSys} {W : Wiring} {limit : Nat} {p a : CpuBus}
    (state : s.regs.state = .waitArm) (bus : s.log.bus = some a) (has : p.cpuAsN = false)
    (done : s.done = false) (req : s.regs.bridgeNewReq = true)
    (clr : s.regs.bridgeDoneClr = false) (hexp : s.regs.watchdog < BitVec.ofNat 20 limit) :
    s.step W limit (.clock p) = s.waited 1 := by
  have hle : ¬ BitVec.ofNat 20 limit ≤ s.regs.watchdog := BitVec.not_le.mpr hexp
  simp only [BridgeSys.step, Bridge.clock, AccessLog.clock, state, bus, done, has, hle,
    Bool.false_eq_true, if_false, Bool.false_and, waited]
  rw [← state, ← req, ← clr]

theorem clocks_wait {s : BridgeSys} {W : Wiring} {limit : Nat} {p a : CpuBus} (n : Nat)
    (state : s.regs.state = .waitArm) (bus : s.log.bus = some a) (has : p.cpuAsN = false)
    (done : s.done = false) (req : s.regs.bridgeNewReq = true)
    (clr : s.regs.bridgeDoneClr = false) (hlimit : limit < 2 ^ 20)
    (hn : s.regs.watchdog.toNat + n ≤ limit) :
    (List.replicate n (.clock p)).foldl (BridgeSys.step W limit) s =
      s.waited (BitVec.ofNat 20 n) := by
  induction n generalizing s with
  | zero => simp [waited]
  | succ n ih =>
      have hexp : s.regs.watchdog < BitVec.ofNat 20 limit := by
        rw [BitVec.lt_def, BitVec.toNat_ofNat, Nat.mod_eq_of_lt hlimit]
        omega
      have hnext : (s.regs.watchdog + 1).toNat = s.regs.watchdog.toNat + 1 := by
        rw [BitVec.toNat_add, Nat.mod_eq_of_lt (by simp; omega)]
        rfl
      have hrest := ih (s := s.waited 1) state bus done req clr
        (by show (s.regs.watchdog + 1).toNat + n ≤ limit; rw [hnext]; omega)
      rw [List.replicate_succ, List.foldl_cons, clock_waits state bus has done req clr hexp, hrest]
      simp only [waited, BitVec.add_assoc]
      rw [Nat.add_comm n 1, BitVec.ofNat_add]
      rfl

/-- After reset; `service_bridge` has seen that CSR0 is to be read. -/
def seenRead (limit : Nat) : BridgeSys :=
  [.clock rdpRead, .service].foldl (BridgeSys.step .null limit)
    (BridgeSys.start (afterMoves []) .blank)

/-- The same read, held until the watchdog is at its limit. -/
def heldRead (limit : Nat) : List BridgeStep :=
  [.clock rdpRead, .service] ++ List.replicate limit (.clock rdpRead)

theorem foldl_heldRead {limit : Nat} (hlimit : limit < 2 ^ 20) :
    (heldRead limit).foldl (BridgeSys.step .null limit)
      (BridgeSys.start (afterMoves []) .blank) =
        (seenRead limit).waited (BitVec.ofNat 20 limit) := by
  rw [heldRead, List.foldl_append]
  exact clocks_wait limit rfl rfl rfl rfl rfl rfl hlimit (Nat.zero_add limit).le

theorem heldRead_holds (limit : Nat) : Watch (BridgeSys.step .null limit) Holds
    (BridgeSys.start (afterMoves []) .blank) (heldRead limit) := by
  have hlow : ∀ s : BridgeSys, s.Holds (.clock rdpRead) := fun s _ has => nomatch has
  apply Watch.of_forall
  intro e he s
  rcases List.mem_append.mp he with he | he
  · rcases List.mem_pair.mp he with rfl | rfl
    · exact hlow s
    · trivial
  · rw [List.eq_of_mem_replicate he]
    exact hlow s

/-- The watchdog expires, the 68k ends the access, `service_bridge` comes to
its DONE, and the 68k reads RAP. -/
def lateDone : List BridgeStep :=
  [.clock rdpRead, .clock rdpRead, .clock busIdle] ++ List.replicate 6 .service ++
    .clock rapRead :: acknowledgedAccess rapRead

/-- A read of CSR0 that `service_bridge` answers too late, and a read of RAP
after it. The second read gets DTACK before any call is made for it, and shows
the CSR0 of the first. -/
theorem access_answered_by_failed : ¬ ∀ (W : Wiring) (limit : Nat) (d : Daemon) (w : World)
    (steps : List BridgeStep),
    Watch (BridgeSys.step W limit) Holds (BridgeSys.start d w) steps →
    (steps.foldl (BridgeSys.step W limit) (BridgeSys.start d w)).log.Answered := by
  intro h
  have hans := h .null WATCHDOG_CYCLES (afterMoves []) .blank (heldRead WATCHDOG_CYCLES ++ lateDone)
  rw [Watch.append, List.foldl_append, foldl_heldRead (by decide)] at hans
  obtain ⟨result, hcalls, -⟩ := hans ⟨heldRead_holds _, by decide +kernel⟩ ⟨2, .read 2, 4⟩
    (by decide +kernel)
  have hnone : (lateDone.foldl (BridgeSys.step .null WATCHDOG_CYCLES)
      ((seenRead WATCHDOG_CYCLES).waited (BitVec.ofNat 20 WATCHDOG_CYCLES))).log.callsFor 2 =
        [] := by
    decide +kernel
  exact absurd (hcalls.symm.trans hnone) (List.cons_ne_nil _ _)

end A2065
