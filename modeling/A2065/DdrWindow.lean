import A2065.Lib.SharedRam
import A2065.Lib.Watch
import A2065.Types

/-!
# The boardram window

`a2065_ddr_window.v`: the 68k reaches the shared memory through a state machine
that takes the access over, counts the latency down and then performs it, with
`nrdy` holding the 68k off in between. The ARM has a port of its own on the
other side and is never made to wait.

The window is compared with `SharedRam`, a memory of bytes that both sides
share: each bus cycle is one access, performed in one clock before `nrdy`
falls. It is that memory but for one thing. It latches one write strobe out of
two, so a byte write stores both lanes (`window_refines_iff`).
-/

namespace A2065

/-! ## `a2065_ddr_window` -/

/-- The states of the 68k port: `cnt` runs down in `busy`. -/
inductive WindowState where
  | idle
  | busy
  | done
  deriving DecidableEq

/-- The 68k side. `cpu_hwr` and `cpu_lwr` are active low. -/
structure WindowBus where
  /-- `cpu_addr[23:1]` -/
  cpuAddr : BitVec 23
  cpuDataIn : U16
  cpuHwr : Bool
  cpuLwr : Bool
  sel : Bool
  deriving DecidableEq

/-- The bus of the 68k and the request the ARM shows. -/
structure WindowPins extends WindowBus where
  armAddr : BitVec 14
  armWdata : U16
  armWr : Bool

namespace WindowBus

/-- The wire `sel_br`; bit 15 of the address. -/
def selBr (p : WindowBus) : Bool := p.sel && p.cpuAddr.getLsbD 14

/-- The wire `wa`; bits 14 to 1 of the address. -/
def wa (p : WindowBus) : BitVec 14 := p.cpuAddr.extractLsb' 0 14

/-- The wire `is_write`. -/
def isWrite (p : WindowBus) : Bool := !p.cpuHwr || !p.cpuLwr

end WindowBus

/-- The registers of the module, and the block RAM behind them. -/
structure DdrWindow where
  ram : BitVec 14 → U16
  cpuDataOut : U16
  state : WindowState
  cnt : BitVec 16
  addrBuf : BitVec 14
  wdataBuf : U16
  wrBuf : Bool

/-- `ram` with the write of the ARM port. -/
def WindowPins.armRam (p : WindowPins) (ram : BitVec 14 → U16) : BitVec 14 → U16 :=
  if p.armWr then Function.update ram p.armAddr p.armWdata else ram

namespace DdrWindow

/-- What a reset sets. The words and the latched request stay. -/
def reset (g : DdrWindow) : DdrWindow :=
  { g with state := .idle, cnt := 0, cpuDataOut := 0 }

/-- The clocked block outside reset. Where both ports write the same word, the
assignment of the state machine comes last; what it reads is the word from
before the clock. -/
def clock (latency : Nat) (g : DdrWindow) (p : WindowPins) : DdrWindow :=
  let g' := { g with ram := p.armRam g.ram }
  match g.state with
  | .idle =>
      if p.selBr then
        { g' with
          state := .busy
          cnt := BitVec.ofNat 16 latency
          addrBuf := p.wa
          wdataBuf := p.cpuDataIn
          wrBuf := p.isWrite }
      else g'
  | .busy =>
      if g.cnt = 0 then
        if g.wrBuf then
          { g' with state := .done, ram := Function.update g'.ram g.addrBuf g.wdataBuf }
        else { g' with state := .done, cpuDataOut := g.ram g.addrBuf }
      else { g' with cnt := g.cnt - 1 }
  | .done => if p.selBr then g' else { g' with state := .idle }

/-- The output `nrdy`. -/
def nrdy (g : DdrWindow) (p : WindowPins) : Bool :=
  if g.state = .idle then p.selBr else g.state == .busy

/-- The output `arm_rdata`. -/
def armRdata (g : DdrWindow) (p : WindowPins) : U16 := g.ram p.armAddr

end DdrWindow

/-! ## The same as shared memory -/

/-- The byte lanes of the data bus: D15 to D8, the even address, and D7 to D0. -/
inductive Lane where
  | high
  | low
  deriving DecidableEq

/-- The two bytes of a word. -/
def lanes (v : U16) : Lane → U8
  | .high => (v >>> 8).setWidth 8
  | .low => v.setWidth 8

/-- The bytes of `ram`. -/
def windowBytes (ram : BitVec 14 → U16) : SharedRam.Mem (BitVec 14) Lane U8 :=
  fun a => lanes (ram a)

namespace WindowPins

/-- Whether the 68k writes the lane; both strobes are active low. -/
def strobe (p : WindowPins) : Lane → Bool
  | .high => !p.cpuHwr
  | .low => !p.cpuLwr

/-- What the pins ask for. -/
def request (p : WindowPins) : SharedRam.Clock (BitVec 14) Lane U8 where
  active := p.selBr
  access := if p.isWrite then .write ⟨p.wa, p.strobe, lanes p.cpuDataIn⟩ else .read p.wa
  other := if p.armWr then some ⟨p.armAddr, fun _ => true, lanes p.armWdata⟩ else none

end WindowPins

namespace DdrWindow

/-- The 68k is held off exactly until its access is performed, and sees what a
read returned for the rest of the cycle. The ARM sees the memory as it is. -/
structure Shows (g : DdrWindow) (s : SharedRam.State (BitVec 14) Lane U8) (p : WindowPins) :
    Prop where
  nrdy : g.nrdy p = (p.selBr && !s.phase.isPerformed)
  data : ∀ v, s.phase = .performed (some v) → p.selBr = true → lanes g.cpuDataOut = v
  arm : lanes (g.armRdata p) = s.mem p.armAddr

section Runs

variable (latency : Nat)

/-- The longest wait: the clock that takes the access over and the countdown. -/
def wait : Nat := latency % 2 ^ 16 + 1

/-- There is a run of the shared memory under the same requests, with the same
bytes after each clock, that the 68k cannot tell from this one. -/
def Implements : DdrWindow → SharedRam.State (BitVec 14) Lane U8 → List WindowPins → Prop
  | _, _, [] => True
  | g, s, p :: ps => g.Shows s p ∧ ∃ s', SharedRam.Step (wait latency) p.request s s' ∧
      s'.mem = windowBytes (g.clock latency p).ram ∧ Implements (g.clock latency p) s' ps

/-- The 68k holds its pins while `nrdy` is high. -/
def Held : DdrWindow → List WindowPins → Prop
  | g, p :: q :: ps => (g.nrdy p = true → q.toWindowBus = p.toWindowBus) ∧
      Held (g.clock latency p) (q :: ps)
  | _, _ => True

end Runs

/-- If this is the clock of a write, a lane without strobe has on the data bus
what the memory holds there. -/
def QuietLanes (g : DdrWindow) (p : WindowPins) : Prop :=
  g.state = .busy → g.cnt = 0 → p.isWrite = true → ∀ l, p.strobe l = false →
    lanes p.cpuDataIn l = lanes (p.armRam g.ram p.wa) l

end DdrWindow

/-! ## Bytes -/

/-- A write of both lanes of `v` is a write of the strobed lanes, if the others
hold what `v` has there. -/
theorem windowBytes_update_lanes {ram : BitVec 14 → U16} {a : BitVec 14} {v : U16}
    {enable : Lane → Bool} (h : ∀ l, enable l = false → lanes v l = lanes (ram a) l) :
    windowBytes (Function.update ram a v) =
      SharedRam.Store.apply ⟨a, enable, lanes v⟩ (windowBytes ram) := by
  funext b l
  unfold windowBytes SharedRam.Store.apply
  rw [Function.update_apply]
  by_cases hb : b = a
  · subst hb
    cases hl : enable l with
    | true => simp [hl]
    | false => simp [h l hl]
  · simp [hb]

namespace WindowPins

theorem settle_request (p : WindowPins) (ram : BitVec 14 → U16) :
    p.request.settle (windowBytes ram) = windowBytes (p.armRam ram) := by
  unfold SharedRam.Clock.settle request armRam
  cases p.armWr with
  | false => rfl
  | true => exact (windowBytes_update_lanes (by simp)).symm

theorem access_write {p : WindowPins} (h : p.isWrite = true) :
    p.request.access = .write ⟨p.wa, p.strobe, lanes p.cpuDataIn⟩ := if_pos h

theorem access_read {p : WindowPins} (h : p.isWrite = false) :
    p.request.access = .read p.wa := if_neg (by simp [h])

theorem spares_request {p : WindowPins} {l : Lane} (h : p.strobe l = false) :
    p.request.access.Spares p.wa l := by
  cases hwr : p.isWrite with
  | false =>
      rw [access_read hwr]
      exact True.intro
  | true =>
      rw [access_write hwr]
      exact .inr h

end WindowPins

namespace DdrWindow

/-! ## One clock -/

variable {latency : Nat} {g : DdrWindow} {p q : WindowPins}

/-- What the state machine took over is still on the pins. -/
structure Captured (g : DdrWindow) (p : WindowPins) : Prop where
  selBr : p.selBr = true
  addrBuf : g.addrBuf = p.wa
  wdataBuf : g.wdataBuf = p.cpuDataIn
  wrBuf : g.wrBuf = p.isWrite

theorem clock_idle (h : g.state = .idle) : g.clock latency p =
    if p.selBr then
      { g with
        ram := p.armRam g.ram
        state := .busy
        cnt := BitVec.ofNat 16 latency
        addrBuf := p.wa
        wdataBuf := p.cpuDataIn
        wrBuf := p.isWrite }
    else { g with ram := p.armRam g.ram } := by
  unfold clock
  rw [h]

theorem clock_counts (h : g.state = .busy) (hcnt : g.cnt ≠ 0) :
    g.clock latency p = { g with ram := p.armRam g.ram, cnt := g.cnt - 1 } := by
  unfold clock
  rw [h]
  exact if_neg hcnt

theorem clock_writes (h : g.state = .busy) (hcnt : g.cnt = 0) (hwr : g.wrBuf = true) :
    g.clock latency p = { g with
      ram := Function.update (p.armRam g.ram) g.addrBuf g.wdataBuf, state := .done } := by
  unfold clock
  rw [h, hcnt, hwr]
  rfl

theorem clock_reads (h : g.state = .busy) (hcnt : g.cnt = 0) (hwr : g.wrBuf = false) :
    g.clock latency p = { g with
      ram := p.armRam g.ram, state := .done, cpuDataOut := g.ram g.addrBuf } := by
  unfold clock
  rw [h, hcnt, hwr]
  rfl

theorem clock_done (h : g.state = .done) : g.clock latency p =
    if p.selBr then { g with ram := p.armRam g.ram }
    else { g with ram := p.armRam g.ram, state := .idle } := by
  unfold clock
  rw [h]

/-- While the machine is busy, the pins of the next clock are those it took
over. -/
theorem captured_clock (hcap : g.state = .busy → g.Captured p)
    (hheld : g.nrdy p = true → q.toWindowBus = p.toWindowBus)
    (hbusy : (g.clock latency p).state = .busy) : (g.clock latency p).Captured q := by
  cases hstate : g.state with
  | idle =>
      rw [clock_idle hstate] at hbusy ⊢
      cases hsel : p.selBr with
      | false =>
          rw [hsel] at hbusy
          exact absurd (hstate.symm.trans hbusy) (by decide)
      | true =>
          rw [if_pos rfl]
          have hbus := hheld (by simp [nrdy, hstate, hsel])
          refine ⟨?_, ?_, ?_, ?_⟩ <;> rw [hbus]
          exact hsel
  | busy =>
      have hbus := hheld (by simp [nrdy, hstate])
      have hp := hcap hstate
      by_cases hcnt : g.cnt = 0
      · have hdone : (g.clock latency p).state = .done := by
          cases hwr : g.wrBuf with
          | true => rw [clock_writes hstate hcnt hwr]
          | false => rw [clock_reads hstate hcnt hwr]
        exact absurd (hdone.symm.trans hbusy) (by decide)
      · rw [clock_counts hstate hcnt]
        refine ⟨?_, ?_, ?_, ?_⟩ <;> rw [hbus]
        · exact hp.selBr
        · exact hp.addrBuf
        · exact hp.wdataBuf
        · exact hp.wrBuf
  | done =>
      rw [clock_done hstate] at hbusy
      split at hbusy
      · exact absurd (hstate.symm.trans hbusy) (by decide)
      · cases hbusy

/-! ## The simulation -/

/-- Where the window and the shared memory stand in the same bus cycle. -/
inductive Sim (latency : Nat) (g : DdrWindow) (s : SharedRam.State (BitVec 14) Lane U8) : Prop where
  | idle (state : g.state = .idle) (phase : s.phase = .idle)
  | busy (n : Nat) (state : g.state = .busy) (phase : s.phase = .waiting n)
      (count : n + g.cnt.toNat = wait latency)
  | done (out : Option (Lane → U8)) (state : g.state = .done) (phase : s.phase = .performed out)
      (data : ∀ v, out = some v → lanes g.cpuDataOut = v)

variable {s : SharedRam.State (BitVec 14) Lane U8}

theorem Sim.shows (h : Sim latency g s) (hmem : s.mem = windowBytes g.ram)
    (hcap : g.state = .busy → g.Captured p) : g.Shows s p := by
  have harm : lanes (g.armRdata p) = s.mem p.armAddr := by
    rw [hmem]
    rfl
  cases h with
  | idle state phase =>
      refine ⟨?_, ?_, harm⟩
      · simp [DdrWindow.nrdy, state, phase, SharedRam.Phase.isPerformed]
      · simp [phase]
  | busy n state phase count =>
      refine ⟨?_, ?_, harm⟩
      · simp [DdrWindow.nrdy, state, phase, SharedRam.Phase.isPerformed, (hcap state).selBr]
      · simp [phase]
  | done out state phase data =>
      refine ⟨?_, ?_, harm⟩
      · simp [DdrWindow.nrdy, state, phase, SharedRam.Phase.isPerformed]
      · intro v hv _
        rw [phase] at hv
        exact data v (SharedRam.Phase.performed.inj hv)

/-- The access of a busy machine whose count is down: a write after the ARM's
store of the same clock, a read before it. -/
theorem perform_clock (latency : Nat) (hcap : g.Captured p) (hquiet : g.QuietLanes p)
    (hstate : g.state = .busy) (hcnt : g.cnt = 0) :
    ∃ out, SharedRam.Performs p.request (windowBytes g.ram)
        (windowBytes (g.clock latency p).ram) out ∧
      (g.clock latency p).state = .done ∧
      ∀ v, out = some v → lanes (g.clock latency p).cpuDataOut = v := by
  cases hwr : p.isWrite with
  | true =>
      have hlast := SharedRam.Performs.last (c := p.request) (m := windowBytes g.ram)
      rw [p.settle_request, WindowPins.access_write hwr] at hlast
      rw [clock_writes hstate hcnt (hcap.wrBuf.trans hwr), hcap.addrBuf, hcap.wdataBuf,
        windowBytes_update_lanes (hquiet hstate hcnt hwr)]
      exact ⟨none, hlast, rfl, by simp⟩
  | false =>
      have hfirst := SharedRam.Performs.first (c := p.request) (m := windowBytes g.ram)
      rw [WindowPins.access_read hwr] at hfirst
      rw [clock_reads hstate hcnt (hcap.wrBuf.trans hwr), hcap.addrBuf, ← p.settle_request]
      exact ⟨some (lanes (g.ram p.wa)), hfirst, rfl, fun v hv => Option.some.inj hv⟩

/-- Each clock of the window is a clock of the shared memory. -/
theorem Sim.step (h : Sim latency g s) (hmem : s.mem = windowBytes g.ram)
    (hcap : g.state = .busy → g.Captured p) (hquiet : g.QuietLanes p) :
    ∃ s', SharedRam.Step (wait latency) p.request s s' ∧
      s'.mem = windowBytes (g.clock latency p).ram ∧ Sim latency (g.clock latency p) s' := by
  have hsettle : p.request.settle s.mem = windowBytes (p.armRam g.ram) := by
    rw [hmem, p.settle_request]
  cases h with
  | idle state phase =>
      rw [clock_idle state]
      cases hsel : p.selBr with
      | false => exact ⟨_, .rest hsel phase, hsettle, .idle state rfl⟩
      | true =>
          refine ⟨_, .wait (n := 0) hsel (by rw [phase]; rfl) (Nat.succ_pos _), hsettle,
            .busy 1 rfl rfl ?_⟩
          simp [wait, Nat.add_comm]
  | busy n state phase count =>
      have hwaited : s.phase.waited = some n := by rw [phase]; rfl
      by_cases hcnt : g.cnt = 0
      · obtain ⟨out, hperforms, hdone, hdata⟩ :=
          perform_clock latency (hcap state) hquiet state hcnt
        rw [← hmem] at hperforms
        exact ⟨_, .perform (hcap state).selBr hwaited hperforms, rfl, .done out hdone rfl hdata⟩
      · have hpos : 0 < g.cnt.toNat := by
          rw [Nat.pos_iff_ne_zero]
          intro h
          exact hcnt (BitVec.eq_of_toNat_eq h)
        rw [clock_counts state hcnt]
        refine ⟨_, .wait (hcap state).selBr hwaited (by omega), hsettle, .busy (n + 1) state rfl ?_⟩
        have hcount : (g.cnt - 1).toNat = g.cnt.toNat - 1 := by bv_omega
        change n + 1 + (g.cnt - 1).toNat = wait latency
        omega
  | done out state phase data =>
      rw [clock_done state]
      cases hsel : p.selBr with
      | false => exact ⟨_, .finish hsel phase, hsettle, .idle rfl rfl⟩
      | true => exact ⟨_, .hold hsel phase, hsettle, .done out state rfl data⟩

/-! ## Runs -/

theorem Held.tail {ps : List WindowPins} (h : Held latency g (p :: ps)) :
    Held latency (g.clock latency p) ps := by
  cases ps with
  | nil => trivial
  | cons q ps => exact h.2

/-- The machine is busy only with what the next clock still has on its pins. -/
theorem Held.captured {ps : List WindowPins} (h : Held latency g (p :: ps))
    (hcap : g.state = .busy → g.Captured p) :
    ∀ q ∈ ps.head?, (g.clock latency p).state = .busy → (g.clock latency p).Captured q := by
  intro q hq hbusy
  cases ps with
  | nil => cases hq
  | cons r ps =>
      cases hq
      exact captured_clock hcap h.1 hbusy

theorem implements_of_quiet {ps : List WindowPins} (hsim : Sim latency g s)
    (hmem : s.mem = windowBytes g.ram) (hcap : ∀ p ∈ ps.head?, g.state = .busy → g.Captured p)
    (hheld : Held latency g ps) (hquiet : Watch (clock latency) QuietLanes g ps) :
    Implements latency g s ps := by
  induction ps generalizing g s with
  | nil => trivial
  | cons p ps ih =>
      have hp := hcap p rfl
      obtain ⟨s', hstep, hmem', hsim'⟩ := hsim.step hmem hp hquiet.1
      exact ⟨hsim.shows hmem hp, s', hstep, hmem',
        ih hsim' hmem' (hheld.captured hp) hheld.tail hquiet.2⟩

/-- Whatever clock the shared memory performs the access in, it spares the
lanes without strobe. -/
theorem quietLanes_of_step {s' : SharedRam.State (BitVec 14) Lane U8}
    (hmem : s.mem = windowBytes g.ram) (hcap : g.state = .busy → g.Captured p)
    (hstep : SharedRam.Step (wait latency) p.request s s')
    (hmem' : s'.mem = windowBytes (g.clock latency p).ram) : g.QuietLanes p := by
  intro hstate hcnt hwr l hl
  have hp := hcap hstate
  have hspared := hstep.spared (WindowPins.spares_request hl)
  rw [hmem', hmem, p.settle_request, clock_writes hstate hcnt (hp.wrBuf.trans hwr), hp.addrBuf,
    hp.wdataBuf] at hspared
  simpa [windowBytes] using hspared

theorem quiet_of_implements {ps : List WindowPins} (hmem : s.mem = windowBytes g.ram)
    (hcap : ∀ p ∈ ps.head?, g.state = .busy → g.Captured p) (hheld : Held latency g ps)
    (h : Implements latency g s ps) : Watch (clock latency) QuietLanes g ps := by
  induction ps generalizing g s with
  | nil => trivial
  | cons p ps ih =>
      obtain ⟨-, s', hstep, hmem', hrest⟩ := h
      have hp := hcap p rfl
      exact ⟨quietLanes_of_step hmem hp hstep hmem',
        ih hmem' (hheld.captured hp) hheld.tail hrest⟩

/-- From reset the window is a shared memory of bytes exactly if every write
finds the lanes it has no strobe for unchanged on the data bus. -/
theorem window_refines_iff (latency : Nat) (g : DdrWindow) (ps : List WindowPins)
    (hheld : Held latency g.reset ps) :
    Implements latency g.reset ⟨windowBytes g.ram, .idle⟩ ps ↔
      Watch (clock latency) QuietLanes g.reset ps := by
  have hcap : ∀ p ∈ ps.head?, g.reset.state = .busy → g.reset.Captured p := by
    intro p _ hbusy
    cases hbusy
  constructor
  · exact quiet_of_implements rfl hcap hheld
  · exact implements_of_quiet (.idle rfl rfl) rfl hcap hheld

/-- Word accesses are always quiet. -/
theorem quiet_of_words {ps : List WindowPins} (h : ∀ p ∈ ps, p.cpuHwr = p.cpuLwr) :
    Watch (clock latency) QuietLanes g ps := by
  apply Watch.of_forall
  intro p hp g _ _ hwr l hl
  have hword := h p hp
  unfold WindowBus.isWrite at hwr
  cases l <;> simp_all [WindowPins.strobe]

/-! ## A byte write -/

/-- Nothing selected, the ARM idle. -/
def idlePins : WindowPins := ⟨⟨0, 0, true, true, false⟩, 0, 0, false⟩

/-- A cycle at card offset 0x8000 with the byte 0x12 on both halves of the bus,
as the 68k drives it for a byte. -/
def cyclePins (hwr lwr : Bool) : WindowPins :=
  { idlePins with
    cpuAddr := 0x74C000
    cpuDataIn := 0x1212
    cpuHwr := hwr
    cpuLwr := lwr
    sel := true }

/-- A window over a cleared memory. -/
def blank : DdrWindow := ⟨fun _ => 0, 0, .idle, 0, 0, 0, false⟩

/-- A word write, and a read that follows it. -/
theorem window_refines_word :
    Implements 2 blank.reset ⟨windowBytes blank.ram, .idle⟩
      [cyclePins false false, cyclePins false false, cyclePins false false, cyclePins false false,
        cyclePins false false, idlePins, cyclePins true true, cyclePins true true] := by
  refine (window_refines_iff 2 blank _ ?_).mpr
    (quiet_of_words (by simp [cyclePins, idlePins]))
  exact ⟨fun _ => rfl, fun _ => rfl, fun _ => rfl, fun _ => rfl, by decide, by decide,
    fun _ => rfl, trivial⟩

/-- The write of a single even byte changes the odd byte with it. -/
theorem window_writes_both_lanes :
    ¬ ∀ (latency : Nat) (g : DdrWindow) (ps : List WindowPins), Held latency g.reset ps →
      Implements latency g.reset ⟨windowBytes g.ram, .idle⟩ ps := by
  intro h
  have hheld : Held 2 blank.reset [cyclePins false true, cyclePins false true,
      cyclePins false true, cyclePins false true] :=
    ⟨fun _ => rfl, fun _ => rfl, fun _ => rfl, trivial⟩
  have hcap : ∀ p ∈ [cyclePins false true, cyclePins false true, cyclePins false true,
      cyclePins false true].head?, blank.reset.state = .busy → blank.reset.Captured p := by
    intro p _ hbusy
    cases hbusy
  have hquiet := quiet_of_implements rfl hcap hheld (h 2 blank _ hheld)
  have hlow := hquiet.2.2.2.1 (by decide) (by decide) (by decide) .low (by decide)
  revert hlow
  decide

end DdrWindow

end A2065
