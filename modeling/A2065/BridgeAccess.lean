import A2065.Bridge

/-!
# How a register access through the bridge ends

`gen_bridge` of `a2065_registers.v` keeps the 68k waiting until the daemon has
answered or the watchdog runs out. Here the 68k holds AS low and the daemon is
any at all: in each clock `bridge_done` and `bridge_result` show what they
like. Which of DTACK and BERR ends the access, in which clock and with which
data, depends on the first clock with `bridge_done` and on nothing else.
-/

namespace A2065

namespace Bridge

/-- What the inputs show in one clock. -/
structure Input where
  bus : CpuBus
  done : Bool
  result : U16

/-- One edge with the inputs `i`. -/
def tick (limit : Nat) (b : Bridge) (i : Input) : Bridge := b.clock limit i.bus i.done i.result

/-- The edges in turn. -/
def run (limit : Nat) (ins : List Input) (b : Bridge) : Bridge := ins.foldl (tick limit) b

/-- The clocks before the first one with `bridge_done`. -/
def untilDone (ins : List Input) : Nat := ins.findIdx (·.done)

/-- An access has been in `ST_WAIT_ARM` for `n` clocks. -/
structure Waiting (n : Nat) (b : Bridge) : Prop where
  state : b.state = .waitArm
  watchdog : b.watchdog.toNat = n
  dtack : b.cpuDtackN = true
  berr : b.cpuBerrN = true
  newReq : b.bridgeNewReq = true

/-- The request the daemon sees is that of the bus. -/
structure Shows (p : CpuBus) (b : Bridge) : Prop where
  data : b.bridgeData = p.cpuDataIn
  addrOff : b.bridgeAddrOff = p.offset
  rw : b.bridgeRw = !p.cpuRw

section Clock

variable {limit n : Nat} {b : Bridge} {i : Input} {p : CpuBus}

theorem Waiting.of_select (limit : Nat) (hidle : b.state = .idle) (hsel : i.bus.selChipreg = true) :
    Waiting 0 (b.tick limit i) ∧ Shows i.bus (b.tick limit i) := by
  simp only [tick, clock, hidle, hsel, if_true]
  exact ⟨⟨rfl, rfl, rfl, rfl, rfl⟩, rfl, rfl, rfl⟩

theorem Waiting.answered (h : Waiting n b) (limit : Nat) (hdone : i.done = true) : b.tick limit i =
    { b with watchdog := b.watchdog + 1, bridgeDoneClr := true, bridgeNewReq := false,
             cpuDataOut := i.result, state := .release } := by
  simp only [tick, clock, h.state, hdone, if_true]

theorem Waiting.expired (h : Waiting n b) (hlimit : limit < 2 ^ 20) (hdone : i.done = false)
    (hn : limit ≤ n) : b.tick limit i =
    { b with watchdog := b.watchdog + 1, bridgeDoneClr := false, bridgeNewReq := false,
             state := .berr } := by
  have hle : BitVec.ofNat 20 limit ≤ b.watchdog := by
    rw [BitVec.le_def, BitVec.toNat_ofNat, Nat.mod_eq_of_lt hlimit, h.watchdog]
    exact hn
  simp [tick, clock, h.state, hdone, hle]

theorem Waiting.goes_on (h : Waiting n b) (hlimit : limit < 2 ^ 20) (hdone : i.done = false)
    (hn : n < limit) : Waiting (n + 1) (b.tick limit i) := by
  have hlt : ¬ BitVec.ofNat 20 limit ≤ b.watchdog := by
    rw [BitVec.le_def, BitVec.toNat_ofNat, Nat.mod_eq_of_lt hlimit, h.watchdog]
    omega
  simp only [tick, clock, h.state, hdone, hlt, if_false, Bool.false_eq_true]
  refine ⟨rfl, ?_, h.dtack, h.berr, rfl⟩
  have hw := h.watchdog
  simp only [BitVec.toNat_add, hw]
  exact Nat.mod_eq_of_lt (by simp; omega)

/-- Nothing but a select changes the request. -/
theorem Shows.tick (h : Shows p b) (hbusy : b.state ≠ .idle) : Shows p (b.tick limit i) := by
  obtain ⟨hdata, haddr, hrw⟩ := h
  unfold Bridge.tick clock
  split
  · exact absurd ‹_› hbusy
  · dsimp only
    split_ifs <;> exact ⟨hdata, haddr, hrw⟩
  · dsimp only
    split_ifs <;> exact ⟨hdata, haddr, hrw⟩
  · dsimp only
    split_ifs <;> exact ⟨hdata, haddr, hrw⟩

theorem tick_release (h : b.state = .release) (has : i.bus.cpuAsN = false) :
    b.tick limit i = { b with bridgeDoneClr := false, cpuDtackN := false } := by
  simp [tick, clock, h, has]

theorem tick_berr (h : b.state = .berr) (has : i.bus.cpuAsN = false) :
    b.tick limit i = { b with bridgeDoneClr := false, cpuBerrN := false } := by
  simp [tick, clock, h, has]

/-- The 68k takes AS away. -/
theorem tick_end (has : i.bus.cpuAsN = true)
    (h : b.state = .release ∧ b.cpuBerrN = true ∨ b.state = .berr ∧ b.cpuDtackN = true) :
    (b.tick limit i).state = .idle ∧ (b.tick limit i).cpuDtackN = true ∧
      (b.tick limit i).cpuBerrN = true := by
  rcases h with ⟨hstate, hberr⟩ | ⟨hstate, hdtack⟩
  · simp [tick, clock, hstate, has, hberr]
  · simp [tick, clock, hstate, has, hdtack]

end Clock

/-! ## The whole access -/

section Held

variable {limit n : Nat} {b : Bridge} {p : CpuBus} {ins : List Input}

theorem run_release (h : b.state = .release) (hheld : ∀ i ∈ ins, i.bus.cpuAsN = false)
    (hne : ins ≠ []) :
    run limit ins b = { b with bridgeDoneClr := false, cpuDtackN := false } := by
  induction ins generalizing b with
  | nil => exact absurd rfl hne
  | cons i ins ih =>
      rw [run, List.foldl_cons, tick_release h (hheld i List.mem_cons_self)]
      cases ins with
      | nil => rfl
      | cons j js => exact ih h (fun k hk => hheld k (List.mem_cons_of_mem i hk)) (by simp)

theorem run_berr (h : b.state = .berr) (hheld : ∀ i ∈ ins, i.bus.cpuAsN = false)
    (hne : ins ≠ []) :
    run limit ins b = { b with bridgeDoneClr := false, cpuBerrN := false } := by
  induction ins generalizing b with
  | nil => exact absurd rfl hne
  | cons i ins ih =>
      rw [run, List.foldl_cons, tick_berr h (hheld i List.mem_cons_self)]
      cases ins with
      | nil => rfl
      | cons j js => exact ih h (fun k hk => hheld k (List.mem_cons_of_mem i hk)) (by simp)

/-- Where an access stands that had waited `n` clocks before `ins`. -/
structure Outcome (limit n : Nat) (ins : List Input) (p : CpuBus) (b : Bridge) : Prop where
  dtack : b.cpuDtackN = false ↔ n + untilDone ins ≤ limit ∧ untilDone ins + 1 < ins.length
  berr : b.cpuBerrN = false ↔ limit < n + untilDone ins ∧ limit + 1 < n + ins.length
  data : ∀ i ∈ ins.find? (·.done), n + untilDone ins ≤ limit → b.cpuDataOut = i.result
  newReq : b.bridgeNewReq = true ↔ ins.length ≤ untilDone ins ∧ n + ins.length ≤ limit
  request : Shows p b
  state : b.state = if b.bridgeNewReq then .waitArm
    else if n + untilDone ins ≤ limit then .release else .berr

variable {i : Input}

theorem untilDone_done (ins : List Input) (hdone : i.done = true) :
    untilDone (i :: ins) = 0 := by
  simp [untilDone, List.findIdx_cons, hdone]

theorem untilDone_wait (ins : List Input) (hdone : i.done = false) :
    untilDone (i :: ins) = untilDone ins + 1 := by
  simp [untilDone, List.findIdx_cons, hdone]

/-- The daemon answers in the first of the clocks. -/
theorem Waiting.outcome_answered (h : Waiting n b) (hp : Shows p b) (hn : n ≤ limit)
    (hdone : i.done = true) (hheld : ∀ j ∈ ins, j.bus.cpuAsN = false) :
    Outcome limit n (i :: ins) p (run limit ins (b.tick limit i)) := by
  have hshows : Shows p (b.tick limit i) := hp.tick (by simp [h.state])
  have hend := h.answered limit hdone
  have hdtack := h.dtack
  have hberr := h.berr
  have hu := untilDone_done ins hdone
  by_cases hne : ins = []
  · subst hne
    rw [run, List.foldl_nil]
    constructor
    case request => exact hshows
    all_goals simp [hend, hu, hdtack, hberr, hdone]
    all_goals omega
  · have hlen : 0 < ins.length := List.length_pos_iff.mpr hne
    rw [run_release (by rw [hend]) hheld hne]
    constructor
    case request => exact ⟨hshows.data, hshows.addrOff, hshows.rw⟩
    all_goals simp [hend, hu, hdtack, hberr, hdone]
    all_goals omega

/-- The watchdog runs out in the first of the clocks. -/
theorem Waiting.outcome_expired (h : Waiting limit b) (hp : Shows p b) (hlimit : limit < 2 ^ 20)
    (hdone : i.done = false) (hheld : ∀ j ∈ ins, j.bus.cpuAsN = false) :
    Outcome limit limit (i :: ins) p (run limit ins (b.tick limit i)) := by
  have hshows : Shows p (b.tick limit i) := hp.tick (by simp [h.state])
  have hend := h.expired hlimit hdone (Nat.le_refl limit)
  have hdtack := h.dtack
  have hberr := h.berr
  have hu := untilDone_wait ins hdone
  by_cases hne : ins = []
  · subst hne
    rw [run, List.foldl_nil]
    constructor
    case request => exact hshows
    all_goals simp [hend, hu, hdtack, hberr, hdone]
  · have hlen : 0 < ins.length := List.length_pos_iff.mpr hne
    rw [run_berr (by rw [hend]) hheld hne]
    constructor
    case request => exact ⟨hshows.data, hshows.addrOff, hshows.rw⟩
    all_goals simp [hend, hu, hdtack, hberr, hdone]
    all_goals omega

/-- One more clock of waiting in front. -/
theorem Outcome.wait (h : Outcome limit (n + 1) ins p b) (hdone : i.done = false) :
    Outcome limit n (i :: ins) p b := by
  have hu := untilDone_wait ins hdone
  have hsum : n + (untilDone ins + 1) = n + 1 + untilDone ins := by omega
  constructor
  case dtack =>
    rw [h.dtack, hu, hsum, List.length_cons]
    omega
  case berr =>
    rw [h.berr, hu, hsum, List.length_cons]
    omega
  case data =>
    intro j hj hle
    rw [List.find?_cons_of_neg (by simp [hdone])] at hj
    exact h.data j hj (by omega)
  case newReq =>
    rw [h.newReq, hu, List.length_cons]
    omega
  case request => exact h.request
  case state => rw [h.state, hu, hsum]

theorem Waiting.outcome (h : Waiting n b) (hp : Shows p b) (hlimit : limit < 2 ^ 20)
    (hn : n ≤ limit) (hheld : ∀ i ∈ ins, i.bus.cpuAsN = false) :
    Outcome limit n ins p (run limit ins b) := by
  induction ins generalizing n b with
  | nil =>
      constructor
      case request => exact hp
      all_goals simp [run, untilDone, h.dtack, h.berr, h.newReq, h.state, hn]
  | cons i ins ih =>
      have hrest : ∀ j ∈ ins, j.bus.cpuAsN = false :=
        fun j hj => hheld j (List.mem_cons_of_mem i hj)
      rw [run, List.foldl_cons, ← run]
      cases hdone : i.done with
      | true => exact h.outcome_answered hp hn hdone hrest
      | false =>
          rcases Nat.lt_or_eq_of_le hn with hlt | rfl
          · have hshows : Shows p (b.tick limit i) := hp.tick (by simp [h.state])
            exact (ih (h.goes_on hlimit hdone hlt) hshows hlt hrest).wait hdone
          · exact h.outcome_expired hp hlimit hdone hrest

/-- Only one of the two lines is low. -/
theorem Outcome.ended (h : Outcome limit n ins p b)
    (hlow : b.cpuDtackN = false ∨ b.cpuBerrN = false) :
    b.state = .release ∧ b.cpuBerrN = true ∨ b.state = .berr ∧ b.cpuDtackN = true := by
  rcases hlow with hlow | hlow
  · obtain ⟨hle, hlen⟩ := h.dtack.mp hlow
    have hreq : b.bridgeNewReq = false := by
      rw [← Bool.not_eq_true, h.newReq]
      omega
    have hberr : b.cpuBerrN = true := by
      rw [← Bool.not_eq_false, h.berr]
      omega
    exact .inl ⟨by rw [h.state, hreq, if_pos hle]; rfl, hberr⟩
  · obtain ⟨hlt, hlen⟩ := h.berr.mp hlow
    have hreq : b.bridgeNewReq = false := by
      rw [← Bool.not_eq_true, h.newReq]
      omega
    have hdtack : b.cpuDtackN = true := by
      rw [← Bool.not_eq_false, h.dtack]
      omega
    exact .inr ⟨by rw [h.state, hreq, if_neg (by omega : ¬ n + untilDone ins ≤ limit)]; rfl, hdtack⟩

end Held

end Bridge

/-- A register access from an idle bridge: AS stays low for the clocks `ins`
after the one that selects it. DTACK is low from the second clock after the
first `bridge_done` on, if that comes in time, and then the data are those of
that clock; otherwise BERR is low from clock `limit + 2` on. The daemon sees
the request of the bus until then. When AS goes high after that, the bridge is
idle and both lines are high. -/
theorem bridge_access (limit : Nat) (hlimit : limit < 2 ^ 20) (b : Bridge)
    (hidle : b.state = .idle) (select : Bridge.Input) (hsel : select.bus.selChipreg = true)
    (ins : List Bridge.Input) (hheld : ∀ i ∈ ins, i.bus.cpuAsN = false) :
    let e := Bridge.run limit (select :: ins) b
    Bridge.Outcome limit 0 ins select.bus e ∧
      ∀ last : Bridge.Input, last.bus.cpuAsN = true → e.cpuDtackN = false ∨ e.cpuBerrN = false →
        (e.tick limit last).state = .idle ∧ (e.tick limit last).cpuDtackN = true ∧
          (e.tick limit last).cpuBerrN = true := by
  intro e
  obtain ⟨hwait, hshows⟩ := Bridge.Waiting.of_select limit hidle hsel
  have hend : Bridge.Outcome limit 0 ins select.bus e :=
    hwait.outcome hshows hlimit (Nat.zero_le limit) hheld
  exact ⟨hend, fun last hlast hlow => Bridge.tick_end hlast (hend.ended hlow)⟩

/-- A bus on which the RDP of a card at 0xE90000 is read, or nothing. -/
def rdpBus (asN : Bool) : CpuBus := ⟨0xE94000#24, true, asN, asN, 0x0000#16, 0xE9#8, true⟩

/-- The daemon answers in the third clock of the wait. -/
def answerInputs : List Bridge.Input :=
  [⟨rdpBus false, false, 0x0000#16⟩, ⟨rdpBus false, false, 0x0000#16⟩,
    ⟨rdpBus false, true, 0x0004#16⟩, ⟨rdpBus false, false, 0x0000#16⟩]

theorem bridge_access_answered :
    let e := Bridge.run WATCHDOG_CYCLES (⟨rdpBus false, false, 0x0000#16⟩ :: answerInputs) .reset
    e.cpuDtackN = false ∧ e.cpuDataOut = 0x0004#16 := by
  have hend := (bridge_access WATCHDOG_CYCLES (by decide) .reset rfl
    ⟨rdpBus false, false, 0x0000#16⟩ (by decide) answerInputs (by decide)).1
  exact ⟨hend.dtack.mpr (by decide), hend.data _ rfl (by decide)⟩

end A2065
