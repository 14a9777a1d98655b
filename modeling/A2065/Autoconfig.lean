import A2065.Types
import Mathlib.Data.List.DropRight

/-!
# The configuration of the card, `a2065_autoconfig.v`

The 68k finds the card at 0xE80000, reads what it is one nibble at a time,
gives it an address and, if it has no place for it, shuts it up. `Pins` is what
the inputs of the module show during one clock, `clock` the edge at its end.

A bus cycle lasts any number of clocks, so a write is seen any number of
times. Everything the module holds is a function of the clocks since the last
reset: the address is the one written last before the card was shut up.
-/

namespace A2065

/-- The registers of `a2065_autoconfig`. -/
structure Autoconfig where
  cardBase : U8
  cardConfigured : Bool
  cardShutup : Bool
  cpuDtackN : Bool
  cpuDataOut : U16
  deriving DecidableEq

namespace Autoconfig

/-- What the module reads at an edge: reset, the bus of the 68k and the bytes
of the MAC that the serial number is built from. -/
structure Pins where
  rstN : Bool
  cpuAddr : BitVec 24
  cpuRw : Bool
  cpuAsN : Bool
  cpuDataIn : U16
  macByte2 : U8
  macByte3 : U8
  macByte4 : U8
  macByte5 : U8

namespace Pins

/-- The nibbles, as they are before the bus inverts them. -/
def rom (p : Pins) : Vector (BitVec 4) 32 :=
  #v[0xC#4, 0x1#4,                          -- er_Type
    0x7#4, 0x0#4,                           -- er_Product
    0x0#4, 0x0#4,                           -- er_Flags
    0xF#4, 0xF#4,
    0x0#4, 0x2#4, 0x0#4, 0x2#4,             -- er_Manufacturer
    p.macByte2.extractLsb' 4 4, p.macByte2.extractLsb' 0 4,
    p.macByte3.extractLsb' 4 4, p.macByte3.extractLsb' 0 4,
    p.macByte4.extractLsb' 4 4, p.macByte4.extractLsb' 0 4,
    p.macByte5.extractLsb' 4 4, p.macByte5.extractLsb' 0 4,
    0xF#4, 0xF#4, 0xF#4, 0xF#4,             -- er_InitDiagVec
    0xF#4, 0xF#4, 0xF#4, 0xF#4, 0xF#4, 0xF#4, 0xF#4, 0xF#4]

/-- The nibble of the configuration ROM the bus addresses. -/
def nibbleIdx (p : Pins) : BitVec 5 := p.cpuAddr.extractLsb' 1 5

/-- The bus addresses the configuration space. -/
def inSpace (p : Pins) : Bool := p.cpuAddr.extractLsb' 16 8 == 0xE8#8 && !p.cpuAsN

/-- A write to the given offset of the space. -/
def writes (p : Pins) (off : U8) : Bool :=
  p.inSpace && !p.cpuRw && p.cpuAddr.extractLsb' 0 8 == off

/-- `cpu_data_in[15:8]` -/
def base (p : Pins) : U8 := p.cpuDataIn.extractLsb' 8 8

end Pins

/-- The register whose write gives the card its base and configures it. -/
def BASE_LO : U8 := 0x48#8

/-- The other base register, which the card acknowledges and no more. -/
def BASE_HI : U8 := 0x4A#8

/-- The register whose write takes the card out of the chain. -/
def SHUTUP : U8 := 0x4C#8

/-- The state after a reset: not configured, nothing on the bus. -/
def reset : Autoconfig := ⟨0x00#8, false, false, true, 0xFFFF#16⟩

/-- The wire `sel_autoconfig`. -/
def selAutoconfig (a : Autoconfig) (p : Pins) : Bool := !a.cardShutup && p.inSpace

/-- A write to `BASE_LO` while the card is in autoconfig space. -/
def writeBaseLo (a : Autoconfig) (p : Pins) : Bool :=
  a.selAutoconfig p && !p.cpuRw && p.cpuAddr.extractLsb' 0 8 == BASE_LO

/-- A write to `BASE_HI` there. -/
def writeBaseHi (a : Autoconfig) (p : Pins) : Bool :=
  a.selAutoconfig p && !p.cpuRw && p.cpuAddr.extractLsb' 0 8 == BASE_HI

/-- A write to `SHUTUP` there. -/
def writeShutup (a : Autoconfig) (p : Pins) : Bool :=
  a.selAutoconfig p && !p.cpuRw && p.cpuAddr.extractLsb' 0 8 == SHUTUP

/-- What a read puts on the data bus: the nibble inverted, at the top. -/
def shown (p : Pins) : U16 := (~~~ p.rom.get p.nibbleIdx.toFin) ++ 0xFFF#12

/-- One edge of the clock. A write that names none of the three registers is
acknowledged and changes nothing else. -/
def clock (a : Autoconfig) (p : Pins) : Autoconfig :=
  if !p.rstN then reset
  else
    let g := { a with cpuDtackN := true, cpuDataOut := 0xFFFF#16 }
    if a.selAutoconfig p then
      if p.cpuRw then { g with cpuDataOut := shown p, cpuDtackN := false }
      else if a.writeBaseLo p then
        { g with cardBase := p.base, cardConfigured := true, cpuDtackN := false }
      -- of no use for a board of 64 KB
      else if a.writeBaseHi p then { g with cpuDtackN := false }
      else if a.writeShutup p then { g with cardShutup := true, cpuDtackN := false }
      else { g with cpuDtackN := false }
    else g

/-- The edges in turn. -/
def run (ps : List Pins) (a : Autoconfig) : Autoconfig := ps.foldl clock a

/-! ## What the 68k has done -/

/-- The clocks since the last one in reset. -/
def sinceReset (ps : List Pins) : List Pins := ps.rtakeWhile (·.rstN)

/-- The clocks before the card was shut up. -/
def heard (ps : List Pins) : List Pins := ps.takeWhile fun p => !p.writes SHUTUP

/-- The address the 68k has given the card. -/
def given (ps : List Pins) : Option U8 :=
  ((heard ps).filter (·.writes BASE_LO)).getLast?.map Pins.base

/-- The card answers in the last of the clocks. -/
def answers (ps : List Pins) : Bool :=
  ps.getLast?.any fun p => p.inSpace && ps.dropLast.all fun q => !q.writes SHUTUP

/-- What the outputs are after these clocks since the reset. -/
structure Follows (ps : List Pins) (a : Autoconfig) : Prop where
  shutup : a.cardShutup = ps.any (·.writes SHUTUP)
  configured : a.cardConfigured = (given ps).isSome
  base : a.cardBase = (given ps).getD 0x00#8
  dtack : a.cpuDtackN = !answers ps
  data : a.cpuDataOut = (ps.getLast?.filter fun p => answers ps && p.cpuRw).elim 0xFFFF#16 shown

/-! ## One clock -/

section Clock

variable {a : Autoconfig} {p : Pins}

/-- The card hears a write of its address. -/
def addressed (a : Autoconfig) (p : Pins) : Bool := !a.cardShutup && p.writes BASE_LO

theorem clock_reset (h : p.rstN = false) : a.clock p = reset := by
  rw [clock, h]
  rfl

theorem clock_unselected (h : p.rstN = true) (hsel : a.selAutoconfig p = false) :
    a.clock p = { a with cpuDtackN := true, cpuDataOut := 0xFFFF#16 } := by
  rw [clock, h, hsel]
  rfl

theorem clock_read (h : p.rstN = true) (hsel : a.selAutoconfig p = true)
    (hrw : p.cpuRw = true) :
    a.clock p = { a with cpuDtackN := false, cpuDataOut := shown p } := by
  rw [clock, h, hsel, hrw]
  rfl

/-- The three offsets are different. -/
theorem clock_write (h : p.rstN = true) (hsel : a.selAutoconfig p = true)
    (hrw : p.cpuRw = false) :
    a.clock p =
      { cardBase := if p.cpuAddr.extractLsb' 0 8 = BASE_LO then p.base else a.cardBase
        cardConfigured := a.cardConfigured || p.cpuAddr.extractLsb' 0 8 == BASE_LO
        cardShutup := a.cardShutup || p.cpuAddr.extractLsb' 0 8 == SHUTUP
        cpuDtackN := false
        cpuDataOut := 0xFFFF#16 } := by
  simp only [clock, writeBaseLo, writeBaseHi, writeShutup, h, hsel, hrw]
  by_cases hlo : p.cpuAddr.extractLsb' 0 8 = BASE_LO
  · simp [hlo, BASE_LO, SHUTUP]
  · by_cases hhi : p.cpuAddr.extractLsb' 0 8 = BASE_HI
    · simp [hhi, BASE_HI, BASE_LO, SHUTUP]
    · by_cases hup : p.cpuAddr.extractLsb' 0 8 = SHUTUP
      · simp [hup, BASE_HI, BASE_LO, SHUTUP]
      · simp [hlo, hhi, hup]

/-- What the edge makes of each register, without the nested branches. -/
theorem clock_eq (h : p.rstN = true) : a.clock p =
    { cardBase := if a.addressed p then p.base else a.cardBase
      cardConfigured := a.cardConfigured || a.addressed p
      cardShutup := a.cardShutup || p.writes SHUTUP
      cpuDtackN := !a.selAutoconfig p
      cpuDataOut := if a.selAutoconfig p && p.cpuRw then shown p else 0xFFFF#16 } := by
  cases hsel : a.selAutoconfig p with
  | false =>
      rw [clock_unselected h hsel]
      cases hup : a.cardShutup with
      | false =>
          have hout : p.inSpace = false := by simpa [selAutoconfig, hup] using hsel
          simp [addressed, Pins.writes, hout, hup]
      | true => simp [addressed, hup]
  | true =>
      simp only [selAutoconfig, Bool.and_eq_true] at hsel
      have hup : a.cardShutup = false := by simpa using hsel.1
      cases hrw : p.cpuRw with
      | true =>
          rw [clock_read h (by simp [selAutoconfig, hsel]) hrw]
          simp [addressed, Pins.writes, hrw]
      | false =>
          rw [clock_write h (by simp [selAutoconfig, hsel]) hrw]
          simp [addressed, Pins.writes, hsel.2, hrw, hup]

end Clock

/-! ## Histories -/

section History

variable {ps : List Pins} {p : Pins}

/-- Nothing is heard once the card is shut up. -/
theorem heard_silent (h : ps.any (·.writes SHUTUP) = true) : heard (ps ++ [p]) = heard ps := by
  have hshort : (heard ps).length ≠ ps.length := by
    intro hlen
    have hall := List.takeWhile_eq_self_iff.mp ((List.takeWhile_sublist _).eq_of_length hlen)
    obtain ⟨q, hq, hw⟩ := List.any_eq_true.mp h
    simpa [hw] using hall q hq
  exact (List.takeWhile_append ..).trans (if_neg hshort)

theorem heard_all (h : ps.any (·.writes SHUTUP) = false) : heard ps = ps := by
  refine List.takeWhile_eq_self_iff.mpr fun q hq => ?_
  simpa using List.any_eq_false.mp h q hq

theorem heard_snoc (h : ps.any (·.writes SHUTUP) = false) :
    heard (ps ++ [p]) = ps ++ if p.writes SHUTUP then [] else [p] := by
  have hlen : (heard ps).length = ps.length := congrArg List.length (heard_all h)
  refine (List.takeWhile_append ..).trans ((if_pos hlen).trans ?_)
  cases hw : p.writes SHUTUP <;> simp [hw]

theorem writes_shutup_of_base (h : p.writes BASE_LO = true) : p.writes SHUTUP = false := by
  simp only [Pins.writes, Bool.and_eq_true, beq_iff_eq] at h
  simp [Pins.writes, h.2, BASE_LO, SHUTUP]

theorem given_snoc (ps : List Pins) (p : Pins) : given (ps ++ [p]) =
    if !ps.any (·.writes SHUTUP) && p.writes BASE_LO then some p.base else given ps := by
  cases h : ps.any (·.writes SHUTUP) with
  | true =>
      rw [given, heard_silent h]
      rfl
  | false =>
      rw [given, heard_snoc h, given, heard_all h, List.filter_append]
      cases hlo : p.writes BASE_LO with
      | true => simp [writes_shutup_of_base hlo, hlo]
      | false => cases p.writes SHUTUP <;> simp [hlo]

theorem answers_snoc (ps : List Pins) (p : Pins) :
    answers (ps ++ [p]) = (!ps.any (·.writes SHUTUP) && p.inSpace) := by
  simp [answers, Bool.and_comm, List.all_eq_not_any_not]

end History

/-! ## Runs -/

section Runs

variable {ps : List Pins} {p : Pins} {a : Autoconfig}

theorem Follows.nil : Follows [] reset := ⟨rfl, rfl, rfl, rfl, rfl⟩

theorem Follows.selAutoconfig (h : Follows ps a) (p : Pins) :
    a.selAutoconfig p = answers (ps ++ [p]) := by
  rw [answers_snoc, Autoconfig.selAutoconfig, h.shutup]

theorem Follows.addressed (h : Follows ps a) (p : Pins) :
    a.addressed p = (!ps.any (·.writes SHUTUP) && p.writes BASE_LO) := by
  rw [Autoconfig.addressed, h.shutup]

theorem Follows.clock (h : Follows ps a) (hp : p.rstN = true) :
    Follows (ps ++ [p]) (a.clock p) := by
  rw [clock_eq hp]
  constructor
  case shutup => simp [h.shutup]
  case configured =>
    rw [given_snoc, ← h.addressed, h.configured]
    cases a.addressed p <;> simp
  case base =>
    rw [given_snoc, ← h.addressed, h.base]
    cases a.addressed p <;> rfl
  case dtack => rw [h.selAutoconfig]
  case data =>
    rw [h.selAutoconfig, List.getLast?_concat, Option.filter_some]
    cases answers (ps ++ [p]) && p.cpuRw <;> rfl

/-- In every run from reset the registers and outputs of the module are what
the clocks since the last reset say. -/
theorem follows_run (ps : List Pins) : Follows (sinceReset ps) (run ps reset) := by
  induction ps using List.reverseRecOn with
  | nil => exact .nil
  | append_singleton ps p ih =>
      rw [run, List.foldl_append, sinceReset, List.rtakeWhile_concat]
      cases hp : p.rstN with
      | true => exact ih.clock hp
      | false =>
          have hclock : (run ps reset).clock p = reset := clock_reset hp
          show Follows [] ((run ps reset).clock p)
          rw [hclock]
          exact .nil

end Runs

end Autoconfig

end A2065
