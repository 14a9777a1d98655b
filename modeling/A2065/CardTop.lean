import A2065.Autoconfig

/-!
# The card, `a2065_top.v`

`a2065_autoconfig.v`, `a2065_boardram.v` and the logic around them that selects
boardram and puts their outputs on the bus of the 68k. `a2065_registers.v` has
models of its own (`RegistersLocal`, `Bridge`); what it drives are inputs here.
The port of the ARM is left out: `a2065_boardram.v` does not use it.

`Pins` is what the inputs show during one clock and `clock` the edge at its
end. The resets do not wait for the edge (`settle`): a card whose reset or
enable goes low neither decodes nor acknowledges any more in that very clock.

All the card shows is a function of its past. The 68k finds what it stored
last in a word of boardram, whichever page the card was on at the time.
-/

namespace A2065

/-- The registers of `u_autoconfig`, the words and the output register of
`u_boardram`, and the acknowledge of boardram. -/
structure Card where
  auto : Autoconfig
  ram : BitVec 14 → U16
  ramRd : U16
  boardramDtackN : Bool

namespace Card

/-- The bus of the 68k, the MAC bytes, reset and enable, and what
`a2065_registers` drives. -/
structure Pins extends Autoconfig.Pins where
  a2065Enabled : Bool
  regsDataOut : U16
  regsDtackN : Bool

namespace Pins

/-- What `u_autoconfig` is connected to. -/
def auto (p : Pins) : Autoconfig.Pins := { p.toPins with rstN := p.rstN && p.a2065Enabled }

/-- The page of 64 KB the bus addresses. -/
def page (p : Pins) : U8 := p.cpuAddr.extractLsb' 16 8

/-- `ram_addr_a` -/
def cell (p : Pins) : BitVec 14 := p.cpuAddr.extractLsb' 1 14

end Pins

/-- After a reset, with anything in memory. -/
def start (ram : BitVec 14 → U16) (ramRd : U16) : Card := ⟨.reset, ram, ramRd, true⟩

/-- What the registers hold while the pins show `p`. Both resets are
asynchronous; `u_autoconfig` is also in reset while the card is not enabled. -/
def settle (c : Card) (p : Pins) : Card :=
  { c with
    auto := if p.auto.rstN then c.auto else .reset
    boardramDtackN := !p.rstN || c.boardramDtackN }

/-- The wire `card_sel`. -/
def cardSel (c : Card) (p : Pins) : Bool :=
  (c.settle p).auto.cardConfigured && p.page == (c.settle p).auto.cardBase && !p.cpuAsN

/-- The wire `sel_boardram`, in `a2065_top` and in `a2065_boardram`. -/
def selBoardram (c : Card) (p : Pins) : Bool := c.cardSel p && p.cpuAddr.getLsbD 15

/-- The edge. Both `cpu_hwr` and `cpu_lwr` are `~cpu_rw`. -/
def clock (c : Card) (p : Pins) : Card where
  auto := c.auto.clock p.auto
  ram := if c.selBoardram p && !p.cpuRw then Function.update c.ram p.cell p.cpuDataIn else c.ram
  ramRd := c.ram p.cell
  boardramDtackN := if !p.rstN then true else !c.selBoardram p

/-- What `u_boardram` puts out. -/
def boardramDataOut (c : Card) (p : Pins) : U16 := if c.selBoardram p then c.ramRd else 0x0000#16

/-- The output mux: the first of the three modules that acknowledges. -/
def cpuDataOut (c : Card) (p : Pins) : U16 :=
  if !(c.settle p).auto.cpuDtackN then (c.settle p).auto.cpuDataOut
  else if !p.regsDtackN then p.regsDataOut
  else if !(c.settle p).boardramDtackN then c.boardramDataOut p
  else 0xFFFF#16

/-- DTACK is low if one of the three is. -/
def cpuDtackN (c : Card) (p : Pins) : Bool :=
  (c.settle p).auto.cpuDtackN && p.regsDtackN && (c.settle p).boardramDtackN

/-- The edges in turn. -/
def run (ps : List Pins) (c : Card) : Card := ps.foldl clock c

/-! ## The past of the card -/

/-- The clocks since the last reset of `u_autoconfig`. -/
def since (ps : List Pins) : List Autoconfig.Pins := Autoconfig.sinceReset (ps.map Pins.auto)

/-- After the clocks `ps` the bus addresses boardram, and the card is neither
in reset nor off. -/
def selects (ps : List Pins) (p : Pins) : Bool :=
  p.auto.rstN && Autoconfig.given (since ps) == some p.page && !p.cpuAsN && p.cpuAddr.getLsbD 15

/-- The word stored last in a cell, with the latest clock in front. -/
def lastWrite : List Pins → BitVec 14 → Option U16
  | [], _ => none
  | p :: older, a =>
      if selects older.reverse p && !p.cpuRw && p.cell == a then some p.cpuDataIn
      else lastWrite older a

theorem since_snoc (ps : List Pins) (p : Pins) :
    since (ps ++ [p]) = if p.auto.rstN then since ps ++ [p.auto] else [] := by
  rw [since, List.map_append, List.map_singleton, Autoconfig.sinceReset, List.rtakeWhile_concat]
  rfl

/-- The configuration space is answered for the access of the last clock. -/
theorem getLast_since {ps : List Pins} {p : Pins}
    (h : Autoconfig.answers (since (ps ++ [p])) = true) :
    (since (ps ++ [p])).getLast? = some p.auto := by
  rw [since_snoc] at h ⊢
  split
  · rw [List.getLast?_concat]
  · rename_i hrst
    rw [if_neg hrst] at h
    cases h

section Runs

variable (ram : BitVec 14 → U16) (ramRd : U16)

theorem auto_run (ps : List Pins) (c : Card) :
    (run ps c).auto = Autoconfig.run (ps.map Pins.auto) c.auto := by
  induction ps generalizing c with
  | nil => rfl
  | cons p ps ih => exact ih (c.clock p)

theorem follows (ps : List Pins) :
    Autoconfig.Follows (since ps) (run ps (start ram ramRd)).auto := by
  rw [auto_run]
  exact Autoconfig.follows_run _

theorem run_snoc (ps : List Pins) (p : Pins) (c : Card) :
    run (ps ++ [p]) c = (run ps c).clock p := by
  rw [run, List.foldl_append]
  rfl

theorem selBoardram_run (ps : List Pins) (p : Pins) :
    (run ps (start ram ramRd)).selBoardram p = selects ps p := by
  have h := follows ram ramRd ps
  rw [selBoardram, cardSel, settle, selects]
  cases p.auto.rstN with
  | false => rfl
  | true =>
      simp only [if_true, h.configured, h.base]
      cases hgiven : Autoconfig.given (since ps) with
      | none => simp
      | some base =>
          have hpage : (p.page == base) = (some base == some p.page) := by
            rw [Bool.eq_iff_iff, beq_iff_eq, beq_iff_eq, Option.some.injEq]
            exact eq_comm
          simp only [Option.isSome_some, Option.getD_some, Bool.true_and, hpage]

theorem ram_run (ps : List Pins) (a : BitVec 14) :
    (run ps (start ram ramRd)).ram a = (lastWrite ps.reverse a).getD (ram a) := by
  induction ps using List.reverseRecOn with
  | nil => rfl
  | append_singleton ps p ih =>
      rw [run_snoc, List.reverse_append, List.reverse_singleton, List.singleton_append, lastWrite,
        List.reverse_reverse, clock, selBoardram_run]
      dsimp only
      cases hwrite : selects ps p && !p.cpuRw with
      | false => exact ih
      | true =>
          by_cases hcell : p.cell = a
          · subst hcell
            simp
          · rw [if_pos rfl, Function.update_of_ne (Ne.symm hcell), ih]
            simp [hcell]

end Runs

end Card

/-- In every run, after any clocks `ps` and one more clock `p`, for any pins `q`
now, resets and the enable among them: the card acknowledges exactly if `p`
was an access to the configuration space that the card answers or one to
boardram and the reset has not taken that back, or if the registers do. To a
read of the configuration space it shows the nibble, to an access to boardram
that still goes on the word stored there last, and without an acknowledge
ones. -/
theorem card_history (ram : BitVec 14 → U16) (ramRd : U16) (ps : List Card.Pins) (p q : Card.Pins) :
    let c := Card.run (ps ++ [p]) (.start ram ramRd)
    let configures := Autoconfig.answers (Card.since (ps ++ [p]))
    (c.cpuDtackN q = false ↔
      q.auto.rstN = true ∧ configures = true ∨ q.regsDtackN = false ∨
        q.rstN = true ∧ Card.selects ps p = true) ∧
    (q.auto.rstN = true → configures = true →
      c.cpuDataOut q = if p.cpuRw then Autoconfig.shown p.auto else 0xFFFF#16) ∧
    (configures = false → q.regsDtackN = true → Card.selects ps p = true →
      Card.selects (ps ++ [p]) q = true →
      c.cpuDataOut q = (Card.lastWrite ps.reverse p.cell).getD (ram p.cell)) ∧
    (c.cpuDtackN q = true → c.cpuDataOut q = 0xFFFF#16) := by
  intro c configures
  have hfollows : Autoconfig.Follows (Card.since (ps ++ [p])) c.auto := Card.follows ram ramRd _
  have hclock : c = (Card.run ps (.start ram ramRd)).clock p := Card.run_snoc ps p _
  have hauto : (c.settle q).auto.cpuDtackN = !(q.auto.rstN && configures) := by
    have hdtack : c.auto.cpuDtackN = !configures := hfollows.dtack
    rw [Card.settle]
    cases q.auto.rstN with
    | false => rfl
    | true => exact hdtack
  have hboard : (c.settle q).boardramDtackN = !(q.rstN && Card.selects ps p) := by
    have hdtack : c.boardramDtackN = if !p.rstN then true else !Card.selects ps p := by
      rw [hclock, Card.clock, Card.selBoardram_run]
    rw [Card.settle, hdtack]
    -- a card in reset selects nothing
    cases hrst : p.rstN with
    | true => cases q.rstN <;> rfl
    | false =>
        have hnone : Card.selects ps p = false := by
          simp [Card.selects, Card.Pins.auto, hrst]
        rw [hnone]
        cases q.rstN <;> rfl
  refine ⟨?_, fun hrst hconf => ?_, fun hconf hregs hsel hsel' => ?_, fun hnone => ?_⟩
  · rw [Card.cpuDtackN, hauto, hboard]
    cases q.auto.rstN <;> cases configures <;> cases q.regsDtackN <;> cases q.rstN <;> simp
  · have hdata : (c.settle q).auto = c.auto := if_pos hrst
    rw [Card.cpuDataOut, hauto, hrst, hconf, hdata, hfollows.data, Card.getLast_since hconf,
      Option.filter_some]
    have hrw : p.auto.cpuRw = p.cpuRw := rfl
    have hconf' : Autoconfig.answers (Card.since (ps ++ [p])) = true := hconf
    rw [hconf', hrw]
    cases p.cpuRw <;> rfl
  · have hrd : c.ramRd = (Card.lastWrite ps.reverse p.cell).getD (ram p.cell) := by
      rw [hclock, Card.clock]
      exact Card.ram_run ram ramRd ps p.cell
    have hnow : c.selBoardram q = true := (Card.selBoardram_run ram ramRd (ps ++ [p]) q).trans hsel'
    have hrst : q.rstN = true := by
      simp only [Card.selects, Card.Pins.auto, Bool.and_eq_true] at hsel'
      exact hsel'.1.1.1.1
    rw [Card.cpuDataOut, hauto, hconf, hregs, hboard, hrst, hsel, Card.boardramDataOut, hnow, hrd,
      Bool.and_false]
    rfl
  · simp only [Card.cpuDtackN, Bool.and_eq_true] at hnone
    rw [Card.cpuDataOut, hnone.1.1, hnone.1.2, hnone.2]
    rfl

end A2065
