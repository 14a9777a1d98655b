import A2065.RingEffects
import A2065.Lib.Watch

/-!
# Operations and runs

What the daemons do with the chip: register writes, transmits, receives. A
run is a list of moves: operations of the daemon, each undisturbed, with
arbitrary changes of the shared memory in between.
-/

namespace A2065

/-- What a daemon registers with `registers_set_on_interrupt` and
`registers_set_on_transmit`. The transmit callback of all three daemons is
`do_transmit` followed by some signalling that may depend on its result. -/
structure Wiring where
  onInterrupt : Callback
  afterTransmit : Nat → Callback

/-- Nothing is signalled. -/
def Wiring.null : Wiring := ⟨.null, fun _ => .null⟩

/-- The callback of a transmit demand: `do_transmit`, then what the program does
with its result. -/
def Wiring.onTransmit (W : Wiring) (d : Daemon) : DProg Daemon := do
  let r ← doTransmit W.onInterrupt d
  (W.afterTransmit r.1).call r.2
  pure r.2

/-- A call that runs under the lock. -/
inductive Op where
  | wput (regOffset : U8) (v : U16)
  | transmit
  | recv (databuf : Buf) (len : Nat)

/-- The call, with what it returns dropped. -/
def Op.prog (W : Wiring) : Op → Daemon → DProg Daemon
  | .wput regOffset v, d => chipWput W.onInterrupt W.onTransmit regOffset v d
  | .transmit, d => do
      let r ← doTransmit W.onInterrupt d
      pure r.2
  | .recv databuf len, d => do
      let r ← gotfunc W.onInterrupt databuf len d
      pure r.2

/-- The daemon and what it shares. -/
abbrev Sys := Daemon × World

/-- What can happen between two calls, or a call. -/
inductive Move where
  | op (o : Op)
  /-- The host rewrites boardram; the stack bytes change as they like. -/
  | host (ram : Boardram) (stack : Buf)

/-- The call runs to its end. -/
def Move.apply (W : Wiring) : Move → Sys → Sys
  | .op o, s => (o.prog W s.1).exec s.2
  | .host ram stack, s => (s.1, { s.2 with ram := ram, stack := stack })

/-- The accesses of the daemon during a move. -/
def Move.trace (W : Wiring) : Move → Sys → List DEvent
  | .op o, s => (o.prog W s.1).trace s.2
  | .host _ _, _ => []

/-- The moves in turn. -/
def runMoves (W : Wiring) (moves : List Move) (s : Sys) : Sys :=
  moves.foldl (fun s m => m.apply W s) s

theorem runMoves_append (W : Wiring) (moves moves' : List Move) (s : Sys) :
    runMoves W (moves ++ moves') s = runMoves W moves' (runMoves W moves s) :=
  List.foldl_append

/-- An invariant of the daemon that every operation keeps, whatever memory
answers, holds after every run. -/
theorem runMoves_inv (W : Wiring) {Inv : Daemon → Prop}
    (hop : ∀ (o : Op) d, Inv d → (o.prog W d).Always Inv) (moves : List Move) (s : Sys)
    (h : Inv s.1) : Inv (runMoves W moves s).1 := by
  induction moves generalizing s with
  | nil => exact h
  | cons m ms ih =>
      refine ih _ ?_
      cases m with
      | op o => exact (hop o s.1 h).exec _ s.2
      | host ram stack => exact h

/-- `P` holds of every move of the run and the state it starts from. -/
def Along (W : Wiring) (P : Move → Sys → Prop) (ms : List Move) (s : Sys) : Prop :=
  Watch (fun s m => m.apply W s) (fun s m => P m s) s ms

/-- The value the move writes to the register `rap` selects. -/
def Move.rdpWrite : Move → Option U16
  | .op (.wput regOffset v) => if regOffset = A2065_RAP_OFF then none else some v
  | _ => none

/-- The value the move writes to CSR0. -/
def Move.csr0Write (m : Move) (d : Daemon) : Option U16 :=
  if d.rap = 0 then m.rdpWrite else none

theorem onTransmit_effect (W : Wiring) (d : Daemon) :
    (W.onTransmit d).Always fun d' => ∃ n, TxEffect d (n, d') :=
  .bind (doTransmit_effect _ d) fun r hr => .bind_any fun _ => .pure ⟨r.1, hr⟩

/-! ## Engines that are off -/

theorem doTransmit_off (cb : Callback) {d : Daemon}
    (h : Bits.tst d.csr0 CSR0.TXON = false) : doTransmit cb d = pure (0, d) := by
  unfold doTransmit
  rw [if_pos (by simp [h])]

theorem gotfunc_off (cb : Callback) (databuf : Buf) (len : Nat) {d : Daemon}
    (h : Bits.tst d.csr0 CSR0.RXON = false) :
    gotfunc cb databuf len d = pure (.dropped, d) := by
  unfold gotfunc
  rw [if_pos (by simp [h])]

end A2065
