import A2065.Accesses
import A2065.Commands
import A2065.Publication

/-!
# The doorbell daemon as a serial one

Whatever the interleaving of the main loop, the receive thread, the FPGA and
the host, the registers, boardram and the wire are those of a serial run: one
whole operation after the other, the commands in the order they were posted
and each of them once, the frames in the order they arrived. The slots are
what is left out: the daemon writes CSR and INT and never reads them.
-/

namespace A2065

open Bits

/-! ## The command slot -/

/-- No store to the command slot. -/
def Eff.SparesCmd : Eff → Prop
  | .wr64 off _ => off ≠ DDR3_CMD_OFF
  | _ => True

/-- No event of the trace stores there. -/
def SparesCmd (tr : List DEvent) : Prop := ∀ ev ∈ tr, ev.op.SparesCmd

theorem admits_sparesCmd : Admits anyWord SparesCmd := by
  refine admits_forall fun e he => ?_
  cases e with
  | wr64 off v => exact he.elim
  | _ => trivial

/-- Such a program leaves the command slot alone. -/
theorem cmd_exec {α : Type} {p : DProg α} (h : p.Traces SparesCmd) (w : World) :
    (p.exec w).2.slots DDR3_CMD_OFF = w.slots DDR3_CMD_OFF := by
  have hframe : ∀ (e : Eff) (w : World), e.SparesCmd →
      (World.handle e w).2.slots DDR3_CMD_OFF = w.slots DDR3_CMD_OFF := by
    intro e w he
    cases e with
    | wr64 off v => exact Function.update_of_ne (Ne.symm he) ..
    | _ => rfl
  exact Prog.exec_frame World.handle (fun w => w.slots DDR3_CMD_OFF) hframe p w
    (h _ _ (Prog.runs_exec World.handle p w))

theorem onInterruptCb_traces (d : Daemon) : (onInterruptCb.call d).Traces SparesCmd := by
  have hstore : ∀ off v, off ≠ DDR3_CMD_OFF → (wr64 off v).Traces SparesCmd :=
    fun off v hoff => .perform fun _ => List.forall_mem_singleton.mpr hoff
  exact admits_sparesCmd.bind (hstore _ _ (by decide)) fun _ => hstore _ _ (by decide)

theorem handleCommand_traces (cmd : U64) (d : Daemon) :
    (handleCommand cmd d).Traces SparesCmd := by
  have hT := admits_sparesCmd
  have hwput : ∀ regOffset v d,
      (chipWput doorbell.onInterrupt doorbell.onTransmit regOffset v d).Traces SparesCmd :=
    fun regOffset v d => (Op.wput regOffset v).traces hT onInterruptCb_traces rfl
      (fun _ => onInterruptCb_traces) (covers_anyWord d) fun _ _ _ d _ => covers_anyWord d
  exact hT.bind (hwput _ _ d) fun d => hwput _ _ d

/-- The slots do not matter to a program: it never reads one. -/
theorem sameMem_exec {α : Type} (p : DProg α) {w w' : World} (h : SameMem w w') :
    (p.exec w').1 = (p.exec w).1 ∧ SameMem (p.exec w).2 (p.exec w').2 := by
  have hrel : ∀ (e : Eff) (s s' : World), True → SameMem s s' →
      (World.handle e s').1 = (World.handle e s).1 ∧
        SameMem (World.handle e s).2 (World.handle e s').2 := by
    intro e s s' _ hs
    obtain ⟨ram, slots, wire, stack⟩ := s
    obtain ⟨ram', slots', wire', stack'⟩ := s'
    obtain ⟨rfl, rfl, rfl⟩ : ram' = ram ∧ wire' = wire ∧ stack' = stack :=
      ⟨hs.ram, hs.wire, hs.stack⟩
    cases e <;> exact ⟨rfl, rfl, rfl, rfl⟩
  obtain ⟨hval, hsame, -⟩ := Prog.exec_congr World.handle hrel h (fun _ _ => trivial)
    (Prog.runs_exec World.handle p w)
  exact ⟨hval, hsame⟩

/-! ## What the steps do -/

/-- A piece of work on the registers and boardram. -/
inductive Work where
  | command (cmd : U64)
  | frame (rxbuf : Buf) (len : Nat)
  | host (ram : Boardram) (stack : Buf)

namespace Work

/-- The work as whole operations. -/
def moves : Work → List Move
  | command cmd =>
      [.op (.wput A2065_RAP_OFF ((cmdRap cmd).setWidth 16)),
        .op (.wput A2065_RDP_OFF (cmdData cmd))]
  | frame rxbuf len => [.op (.recv rxbuf len)]
  | host ram stack => [.host ram stack]

/-- The command, for an item that is one. -/
def command? : Work → Option U64
  | command cmd => some cmd
  | _ => none

/-- The frame, for an item that is one. -/
def frame? : Work → Option (Buf × Nat)
  | frame rxbuf len => some (rxbuf, len)
  | _ => none

/-- What the host leaves behind, for an item that is a step of the host. -/
def host? : Work → Option (Boardram × Buf)
  | host ram stack => some (ram, stack)
  | _ => none

end Work

/-- What the host makes of boardram in a step. -/
def Act.host? : Act → Option (Boardram × Buf)
  | .host ram stack => some (ram, stack)
  | _ => none

namespace Doorbell

/-- The command slot holds a command that was not cleared. -/
def cmdPending (s : Doorbell) : Bool := tst (s.w.slots DDR3_CMD_OFF) DDR3_CMD_PENDING_BIT

/-- The work a step does. -/
def work (s : Doorbell) : Act → List Work
  | .main =>
      match s.main with
      | .taken cmd => [.command cmd]
      | _ => []
  | .rx _ _ =>
      match s.rx with
      | .got rxbuf len => [.frame rxbuf len]
      | _ => []
  | .post _ => []
  | .host ram stack => [.host ram stack]

/-- The command a step posts. -/
def posts (s : Doorbell) : Act → List U64
  | .post cmd => if ¬ s.cmdPending ∧ tst cmd DDR3_CMD_PENDING_BIT then [cmd] else []
  | .main | .rx _ _ | .host _ _ => []

/-- The frame a step takes from the network. -/
def arrives (s : Doorbell) : Act → List (Buf × Nat)
  | .rx rxbuf len =>
      match s.rx with
      | .recv => if 0 < len then [(rxbuf, len)] else []
      | _ => []
  | .main | .post _ | .host _ _ => []

/-- What `f` sees of the steps of a run. -/
def collect {β : Type} (f : Doorbell → Act → List β) : List Act → Doorbell → List β
  | [], _ => []
  | a :: acts, s => f s a ++ collect f acts (s.step a)

/-- The command that is posted and not executed. -/
def inFlight (s : Doorbell) : List U64 :=
  if s.main ≠ .drain ∧ s.cmdPending then [s.w.slots DDR3_CMD_OFF] else []

/-- The frame that is received and not delivered. -/
def inHand (s : Doorbell) : List (Buf × Nat) :=
  match s.rx with
  | .got rxbuf len => [(rxbuf, len)]
  | _ => []

/-- The command the main loop has read stays in its slot until it is done. -/
structure Holding (s : Doorbell) : Prop where
  taken : ∀ cmd, s.main = .taken cmd → s.w.slots DDR3_CMD_OFF = cmd ∧ s.cmdPending = true
  drain : s.main = .drain → s.cmdPending = true

/-- A step that touches neither the main loop nor the command slot. -/
theorem Holding.of_same {s s' : Doorbell} (h : s.Holding) (hmain : s'.main = s.main)
    (hslot : s'.w.slots DDR3_CMD_OFF = s.w.slots DDR3_CMD_OFF) :
    s'.Holding ∧ s'.inFlight = s.inFlight := by
  have hpending : s'.cmdPending = s.cmdPending := congrArg (tst · DDR3_CMD_PENDING_BIT) hslot
  refine ⟨⟨fun cmd htaken => ?_, fun hdrain => ?_⟩, ?_⟩
  · rw [hslot, hpending]
    exact h.taken cmd (hmain ▸ htaken)
  · rw [hpending]
    exact h.drain (hmain ▸ hdrain)
  · rw [inFlight, inFlight, hmain, hpending, hslot]

theorem cmd_publish (p : Publish) (d : Daemon) (w : World) :
    (p.step d w).2.slots DDR3_CMD_OFF = w.slots DDR3_CMD_OFF := by
  cases p with
  | snapCsr => rfl
  | writeCsr packed => exact slots_wr64_ne w (by decide) packed
  | snapInt => rfl
  | writeInt val => exact slots_wr64_ne w (by decide) val

/-! ## Commands -/

theorem inFlight_pending {s : Doorbell} (hmain : s.main ≠ .drain) (hp : s.cmdPending = true) :
    s.inFlight = [s.w.slots DDR3_CMD_OFF] := if_pos ⟨hmain, hp⟩

theorem inFlight_drain {s : Doorbell} (hmain : s.main = .drain) : s.inFlight = [] :=
  if_neg fun h => h.1 hmain

theorem inFlight_empty {s : Doorbell} (hp : s.cmdPending = false) : s.inFlight = [] :=
  if_neg fun h => by rw [hp] at h; exact absurd h.2 (by decide)

/-- One step of the main loop: the command in flight is executed or stays. -/
theorem Holding.stepMain {s : Doorbell} (h : s.Holding) : s.stepMain.Holding ∧
    s.inFlight = (s.work .main).filterMap Work.command? ++ s.stepMain.inFlight := by
  obtain ⟨d, w, main, rx⟩ := s
  cases main with
  | poll =>
      simp only [Doorbell.stepMain, work, List.filterMap_nil, List.nil_append]
      split
      · rename_i hpending
        refine ⟨⟨fun cmd hcmd => ⟨MainPc.taken.inj hcmd, hpending⟩, nofun⟩, ?_⟩
        have htaken : (MainPc.taken (w.slots DDR3_CMD_OFF)) ≠ .drain := nofun
        exact (inFlight_pending (s := ⟨d, w, .poll, rx⟩) nofun hpending).trans
          (inFlight_pending (s := ⟨d, w, .taken _, rx⟩) htaken hpending).symm
      · exact ⟨h, rfl⟩
  | taken cmd =>
      obtain ⟨hslot, hpending⟩ := h.taken cmd rfl
      have hspare := cmd_exec (handleCommand_traces cmd d) w
      refine ⟨⟨nofun, fun _ => ?_⟩, ?_⟩
      · exact (congrArg (tst · DDR3_CMD_PENDING_BIT) hspare).trans hpending
      · rw [inFlight_pending (s := ⟨d, w, .taken cmd, rx⟩) nofun hpending, inFlight_drain rfl]
        exact congrArg (· :: []) hslot
  | drain =>
      have hempty : (Doorbell.stepMain ⟨d, w, .drain, rx⟩).cmdPending = false :=
        (congrArg (tst · DDR3_CMD_PENDING_BIT) (slots_wr64 w DDR3_CMD_OFF 0)).trans (by decide)
      refine ⟨⟨nofun, nofun⟩, ?_⟩
      rw [inFlight_drain rfl, inFlight_empty hempty]
      rfl
  | publish p =>
      have hspare := cmd_publish p d w
      have hpending : (Doorbell.stepMain ⟨d, w, .publish p, rx⟩).cmdPending =
          cmdPending ⟨d, w, .publish p, rx⟩ := congrArg (tst · DDR3_CMD_PENDING_BIT) hspare
      have hmain : ∀ o : Option Publish, o.elim MainPc.poll .publish ≠ .drain ∧
          ∀ cmd, o.elim MainPc.poll .publish ≠ .taken cmd := by
        intro o
        cases o <;> exact ⟨nofun, nofun⟩
      refine ⟨⟨fun cmd hcmd => absurd hcmd ((hmain _).2 cmd),
        fun hdrain => absurd hdrain (hmain _).1⟩, ?_⟩
      cases hp : cmdPending ⟨d, w, .publish p, rx⟩ with
      | false =>
          rw [inFlight_empty hp, inFlight_empty (hpending.trans hp)]
          rfl
      | true =>
          rw [inFlight_pending (s := ⟨d, w, .publish p, rx⟩) nofun hp,
            inFlight_pending (hmain _).1 (hpending.trans hp)]
          exact congrArg (· :: []) hspare.symm

/-- One step: what was in flight and what is posted is executed or in flight
afterwards. -/
theorem Holding.step {s : Doorbell} (h : s.Holding) (a : Act) : (s.step a).Holding ∧
    s.inFlight ++ s.posts a = (s.work a).filterMap Work.command? ++ (s.step a).inFlight := by
  cases a with
  | main =>
      rw [show s.posts .main = [] from rfl, List.append_nil]
      exact h.stepMain
  | rx rxbuf len =>
      have hsame : (s.stepRx rxbuf len).main = s.main ∧
          (s.stepRx rxbuf len).w.slots DDR3_CMD_OFF = s.w.slots DDR3_CMD_OFF ∧
          (s.work (.rx rxbuf len)).filterMap Work.command? = [] := by
        obtain ⟨d, w, main, rx⟩ := s
        cases rx with
        | recv =>
            simp only [stepRx]
            split <;> exact ⟨rfl, rfl, rfl⟩
        | got rxbuf' len' =>
            have honly := gotfunc_traces admits_sparesCmd onInterruptCb_traces rxbuf' len'
              (covers_anyWord d)
            exact ⟨rfl, cmd_exec honly w, rfl⟩
        | publish p => exact ⟨rfl, cmd_publish p d w, rfl⟩
      obtain ⟨hmain, hslot, hwork⟩ := hsame
      obtain ⟨hhold, hflight⟩ := h.of_same hmain hslot
      refine ⟨hhold, ?_⟩
      rw [show s.posts (.rx rxbuf len) = [] from rfl, List.append_nil, hwork, List.nil_append]
      exact hflight.symm
  | post cmd =>
      cases hp : s.cmdPending with
      | true =>
          have hstep : s.step (.post cmd) = s := if_pos hp
          rw [hstep, posts, if_neg (by simp [hp]), List.append_nil]
          exact ⟨h, rfl⟩
      | false =>
          have hstep : s.step (.post cmd) =
              { s with w.slots := Function.update s.w.slots DDR3_CMD_OFF cmd } :=
            if_neg (by rw [← cmdPending, hp]; decide)
          -- an empty slot: the main loop has no command in hand
          have hdrain : s.main ≠ .drain := fun hd => by
            rw [h.drain hd] at hp
            cases hp
          have htaken : ∀ cmd, s.main ≠ .taken cmd := fun cmd ht => by
            rw [(h.taken cmd ht).2] at hp
            cases hp
          have hslot : (s.step (.post cmd)).w.slots DDR3_CMD_OFF = cmd := by
            rw [hstep]
            exact Function.update_self DDR3_CMD_OFF cmd s.w.slots
          have hmain : (s.step (.post cmd)).main = s.main := by rw [hstep]
          refine ⟨⟨fun c hc => absurd (hmain ▸ hc) (htaken c),
            fun hd => absurd (hmain ▸ hd) hdrain⟩, ?_⟩
          rw [inFlight_empty hp, inFlight, hmain, cmdPending, hslot, posts, hp]
          simp [hdrain, work]
  | host ram stack =>
      obtain ⟨hhold, hflight⟩ : (s.step (.host ram stack)).Holding ∧
          (s.step (.host ram stack)).inFlight = s.inFlight := h.of_same rfl rfl
      refine ⟨hhold, ?_⟩
      rw [show s.posts (.host ram stack) = [] from rfl, List.append_nil]
      exact hflight.symm

/-! ## Frames -/

/-- One step: what was in hand and what arrives is delivered or in hand
afterwards. -/
theorem frames_step (s : Doorbell) (a : Act) :
    s.inHand ++ s.arrives a = (s.work a).filterMap Work.frame? ++ (s.step a).inHand := by
  obtain ⟨d, w, main, rx⟩ := s
  cases a with
  | main =>
      have hrx : (stepMain ⟨d, w, main, rx⟩).rx = rx := by
        cases main with
        | poll =>
            simp only [stepMain]
            split <;> rfl
        | _ => rfl
      have hwork : (work ⟨d, w, main, rx⟩ .main).filterMap Work.frame? = [] := by
        cases main <;> rfl
      rw [hwork, List.nil_append, show arrives ⟨d, w, main, rx⟩ .main = [] from rfl,
        List.append_nil]
      simp only [inHand, step, hrx]
  | rx rxbuf len =>
      cases rx with
      | recv =>
          simp only [inHand, arrives, work, step, stepRx, List.nil_append, List.filterMap_nil]
          split <;> rfl
      | got rxbuf' len' => rfl
      | publish p =>
          have hnone : ∀ o : Option Publish,
              inHand ⟨d, (p.step d w).2, main, o.elim .recv .publish⟩ = [] := by
            intro o
            cases o <;> rfl
          exact (hnone _).symm
  | post cmd =>
      have hrx : (step ⟨d, w, main, rx⟩ (.post cmd)).rx = rx := by
        simp only [step]
        split <;> rfl
      simp only [inHand, hrx, arrives, work, List.append_nil, List.filterMap_nil, List.nil_append]
  | host ram stack => exact List.append_nil _

/-! ## State -/

/-- The step does its work and nothing else, the slots aside. -/
theorem sys_step {s : Doorbell} {t : Sys} (hd : s.d = t.1) (hw : SameMem t.2 s.w) (a : Act) :
    (s.step a).d = (runMoves doorbell ((s.work a).flatMap Work.moves) t).1 ∧
      SameMem (runMoves doorbell ((s.work a).flatMap Work.moves) t).2 (s.step a).w := by
  obtain ⟨d, w, main, rx⟩ := s
  obtain ⟨d', w'⟩ := t
  obtain rfl : d = d' := hd
  have hsignal : ∀ off v, SameMem w' ((wr64 off v).exec w).2 := fun off v =>
    ⟨hw.ram, hw.wire, hw.stack⟩
  have hpublish : ∀ p : Publish, SameMem w' (p.step d w).2 := by
    intro p
    cases p with
    | snapCsr => exact hw
    | writeCsr packed => exact hsignal _ _
    | snapInt => exact hw
    | writeInt val => exact hsignal _ _
  cases a with
  | main =>
      cases main with
      | poll =>
          simp only [step, stepMain, work]
          split <;> exact ⟨rfl, hw⟩
      | taken cmd =>
          have hrun : runMoves doorbell (Work.command cmd).moves (d, w') =
              (handleCommand cmd d).exec w' := by
            rw [handleCommand, DProg.exec_bind]
            rfl
          obtain ⟨hval, hsame⟩ := sameMem_exec (handleCommand cmd d) hw
          simp only [step, stepMain, work, List.flatMap_singleton]
          rw [hrun]
          exact ⟨hval, hsame⟩
      | drain => exact ⟨rfl, hsignal _ _⟩
      | publish p => exact ⟨rfl, hpublish p⟩
  | rx rxbuf len =>
      cases rx with
      | recv =>
          simp only [step, stepRx, work]
          split <;> exact ⟨rfl, hw⟩
      | got rxbuf' len' =>
          have hrun : runMoves doorbell (Work.frame rxbuf' len').moves (d, w') =
              (((gotfunc doorbell.onInterrupt rxbuf' len' d).exec w').1.2,
                ((gotfunc doorbell.onInterrupt rxbuf' len' d).exec w').2) := by
            simp only [Work.moves, runMoves, List.foldl_cons, List.foldl_nil, Move.apply, Op.prog,
              DProg.exec_bind, DProg.exec_pure]
          obtain ⟨hval, hsame⟩ := sameMem_exec (gotfunc doorbell.onInterrupt rxbuf' len' d) hw
          simp only [step, stepRx, work, List.flatMap_singleton]
          rw [hrun]
          exact ⟨congrArg Prod.snd hval, hsame⟩
      | publish p => exact ⟨rfl, hpublish p⟩
  | post cmd =>
      simp only [step, work]
      split
      · exact ⟨rfl, hw⟩
      · exact ⟨rfl, hw.ram, hw.wire, hw.stack⟩
  | host ram stack => exact ⟨rfl, rfl, hw.wire, rfl⟩

/-! ## Runs -/

/-- The run from `s` to `e` is a serial run of the pieces of work `works`: what
was posted and what arrived before and in the run is done in this order, or
still on the way. -/
structure Serializes (acts : List Act) (s e : Doorbell) (works : List Work) : Prop where
  commands : s.inFlight ++ collect posts acts s = works.filterMap Work.command? ++ e.inFlight
  frames : s.inHand ++ collect arrives acts s = works.filterMap Work.frame? ++ e.inHand
  hosts : acts.filterMap Act.host? = works.filterMap Work.host?
  state : e.d = (runMoves doorbell (works.flatMap Work.moves) (s.d, s.w)).1
  mem : SameMem (runMoves doorbell (works.flatMap Work.moves) (s.d, s.w)).2 e.w

theorem hosts_step (s : Doorbell) (a : Act) :
    a.host?.toList = (s.work a).filterMap Work.host? := by
  obtain ⟨d, w, main, rx⟩ := s
  cases a with
  | main => cases main <;> rfl
  | rx rxbuf len => cases rx <;> rfl
  | post cmd => rfl
  | host ram stack => rfl

/-- The state a run leaves is that of its work, from any state that agrees. -/
theorem sys_run {s : Doorbell} {t : Sys} (hd : s.d = t.1) (hw : SameMem t.2 s.w)
    (acts : List Act) :
    let moves := (collect work acts s).flatMap Work.moves
    (s.run acts).d = (runMoves doorbell moves t).1 ∧
      SameMem (runMoves doorbell moves t).2 (s.run acts).w := by
  induction acts generalizing s t with
  | nil => exact ⟨hd, hw⟩
  | cons a acts ih =>
      obtain ⟨hd', hw'⟩ := sys_step hd hw a
      simp only [collect, List.flatMap_append, runMoves, List.foldl_append]
      exact ih hd' hw'

theorem Holding.serializes {s : Doorbell} (h : s.Holding) (acts : List Act) :
    Serializes acts s (s.run acts) (collect work acts s) := by
  obtain ⟨hstate, hmem⟩ := sys_run (s := s) (t := (s.d, s.w)) rfl ⟨rfl, rfl, rfl⟩ acts
  refine ⟨?_, ?_, ?_, hstate, hmem⟩
  · clear hstate hmem
    induction acts generalizing s with
    | nil => exact List.append_nil _
    | cons a acts ih =>
        obtain ⟨hhold, hcommand⟩ := h.step a
        rw [collect, ← List.append_assoc, hcommand, List.append_assoc, ih hhold, collect,
          List.filterMap_append, List.append_assoc]
        rfl
  · clear hstate hmem h
    induction acts generalizing s with
    | nil => exact List.append_nil _
    | cons a acts ih =>
        rw [collect, ← List.append_assoc, s.frames_step a, List.append_assoc, ih, collect,
          List.filterMap_append, List.append_assoc]
        rfl
  · clear hstate hmem h
    induction acts generalizing s with
    | nil => rfl
    | cons a acts ih =>
        rw [collect, List.filterMap_append, ← hosts_step, ← ih, List.filterMap_cons]
        cases a.host? <;> rfl

theorem holding_start (nic : Mac) (w : World) :
    (start nic w).Holding ∧ (start nic w).inFlight = [] := by
  have hslot : (start nic w).w.slots DDR3_CMD_OFF = 0 :=
    (cmd_exec (onInterruptCb_traces _) _).trans (slots_wr64 w DDR3_CMD_OFF 0)
  have hempty : (start nic w).cmdPending = false :=
    (congrArg (tst · DDR3_CMD_PENDING_BIT) hslot).trans (by decide)
  exact ⟨⟨nofun, nofun⟩, inFlight_empty hempty⟩

end Doorbell

/-- Every interleaving of the doorbell daemon is a serial run. The posted
commands are executed once each and in order, all of them but at most the one
in flight, and all of them whenever the command slot is empty; so are the
frames received, but for the one the receive thread has in hand; and the
registers stay within their invariant throughout. -/
theorem doorbell_serial (nic : Mac) (w : World) (acts : List Act) :
    let s := Doorbell.start nic w
    let e := s.run acts
    ∃ works : List Work, Doorbell.Serializes acts s e works ∧
      (e.cmdPending = false →
        Doorbell.collect Doorbell.posts acts s = works.filterMap Work.command?) ∧
      Reached e.d := by
  obtain ⟨hhold, hflight⟩ := Doorbell.holding_start nic w
  have hserial := hhold.serializes acts
  refine ⟨_, hserial, fun hempty => ?_, ?_⟩
  · have hcommands := hserial.commands
    rwa [hflight, List.nil_append, Doorbell.inFlight_empty hempty, List.append_nil] at hcommands
  · rw [hserial.state]
    exact reached_runMoves doorbell _ _ _ _ _

end A2065
