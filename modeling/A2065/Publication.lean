import A2065.MainDoorbell
import A2065.Lib.Publish

/-!
# Publishing the registers

Each of the two published slots is a `Board`: the value is what the slot
should hold, and the threads go through `Publish`. A step of the doorbell
daemon is a step of both boards, so the invariant of the library holds of
every run that stores in order.
-/

namespace A2065

open Bits

/-- The threads that publish. -/
inductive Thread where
  | main
  | rx
  deriving DecidableEq

/-- What a publication step does to the slot at `off`: nothing, a snapshot, or
the store of one. -/
inductive PubStep (off : Nat) (value : Daemon → U64) (phase : Publish → Phase U64)
    (d : Daemon) (w : World) (p : Publish) (r : Option Publish × World) : Prop where
  | same (hp : r.1.elim .idle phase = phase p) (hs : r.2.slots off = w.slots off)
  | snap (hp : r.1.elim .idle phase = .holding (value d)) (hs : r.2.slots off = w.slots off)
  | store (v : U64) (hold : phase p = .holding v) (hp : r.1.elim .idle phase = .idle)
      (hs : r.2.slots off = v)

/-- A published slot. -/
structure Channel where
  off : Nat
  value : Daemon → U64
  phase : Publish → Phase U64
  not_cmd : off ≠ DDR3_CMD_OFF
  start : phase .snapCsr = .dirty
  step : ∀ d w p, PubStep off value phase d w p (p.step d w)

/-- A store to another slot. -/
theorem slots_wr64_ne (w : World) {off off' : Nat} (h : off ≠ off') (v : U64) :
    ((wr64 off' v).exec w).2.slots off = w.slots off := Function.update_of_ne h _ _

theorem slots_wr64 (w : World) (off : Nat) (v : U64) :
    ((wr64 off v).exec w).2.slots off = v := Function.update_self ..

/-- The packed registers. A thread past its store is done with them. -/
def csrChannel : Channel where
  off := DDR3_CSR_OFF
  value := packCsr
  phase
    | .snapCsr => .dirty
    | .writeCsr packed => .holding packed
    | .snapInt | .writeInt _ => .idle
  not_cmd := by decide
  start := rfl
  step d w p := by
    cases p with
    | snapCsr => exact .snap rfl rfl
    | writeCsr packed => exact .store packed rfl rfl (slots_wr64 w _ _)
    | snapInt => exact .same rfl rfl
    | writeInt val => exact .same rfl (slots_wr64_ne w (by decide) _)

/-- The interrupt line, which a thread publishes second. -/
def intChannel : Channel where
  off := DDR3_INT_OFF
  value := intState
  phase
    | .writeInt val => .holding val
    | .snapCsr | .writeCsr _ | .snapInt => .dirty
  not_cmd := by decide
  start := rfl
  step d w p := by
    cases p with
    | snapCsr => exact .same rfl rfl
    | writeCsr packed => exact .same rfl (slots_wr64_ne w (by decide) _)
    | snapInt => exact .snap rfl rfl
    | writeInt val => exact .store val rfl rfl (slots_wr64 w _ _)

namespace Channel

variable (c : Channel)

/-- Where the main loop stands with its publication. -/
def mainPhase : MainPc → Phase U64
  | .poll | .taken _ => .idle
  | .drain => .dirty
  | .publish p => c.phase p

/-- Where the receive thread does. -/
def rxPhase : RxPc → Phase U64
  | .recv | .got _ _ => .idle
  | .publish p => c.phase p

/-- The slot as a board. -/
def board (s : Doorbell) : Board Thread U64 where
  cur := c.value s.d
  slot := s.w.slots c.off
  phase
    | .main => c.mainPhase s.main
    | .rx => c.rxPhase s.rx

/-- The step stores no snapshot while the other thread holds an outdated one. -/
def orderly (s : Doorbell) (a : Act) : Bool :=
  match a, c.mainPhase s.main, c.rxPhase s.rx with
  | .main, .holding _, .holding t => t == c.value s.d
  | .rx _ _, .holding t, .holding _ => t == c.value s.d
  | _, _, _ => true

variable {c}

theorem orderly_main {s : Doorbell} {v t : U64} (ho : c.orderly s .main = true)
    (hm : c.mainPhase s.main = .holding v) (hr : c.rxPhase s.rx = .holding t) :
    t = c.value s.d := by
  simp only [orderly, hm, hr] at ho
  exact beq_iff_eq.mp ho

theorem orderly_rx {s : Doorbell} {rxbuf : Buf} {len : Nat} {v t : U64}
    (ho : c.orderly s (.rx rxbuf len) = true) (hr : c.rxPhase s.rx = .holding v)
    (hm : c.mainPhase s.main = .holding t) : t = c.value s.d := by
  simp only [orderly, hm, hr] at ho
  exact beq_iff_eq.mp ho

/-- A state whose board is `b`, field by field. -/
theorem live_of {s : Doorbell} {b : Board Thread U64} (hb : b.Live) (hcur : c.value s.d = b.cur)
    (hslot : s.w.slots c.off = b.slot) (hmain : c.mainPhase s.main = b.phase .main)
    (hrx : c.rxPhase s.rx = b.phase .rx) : (c.board s).Live := by
  have heq : c.board s = b := by
    obtain ⟨cur, slot, phase⟩ := b
    simp only [board, Board.mk.injEq]
    refine ⟨hcur, hslot, funext fun i => ?_⟩
    cases i with
    | main => exact hmain
    | rx => exact hrx
  rw [heq]
  exact hb

theorem live_stepMain {s : Doorbell} (h : (c.board s).Live) (ho : c.orderly s .main = true) :
    (c.board s.stepMain).Live := by
  have hphase : (c.board s).phase .main = c.mainPhase s.main := rfl
  unfold Doorbell.stepMain
  split
  case h_1 hm =>
    simp only
    split
    · exact live_of h rfl rfl (by rw [hphase, hm]; rfl) rfl
    · exact h
  case h_2 cmd hm => exact live_of (Board.live_change (c.board s) .main _ _) rfl rfl rfl rfl
  case h_3 hm =>
    refine live_of h rfl (slots_wr64_ne _ c.not_cmd _) ?_ rfl
    rw [hphase, hm]
    exact c.start
  case h_4 p hm =>
    have hnext : ∀ q : Option Publish,
        c.mainPhase (q.elim .poll .publish) = q.elim .idle c.phase := by
      rintro (_ | q) <;> rfl
    rw [hm] at hphase
    cases c.step s.d s.w p with
    | same hp hs => exact live_of h rfl hs ((hnext _).trans (hp.trans hphase.symm)) rfl
    | snap hp hs => exact live_of (h.snap .main) rfl hs ((hnext _).trans hp) rfl
    | store v hold hp hs =>
        refine live_of (h.store (hphase.trans hold) ?_) rfl hs ((hnext _).trans hp) rfl
        rintro (_ | _) t hj ht
        · exact absurd rfl hj
        · exact orderly_main ho ((congrArg c.mainPhase hm).trans hold) ht

theorem live_stepRx {s : Doorbell} (rxbuf : Buf) (len : Nat) (h : (c.board s).Live)
    (ho : c.orderly s (.rx rxbuf len) = true) : (c.board (s.stepRx rxbuf len)).Live := by
  have hphase : (c.board s).phase .rx = c.rxPhase s.rx := rfl
  unfold Doorbell.stepRx
  split
  case h_1 hr =>
    split
    · exact live_of h rfl rfl rfl (by rw [hphase, hr]; rfl)
    · exact h
  case h_2 hr => exact live_of (Board.live_change (c.board s) .rx _ _) rfl rfl rfl c.start
  case h_3 p hr =>
    have hnext : ∀ q : Option Publish,
        c.rxPhase (q.elim .recv .publish) = q.elim .idle c.phase := by
      rintro (_ | q) <;> rfl
    rw [hr] at hphase
    cases c.step s.d s.w p with
    | same hp hs => exact live_of h rfl hs rfl ((hnext _).trans (hp.trans hphase.symm))
    | snap hp hs => exact live_of (h.snap .rx) rfl hs rfl ((hnext _).trans hp)
    | store v hold hp hs =>
        refine live_of (h.store (hphase.trans hold) ?_) rfl hs rfl ((hnext _).trans hp)
        rintro (_ | _) t hj ht
        · exact orderly_rx ho ((congrArg c.rxPhase hr).trans hold) ht
        · exact absurd rfl hj

theorem live_step {s : Doorbell} (a : Act) (h : (c.board s).Live) (ho : c.orderly s a = true) :
    (c.board (s.step a)).Live := by
  cases a with
  | main => exact live_stepMain h ho
  | rx rxbuf len => exact live_stepRx rxbuf len h ho
  | post cmd =>
      unfold Doorbell.step
      simp only
      split
      · exact h
      · exact live_of h rfl (Function.update_of_ne c.not_cmd _ _) rfl rfl
  | host ram stack => exact h

end Channel

/-! ## Quiet states -/

/-- The receive thread has left the lock and is not back at `ethernet_recv`. -/
def RxPc.publishing : RxPc → Bool
  | .publish _ => true
  | .recv | .got _ _ => false

/-- Neither thread is inside command handling, `gotfunc` or a publication. -/
def Doorbell.Quiet (s : Doorbell) : Prop := s.main = .poll ∧ s.rx.publishing = false

/-- The INT slot follows INTR and INEA, the CSR slot holds CSR0 to CSR3. -/
def Doorbell.Published (s : Doorbell) : Prop :=
  s.w.slots DDR3_INT_OFF =
      (if tst s.d.csr0 CSR0.INTR ∧ tst s.d.csr0 CSR0.INEA then 1 else 0) ∧
    s.w.slots DDR3_CSR_OFF = packCsr s.d

/-- No snapshot is stored, to either slot, while the other thread holds an
outdated one of the same slot. -/
def Doorbell.Orderly (s : Doorbell) (a : Act) : Prop :=
  csrChannel.orderly s a = true ∧ intChannel.orderly s a = true

theorem Channel.slot_of_quiet {c : Channel} {s : Doorbell} (h : (c.board s).Live)
    (hq : s.Quiet) : s.w.slots c.off = c.value s.d := by
  refine h.slot_of_idle fun i => ?_
  cases i with
  | main =>
      show c.mainPhase s.main = .idle
      rw [hq.1]
      rfl
  | rx =>
      show c.rxPhase s.rx = .idle
      cases hr : s.rx with
      | publish p =>
          have := hq.2
          rw [hr] at this
          cases this
      | _ => rfl

/-- A publication inside a locked section. -/
theorem slots_onInterruptCb (d : Daemon) (w : World) :
    ((onInterruptCb.call d).exec w).2.slots DDR3_CSR_OFF = packCsr d ∧
      ((onInterruptCb.call d).exec w).2.slots DDR3_INT_OFF = intState d := by
  have hne : DDR3_CSR_OFF ≠ DDR3_INT_OFF := by decide
  constructor
  · exact (slots_wr64_ne ((pushCsrShadow d).exec w).2 hne (intState d)).trans
      (slots_wr64 w DDR3_CSR_OFF (packCsr d))
  · exact slots_wr64 ((pushCsrShadow d).exec w).2 DDR3_INT_OFF (intState d)

/-- Both slots are right or will be. -/
def Doorbell.Live (s : Doorbell) : Prop :=
  (csrChannel.board s).Live ∧ (intChannel.board s).Live

theorem live_start (nic : Mac) (w : World) : (Doorbell.start nic w).Live := by
  have hslots := slots_onInterruptCb (Doorbell.start nic w).d ((wr64 DDR3_CMD_OFF 0).exec w).2
  constructor
  · exact Board.live_of_idle hslots.1 fun i => by cases i <;> rfl
  · exact Board.live_of_idle hslots.2 fun i => by cases i <;> rfl

/-- In every run from the start in which no step overtakes, the slots are
right in every quiet state. -/
theorem slots_published (nic : Mac) (w : World) (acts : List Act)
    (ho : Watch Doorbell.step Doorbell.Orderly (.start nic w) acts)
    (hq : (Doorbell.run acts (.start nic w)).Quiet) :
    (Doorbell.run acts (.start nic w)).Published := by
  have hlive : (Doorbell.run acts (.start nic w)).Live :=
    Watch.preserves (fun s a h ha => ⟨Channel.live_step a h.1 ha.1, Channel.live_step a h.2 ha.2⟩)
      (live_start nic w) ho
  exact ⟨Channel.slot_of_quiet hlive.2 hq, Channel.slot_of_quiet hlive.1 hq⟩

/-! ### A command and a frame -/

/-- The doorbell word of a register write. -/
def command (rap : U8) (v : U16) : U64 :=
  DDR3_CMD_PENDING_BIT ||| rap.setWidth 64 <<< 1 ||| v.setWidth 64 <<< 8

/-- The FPGA posts a write, and the main loop makes `n` steps. -/
def serve (rap : U8) (v : U16) (n : Nat) : List Act :=
  .post (command rap v) :: List.replicate n .main

/-- A broadcast frame arrives, and the receive thread makes `n` steps. -/
def receive (n : Nat) : List Act := List.replicate n (.rx (fun _ => 0xFF) 20)

instance (s : Doorbell) (a : Act) : Decidable (s.Orderly a) :=
  inferInstanceAs (Decidable (_ = true ∧ _ = true))

instance (s : Doorbell) : Decidable s.Quiet :=
  inferInstanceAs (Decidable (_ = _ ∧ _ = _))

instance (s : Doorbell) : Decidable s.Published :=
  inferInstanceAs (Decidable (_ = _ ∧ _ = _))

/-- The receiver is started with a ring of one descriptor, a frame misses it,
and the threads publish one after the other. -/
theorem slots_published_in_turn :
    (Doorbell.run (serve 76 0xFFFF 7 ++ serve 0 (CSR0.STRT ||| CSR0.INEA) 7 ++ receive 6)
      (.start BROADCAST_MAC .blank)).Published :=
  slots_published BROADCAST_MAC .blank _ (by decide +kernel) (by decide +kernel)

/-- The main loop holds its snapshot of the interrupt line while the frame is
missed and published, and then stores it: the interrupt is lost. -/
theorem interrupt_lost : ¬ ∀ (nic : Mac) (w : World) (acts : List Act),
    (Doorbell.run acts (.start nic w)).Quiet →
      (Doorbell.run acts (.start nic w)).Published := by
  intro hall
  have hpub := hall BROADCAST_MAC .blank
    (serve 76 0xFFFF 7 ++ serve 0 (CSR0.STRT ||| CSR0.INEA) 6 ++ receive 6 ++ [.main])
    (by decide +kernel)
  exact absurd hpub (by decide +kernel)

end A2065
