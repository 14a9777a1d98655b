import A2065.Accesses
import A2065.CsrInvariant
import A2065.Exec
import A2065.MailboxInterrupt
import A2065.Publication

/-!
# The interrupt slot follows the line

Every operation that leaves INTR and INEA set has called `assert_mbx_int`, or
has not touched CSR0. So between whole stores the slot is up whenever the line
is, under every interleaving. What can break this is a frame that comes while
the main loop has read CSR0 and not yet stored what follows from it.
-/

namespace A2065

open Bits

/-! ## What the callbacks store -/

/-- What `assert_mbx_int` stores. -/
def assertTrace : List DEvent :=
  [⟨.wr64 MBX_INT_OFF 1, ()⟩, ⟨.wr64 MBX_INT_OFF 1, ()⟩, ⟨.wr64 MBX_INT_OFF 1, ()⟩,
    ⟨.wr64 LAST_MBX_INT 1, ()⟩, ⟨.wr64 INT_HOLD INT_HOLD_ITER, ()⟩]

/-- What `schedule_tdmd_retry` stores. -/
def retryTrace : List DEvent := [⟨.wr64 TDMD_RETRY 16, ()⟩]

theorem assertMbxInt_calls {bs : List (List DEvent)} (h : assertTrace ∈ bs) :
    assertMbxInt.Traces (Calls bs) := by
  rintro tr _ ⟨_, _, rfl, _, _, rfl, _, _, rfl, _, _, rfl, _, _, rfl, rfl, -⟩
  exact .call h .nil

theorem doTransmit_calls {bs : List (List DEvent)} (h : assertTrace ∈ bs) (d : Daemon) :
    (doTransmit mailbox.onInterrupt d).Traces (Calls bs) :=
  doTransmit_traces (admits_calls bs) (fun _ => assertMbxInt_calls h) (covers_anyWord d)

theorem op_calls (o : Op) (d : Daemon) :
    (o.prog mailbox d).Traces (Calls [assertTrace, retryTrace]) := by
  have hT := admits_calls [assertTrace, retryTrace]
  have hassert : assertTrace ∈ [assertTrace, retryTrace] := List.mem_cons_self ..
  refine o.traces hT (fun _ => assertMbxInt_calls hassert) rfl (fun r d => ?_) (covers_anyWord d)
    fun _ _ _ d _ => covers_anyWord d
  simp only [mailbox]
  split
  · refine .perform fun _ => ?_
    exact .call (b := retryTrace) (by simp) .nil
  · exact hT.pure _

/-- The slot is raised and the daemon knows. -/
def Raised (m : Nat → U64) : Prop := m MBX_INT_OFF = 1 ∧ m LAST_MBX_INT = 1

theorem raised_assert (w : World) : Raised (assertMbxInt.exec w).2.slots := ⟨rfl, rfl⟩

/-! ## An interrupt is announced -/

/-- A line that is up is shown. -/
def Raises (d : Daemon) (w : World) : Prop := intState d = 1 → Raised w.slots

/-- Whatever it finds, the program ends with `Q`. -/
def Leaves {α : Type} (p : DProg α) (Q : α → World → Prop) : Prop :=
  ∀ w, Q (p.exec w).1 (p.exec w).2

section Leaves

variable {α β : Type} {Q : β → World → Prop}

theorem Leaves.pure {b : β} (h : ∀ w, Q b w) : Leaves (Pure.pure b) Q := h

theorem Leaves.after {p : DProg α} {f : α → DProg β} (hf : ∀ a, Leaves (f a) Q) :
    Leaves (p >>= f) Q := by
  intro w
  rw [DProg.exec_bind]
  exact hf _ _

theorem Leaves.mono {p : DProg β} {Q' : β → World → Prop} (h : Leaves p Q)
    (hq : ∀ b w, Q b w → Q' b w) : Leaves p Q' := fun w => hq _ _ (h w)

end Leaves

theorem rethink_raises (d : Daemon) : Leaves (rethink mailbox.onInterrupt d) Raises := by
  unfold rethink
  simp only
  split
  · intro w _
    rw [DProg.exec_bind]
    exact raised_assert w
  · rename_i hline
    intro w hup
    have hdown : intState (d.setCsr 0 (rethinkCsr0 d.csr0)) = 0 := if_neg hline
    have hup' : intState (d.setCsr 0 (rethinkCsr0 d.csr0)) = 1 := hup
    rw [hdown] at hup'
    exact absurd hup' (by decide)

theorem rethink_end {α : Type} (x : α) (d : Daemon) :
    Leaves (rethink mailbox.onInterrupt d >>= fun d => pure (x, d)) fun r w => Raises r.2 w := by
  intro w
  rw [DProg.exec_bind]
  exact rethink_raises d w

theorem rxRing_raises (rdra rlen : U32) (tmp : Buf) (len : Nat) (d : Daemon) (insize : Nat)
    (first : Bool) :
    Leaves (rxRing mailbox.onInterrupt rdra rlen tmp len d insize first)
      fun r w => Raises r.2 w := by
  -- induction on the bytes still to store, the measure of the loop
  induction hn : len - insize using Nat.strong_induction_on generalizing d insize first with
  | _ n ih =>
      rw [rxRing]
      refine .after fun _ => .after fun _ => .after fun rmd2 => .after fun _ => ?_
      simp only
      split
      · exact .after fun _ => rethink_end _ _
      refine .after fun _ => ?_
      split
      · exact .after fun _ => .after fun _ => rethink_end _ _
      · have hpos := byteCount_pos rmd2
        exact .after fun _ => .after fun _ => ih _ (by omega) _ _ _ rfl

/-- The line is shown, or CSR0 is as it was. -/
def Followed (d d' : Daemon) (w' : World) : Prop := Raises d' w' ∨ d'.csr0 = d.csr0

theorem gotfunc_followed (databuf : Buf) (len : Nat) (d : Daemon) :
    Leaves (gotfunc mailbox.onInterrupt databuf len d) fun r w => Followed d r.2 w := by
  unfold gotfunc
  split
  · exact .pure fun _ => .inr rfl
  split
  · exact .pure fun _ => .inr rfl
  split
  · exact .pure fun _ => .inr rfl
  refine .after fun stack => ?_
  simp only
  split
  · exact .pure fun _ => .inr rfl
  · exact (rxRing_raises _ _ _ _ d 0 true).mono fun _ _ => .inl

theorem doTransmit_followed (d : Daemon) :
    Leaves (doTransmit mailbox.onInterrupt d) fun r w => Followed d r.2 w := by
  unfold doTransmit
  split
  · exact .pure fun _ => .inr rfl
  split
  · exact .pure fun _ => .inr rfl
  refine .after fun s => ?_
  simp only
  split
  · exact .pure fun _ => .inr rfl
  · exact .after fun _ => .after fun _ => (rethink_end _ _).mono fun _ _ => .inl

theorem chipWput_followed (onTransmit : Daemon → DProg Daemon) (regOffset : U8) (v : U16)
    (d : Daemon) :
    Leaves (chipWput mailbox.onInterrupt onTransmit regOffset v d) (Followed d) := by
  unfold chipWput
  split
  · exact .pure fun _ => .inr rfl
  split
  · exact .pure fun _ => .inr rfl
  split
  · exact .after fun _ => .after fun d => (rethink_raises d).mono fun _ _ => .inl
  · exact .pure fun _ => .inr (csr0_wputOther v d)

/-- Every operation shows the line it leaves, or has left CSR0 alone. -/
theorem op_followed (o : Op) (d : Daemon) : Leaves (o.prog mailbox d) (Followed d) := by
  cases o with
  | wput regOffset v => exact chipWput_followed _ regOffset v d
  | transmit =>
      intro w
      rw [Op.prog, DProg.exec_bind]
      exact doTransmit_followed d w
  | recv databuf len =>
      intro w
      rw [Op.prog, DProg.exec_bind]
      exact gotfunc_followed databuf len d w

/-! ## Whole stores -/

/-- The slot is down, or up and the daemon knows. -/
def Coherent (m : Nat → U64) : Prop := m MBX_INT_OFF = 0 ∨ Raised m

/-- What holds between whole stores. -/
structure Shows (d : Daemon) (w : World) : Prop where
  raises : Raises d w
  coherent : Coherent w.slots

theorem Raised.shows {w : World} (h : Raised w.slots) (d : Daemon) : Shows d w :=
  ⟨fun _ => h, .inr h⟩

theorem intState_congr {d d' : Daemon} (h : d'.csr0 = d.csr0) : intState d' = intState d := by
  rw [intState, intState, h]

theorem intState_cases (d : Daemon) : intState d = 0 ∨ intState d = 1 := by
  unfold intState
  split
  · exact .inr rfl
  · exact .inl rfl

/-- Other slots may change, and registers but CSR0. -/
theorem Shows.congr {d d' : Daemon} {w w' : World} (h : Shows d w) (hd : d'.csr0 = d.csr0)
    (hint : w'.slots MBX_INT_OFF = w.slots MBX_INT_OFF)
    (hlast : w'.slots LAST_MBX_INT = w.slots LAST_MBX_INT) : Shows d' w' := by
  obtain ⟨hann, hcoh⟩ := h
  unfold Raises Coherent Raised at *
  rw [← hint, ← hlast] at hann hcoh
  rw [← intState_congr hd] at hann
  exact ⟨hann, hcoh⟩

/-- What the callbacks keep. -/
theorem mailbox_keep {P : (Nat → U64) → Prop}
    (hassert : ∀ m, P m → P (assertTrace.foldl storeSlot m))
    (hretry : ∀ m, P m → P (retryTrace.foldl storeSlot m)) :
    ∀ b ∈ [assertTrace, retryTrace], ∀ m, P m → P (b.foldl storeSlot m) := by
  intro b hb
  rcases List.mem_cons.mp hb with rfl | hb
  · exact hassert
  · obtain rfl := List.mem_singleton.mp hb
    exact hretry

theorem raised_keep : ∀ b ∈ [assertTrace, retryTrace], ∀ m, Raised m →
    Raised (b.foldl storeSlot m) :=
  mailbox_keep (fun _ _ => ⟨rfl, rfl⟩) fun _ h => h

theorem coherent_keep : ∀ b ∈ [assertTrace, retryTrace], ∀ m, Coherent m →
    Coherent (b.foldl storeSlot m) :=
  mailbox_keep (fun _ _ => .inr ⟨rfl, rfl⟩) fun _ h => h

/-- Between whole stores, an operation leaves what it should. -/
theorem Shows.of_calls {α : Type} {p : DProg α} {f : α → Daemon} {d : Daemon}
    (hcalls : p.Traces (Calls [assertTrace, retryTrace]))
    (hfollow : Leaves p fun r w => Followed d (f r) w) {w : World} (h : Shows d w) :
    Shows (f (p.exec w).1) (p.exec w).2 where
  raises := by
    rcases hfollow w with hann | hsame
    · exact hann
    · intro hup
      rw [intState_congr hsame] at hup
      exact Calls.keep raised_keep hcalls (h.raises hup)
  coherent := Calls.keep coherent_keep hcalls h.coherent

theorem Shows.make {s : Ddr3} (h : Shows s.d s.w) (o : Op) : Shows (s.make o).d (s.make o).w :=
  Shows.of_calls (f := id) (op_calls o s.d) (op_followed o s.d) h

theorem Shows.put {s : Ddr3} (h : Shows s.d s.w) (off : Nat) (hint : off ≠ MBX_INT_OFF)
    (hlast : off ≠ LAST_MBX_INT) (v : U64) : Shows (s.put off v).d (s.put off v).w :=
  h.congr rfl (slots_wr64_ne s.w hint.symm v) (slots_wr64_ne s.w hlast.symm v)

theorem Ddr3.shows_assert (s : Ddr3) : Shows s.assert.d s.assert.w :=
  (raised_assert s.w).shows s.d

/-- What `assert_mbx_int` keeps, `service_bridge` keeps up to its answer. -/
theorem Ddr3.announce_keep {P : Ddr3 → Prop} (hassert : ∀ s, P s → P s.assert) (req : U64)
    {s : Ddr3} (h : P s) : P (s.announce req) := by
  have hif : ∀ (c : Prop) [Decidable c] (s : Ddr3), P s → P (if c then s.assert else s) := by
    intro c _ s hs
    split
    · exact hassert s hs
    · exact hs
  exact hif _ _ (hif _ _ h)

theorem Ddr3.afterWrite_keep {P : Ddr3 → Prop} (hassert : ∀ s, P s → P s.assert)
    (hhold : ∀ s, P s → P (s.put INT_HOLD 1)) (doInitDelay intCleared : Bool) {s : Ddr3}
    (h : P s) : P (s.afterWrite doInitDelay intCleared) := by
  have hcut : ∀ s, P s → P (if intCleared ∧ 0 < s.intHold then s.put INT_HOLD 1 else s) := by
    intro s hs
    split
    · exact hhold s hs
    · exact hs
  refine hcut _ ?_
  split
  · exact hassert s h
  · exact h

/-- The counter is taken down, and cleared when the transmission went through
or the transmitter is off. -/
theorem Ddr3.retryTransmit_cases (s : Ddr3) : s.tdmdRetry = 0 ∧ s.retryTransmit = s ∨
    0 < s.tdmdRetry ∧ ∃ s', (s' = s.put TDMD_RETRY (s.tdmdRetry - 1) ∨
        s' = (s.put TDMD_RETRY (s.tdmdRetry - 1)).transmit.2) ∧
      (s.retryTransmit = s' ∨ s.retryTransmit = s'.put TDMD_RETRY 0) := by
  unfold retryTransmit
  simp only
  split
  · rename_i hpos
    refine .inr ⟨hpos, ?_⟩
    split
    · refine ⟨_, .inr rfl, ?_⟩
      split
      · exact .inr rfl
      · exact .inl rfl
    · exact ⟨_, .inl rfl, .inr rfl⟩
  · rename_i hzero
    exact .inl ⟨by bv_omega, rfl⟩

theorem Shows.transmit {s : Ddr3} (h : Shows s.d s.w) : Shows s.transmit.2.d s.transmit.2.w :=
  Shows.of_calls (f := Prod.snd) (doTransmit_calls (List.mem_cons_self ..) s.d)
    (doTransmit_followed s.d) h

theorem Shows.retryTransmit {s : Ddr3} (h : Shows s.d s.w) :
    Shows s.retryTransmit.d s.retryTransmit.w := by
  rcases s.retryTransmit_cases with ⟨-, heq⟩ | ⟨-, s', hs', heq⟩
  · rwa [heq]
  have hput : Shows s'.d s'.w := by
    have hcount := h.put TDMD_RETRY (by decide) (by decide) (s.tdmdRetry - 1)
    rcases hs' with rfl | rfl
    · exact hcount
    · exact hcount.transmit
  rcases heq with heq | heq
  · rwa [heq]
  · rw [heq]
    exact hput.put TDMD_RETRY (by decide) (by decide) 0

/-! ## Every interleaving -/

/-- The main loop holds a value of the line that is not wholly stored. -/
def TurnPc.writing : TurnPc → Bool
  | .compare _ | .store _ => true
  | _ => false

/-- Within a turn that has nothing to do and knows the line. -/
def TurnPc.Calm (line : U64) : TurnPc → Prop
  | .poll | .drain | .retry | .hold | .count _ | .refresh => True
  | .compare val => val = line
  | .serve _ | .apply _ | .settle _ _ | .store _ => False

namespace Ddr3

/-- What holds as long as no frame comes while the main loop is writing. -/
def Shown (s : Ddr3) : Prop :=
  match s.main with
  | .compare val => val = intState s.d ∧ Shows s.d s.w
  | .store val => val = intState s.d ∧ s.int = val
  | _ => Shows s.d s.w

theorem shown_iff {s : Ddr3} (h : s.main.writing = false) : s.Shown ↔ Shows s.d s.w := by
  obtain ⟨d, w, deferred, intRefresh, main⟩ := s
  cases main with
  | compare val => cases h
  | store val => cases h
  | _ => rfl

theorem Shown.raised {s : Ddr3} (h : s.Shown) (hup : intState s.d = 1) : s.int = 1 := by
  obtain ⟨d, w, deferred, intRefresh, main⟩ := s
  cases main with
  | compare val => exact (h.2.raises hup).1
  | store val => exact h.2.trans (h.1.trans hup)
  | _ => exact (Shows.raises h hup).1

/-- A step that leaves the main loop, the line and the two variables. -/
theorem Shown.congr {s s' : Ddr3} (h : s.Shown) (hmain : s'.main = s.main)
    (hd : s'.d.csr0 = s.d.csr0) (hint : s'.int = s.int) (hlast : s'.last = s.last) :
    s'.Shown := by
  unfold Shown at h ⊢
  rw [hmain, intState_congr hd, hint]
  split at h
  · exact ⟨h.1, h.2.congr hd hint hlast⟩
  · exact h
  · exact Shows.congr h hd hint hlast

/-- A turn stores the line of the registers it has read. -/
theorem Shown.stepMain {s : Ddr3} (h : s.Shown) : s.stepMain.Shown := by
  obtain ⟨d, w, deferred, intRefresh, main⟩ := s
  cases main with
  | poll =>
      refine (shown_iff ?_).mpr h
      simp only [Ddr3.stepMain]
      split <;> rfl
  | serve req =>
      have hann : Shows _ _ := announce_keep (P := fun s => Shows s.d s.w)
        (fun s _ => s.shows_assert) req h
      refine (shown_iff ?_).mpr (hann.put MBX_REQ_OFF (by decide) (by decide) 0)
      simp only [Ddr3.stepMain]
      split <;> rfl
  | apply req => exact Shows.make h _
  | settle doInitDelay intCleared =>
      exact afterWrite_keep (P := fun s => Shows s.d s.w) (fun s _ => s.shows_assert)
        (fun s hs => hs.put INT_HOLD (by decide) (by decide) 1) doInitDelay intCleared h
  | drain =>
      simp only [Ddr3.stepMain]
      split
      · exact h
      · exact Shows.make h _
  | retry => exact Shows.retryTransmit h
  | hold =>
      simp only [Ddr3.stepMain]
      split
      · exact h
      · exact ⟨rfl, h⟩
  | count rest => exact Shows.put h INT_HOLD (by decide) (by decide) rest
  | compare val =>
      simp only [Ddr3.stepMain]
      split
      · exact ⟨h.1, slots_wr64 w MBX_INT_OFF val⟩
      · exact h.2
  | store val =>
      obtain ⟨hval, hint⟩ := h
      have hint' : ((wr64 LAST_MBX_INT val).exec w).2.slots MBX_INT_OFF = val :=
        (slots_wr64_ne w (by decide) val).trans hint
      have hlast' := slots_wr64 w LAST_MBX_INT val
      refine (shown_iff rfl).mpr ⟨fun hup => ?_, ?_⟩
      · have hone : val = 1 := hval.trans hup
        exact ⟨hint'.trans hone, hlast'.trans hone⟩
      · rcases intState_cases d with hzero | hone
        · exact .inl (hint'.trans (hval.trans hzero))
        · exact .inr ⟨hint'.trans (hval.trans hone), hlast'.trans (hval.trans hone)⟩
  | refresh =>
      refine (shown_iff rfl).mpr ?_
      simp only [Ddr3.stepMain, refreshInt]
      split
      · rename_i hlast
        split
        · exact Raised.shows ⟨slots_wr64 w MBX_INT_OFF 1, hlast⟩ d
        · exact h
      · exact h

/-- A frame that comes while the main loop is writing. -/
def Races (s : Ddr3) : TurnStep → Prop
  | .recv _ _ => s.main.writing = true
  | _ => False

theorem Shown.safe {s : Ddr3} (h : s.Shown) : s.serviceBridgeSafe.Shown := by
  have hput : (s.put MBX_REQ_OFF 0).Shown :=
    h.congr rfl rfl (slots_wr64_ne s.w (by decide) 0) (slots_wr64_ne s.w (by decide) 0)
  unfold serviceBridgeSafe
  simp only
  split
  · split
    · split
      · rename_i hrap
        have hmake : ((s.put MBX_REQ_OFF 0).make (.wput (reqAddr (s.w.slots MBX_REQ_OFF))
            (reqData (s.w.slots MBX_REQ_OFF)))) = { s.put MBX_REQ_OFF 0 with
              d.rap := (reqData (s.w.slots MBX_REQ_OFF) &&& 0x7f).setWidth 8 } := by
          rw [make, Op.prog, chipWput, if_pos hrap]
          rfl
        rw [hmake]
        exact hput.congr rfl rfl rfl rfl
      · split
        · exact hput.congr rfl rfl rfl rfl
        · exact hput
    · exact hput
  · exact h

theorem Shown.step {s : Ddr3} (h : s.Shown) {a : TurnStep} (ha : ¬ s.Races a) :
    (s.step a).Shown := by
  cases a with
  | main => exact h.stepMain
  | recv rxbuf len =>
      have hidle : s.main.writing = false := by simpa [Races] using ha
      have hafter : (s.step (.recv rxbuf len)).main.writing = false := hidle
      exact (shown_iff hafter).mpr (((shown_iff hidle).mp h).make _)
  | post req =>
      simp only [Ddr3.step]
      split
      · exact h
      · exact h.congr rfl rfl (slots_wr64_ne s.w (by decide) req)
          (slots_wr64_ne s.w (by decide) req)
  | safe => exact h.safe
  | host ram stack => exact h.congr rfl rfl rfl rfl

theorem shown_start (d : Daemon) (w : World) : (start d w).Shown := by
  have hstop : (registersReset d).csr0 = CSR0.STOP := rfl
  have hdown : intState (registersReset d) = 0 := by
    rw [intState, hstop]
    decide
  have hclear : Shows (start d w).d (start d w).w := by
    refine ⟨fun hup => ?_, .inl rfl⟩
    have hup' : intState (registersReset d) = 1 := hup
    rw [hdown] at hup'
    exact absurd hup' (by decide)
  exact (shown_iff rfl).mpr hclear

/-- No frame of the run comes while the main loop is writing. -/
def RaceFree (s : Ddr3) (steps : List TurnStep) : Prop :=
  Watch step (fun s a => ¬ s.Races a) s steps

instance decidableRaces (s : Ddr3) : ∀ a, Decidable (s.Races a)
  | .recv _ _ => inferInstanceAs (Decidable (s.main.writing = true))
  | .main | .post _ | .safe | .host _ _ => .isFalse id

instance decidableRaceFree (s : Ddr3) (steps : List TurnStep) : Decidable (s.RaceFree steps) :=
  Watch.decidable ..

theorem Shown.run {s : Ddr3} (h : s.Shown) {steps : List TurnStep} (hfree : s.RaceFree steps) :
    (s.run steps).Shown := by
  have hstep : ∀ (s : Ddr3) a, s.Shown → ¬ s.Races a → (s.step a).Shown :=
    fun s a hs ha => hs.step ha
  exact Watch.preserves hstep h hfree

end Ddr3

/-- Whatever happens and in whatever order, the interrupt slot is up whenever
INTR and INEA are set, and the daemon knows of a slot that is up, as long as
no frame comes between the load of CSR0 and the stores of a turn. -/
theorem interrupt_slot_raised (d : Daemon) (w : World) (steps : List TurnStep)
    (hfree : (Ddr3.start d w).RaceFree steps) :
    let e := (Ddr3.start d w).run steps
    (intState e.d = 1 → e.int = 1) ∧
      (e.main.writing = false → e.int = 0 ∨ e.int = 1 ∧ e.last = 1) := by
  have hshown := (Ddr3.shown_start d w).run hfree
  exact ⟨hshown.raised, fun hidle => ((Ddr3.shown_iff hidle).mp hshown).coherent⟩

/-- The 68k writes CSR0, and the main loop takes a turn for it. -/
def csr0Turn (v : U16) : List TurnStep :=
  .post (v.setWidth 64 <<< 10 ||| 3) :: List.replicate 9 .main

/-- The chip is initialized and started with interrupts enabled. -/
theorem interrupt_slot_raised_init :
    let steps := csr0Turn (CSR0.INIT ||| CSR0.STRT ||| CSR0.INEA)
    let e := (Ddr3.start .boot .blank).run steps
    intState e.d = 1 ∧ e.int = 1 :=
  have hup : intState ((Ddr3.start .boot .blank).run
      (csr0Turn (CSR0.INIT ||| CSR0.STRT ||| CSR0.INEA))).d = 1 := by decide +kernel
  ⟨hup, (interrupt_slot_raised .boot .blank _ (by decide +kernel)).1 hup⟩

end A2065
