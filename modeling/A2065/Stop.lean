import A2065.CsrInvariant

/-!
# What a stopped chip does

STOP turns both engines off, and nothing but a CSR0 write turns them on
again. Two kinds of CSR0 write do: one with STRT or INIT, as documented, and
one with TDMD once the chip has been initialised, because `am_initialized`
survives STOP and the transmit demand starts the engines on its own.
-/

namespace A2065

open Bits

/-! ## Moves of a stopped chip -/

/-- The move writes neither STRT nor INIT to CSR0. -/
def NoStart (m : Move) (s : Sys) : Prop :=
  ∀ v, m.csr0Write s.1 = some v → tst v (CSR0.STRT ||| CSR0.INIT) = false

/-- The move writes no transmit demand to CSR0. -/
def NoDemand (m : Move) (s : Sys) : Prop :=
  ∀ v, m.csr0Write s.1 = some v → tst v CSR0.TDMD = false

/-- The move sends nothing, stores nothing to boardram, and ends with STOP
set and both engines off. -/
def Inert (W : Wiring) (m : Move) (s : Sys) : Prop :=
  (∀ ev ∈ m.trace W s, ¬ ev.op.IsAction) ∧
    tst (m.apply W s).1.csr0 CSR0.STOP = true ∧
    tst (m.apply W s).1.csr0 CSR0.TXON = false ∧ tst (m.apply W s).1.csr0 CSR0.RXON = false

theorem Eff.IsSignal.not_action {e : Eff} (h : e.IsSignal) : ¬ e.IsAction := by
  cases e <;> simp_all [Eff.IsSignal, Eff.IsAction]

/-- Without STRT and INIT in the value, a stopped chip takes no command. -/
theorem csr0Command_stopped {oreg v : U16} (hs : tst oreg CSR0.STOP = true)
    (hv : tst v (CSR0.STRT ||| CSR0.INIT) = false) (d : Daemon) :
    csr0Command oreg (d.setCsr 0 (csr0Merge oreg v)) =
      pure (d.setCsr 0 (csr0Merge oreg v)) := by
  rw [tst_or_right, Bool.or_eq_false_iff] at hv
  simp only [CSR0.tst_bits] at hs hv
  have hstrt := csr0Merge_command oreg v 1 (by decide)
  have hinit := csr0Merge_command oreg v 0 (by decide)
  rw [hv.1, Bool.or_false] at hstrt
  rw [hv.2, Bool.or_false] at hinit
  unfold csr0Command
  simp only [Daemon.csr0_setCsr0, CSR0.tst_bits, hstrt, hinit, hs]
  rw [if_neg (by simp), if_neg (by simp +contextual), if_neg (by simp +contextual)]

/-- A CSR0 write that neither starts the chip nor demands a transmit of an
initialised one only merges bits. -/
theorem wputCsr0_stopped (cb : Callback) {v : U16} {d : Daemon} (hc : Csr0Inv d.csr0)
    (hs : tst d.csr0 CSR0.STOP = true) (hv : tst v (CSR0.STRT ||| CSR0.INIT) = false)
    (hq : d.amInitialized = false ∨ tst v CSR0.TDMD = false) :
    ∃ c : U16, c.getLsbD 2 = true ∧
      ∀ onTransmit, wputCsr0 cb onTransmit v d = rethink cb (d.setCsr 0 c) := by
  have hstop := csr0Merge_command d.csr0 v 2 (by decide)
  have htdmd := csr0Merge_command d.csr0 v 3 (by decide)
  simp only [CSR0.tst_bits] at hq
  rw [hc.tdmd, Bool.false_or] at htdmd
  unfold wputCsr0
  simp only [csr0Command_stopped hs hv, pure_bind]
  simp only [CSR0.tst_bits] at hs
  rw [hs, Bool.true_or] at hstop
  unfold csr0Demand
  simp only [Daemon.csr0_setCsr0, CSR0.tst_bits, htdmd]
  by_cases hd : v.getLsbD 3 = true
  · have hni : (d.setCsr 0 (csr0Merge d.csr0 v)).amInitialized = false :=
      hq.resolve_right (by simp [hd])
    refine ⟨csr0Merge d.csr0 v &&& ~~~ CSR0.TDMD, ?_, fun onTransmit => ?_⟩
    · simp only [CSR0.masks, getLsbD_and_not_twoPow, hstop]
      decide
    · rw [if_pos hd, if_neg (by simp [hni])]
      simp only [pure_bind, Daemon.csr0Clr, Daemon.csr0_setCsr0, Daemon.setCsr_setCsr]
  · refine ⟨_, hstop, fun onTransmit => ?_⟩
    rw [if_neg hd]
    rfl

/-- A transmit demand on an initialised chip clears STOP. -/
theorem wputCsr0_demand (W : Wiring) {v : U16} {d : Daemon} (hc : Csr0Inv d.csr0)
    (hs : tst d.csr0 CSR0.STOP = true) (hv : tst v (CSR0.STRT ||| CSR0.INIT) = false)
    (hi : d.amInitialized = true) (hd : tst v CSR0.TDMD = true) :
    (wputCsr0 W.onInterrupt W.onTransmit v d).Always fun d' => tst d'.csr0 CSR0.STOP = false := by
  have htdmd := csr0Merge_command d.csr0 v 3 (by decide)
  obtain ⟨-, htxon, -, -⟩ := csr0Merge_status d.csr0 v
  simp only [CSR0.tst_bits] at hd
  rw [hd, Bool.or_true] at htdmd
  unfold wputCsr0
  simp only [csr0Command_stopped hs hv, pure_bind]
  simp only [CSR0.tst_bits] at hs ⊢
  rw [(hc.stop hs).1] at htxon
  set d₀ := d.setCsr 0 (csr0Merge d.csr0 v) with hd₀
  unfold csr0Demand
  rw [Daemon.csr0_setCsr0, if_pos (by simp only [CSR0.tst_bits, htdmd]),
    if_pos (by exact hi), if_neg (by simp only [CSR0.tst_bits, htxon]; decide), bind_assoc]
  refine .bind (onTransmit_effect W _) fun d₂ ⟨n, h₂⟩ => ?_
  rw [pure_bind]
  refine (rethink_always _ _).mono fun d' h => ?_
  -- neither the walk nor the two last statements touch STOP
  rw [h, Daemon.csr0_setCsr0, rethinkCsr0_getLsbD, if_neg (by decide), Daemon.csr0_csr0Clr]
  simp only [CSR0.masks, getLsbD_and_not_twoPow]
  rw [h₂.csr0.getLsbD (by decide), (startEngines_csr0 d₀).1]
  rfl

/-- `am_initialized` is set by `case 0` only. -/
theorem amInitialized_wputOther (v : U16) (d : Daemon) :
    (wputOther v d).amInitialized = d.amInitialized := by
  unfold wputOther
  split <;> try rfl
  all_goals
    split <;> rfl

theorem Csr0Mid.engines_off {c : U16} (h : Csr0Mid c) (hs : tst c CSR0.STOP = true) :
    tst c CSR0.TXON = false ∧ tst c CSR0.RXON = false := by
  simp only [CSR0.tst_bits] at hs ⊢
  obtain ⟨htxon, hrxon, -⟩ := h.stop hs
  exact ⟨htxon, hrxon⟩

/-- What an operation does to a stopped chip: signals at most, STOP kept. -/
theorem op_stopped (W : Wiring) (o : Op) {d : Daemon} {w : World} (hc : Csr0Inv d.csr0)
    (hs : tst d.csr0 CSR0.STOP = true) (hn : NoStart (.op o) (d, w))
    (hq : d.amInitialized = false ∨ NoDemand (.op o) (d, w)) :
    (o.prog W d).Only Eff.IsSignal ∧ (o.prog W d).Always fun d' =>
      tst d'.csr0 CSR0.STOP = true ∧ d'.amInitialized = d.amInitialized := by
  have hpure : ∀ d' : Daemon, d'.csr0 = d.csr0 → d'.amInitialized = d.amInitialized →
      (pure d' : DProg Daemon).Only Eff.IsSignal ∧ (pure d' : DProg Daemon).Always fun d' =>
        tst d'.csr0 CSR0.STOP = true ∧ d'.amInitialized = d.amInitialized := by
    intro d' hd hi
    exact ⟨.pure _, .pure ⟨hd ▸ hs, hi⟩⟩
  obtain ⟨htxon, hrxon⟩ := hc.engines_off hs
  cases o with
  | transmit =>
      rw [Op.prog, doTransmit_off _ htxon]
      exact hpure d rfl rfl
  | recv databuf len =>
      rw [Op.prog, gotfunc_off _ _ _ hrxon]
      exact hpure d rfl rfl
  | wput regOffset v =>
      rw [Op.prog]
      unfold chipWput
      split
      · exact hpure _ rfl rfl
      rename_i hrdp
      split
      · exact hpure d rfl rfl
      split
      · rename_i hrap
        have hw : (Move.op (.wput regOffset v)).csr0Write d = some v := by
          simp [Move.csr0Write, Move.rdpWrite, hrap, hrdp]
        obtain ⟨c, hcs, heq⟩ := wputCsr0_stopped W.onInterrupt hc hs (hn v hw)
          (hq.imp_right fun h => h v hw)
        rw [heq]
        refine ⟨rethink_signals _ _, (rethink_always _ _).mono ?_⟩
        rintro d' rfl
        simp only [Daemon.csr0_setCsr0, CSR0.tst_bits, rethinkCsr0_getLsbD]
        exact ⟨hcs, rfl⟩
      · exact hpure _ (csr0_wputOther v d) (amInitialized_wputOther v d)

/-! ## Runs of a stopped chip -/

theorem move_stopped (W : Wiring) (m : Move) {s : Sys} (hI : Csr0Inv s.1.csr0 ∧ RegBounds s.1)
    (hs : tst s.1.csr0 CSR0.STOP = true) (hn : NoStart m s)
    (hq : s.1.amInitialized = false ∨ NoDemand m s) :
    Inert W m s ∧ (m.apply W s).1.amInitialized = s.1.amInitialized := by
  cases m with
  | host ram stack =>
      exact ⟨⟨by simp [Move.trace], hs, hI.1.engines_off hs⟩, rfl⟩
  | op o =>
      obtain ⟨honly, halways⟩ := op_stopped W o hI.1 hs hn hq
      obtain ⟨hstop, hinit⟩ := halways.exec World.handle s.2
      have hI' := (op_invariant W o s.1 hI).exec World.handle s.2
      refine ⟨⟨fun ev hev => ?_, hstop, hI'.1.engines_off hstop⟩, hinit⟩
      exact (honly _ _ (Prog.runs_exec World.handle _ s.2) ev hev).not_action

/-- The demand that starts an initialised chip is a move that is not inert. -/
theorem move_demand (W : Wiring) (m : Move) {s : Sys} (hc : Csr0Inv s.1.csr0)
    (hs : tst s.1.csr0 CSR0.STOP = true) (hn : NoStart m s) (hi : s.1.amInitialized = true)
    (h : Inert W m s) : NoDemand m s := by
  intro v hw
  by_contra hd
  rw [Move.csr0Write] at hw
  split at hw
  case isFalse => cases hw
  case isTrue hrap =>
    cases m with
    | host ram stack => cases hw
    | op o =>
        cases o with
        | transmit => cases hw
        | recv databuf len => cases hw
        | wput regOffset v' =>
            rw [Move.rdpWrite] at hw
            split at hw
            · cases hw
            rename_i hrdp
            cases hw
            have hw : (Move.op (.wput regOffset v)).csr0Write s.1 = some v := by
              simp [Move.csr0Write, Move.rdpWrite, hrap, hrdp]
            have hstart := (wputCsr0_demand W hc hs (hn v hw) hi (by simpa using hd)).exec
              World.handle s.2
            have hstop := h.2.1
            rw [Move.apply, Op.prog, chipWput, if_neg hrdp, if_neg (by simp [hrap, RAP_SIZE]),
              if_pos hrap] at hstop
            rw [hstart] at hstop
            cases hstop

theorem along_inert_iff (W : Wiring) (ms : List Move) (s : Sys)
    (hI : Csr0Inv s.1.csr0 ∧ RegBounds s.1) (hs : tst s.1.csr0 CSR0.STOP = true)
    (hn : Along W NoStart ms s) :
    Along W (Inert W) ms s ↔ (s.1.amInitialized = false ∨ Along W NoDemand ms s) := by
  induction ms generalizing s with
  | nil => simp [Along]
  | cons m ms ih =>
      obtain ⟨hnm, hnms⟩ := hn
      have hI' : Csr0Inv (m.apply W s).1.csr0 ∧ RegBounds (m.apply W s).1 :=
        runMoves_inv W (op_invariant W) [m] s hI
      constructor
      · rintro ⟨hm, hms⟩
        cases hi : s.1.amInitialized with
        | false => exact .inl rfl
        | true =>
            have hd := move_demand W m hI.1 hs hnm hi hm
            have hsame := (move_stopped W m hI hs hnm (.inr hd)).2
            rcases (ih _ hI' hm.2.1 hnms).mp hms with hoff | hrest
            · rw [hsame, hi] at hoff
              cases hoff
            · exact .inr ⟨hd, hrest⟩
      · intro hq
        have hqm : s.1.amInitialized = false ∨ NoDemand m s := hq.imp_right fun h => h.1
        obtain ⟨hm, hsame⟩ := move_stopped W m hI hs hnm hqm
        refine ⟨hm, (ih _ hI' hm.2.1 hnms).mpr ?_⟩
        rw [hsame]
        exact hq.imp_right fun h => h.2

/-- From any state a run reaches with STOP set, and until a CSR0 write with
STRT or INIT, the chip is inert exactly if it was never initialised or is
sent no transmit demand. -/
theorem stop_inert_iff (W : Wiring) (fakemac macFakemac macRealmac : Mac) (w : World)
    (moves ms : List Move) (s : Sys)
    (hrun : s = runMoves W moves (registersReset (.bootWith fakemac macFakemac macRealmac), w))
    (hs : tst s.1.csr0 CSR0.STOP = true) (hn : Along W NoStart ms s) :
    Along W (Inert W) ms s ↔ (s.1.amInitialized = false ∨ Along W NoDemand ms s) := by
  have hI : Csr0Inv s.1.csr0 ∧ RegBounds s.1 := by
    rw [hrun]
    exact runMoves_inv W (op_invariant W) moves _ (reset_invariant _ _ _)
  exact along_inert_iff W ms s hI hs hn

/-- A write of `v` to the selected register. -/
def writeRdp (v : U16) : Move := .op (.wput A2065_RDP_OFF v)

theorem csr0Write_writeRdp {v v' : U16} {d : Daemon}
    (h : (writeRdp v).csr0Write d = some v') : v' = v := by
  rw [Move.csr0Write] at h
  split at h
  · simpa [writeRdp, Move.rdpWrite, A2065_RDP_OFF, A2065_RAP_OFF, eq_comm] using h
  · cases h

/-- Initialised, stopped, then written an acknowledge, the chip stays inert. -/
theorem stop_inert_after_ack :
    Along .null (Inert .null) [writeRdp CSR0.TINT]
      (runMoves .null [writeRdp CSR0.INIT, writeRdp CSR0.STOP]
        (registersReset (.bootWith BROADCAST_MAC BROADCAST_MAC BROADCAST_MAC), .blank)) := by
  refine (stop_inert_iff .null _ _ _ .blank [writeRdp CSR0.INIT, writeRdp CSR0.STOP]
    [writeRdp CSR0.TINT] _ rfl (by decide +kernel) ⟨fun v hv => ?_, trivial⟩).mpr
    (.inr ⟨fun v hv => ?_, trivial⟩)
  · rw [csr0Write_writeRdp hv]
    decide
  · rw [csr0Write_writeRdp hv]
    decide

/-- Initialised, stopped, then written a transmit demand, the chip runs again:
STOP alone does not make it inert. -/
theorem stop_not_inert : ¬ ∀ (W : Wiring) (fakemac macFakemac macRealmac : Mac) (w : World)
    (moves ms : List Move) (s : Sys),
    s = runMoves W moves (registersReset (.bootWith fakemac macFakemac macRealmac), w) →
    tst s.1.csr0 CSR0.STOP = true → Along W NoStart ms s → Along W (Inert W) ms s := by
  intro hall
  have hinert := hall .null BROADCAST_MAC BROADCAST_MAC BROADCAST_MAC .blank
    [writeRdp CSR0.INIT, writeRdp CSR0.STOP] [writeRdp CSR0.TDMD] _ rfl (by decide +kernel)
    ⟨fun v hv => by rw [csr0Write_writeRdp hv]; decide, trivial⟩
  exact absurd hinert.1.2.1 (by decide +kernel)

end A2065
