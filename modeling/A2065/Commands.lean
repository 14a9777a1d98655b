import A2065.Stop
import A2065.Exec

/-!
# The command bits of CSR0

What STOP, STRT and INIT do, together and one after the other. A stopped chip
has neither INIT nor STRT set (`Quiet`), so each of the three branches of
`case 0` is taken on the bits of the value written alone, and a command is one
of four programs. Two of them are not what the data sheet says: INIT and STRT
in one write decide TXON and RXON before the mode word is loaded, and STOP in
a value written to a stopped chip is not seen at all.
-/

namespace A2065

open Bits

/-! ## A stopped chip has no command pending -/

/-- STOP set means INIT and STRT clear. -/
def Quiet (c : U16) : Prop := c.getLsbD 2 = true → c.getLsbD 0 = false ∧ c.getLsbD 1 = false

theorem Quiet.of_running {c : U16} (h : c.getLsbD 2 = false) : Quiet c := by
  intro hs
  rw [h] at hs
  cases hs

theorem Quiet.congr {c c' : U16} (h : Quiet c) (hbit : ∀ i < 3, c'.getLsbD i = c.getLsbD i) :
    Quiet c' := by
  intro hs
  rw [hbit 2 (by decide)] at hs
  rw [hbit 0 (by decide), hbit 1 (by decide)]
  exact h hs

section Command

variable {oreg v : U16} (d : Daemon)

/-- STOP written to a running chip. -/
theorem csr0Command_stop (ho : tst oreg CSR0.STOP = false) (hv : tst v CSR0.STOP = true) :
    csr0Command oreg (d.setCsr 0 (csr0Merge oreg v)) =
      pure (((d.setCsr 0 (csr0Merge oreg v)).setCsr 0 CSR0.STOP).setCsr 3 0) := by
  have hstop := csr0Merge_command oreg v 2 (by decide)
  simp only [CSR0.tst_bits] at ho hv
  rw [hv, Bool.or_true] at hstop
  unfold csr0Command
  rw [if_pos]
  simp only [Daemon.csr0_setCsr0, CSR0.tst_bits, hstop, ho]
  decide

/-- STRT written without STOP taking effect: the engines start, and INIT in
the same value loads the init block afterwards. -/
theorem csr0Command_strt (hstop : tst v CSR0.STOP = true → tst oreg CSR0.STOP = true)
    (hstrt : tst oreg CSR0.STRT = false) (hidle : tst oreg (CSR0.STOP ||| CSR0.INIT) = true)
    (hv : tst v CSR0.STRT = true) :
    csr0Command oreg (d.setCsr 0 (csr0Merge oreg v)) =
      if tst v CSR0.INIT = true ∧ tst oreg CSR0.INIT = false then do
        let d ← chipInit (startEngines (d.setCsr 0 (csr0Merge oreg v)))
        pure { d.csr0Set CSR0.IDON with amInitialized := true }
      else pure (startEngines (d.setCsr 0 (csr0Merge oreg v))) := by
  have hmstop := csr0Merge_command oreg v 2 (by decide)
  have hmstrt := csr0Merge_command oreg v 1 (by decide)
  have hminit := csr0Merge_command oreg v 0 (by decide)
  have hstart := (startEngines_csr0 (d.setCsr 0 (csr0Merge oreg v))).2 0 (by decide) (by decide)
    (by decide)
  rw [tst_or_right] at hidle
  simp only [CSR0.tst_bits] at hstop hstrt hidle hv ⊢
  rw [Daemon.csr0_setCsr0, hminit] at hstart
  rw [hv, Bool.or_true] at hmstrt
  unfold csr0Command
  rw [if_neg, if_pos]
  · simp only [CSR0.tst_bits, hstart]
    cases hi : oreg.getLsbD 0 <;> simp
  · simp only [Daemon.csr0_setCsr0, CSR0.tst_bits, tst_or_right, hmstrt, hstrt, hidle]
    decide
  · simp only [Daemon.csr0_setCsr0, CSR0.tst_bits, hmstop]
    rintro ⟨hm, ho⟩
    cases hvs : v.getLsbD 2 with
    | false =>
        rw [hvs, Bool.or_false] at hm
        exact ho hm
    | true => exact ho (hstop hvs)

/-- INIT written to a stopped chip, without STRT. -/
theorem csr0Command_init (hs : tst oreg CSR0.STOP = true) (hstrt : tst oreg CSR0.STRT = false)
    (hinit : tst oreg CSR0.INIT = false) (hv : tst v CSR0.INIT = true)
    (hvs : tst v CSR0.STRT = false) :
    csr0Command oreg (d.setCsr 0 (csr0Merge oreg v)) = (do
      let d ← chipInit (d.setCsr 0 (csr0Merge oreg v))
      let d := (d.csr0Set CSR0.IDON).csr0Clr (CSR0.RXON ||| CSR0.TXON ||| CSR0.STOP)
      pure ({ d with amInitialized := true }.setCsr 3 0)) := by
  have hmstrt := csr0Merge_command oreg v 1 (by decide)
  have hminit := csr0Merge_command oreg v 0 (by decide)
  simp only [CSR0.tst_bits] at hs hstrt hinit hv hvs
  rw [hv, Bool.or_true] at hminit
  rw [hstrt, hvs, Bool.or_false] at hmstrt
  unfold csr0Command
  simp only [Daemon.csr0_setCsr0, CSR0.tst_bits, hmstrt, hminit, hs, hinit]
  rw [if_neg (by simp), if_neg (by simp), if_pos (by simp)]

end Command

/-- Both ways of loading the init block leave STOP clear. -/
theorem stop_startInit {d d' : Daemon} (h : InitEffect (startEngines d) d') :
    ({ d'.csr0Set CSR0.IDON with amInitialized := true } : Daemon).csr0.getLsbD 2 = false := by
  have hcsr0 : (d'.csr0Set CSR0.IDON).csr0 = _ := Daemon.csr0_csr0Set d' CSR0.IDON
  refine (congrArg (·.getLsbD 2) hcsr0).trans ?_
  simp only [h.csr0, CSR0.masks, getLsbD_or_twoPow, (startEngines_csr0 d).1]
  decide

theorem stop_init (d : Daemon) :
    ({ (d.csr0Set CSR0.IDON).csr0Clr (CSR0.RXON ||| CSR0.TXON ||| CSR0.STOP) with
      amInitialized := true }.setCsr 3 0).csr0.getLsbD 2 = false := by
  have hcsr0 : ((d.csr0Set CSR0.IDON).csr0Clr
      (CSR0.RXON ||| CSR0.TXON ||| CSR0.STOP)).csr0 = _ := Daemon.csr0_csr0Clr _ _
  rw [Daemon.csr0_setCsr_ne _ (by decide)]
  refine (congrArg (·.getLsbD 2) hcsr0).trans ?_
  simp only [BitVec.getLsbD_and, show (~~~ (CSR0.RXON ||| CSR0.TXON ||| CSR0.STOP)).getLsbD 2
    = false by decide, Bool.and_false]

/-- Whatever is written with STRT or INIT, a stopped chip leaves STOP. -/
theorem csr0Command_leaves_stop {oreg v : U16} (hq : Quiet oreg) (hs : tst oreg CSR0.STOP = true)
    (hv : tst v (CSR0.STRT ||| CSR0.INIT) = true) (d : Daemon) :
    (csr0Command oreg (d.setCsr 0 (csr0Merge oreg v))).Always fun d' =>
      d'.csr0.getLsbD 2 = false := by
  have hquiet := hq (by simpa only [CSR0.tst_bits] using hs)
  have hinit : tst oreg CSR0.INIT = false := by simpa only [CSR0.tst_bits] using hquiet.1
  have hstrt : tst oreg CSR0.STRT = false := by simpa only [CSR0.tst_bits] using hquiet.2
  rw [tst_or_right, Bool.or_eq_true] at hv
  by_cases hvs : tst v CSR0.STRT = true
  · rw [csr0Command_strt d (fun _ => hs) hstrt (by rw [tst_or_right, hs, Bool.true_or]) hvs]
    split
    · exact .bind (chipInit_effect _) fun d' hd => .pure (stop_startInit hd)
    · exact .pure (startEngines_csr0 _).1
  · rw [csr0Command_init d hs hstrt hinit (hv.resolve_left hvs) (by simpa using hvs)]
    exact .bind_any fun d' => .pure (stop_init d')

theorem csr0Command_quiet {oreg : U16} (hq : Quiet oreg) (v : U16) (d : Daemon) :
    (csr0Command oreg (d.setCsr 0 (csr0Merge oreg v))).Always fun d' => Quiet d'.csr0 := by
  cases hs : tst oreg CSR0.STOP with
  | true =>
      cases hv : tst v (CSR0.STRT ||| CSR0.INIT) with
      | true => exact (csr0Command_leaves_stop hq hs hv d).mono fun d' h => .of_running h
      | false =>
          rw [csr0Command_stopped hs hv]
          rw [tst_or_right, Bool.or_eq_false_iff] at hv
          simp only [CSR0.tst_bits] at hs hv
          have hquiet := hq hs
          refine .pure fun _ => ?_
          rw [Daemon.csr0_setCsr0, csr0Merge_command _ _ 0 (by decide),
            csr0Merge_command _ _ 1 (by decide), hquiet.1, hquiet.2, hv.1, hv.2]
          exact ⟨rfl, rfl⟩
  | false =>
      cases hv : tst v CSR0.STOP with
      | true =>
          rw [csr0Command_stop d hs hv]
          refine .pure ?_
          rw [Daemon.csr0_setCsr_ne _ (by decide), Daemon.csr0_setCsr0]
          exact fun _ => by decide
      | false =>
          -- STOP is clear and nothing sets it
          refine (csr0Command_step oreg _).mono fun d' h => .of_running ?_
          have hmid := csr0Merge_command oreg v 2 (by decide)
          simp only [CSR0.tst_bits] at hs hv
          rw [hs, hv] at hmid
          have hc₀ := Daemon.csr0_setCsr0 d (csr0Merge oreg v)
          cases h with
          | stop h ho =>
              simp only [CSR0.tst_bits, hc₀, hmid] at h
              cases h
          | start h => exact (startEngines_csr0 _).1
          | startInit hi => exact stop_startInit hi
          | init hi => exact stop_init _
          | keep h hi =>
              rw [hc₀, hmid]
              rfl

/-- A demand moves STOP in one direction only, and leaves INIT and STRT. -/
theorem DemandStep.commands {d d' : Daemon} (h : DemandStep d d') :
    d'.csr0.getLsbD 2 = false ∨ ∀ i < 3, d'.csr0.getLsbD i = d.csr0.getLsbD i := by
  have hdrop : ∀ (c : U16) (i : Nat), i < 3 →
      (c &&& ~~~ CSR0.TDMD).getLsbD i = c.getLsbD i := by
    intro c i hi
    simp only [CSR0.masks, getLsbD_and_not_twoPow, show i ≠ 3 by omega, decide_false,
      Bool.not_false, Bool.and_true]
  cases h with
  | none => exact .inr fun _ _ => rfl
  | ignored =>
      refine .inr fun i hi => ?_
      rw [Daemon.csr0_csr0Clr, hdrop _ i hi]
  | @sent n d₁ ht =>
      rw [Daemon.csr0_csr0Clr]
      by_cases hon : tst d.csr0 CSR0.TXON = true
      · rw [if_pos hon] at ht
        refine .inr fun i hi => ?_
        rw [hdrop _ i hi, ht.csr0.getLsbD (by omega)]
      · rw [if_neg hon] at ht
        refine .inl ?_
        rw [hdrop _ 2 (by decide), ht.csr0.getLsbD (by decide), (startEngines_csr0 d).1]

theorem DemandStep.quiet {d d' : Daemon} (h : DemandStep d d') (hq : Quiet d.csr0) :
    Quiet d'.csr0 := by
  rcases h.commands with hstop | hbit
  · exact .of_running hstop
  · exact hq.congr hbit

theorem quiet_rethinkCsr0 {c : U16} (h : Quiet c) : Quiet (rethinkCsr0 c) :=
  h.congr fun i hi => by rw [rethinkCsr0_getLsbD, if_neg (by omega)]

theorem wputCsr0_quiet (W : Wiring) (v : U16) {d : Daemon} (h : Quiet d.csr0) :
    (wputCsr0 W.onInterrupt W.onTransmit v d).Always fun d' => Quiet d'.csr0 := by
  refine .bind (csr0Command_quiet h v d) fun d₁ h₁ => ?_
  refine .bind (csr0Demand_step W d₁) fun d₂ h₂ => (rethink_always _ d₂).mono ?_
  rintro d' rfl
  rw [Daemon.csr0_setCsr0]
  exact quiet_rethinkCsr0 (h₂.quiet h₁)

theorem op_quiet (W : Wiring) (o : Op) (d : Daemon) (h : Quiet d.csr0) :
    (o.prog W d).Always fun d' => Quiet d'.csr0 := by
  cases o with
  | wput regOffset v =>
      rw [Op.prog]
      unfold chipWput
      split
      · exact .pure h
      split
      · exact .pure h
      split
      · exact wputCsr0_quiet W v h
      · refine .pure ?_
        rw [csr0_wputOther]
        exact h
  | transmit =>
      exact .bind (doTransmit_effect _ d) fun r hr => .pure
        (h.congr fun i hi => hr.csr0.getLsbD (by omega))
  | recv databuf len =>
      refine .bind (gotfunc_effect _ _ _ d) fun r hr => .pure (h.congr fun i hi => ?_)
      rw [hr.csr0, r.1.csr0_getLsbD _ (by omega)]

/-- What holds of the registers in every state a run reaches. -/
structure Reached (d : Daemon) : Prop where
  csr0 : Csr0Inv d.csr0
  bounds : RegBounds d
  quiet : Quiet d.csr0

theorem reached_runMoves (W : Wiring) (fakemac macFakemac macRealmac : Mac) (w : World)
    (moves : List Move) :
    Reached (runMoves W moves (registersReset (.bootWith fakemac macFakemac macRealmac), w)).1 where
  csr0 := (runMoves_inv W (op_invariant W) moves _ (reset_invariant _ _ _)).1
  bounds := (runMoves_inv W (op_invariant W) moves _ (reset_invariant _ _ _)).2
  quiet := by
    have hreset : Quiet CSR0.STOP := fun _ => by decide
    exact @runMoves_inv W (fun d => Quiet d.csr0) (op_quiet W) moves _ hreset

/-! ## STOP in the value written -/

/-- What the data sheet says of a value with STOP: the chip ends up stopped
and idle, whatever else the value holds. `do_transmit` is not called, so it
does not matter which callback is registered; `chip_init` does not run, so
nothing is loaded from boardram. -/
structure StopOverrides (W : Wiring) (v : U16) (d : Daemon) : Prop where
  noTransmit : ∀ onTransmit, chipWput W.onInterrupt onTransmit A2065_RDP_OFF v d =
    chipWput W.onInterrupt W.onTransmit A2065_RDP_OFF v d
  noLoad : (chipWput W.onInterrupt W.onTransmit A2065_RDP_OFF v d).Only Eff.IsSignal
  stopped : (chipWput W.onInterrupt W.onTransmit A2065_RDP_OFF v d).Always fun d' =>
    tst d'.csr0 CSR0.STOP = true ∧ tst d'.csr0 CSR0.TXON = false ∧
      tst d'.csr0 CSR0.RXON = false ∧ tst d'.csr0 CSR0.INIT = false ∧
      tst d'.csr0 CSR0.STRT = false ∧ tst d'.csr0 CSR0.CAUSES = false

theorem chipWput_csr0 (cb : Callback) (onTransmit : Daemon → DProg Daemon) (v : U16) {d : Daemon}
    (hrap : d.rap = 0) :
    chipWput cb onTransmit A2065_RDP_OFF v d = wputCsr0 cb onTransmit v d := by
  rw [chipWput, if_neg (by decide), if_neg (by simp [hrap, RAP_SIZE]), if_pos hrap]

/-- A running chip that is told to stop does nothing else. -/
theorem wputCsr0_stop (cb : Callback) (onTransmit : Daemon → DProg Daemon) {v : U16} {d : Daemon}
    (ho : tst d.csr0 CSR0.STOP = false) (hv : tst v CSR0.STOP = true) :
    wputCsr0 cb onTransmit v d = rethink cb
      (((d.setCsr 0 (csr0Merge d.csr0 v)).setCsr 0 CSR0.STOP).setCsr 3 0) := by
  unfold wputCsr0
  simp only [csr0Command_stop d ho hv, pure_bind]
  unfold csr0Demand
  rw [if_neg, pure_bind]
  rw [Daemon.csr0_setCsr_ne _ (by decide), Daemon.csr0_setCsr0]
  decide

/-- A write that ends in `rethink` with STOP set, whatever callback is
registered, leaves what `StopOverrides` asks for. -/
theorem Reached.stopOverrides (W : Wiring) {v : U16} {d d₁ : Daemon} (h : Reached d)
    (hrap : d.rap = 0) (hstop : d₁.csr0.getLsbD 2 = true)
    (heq : ∀ onTransmit, wputCsr0 W.onInterrupt onTransmit v d = rethink W.onInterrupt d₁) :
    StopOverrides W v d := by
  have hcsr0 := chipWput_csr0 W.onInterrupt W.onTransmit v hrap
  refine ⟨fun onTransmit => ?_, ?_, ?_⟩
  · rw [hcsr0, chipWput_csr0 _ _ _ hrap, heq, heq]
  · rw [hcsr0, heq]
    exact rethink_signals _ _
  · intro tr d' hrun
    have hcsr := (chipWput_invariant W A2065_RDP_OFF v d ⟨h.csr0, h.bounds⟩ tr d' hrun).1
    have hquiet := wputCsr0_quiet W v h.quiet tr d' (hcsr0 ▸ hrun)
    rw [hcsr0, heq] at hrun
    have hd' := rethink_always _ _ tr d' hrun
    have hs : d'.csr0.getLsbD 2 = true := by
      rw [hd', Daemon.csr0_setCsr0, rethinkCsr0_getLsbD, if_neg (by decide), hstop]
    obtain ⟨htxon, hrxon, hcauses⟩ := hcsr.stop hs
    obtain ⟨hinit, hstrt⟩ := hquiet hs
    simp only [CSR0.tst_bits, tst_CAUSES]
    exact ⟨hs, htxon, hrxon, hinit, hstrt, hcauses⟩

/-- STRT or INIT in the value starts a stopped chip. -/
theorem wputCsr0_leaves_stop (W : Wiring) {v : U16} {d : Daemon} (hq : Quiet d.csr0)
    (hs : tst d.csr0 CSR0.STOP = true) (hv : tst v (CSR0.STRT ||| CSR0.INIT) = true) :
    (wputCsr0 W.onInterrupt W.onTransmit v d).Always fun d' => tst d'.csr0 CSR0.STOP = false := by
  refine .bind (csr0Command_leaves_stop hq hs hv d) fun d₁ h₁ => ?_
  refine .bind (csr0Demand_step W d₁) fun d₂ h₂ => (rethink_always _ d₂).mono ?_
  rintro d' rfl
  simp only [CSR0.tst_bits]
  rw [Daemon.csr0_setCsr0, rethinkCsr0_getLsbD, if_neg (by decide)]
  rcases h₂.commands with hstop | hbit
  · exact hstop
  · rw [hbit 2 (by decide), h₁]

/-- In every state a run reaches: a value with STOP written to CSR0 overrides
its other bits exactly when the chip was running, or the value has neither
STRT nor INIT, and TDMD only if the chip was never initialised. -/
theorem stop_overrides_iff (W : Wiring) (fakemac macFakemac macRealmac : Mac) (w : World)
    (moves : List Move) (d : Daemon) (v : U16)
    (hrun : d = (runMoves W moves
      (registersReset (.bootWith fakemac macFakemac macRealmac), w)).1)
    (hrap : d.rap = 0) (hv : tst v CSR0.STOP = true) :
    StopOverrides W v d ↔ (tst d.csr0 CSR0.STOP = false ∨
      tst v (CSR0.STRT ||| CSR0.INIT) = false ∧
        (d.amInitialized = false ∨ tst v CSR0.TDMD = false)) := by
  have hreached : Reached d := hrun ▸ reached_runMoves W fakemac macFakemac macRealmac w moves
  cases hs : tst d.csr0 CSR0.STOP with
  | false =>
      refine iff_of_true ?_ (.inl rfl)
      refine hreached.stopOverrides W hrap ?_ fun onTransmit => wputCsr0_stop _ onTransmit hs hv
      rw [Daemon.csr0_setCsr_ne _ (by decide), Daemon.csr0_setCsr0]
      decide
  | true =>
      simp only [Bool.true_eq_false, false_or]
      constructor
      · intro h
        have hstopped := h.stopped
        rw [chipWput_csr0 _ _ _ hrap] at hstopped
        -- in the other cases STOP is clear at the end, of this run like of any other
        have hcontra : ¬ (wputCsr0 W.onInterrupt W.onTransmit v d).Always fun d' =>
            tst d'.csr0 CSR0.STOP = false := by
          intro hclear
          have hset := (always_exec hstopped w).1
          rw [always_exec hclear w] at hset
          cases hset
        have hstart : tst v (CSR0.STRT ||| CSR0.INIT) = false := by
          cases hne : tst v (CSR0.STRT ||| CSR0.INIT) with
          | false => rfl
          | true => exact absurd (wputCsr0_leaves_stop W hreached.quiet hs hne) hcontra
        refine ⟨hstart, ?_⟩
        by_contra hne
        push Not at hne
        exact hcontra (wputCsr0_demand W hreached.csr0 hs hstart (by simpa using hne.1)
          (by simpa using hne.2))
      · rintro ⟨hstart, hquiet⟩
        obtain ⟨c, hc, heq⟩ := wputCsr0_stopped W.onInterrupt hreached.csr0 hs hstart hquiet
        refine hreached.stopOverrides W hrap ?_ heq
        rw [Daemon.csr0_setCsr0, hc]

/-- From reset, STOP with everything else written to a chip that has been
started stops it. -/
theorem stop_overrides_running : StopOverrides .null 0xFFFF (runMoves .null
    [writeRdp (CSR0.INIT ||| CSR0.STRT)]
    (registersReset (.bootWith BROADCAST_MAC BROADCAST_MAC BROADCAST_MAC), .blank)).1 :=
  (stop_overrides_iff .null BROADCAST_MAC BROADCAST_MAC BROADCAST_MAC .blank
    [writeRdp (CSR0.INIT ||| CSR0.STRT)] _ 0xFFFF rfl (by decide +kernel) (by decide)).mpr
    (.inl (by decide +kernel))

/-- STOP and STRT written together right after reset start the chip. -/
theorem stop_overridden : ¬ ∀ (W : Wiring) (fakemac macFakemac macRealmac : Mac) (w : World)
    (moves : List Move) (d : Daemon) (v : U16),
    d = (runMoves W moves (registersReset (.bootWith fakemac macFakemac macRealmac), w)).1 →
    d.rap = 0 → tst v CSR0.STOP = true → StopOverrides W v d := by
  intro hall
  have h := hall .null BROADCAST_MAC BROADCAST_MAC BROADCAST_MAC .blank [] _
    (CSR0.STOP ||| CSR0.STRT) rfl rfl (by decide)
  exact absurd (always_exec h.stopped .blank).1 (by decide +kernel)

end A2065
