import A2065.CsrInvariant
import A2065.Gather
import A2065.Publication

/-!
# Acknowledged register writes

The main loop empties the command slot before it publishes the registers. In
between a register read is answered from the old contents of the CSR slot,
unless the write did not change CSR0 to CSR3 or ended in an interrupt:
`on_interrupt_cb` publishes inside the locked section.
-/

namespace A2065

open Bits

/-- The receive thread makes a step. -/
def Act.isRx : Act → Bool
  | .rx _ _ => true
  | .main | .post _ | .host _ _ => false

/-- The slot of the command taken last is empty again. -/
def MainPc.drained : MainPc → Bool
  | .poll | .publish _ => true
  | .taken _ | .drain => false

/-! ## Writes that are visible in time -/

/-- The CSR0 write ends in an interrupt: INEA is written, the chip is not
stopped by it, and a cause is left over, or an initialization happens, or the
write demands a transmit and a frame is ready. -/
def Announced (v : U16) (d : Daemon) (m : BitVec 15 → U8) : Prop :=
  tst v CSR0.INEA = true ∧
  (tst v CSR0.STOP = true → tst d.csr0 CSR0.STOP = true) ∧
  (tst (d.csr0 &&& ~~~ v) CSR0.CAUSES = true ∨
    (tst v CSR0.INIT = true ∧ tst d.csr0 CSR0.STOP = true ∧ tst d.csr0 CSR0.INIT = false) ∨
    (tst v CSR0.TDMD = true ∧ d.amInitialized = true ∧
      (tst d.csr0 CSR0.TXON = true ∨ tst d.amMode MODE.DTX = false) ∧
      ringAccepted d.amTdrTdra d.amTdrTlen = true ∧
      ∃ i < d.amTdrTlen.toNat, readyAt m d.amTdrTdra i = true))

/-- The CSR0 write changes nothing: no demand that is served, INEA as it is,
no new command bit, and nothing to acknowledge. -/
def Unchanging (v : U16) (d : Daemon) : Prop :=
  (tst v CSR0.TDMD = true → d.amInitialized = false) ∧
  tst v CSR0.INEA = tst d.csr0 CSR0.INEA ∧
  tst (v &&& ~~~ d.csr0) (CSR0.INIT ||| CSR0.STRT ||| CSR0.STOP) = false ∧
  tst (d.csr0 &&& v) CSR0.ACKS = false

/-- The write of `v` to register `rap` is in the CSR slot when it ends. -/
def Timely (rap : Nat) (v : U16) (d : Daemon) (m : BitVec 15 → U8) : Prop :=
  match rap with
  | 0 => Announced v d m ∨ Unchanging v d
  | 1 => tst d.csr0 CSR0.STOP = true → v &&& ~~~ 1 = d.csr 1
  | 2 => tst d.csr0 CSR0.STOP = true → v &&& 0x00ff = d.csr 2
  | 3 => tst d.csr0 CSR0.STOP = true → v &&& 7 = d.csr 3
  | _ => True

/-! ## CSR0 writes that change nothing -/

theorem Daemon.setCsr_csr0 (d : Daemon) : d.setCsr 0 d.csr0 = d := by
  rw [setCsr, csr0, Function.update_eq_self]

theorem Csr0Inv.rethinkCsr0_eq {c : U16} (h : Csr0Inv c) : rethinkCsr0 c = c := by
  apply BitVec.eq_of_getLsbD_eq
  intro i _
  rw [rethinkCsr0_getLsbD]
  split
  · rename_i hi
    rw [hi, h.intr]
  · rfl

/-- No acknowledged bit is set. -/
theorem getLsbD_of_not_acks {c : U16} (h : tst c CSR0.ACKS = false) {i : Nat} (hi : 8 ≤ i)
    (hi' : i < 15) : c.getLsbD i = false := by
  have hacks : ∀ i < 15, 8 ≤ i → CSR0.ACKS.getLsbD i = true := by decide
  by_contra hc
  rw [Bool.eq_false_iff] at h
  exact h (tst_iff.mpr ⟨i, by simpa using hc, hacks i hi' hi⟩)

/-- Merged and with TDMD dropped, CSR0 is what it was. -/
theorem Unchanging.csr0Merge_eq {v : U16} {d : Daemon} (h : Unchanging v d)
    (hc : Csr0Inv d.csr0) : csr0Merge d.csr0 v &&& ~~~ CSR0.TDMD = d.csr0 := by
  obtain ⟨-, hinea, hcommand, hacks⟩ := h
  simp only [tst_or_right, CSR0.tst_bits, BitVec.getLsbD_and, BitVec.getLsbD_not,
    Bool.or_eq_false_iff] at hinea hcommand
  apply BitVec.eq_of_getLsbD_eq
  intro i hi
  rw [BitVec.getLsbD_and, csr0Merge_getLsbD _ _ hi]
  by_cases h4 : i < 4
  · -- a command bit, and not a new one
    have htdmd := hc.tdmd
    simp only [CSR0.masks, BitVec.getLsbD_not, BitVec.getLsbD_twoPow]
    interval_cases i <;> simp_all
  have hkeep : (~~~ CSR0.TDMD).getLsbD i = true := by
    have hne : i ≠ 3 := by omega
    simp [CSR0.masks, hi, hne]
  rw [hkeep, Bool.and_true, if_neg h4]
  by_cases h8 : i < 8
  · rw [if_pos h8]
    by_cases h6 : i = 6
    · rw [if_pos h6, h6, hinea]
    · rw [if_neg h6]
  · rw [if_neg h8]
    by_cases h15 : i = 15
    · rw [if_pos h15, h15, hc.err]
    · have hack := getLsbD_of_not_acks hacks (Nat.le_of_not_lt h8) (by omega)
      rw [BitVec.getLsbD_and] at hack
      rw [if_neg h15]
      revert hack
      cases d.csr0.getLsbD i <;> cases v.getLsbD i <;> decide

theorem Unchanging.csr0Merge_getLsbD {v : U16} {d : Daemon} (h : Unchanging v d)
    (hc : Csr0Inv d.csr0) {i : Nat} (hi : i ≠ 3) :
    (csr0Merge d.csr0 v).getLsbD i = d.csr0.getLsbD i := by
  conv_rhs => rw [← h.csr0Merge_eq hc]
  simp only [CSR0.masks, getLsbD_and_not_twoPow, hi, decide_false, Bool.not_false, Bool.and_true]

/-- No command bit is new, so no command is taken. -/
theorem Unchanging.csr0Command_eq {v : U16} {d : Daemon} (h : Unchanging v d)
    (hc : Csr0Inv d.csr0) :
    csr0Command d.csr0 (d.setCsr 0 (csr0Merge d.csr0 v)) =
      pure (d.setCsr 0 (csr0Merge d.csr0 v)) := by
  have hbit := fun i (hi : i ≠ 3) => h.csr0Merge_getLsbD hc hi
  unfold csr0Command
  simp only [Daemon.csr0_setCsr0, CSR0.tst_bits, hbit 0 (by decide), hbit 1 (by decide),
    hbit 2 (by decide)]
  rw [if_neg (by simp), if_neg (by simp +contextual), if_neg (by simp +contextual)]

theorem Unchanging.wputCsr0_eq (W : Wiring) {v : U16} {d : Daemon} (h : Unchanging v d)
    (hc : Csr0Inv d.csr0) :
    wputCsr0 W.onInterrupt W.onTransmit v d = rethink W.onInterrupt d := by
  have hmerge := h.csr0Merge_eq hc
  have htdmd := csr0Merge_command d.csr0 v 3 (by decide)
  rw [hc.tdmd, Bool.false_or] at htdmd
  have hdrop : (d.setCsr 0 (csr0Merge d.csr0 v)).csr0Clr CSR0.TDMD = d := by
    rw [Daemon.csr0Clr, Daemon.csr0_setCsr0, hmerge, Daemon.setCsr_setCsr, Daemon.setCsr_csr0]
  unfold wputCsr0
  simp only [h.csr0Command_eq hc, pure_bind]
  unfold csr0Demand
  simp only [Daemon.csr0_setCsr0, CSR0.tst_bits, htdmd]
  split
  · rename_i hv
    have hni : (d.setCsr 0 (csr0Merge d.csr0 v)).amInitialized = false :=
      h.1 (by simpa only [CSR0.tst_bits] using hv)
    rw [if_neg (by simp [hni])]
    simp only [pure_bind, hdrop]
  · rename_i hv
    -- TDMD was not written, so dropping it changes nothing
    have hsame : csr0Merge d.csr0 v = d.csr0 := by
      apply BitVec.eq_of_getLsbD_eq
      intro i _
      by_cases hi : i = 3
      · rw [hi, htdmd, hc.tdmd]
        simpa using hv
      · exact h.csr0Merge_getLsbD hc hi
    rw [hsame, Daemon.setCsr_csr0]
    rfl

/-! ## CSR0 writes that end in an interrupt -/

theorem TxCsr0.idle_or_causes {c c' : U16} {n : Nat} (h : TxCsr0 c n c') :
    n = 0 ∧ c' = c ∨ causes c' = true := by
  rcases h.idle_or_tint with hidle | ⟨-, b, rfl⟩
  · exact .inl hidle
  · exact .inr (by simp [causes, rethinkCsr0_getLsbD, CSR0.masks])

theorem csr0Merge_announce (o v : U16) : (csr0Merge o v).getLsbD 6 = v.getLsbD 6 ∧
    causes (csr0Merge o v) = causes (o &&& ~~~ v) := by
  have hbit := fun i hi => csr0Merge_getLsbD o v (i := i) hi
  refine ⟨hbit 6 (by decide), ?_⟩
  simp (disch := decide) only [causes, hbit, BitVec.getLsbD_and]
  simp

/-- What a command leaves for the rest of the write: INEA as written, no cause
lost, IDON after an initialization, and otherwise an unchanged
configuration. -/
structure CommandLeaves (v : U16) (d d₁ : Daemon) : Prop where
  inea : d₁.csr0.getLsbD 6 = v.getLsbD 6
  causes : causes (d.csr0 &&& ~~~ v) = true → causes d₁.csr0 = true
  init : v.getLsbD 0 = true → d.csr0.getLsbD 2 = true → d.csr0.getLsbD 0 = false →
    A2065.causes d₁.csr0 = true
  config : A2065.causes d₁.csr0 = true ∨ RingFrame d d₁ ∧
    (v.getLsbD 3 = true → d₁.csr0.getLsbD 3 = true) ∧
    (d.csr0.getLsbD 4 = true → d₁.csr0.getLsbD 4 = true)

/-- An initialization raises IDON and leaves INEA alone. -/
theorem CommandLeaves.of_idon {v c : U16} {d d₁ : Daemon} (hcsr : d₁.csr0 = c)
    (hinea : c.getLsbD 6 = v.getLsbD 6) (hidon : c.getLsbD 8 = true) : CommandLeaves v d d₁ := by
  subst hcsr
  have hc : A2065.causes d₁.csr0 = true := by simp only [A2065.causes, hidon, Bool.or_true]
  exact ⟨hinea, fun _ => hc, fun _ _ _ => hc, .inl hc⟩

theorem CommandStep.leaves {v : U16} {d d₁ : Daemon}
    (hs : CommandStep d.csr0 (d.setCsr 0 (csr0Merge d.csr0 v)) d₁)
    (hrun : tst v CSR0.STOP = true → tst d.csr0 CSR0.STOP = true) : CommandLeaves v d d₁ := by
  obtain ⟨hinea, hcauses⟩ := csr0Merge_announce d.csr0 v
  obtain ⟨-, htxon, -, -⟩ := csr0Merge_status d.csr0 v
  have hinit := csr0Merge_command d.csr0 v 0 (by decide)
  have hstop := csr0Merge_command d.csr0 v 2 (by decide)
  have htdmd := csr0Merge_command d.csr0 v 3 (by decide)
  have hc₀ : (d.setCsr 0 (csr0Merge d.csr0 v)).csr0 = csr0Merge d.csr0 v :=
    Daemon.csr0_setCsr0 _ _
  have hf : RingFrame d (d.setCsr 0 (csr0Merge d.csr0 v)) := (RingFrame.refl d).setCsr0 _
  generalize d.setCsr 0 (csr0Merge d.csr0 v) = d₀ at hs hc₀ hf
  obtain ⟨-, hstart⟩ := startEngines_csr0 d₀
  simp only [CSR0.tst_bits] at hrun
  cases hs with
  | stop h ho =>
      simp only [CSR0.tst_bits, hc₀, hstop] at h ho
      rw [ho, Bool.false_or] at h
      rw [hrun h] at ho
      cases ho
  | start h =>
      simp only [CSR0.tst_bits, hc₀, hinit] at h
      have hsame : causes (startEngines d₀).csr0 = causes (d.csr0 &&& ~~~ v) := by
        simp (disch := decide) only [causes, hstart]
        rw [← causes, hc₀, hcauses, causes]
      refine ⟨?_, ?_, ?_, .inr ⟨hf.trans (startEngines_frame _), ?_, ?_⟩⟩
      · rw [hstart 6 (by decide) (by decide) (by decide), hc₀, hinea]
      · rw [hsame]
        exact id
      · intro hv _ ho
        rw [hv, Bool.or_true] at h
        rw [h rfl] at ho
        cases ho
      · intro hv
        rw [hstart 3 (by decide) (by decide) (by decide), hc₀, htdmd, hv, Bool.or_true]
      · intro ho
        rw [startEngines_txon, hc₀, htxon, ho, Bool.true_or]
  | @startInit d' hi =>
      refine .of_idon (Daemon.csr0_csr0Set d' CSR0.IDON) ?_ ?_
      · rw [hi.csr0, CSR0.masks.2.2.2.2.2.2.2.1, getLsbD_or_twoPow,
          hstart 6 (by decide) (by decide) (by decide), hc₀, hinea]
        simp
      · simp [CSR0.masks]
  | @init d' hi =>
      refine .of_idon ((Daemon.csr0_setCsr_ne _ (by decide) _).trans
        (Daemon.csr0_csr0Clr (d'.csr0Set CSR0.IDON) _)) ?_ ?_
      · rw [Daemon.csr0_csr0Set, hi.csr0, hc₀]
        simp only [CSR0.masks, BitVec.getLsbD_and, BitVec.getLsbD_or, BitVec.getLsbD_not,
          BitVec.getLsbD_twoPow, hinea]
        simp
      · simp [CSR0.masks]
  | keep h hi =>
      simp only [CSR0.tst_bits, hc₀, hinit] at hi
      refine ⟨by rw [hc₀, hinea], by rw [hc₀, hcauses]; exact id, ?_, .inr ⟨hf, ?_, ?_⟩⟩
      · intro hv hs ho
        rw [hv, Bool.or_true] at hi
        rw [hi rfl hs] at ho
        cases ho
      · intro hv
        rw [hc₀, htdmd, hv, Bool.or_true]
      · intro ho
        rw [hc₀, htxon, ho]

/-- A demand keeps INEA and loses no cause. -/
theorem DemandStep.announce {d d' : Daemon} (h : DemandStep d d') :
    d'.csr0.getLsbD 6 = d.csr0.getLsbD 6 ∧
      (causes d.csr0 = true → causes d'.csr0 = true) := by
  have hdrop : ∀ c : U16, (c &&& ~~~ CSR0.TDMD).getLsbD 6 = c.getLsbD 6 ∧
      causes (c &&& ~~~ CSR0.TDMD) = causes c := by
    intro c
    simp [causes, CSR0.masks]
  cases h with
  | none => exact ⟨rfl, id⟩
  | ignored =>
      rw [Daemon.csr0_csr0Clr, (hdrop _).1, (hdrop _).2]
      exact ⟨rfl, id⟩
  | @sent n d₁ ht =>
      have hstart : (if tst d.csr0 CSR0.TXON then d else startEngines d).csr0.getLsbD 6 =
          d.csr0.getLsbD 6 ∧
          causes (if tst d.csr0 CSR0.TXON then d else startEngines d).csr0 = causes d.csr0 := by
        split
        · exact ⟨rfl, rfl⟩
        · have hbit := (startEngines_csr0 d).2
          simp (disch := decide) only [causes, hbit, and_self]
      rw [Daemon.csr0_csr0Clr, (hdrop _).1, (hdrop _).2, ht.csr0.getLsbD (by decide), hstart.1]
      refine ⟨rfl, fun hc => ?_⟩
      rcases ht.csr0.idle_or_causes with ⟨-, hsame⟩ | hcauses
      · rw [hsame, hstart.2, hc]
      · exact hcauses

/-- A demand with a ready descriptor raises TINT. -/
theorem csr0Demand_ready (W : Wiring) {d : Daemon} {w : World}
    (hd : tst d.csr0 CSR0.TDMD = true) (hi : d.amInitialized = true)
    (hon : d.csr0.getLsbD 4 = true ∨ tst d.amMode MODE.DTX = false)
    (hring : ringAccepted d.amTdrTdra d.amTdrTlen = true)
    (hready : ∃ i < d.amTdrTlen.toNat, readyAt w.ram.mem d.amTdrTdra i = true) :
    causes ((csr0Demand W.onTransmit d).exec w).1.csr0 = true := by
  unfold csr0Demand
  rw [if_pos hd, if_pos hi]
  set dT : Daemon := if tst d.csr0 CSR0.TXON then d else startEngines d with hdT
  have hT : RingFrame d dT ∧ tst dT.csr0 CSR0.TXON = true := by
    rw [hdT]
    split
    · rename_i h
      exact ⟨.refl d, h⟩
    · rename_i h
      simp only [CSR0.tst_bits] at h
      refine ⟨startEngines_frame d, ?_⟩
      rw [CSR0.masks.2.2.2.2.2.2.2.2.2.2.2.1, tst_twoPow, startEngines_txon,
        hon.resolve_left h]
      simp
  have hone : ((doTransmit W.onInterrupt dT).exec w).1.1 = 1 :=
    doTransmit_ready _ hT.2 (by rw [hT.1.amTdrTdra, hT.1.amTdrTlen]; exact hring)
      (by rw [hT.1.amTdrTdra, hT.1.amTdrTlen]; exact hready)
  have heffect := always_exec (doTransmit_effect W.onInterrupt dT) w
  simp only [Wiring.onTransmit, DProg.exec_bind, DProg.exec_pure, Daemon.csr0_csr0Clr]
  rcases heffect.csr0.idle_or_causes with ⟨hzero, -⟩ | hcauses
  · rw [hone] at hzero
    cases hzero
  · simpa [causes, CSR0.masks] using hcauses

/-- The command bits only load from boardram. -/
theorem csr0Command_exec (oreg : U16) (d : Daemon) (w : World) :
    ((csr0Command oreg d).exec w).2 = w := by
  unfold csr0Command
  split
  · rfl
  split
  · simp only
    split <;> rfl
  split <;> rfl

/-- A write that ends in an interrupt is published before the lock is given
up. -/
theorem Announced.published {v : U16} {d : Daemon} {w : World} (h : Announced v d w.ram.mem) :
    ((wputCsr0 doorbell.onInterrupt doorbell.onTransmit v d).exec w).2.slots DDR3_CSR_OFF =
      packCsr ((wputCsr0 doorbell.onInterrupt doorbell.onTransmit v d).exec w).1 := by
  obtain ⟨hinea, hrun, hcause⟩ := h
  have hstep := always_exec (csr0Command_step d.csr0 (d.setCsr 0 (csr0Merge d.csr0 v))) w
  have hworld := csr0Command_exec d.csr0 (d.setCsr 0 (csr0Merge d.csr0 v)) w
  unfold wputCsr0
  simp only [DProg.exec_bind, hworld]
  generalize ((csr0Command d.csr0 (d.setCsr 0 (csr0Merge d.csr0 v))).exec w).1 = d₁ at hstep ⊢
  have hleaves := hstep.leaves hrun
  have hdemand := (always_exec (csr0Demand_step doorbell d₁) w).announce
  have hcauses : causes ((csr0Demand doorbell.onTransmit d₁).exec w).1.csr0 = true := by
    simp only [CSR0.tst_bits, tst_CAUSES] at hcause
    rcases hcause with hleft | ⟨hv, hs, ho⟩ | ⟨hv, hi, hon, hring, hready⟩
    · exact hdemand.2 (hleaves.causes hleft)
    · exact hdemand.2 (hleaves.init hv hs ho)
    · rcases hleaves.config with hc | ⟨hf, htdmd, htxon⟩
      · exact hdemand.2 hc
      · refine csr0Demand_ready doorbell ?_ (hf.amInitialized.trans hi) ?_ ?_ ?_
        · simp only [CSR0.tst_bits]
          exact htdmd hv
        · rw [hf.amMode]
          exact hon.imp_left htxon
        · rw [hf.amTdrTdra, hf.amTdrTlen]
          exact hring
        · rw [hf.amTdrTdra, hf.amTdrTlen]
          exact hready
  generalize (csr0Demand doorbell.onTransmit d₁).exec w = r at hdemand hcauses ⊢
  have hpublish : tst (rethinkCsr0 r.1.csr0) CSR0.INTR = true ∧
      tst (rethinkCsr0 r.1.csr0) CSR0.INEA = true := by
    simp only [CSR0.tst_bits] at hinea ⊢
    refine ⟨?_, ?_⟩
    · rw [rethinkCsr0_intr, causes_rethinkCsr0, hcauses]
    · rw [rethinkCsr0_getLsbD, if_neg (by decide), hdemand.1, hleaves.inea, hinea]
  unfold rethink
  rw [if_pos (by rw [Daemon.csr0_setCsr0]; exact hpublish)]
  simp only [DProg.exec_bind, DProg.exec_pure]
  exact (slots_onInterruptCb _ _).1

/-! ## The other registers -/

theorem packCsr_congr {d d' : Daemon} (h : ∀ i < 4, d'.csr i = d.csr i) :
    packCsr d' = packCsr d := by
  rw [packCsr, packCsr, h 0 (by decide), h 1 (by decide), h 2 (by decide), h 3 (by decide)]

theorem packCsr_wputOther {v : U16} {d : Daemon} {m : BitVec 15 → U8}
    (ht : Timely d.rap.toNat v d m) : packCsr (wputOther v d) = packCsr d := by
  -- CSR1 to CSR3 can be written while STOP is set
  have hstop : ∀ (n : Nat) (x : U16), (tst d.csr0 CSR0.STOP = true → x = d.csr n) →
      packCsr (if tst d.csr0 CSR0.STOP then d.setCsr n x else d) = packCsr d := by
    intro n x hx
    split
    · rename_i hs
      rw [hx hs, Daemon.setCsr, Function.update_eq_self]
    · rfl
  unfold wputOther
  unfold Timely at ht
  split <;> try rfl
  case h_1 hr =>
    rw [hr] at ht
    exact hstop 1 _ ht
  case h_2 hr =>
    rw [hr] at ht
    exact hstop 2 _ ht
  case h_3 hr =>
    rw [hr] at ht
    exact hstop 3 _ ht
  case h_18 =>
    split
    · exact packCsr_congr fun i hi => Function.update_of_ne (by omega) _ _
    · rfl

/-! ## The main loop -/

/-- The first of the two register accesses selects the register. -/
theorem handleCommand_eq (cmd : U64) (d : Daemon) : handleCommand cmd d =
    chipWput doorbell.onInterrupt doorbell.onTransmit A2065_RDP_OFF (cmdData cmd)
      { d with rap := cmdRap cmd } := by
  have hrap : (((cmdRap cmd).setWidth 16 &&& 0x7f).setWidth 8 : U8) = cmdRap cmd := by
    apply BitVec.eq_of_getLsbD_eq
    intro i hi
    interval_cases i <;> simp [cmdRap]
  unfold handleCommand
  conv_lhs => rw [chipWput, if_pos rfl, hrap]
  rfl

/-- With INTR right already, `rethink` publishes what the slot holds or
nothing. -/
theorem rethink_slot {d : Daemon} {w : World} (hc : Csr0Inv d.csr0)
    (hslot : w.slots DDR3_CSR_OFF = packCsr d) :
    ((rethink onInterruptCb d).exec w).2.slots DDR3_CSR_OFF =
      packCsr ((rethink onInterruptCb d).exec w).1 := by
  unfold rethink
  simp only [hc.rethinkCsr0_eq, Daemon.setCsr_csr0]
  split
  · exact (slots_onInterruptCb d w).1
  · exact hslot

/-- A timely write leaves the CSR slot right if it was right. -/
theorem handleCommand_timely {cmd : U64} {d : Daemon} {w : World} (hc : Csr0Inv d.csr0)
    (ht : Timely (cmdRap cmd).toNat (cmdData cmd) d w.ram.mem)
    (hslot : w.slots DDR3_CSR_OFF = packCsr d) :
    ((handleCommand cmd d).exec w).2.slots DDR3_CSR_OFF =
      packCsr ((handleCommand cmd d).exec w).1 := by
  rw [handleCommand_eq, chipWput, if_neg (by decide)]
  split
  · exact hslot
  split
  · rename_i hrap
    have hzero : cmdRap cmd = 0 := hrap
    rw [hzero] at ht ⊢
    rcases ht with h | h
    · exact Announced.published (d := { d with rap := 0 }) h
    · rw [Unchanging.wputCsr0_eq doorbell (d := { d with rap := 0 }) h hc]
      exact rethink_slot (d := { d with rap := 0 }) hc hslot
  · exact hslot.trans (packCsr_wputOther (d := { d with rap := cmdRap cmd }) ht).symm

/-- The CSR slot is right, and so is a snapshot about to be stored. -/
structure Doorbell.Visible (s : Doorbell) : Prop where
  slot : s.w.slots DDR3_CSR_OFF = packCsr s.d
  snapshot : ∀ packed, s.main = .publish (.writeCsr packed) → packed = packCsr s.d
  csr : Csr0Inv s.d.csr0 ∧ RegBounds s.d

/-- If the step handles a command, the command is a timely one. -/
def Doorbell.HandlesTimely (s : Doorbell) (a : Act) : Prop :=
  match a, s.main with
  | .main, .taken cmd => Timely (cmdRap cmd).toNat (cmdData cmd) s.d s.w.ram.mem
  | _, _ => True

theorem visible_stepMain {s : Doorbell} (h : s.Visible) (ht : s.HandlesTimely .main) :
    s.stepMain.Visible := by
  unfold Doorbell.HandlesTimely at ht
  unfold Doorbell.stepMain
  split
  case h_1 hm =>
    simp only
    split
    · exact ⟨h.slot, by rintro packed ⟨⟩, h.csr⟩
    · exact h
  case h_2 cmd hm =>
    simp only [hm] at ht
    refine ⟨handleCommand_timely h.csr.1 ht h.slot, by rintro packed ⟨⟩, ?_⟩
    rw [handleCommand_eq]
    exact always_exec (chipWput_invariant doorbell _ _ { s.d with rap := cmdRap cmd }
      ⟨h.csr.1, h.csr.2.csr1, h.csr.2.csr2, h.csr.2.csr3, h.csr.2.rdra, h.csr.2.tdra⟩) s.w
  case h_3 hm =>
    refine ⟨?_, by rintro packed ⟨⟩, h.csr⟩
    rw [slots_wr64_ne _ (by decide)]
    exact h.slot
  case h_4 p hm =>
    cases p with
    | snapCsr => exact ⟨h.slot, by rintro packed ⟨⟩; rfl, h.csr⟩
    | writeCsr packed =>
        refine ⟨?_, by rintro packed ⟨⟩, h.csr⟩
        exact (slots_wr64 s.w _ _).trans (h.snapshot packed hm)
    | snapInt => exact ⟨h.slot, by rintro packed ⟨⟩, h.csr⟩
    | writeInt val =>
        refine ⟨?_, by rintro packed ⟨⟩, h.csr⟩
        exact (slots_wr64_ne s.w (by decide) _).trans h.slot

theorem visible_step {s : Doorbell} {a : Act} (h : s.Visible) (hrx : a.isRx = false)
    (ht : s.HandlesTimely a) : (s.step a).Visible := by
  cases a with
  | main => exact visible_stepMain h ht
  | rx rxbuf len => cases hrx
  | post cmd =>
      unfold Doorbell.step
      simp only
      split
      · exact h
      · have hne : DDR3_CSR_OFF ≠ DDR3_CMD_OFF := by decide
        exact ⟨(Function.update_of_ne hne cmd s.w.slots).trans h.slot, h.snapshot, h.csr⟩
  | host ram stack => exact ⟨h.slot, h.snapshot, h.csr⟩

theorem visible_start (nic : Mac) (w : World) : (Doorbell.start nic w).Visible where
  slot := (slots_onInterruptCb (Doorbell.start nic w).d ((wr64 DDR3_CMD_OFF 0).exec w).2).1
  snapshot := by rintro packed ⟨⟩
  csr := reset_invariant _ _ _

/-- A register read issued once the last command is drained is answered with
CSR0 to CSR3 as they stand. -/
def Doorbell.ReadsCurrent (s : Doorbell) : Prop :=
  s.main.drained = true → s.w.slots DDR3_CSR_OFF = packCsr s.d

/-- In every run without receive activity whose commands are all timely, an
acknowledged write is visible. -/
theorem acknowledged_write_visible (nic : Mac) (w : World) (acts : List Act)
    (hrx : ∀ a ∈ acts, a.isRx = false)
    (ht : Watch Doorbell.step Doorbell.HandlesTimely (.start nic w) acts) :
    (Doorbell.run acts (.start nic w)).ReadsCurrent := by
  have hvisible : (Doorbell.run acts (.start nic w)).Visible :=
    Watch.preserves (fun s a h ha => visible_step h ha.1 ha.2) (visible_start nic w)
      (ht.and_forall hrx)
  exact fun _ => hvisible.slot

instance (v : U16) (d : Daemon) (m : BitVec 15 → U8) : Decidable (Announced v d m) :=
  inferInstanceAs (Decidable (_ ∧ _ ∧ _))

instance (v : U16) (d : Daemon) : Decidable (Unchanging v d) :=
  inferInstanceAs (Decidable (_ ∧ _ ∧ _))

instance (v : U16) (d : Daemon) (m : BitVec 15 → U8) :
    (rap : Nat) → Decidable (Timely rap v d m)
  | 0 => inferInstanceAs (Decidable (_ ∨ _))
  | 1 | 2 | 3 => inferInstanceAs (Decidable (_ → _))
  | _ + 4 => .isTrue trivial

instance (s : Doorbell) (a : Act) : Decidable (s.HandlesTimely a) := by
  unfold Doorbell.HandlesTimely
  split <;> infer_instance

instance (s : Doorbell) : Decidable s.ReadsCurrent :=
  inferInstanceAs (Decidable (_ → _))

/-- CSR1 is written with its reset value, and the chip is initialised with
interrupts enabled. -/
theorem acknowledged_init_visible :
    (Doorbell.run (serve 1 0 3 ++ List.replicate 4 .main ++
      serve 0 (CSR0.INIT ||| CSR0.INEA) 3) (.start BROADCAST_MAC .blank)).ReadsCurrent :=
  acknowledged_write_visible BROADCAST_MAC .blank _ (by decide +kernel) (by decide +kernel)

/-- An initialization with interrupts disabled is drained before it is
published: a read in between returns CSR0 with STOP still set and IDON still
clear. -/
theorem acknowledged_write_invisible : ¬ ∀ (nic : Mac) (w : World) (acts : List Act),
    (∀ a ∈ acts, a.isRx = false) → (Doorbell.run acts (.start nic w)).ReadsCurrent := by
  intro hall
  have hread := hall BROADCAST_MAC .blank (serve 0 CSR0.INIT 3) (by decide +kernel)
  exact absurd hread (by decide +kernel)

end A2065
