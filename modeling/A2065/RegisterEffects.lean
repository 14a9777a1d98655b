import A2065.Operations

/-!
# What a register write can do

The counterpart of `RingEffects` for `chip_wput`: one inversion lemma for
each part of `case 0`, whatever the shared memory answers. The guards that
later proofs need are fields of the constructors.
-/

namespace A2065

open Bits

/-- What `chip_init` leaves behind. -/
structure InitEffect (d d' : Daemon) : Prop where
  csr : d'.csr = d.csr
  rap : d'.rap = d.rap
  amInitialized : d'.amInitialized = d.amInitialized
  rdra : d'.amRdrRdra.toNat ≤ RAM_MASK.toNat
  tdra : d'.amTdrTdra.toNat ≤ RAM_MASK.toNat
  macs : d'.fakemac = d'.macFakemac

theorem InitEffect.csr0 {d d' : Daemon} (h : InitEffect d d') : d'.csr0 = d.csr0 :=
  congrFun h.csr 0

theorem and_ramMask_le (a : U32) : (a &&& RAM_MASK).toNat ≤ RAM_MASK.toNat := by
  rw [BitVec.toNat_and]
  exact Nat.and_le_right

theorem chipInit_effect (d : Daemon) : (chipInit d).Always (InitEffect d) := by
  unfold chipInit
  refine .bind_any fun _ => .bind_any fun _ => .bind_any fun _ => .bind_any fun _ =>
    .bind_any fun _ => .bind_any fun _ => .bind_any fun _ => .bind_any fun _ =>
    .bind_any fun _ => .bind_any fun _ => .bind_any fun _ => .bind_any fun _ =>
    .bind_any fun _ => .bind_any fun _ => .bind_any fun _ => .pure ?_
  exact ⟨rfl, rfl, rfl, and_ramMask_le _, and_ramMask_le _, rfl⟩

/-- Starting the engines clears STOP and can raise TXON and RXON. -/
theorem startEngines_csr0 (d : Daemon) : (startEngines d).csr0.getLsbD 2 = false ∧
    ∀ i, i ≠ 2 → i ≠ 4 → i ≠ 5 → (startEngines d).csr0.getLsbD i = d.csr0.getLsbD i := by
  unfold startEngines
  constructor
  · simp only
    split <;> split <;>
      simp [CSR0.masks]
  · intro i h2 h4 h5
    simp only
    split <;> split <;>
      simp only [CSR0.masks, Daemon.csr0_csr0Set, Daemon.csr0_csr0Clr, getLsbD_or_twoPow,
        getLsbD_and_not_twoPow, h2, h4, h5, decide_false, Bool.and_false, Bool.or_false,
        Bool.not_false, Bool.and_true]

theorem startEngines_txon (d : Daemon) : (startEngines d).csr0.getLsbD 4 =
    (d.csr0.getLsbD 4 || !tst d.amMode MODE.DTX) := by
  unfold startEngines
  simp only
  split
  · rename_i h
    have hdtx : tst d.amMode MODE.DTX = true := h
    split <;> simp [CSR0.masks, hdtx]
  · rename_i h
    have hdtx : tst d.amMode MODE.DTX = false := Bool.eq_false_iff.mpr h
    split <;> simp [CSR0.masks, hdtx]

/-- What `csr0Command` makes of a state whose CSR0 is merged already. -/
inductive CommandStep (oreg : U16) (d : Daemon) : Daemon → Prop where
  | stop (h : tst d.csr0 CSR0.STOP = true) (ho : tst oreg CSR0.STOP = false) :
      CommandStep oreg d ((d.setCsr 0 CSR0.STOP).setCsr 3 0)
  | start (h : tst d.csr0 CSR0.INIT = true → tst oreg CSR0.INIT = true) :
      CommandStep oreg d (startEngines d)
  | startInit {d' : Daemon} (h : InitEffect (startEngines d) d') :
      CommandStep oreg d { d'.csr0Set CSR0.IDON with amInitialized := true }
  | init {d' : Daemon} (h : InitEffect d d') :
      CommandStep oreg d
        ({ (d'.csr0Set CSR0.IDON).csr0Clr (CSR0.RXON ||| CSR0.TXON ||| CSR0.STOP) with
            amInitialized := true }.setCsr 3 0)
  | keep (h : tst d.csr0 CSR0.STOP = true → tst oreg CSR0.STOP = true)
      (hi : tst d.csr0 CSR0.INIT = true → tst oreg CSR0.STOP = true →
        tst oreg CSR0.INIT = true) :
      CommandStep oreg d d

theorem csr0Command_step (oreg : U16) (d : Daemon) :
    (csr0Command oreg d).Always (CommandStep oreg d) := by
  unfold csr0Command
  split
  · rename_i h
    exact .pure (.stop h.1 (by simpa using h.2))
  rename_i hstop
  split
  · simp only
    split
    · exact .bind (chipInit_effect _) fun d' h => .pure (.startInit h)
    · rename_i hinit
      refine .pure (.start fun h => ?_)
      by_contra ho
      refine hinit ⟨?_, ho⟩
      simp only [CSR0.masks, tst_twoPow] at h ⊢
      rwa [(startEngines_csr0 d).2 0 (by decide) (by decide) (by decide)]
  split
  · exact .bind (chipInit_effect _) fun d' h => .pure (.init h)
  · rename_i hinit
    refine .pure (.keep (fun h => ?_) fun h hs => ?_)
    · by_contra ho
      exact hstop ⟨h, ho⟩
    · by_contra ho
      exact hinit ⟨h, ho, hs⟩

/-- What the transmit demand makes of a state. -/
inductive DemandStep (d : Daemon) : Daemon → Prop where
  | none (h : tst d.csr0 CSR0.TDMD = false) : DemandStep d d
  | ignored (h : d.amInitialized = false) : DemandStep d (d.csr0Clr CSR0.TDMD)
  | sent {n : Nat} {d' : Daemon}
      (h : TxEffect (if tst d.csr0 CSR0.TXON then d else startEngines d) (n, d')) :
      DemandStep d (d'.csr0Clr CSR0.TDMD)

theorem csr0Demand_step (W : Wiring) (d : Daemon) :
    (csr0Demand W.onTransmit d).Always (DemandStep d) := by
  unfold csr0Demand
  split
  · split
    · refine .bind (onTransmit_effect W _) fun d' ⟨n, h⟩ => .pure ?_
      exact .sent h
    · rename_i hinit
      exact .bind (.pure rfl) fun d' (h : d = d') => .pure (h ▸ .ignored (by simpa using hinit))
  · rename_i htdmd
    exact .pure (.none (by simpa using htdmd))

/-- A CSR0 write: merge, act on the command bits, serve the demand, and
recompute INTR. -/
theorem wputCsr0_step (W : Wiring) (v : U16) (d : Daemon) :
    (wputCsr0 W.onInterrupt W.onTransmit v d).Always fun d' => ∃ d₁ d₂,
      CommandStep d.csr0 (d.setCsr 0 (csr0Merge d.csr0 v)) d₁ ∧ DemandStep d₁ d₂ ∧
      d' = d₂.setCsr 0 (rethinkCsr0 d₂.csr0) :=
  .bind (csr0Command_step _ _) fun d₁ h₁ => .bind (csr0Demand_step W d₁) fun d₂ h₂ =>
    (rethink_always _ d₂).mono fun _ h => ⟨d₁, d₂, h₁, h₂, h⟩

theorem startEngines_frame (d : Daemon) : RingFrame d (startEngines d) := by
  unfold startEngines
  simp only
  split <;> split
  · exact (RingFrame.refl d).setCsr0 _
  · exact ((RingFrame.refl d).setCsr0 _).setCsr0 _
  · exact ((RingFrame.refl d).setCsr0 _).setCsr0 _
  · exact (((RingFrame.refl d).setCsr0 _).setCsr0 _).setCsr0 _

end A2065
