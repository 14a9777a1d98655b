import A2065.RegisterEffects
import Mathlib.Tactic.IntervalCases

/-!
# The CSR state invariant

CSR0 is changed by a dozen statements. Bit by bit they are few: `rethink`
recomputes INTR and touches nothing else, a ring walk can only drop an engine
or raise a cause, and only `csr0Command` and the transmit demand move STOP.
-/

namespace A2065

open Bits

/-- The bit each named test reads. -/
theorem CSR0.tst_bits (w : U16) :
    tst w ERR = w.getLsbD 15 ∧ tst w BABL = w.getLsbD 14 ∧ tst w CERR = w.getLsbD 13 ∧
    tst w MISS = w.getLsbD 12 ∧ tst w MERR = w.getLsbD 11 ∧ tst w RINT = w.getLsbD 10 ∧
    tst w TINT = w.getLsbD 9 ∧ tst w IDON = w.getLsbD 8 ∧ tst w INTR = w.getLsbD 7 ∧
    tst w INEA = w.getLsbD 6 ∧ tst w RXON = w.getLsbD 5 ∧ tst w TXON = w.getLsbD 4 ∧
    tst w TDMD = w.getLsbD 3 ∧ tst w STOP = w.getLsbD 2 ∧ tst w STRT = w.getLsbD 1 ∧
    tst w INIT = w.getLsbD 0 := by
  simp only [masks, tst_twoPow, and_self]

/-- Some interrupt cause is set. -/
def causes (c : U16) : Bool :=
  c.getLsbD 14 || c.getLsbD 12 || c.getLsbD 11 || c.getLsbD 10 || c.getLsbD 9 || c.getLsbD 8

theorem tst_CAUSES (c : U16) : tst c CSR0.CAUSES = causes c := by
  simp only [CSR0.CAUSES, tst_or_right, CSR0.tst_bits, causes]

/-- `rethink` sets INTR to the disjunction of the causes and keeps every
other bit. -/
theorem rethinkCsr0_getLsbD (c : U16) (i : Nat) :
    (rethinkCsr0 c).getLsbD i = if i = 7 then causes c else c.getLsbD i := by
  have hc : causes (c &&& ~~~ CSR0.INTR) = causes c := by
    simp [causes, CSR0.masks]
  unfold rethinkCsr0
  simp only [tst_CAUSES, hc]
  by_cases hi : i = 7
  · cases h : causes c <;> simp [CSR0.masks, hi]
  · have hi' : ¬ 7 = i := fun h => hi h.symm
    have hge : c.getLsbD i = (decide (i < 16) && c.getLsbD i) := by
      cases hb : c.getLsbD i with
      | false => simp
      | true => simp [BitVec.lt_of_getLsbD hb]
    rw [if_neg hi, hge]
    cases h : causes c <;>
      simp [CSR0.masks, hi', Bool.and_comm]

@[simp] theorem causes_rethinkCsr0 (c : U16) : causes (rethinkCsr0 c) = causes c := by
  simp only [causes, rethinkCsr0_getLsbD, Nat.reduceEqDiff, if_false]

theorem rethinkCsr0_intr (c : U16) :
    (rethinkCsr0 c).getLsbD 7 = causes (rethinkCsr0 c) := by
  rw [rethinkCsr0_getLsbD, if_pos rfl, causes_rethinkCsr0]

/-! ## Ring walks, bit by bit -/

/-- The bits a receive can move: RXON, INTR, RINT, MISS. -/
theorem RxExit.csr0_getLsbD (e : RxExit) (c : U16) {i : Nat}
    (hi : i ≠ 5 ∧ i ≠ 7 ∧ i ≠ 10 ∧ i ≠ 12) : (e.csr0 c).getLsbD i = c.getLsbD i := by
  cases e <;>
    simp only [csr0, rethinkCsr0_getLsbD, CSR0.masks, getLsbD_or_twoPow,
      getLsbD_and_not_twoPow, hi, if_false, decide_false, Bool.and_false, Bool.or_false,
      Bool.not_false, Bool.and_true]

/-- The bits a transmit can move: those and TXON, TINT. -/
theorem TxCsr0.getLsbD {c c' : U16} {n : Nat} (h : TxCsr0 c n c') {i : Nat}
    (hi : i ≠ 4 ∧ i ≠ 5 ∧ i ≠ 7 ∧ i ≠ 9 ∧ i ≠ 10 ∧ i ≠ 12) :
    c'.getLsbD i = c.getLsbD i := by
  cases h with
  | idle => rfl
  | failed =>
      simp only [rethinkCsr0_getLsbD, CSR0.masks, getLsbD_or_twoPow, getLsbD_and_not_twoPow,
        hi, if_false, decide_false, Bool.and_false, Bool.or_false, Bool.not_false, Bool.and_true]
  | taken e =>
      have he := e.csr0_getLsbD c ⟨hi.2.1, hi.2.2.1, hi.2.2.2.2.1, hi.2.2.2.2.2⟩
      simp only [rethinkCsr0_getLsbD, CSR0.masks, getLsbD_or_twoPow, he,
        hi, if_false, decide_false, Bool.and_false, Bool.or_false]

/-- INTR agrees with the causes after a walk if it did before. -/
theorem RxExit.csr0_intr (e : RxExit) {c : U16} (h : c.getLsbD 7 = causes c) :
    (e.csr0 c).getLsbD 7 = causes (e.csr0 c) := by
  cases e with
  | dropped => exact h
  | _ => exact rethinkCsr0_intr _

theorem TxCsr0.intr {c c' : U16} {n : Nat} (ht : TxCsr0 c n c') (h : c.getLsbD 7 = causes c) :
    c'.getLsbD 7 = causes c' := by
  cases ht with
  | idle => exact h
  | _ => exact rethinkCsr0_intr _

/-! ## The invariant of CSR0 -/

/-- What holds of CSR0 inside a register write, once its command bits are
acted on: ERR is clear, and a stopped chip is quiet. -/
structure Csr0Mid (c : U16) : Prop where
  err : c.getLsbD 15 = false
  stop : c.getLsbD 2 = true → c.getLsbD 4 = false ∧ c.getLsbD 5 = false ∧ causes c = false

/-- What holds of CSR0 between operations. -/
structure Csr0Inv (c : U16) : Prop extends Csr0Mid c where
  tdmd : c.getLsbD 3 = false
  intr : c.getLsbD 7 = causes c

theorem Csr0Mid.of_running {c : U16} (he : c.getLsbD 15 = false) (hs : c.getLsbD 2 = false) :
    Csr0Mid c := ⟨he, fun h => by rw [hs] at h; cases h⟩

/-- A running engine means STOP is clear. -/
theorem Csr0Mid.not_stopped {c : U16} (h : Csr0Mid c)
    (hon : c.getLsbD 4 = true ∨ c.getLsbD 5 = true) : c.getLsbD 2 = false := by
  by_contra hstop
  obtain ⟨h4, h5, -⟩ := h.stop (by simpa using hstop)
  rcases hon with hon | hon
  · rw [h4] at hon
    cases hon
  · rw [h5] at hon
    cases hon

theorem Csr0Mid.txCsr0 {c c' : U16} {n : Nat} (h : TxCsr0 c n c')
    (he : c.getLsbD 15 = false) (hs : c.getLsbD 2 = false) : Csr0Mid c' :=
  .of_running (by rw [h.getLsbD (by decide), he])
    (by rw [h.getLsbD (by decide), hs])

/-- `rethink` restores the invariant. -/
theorem Csr0Mid.rethink {c : U16} (h : Csr0Mid c) (ht : c.getLsbD 3 = false) :
    Csr0Inv (rethinkCsr0 c) where
  err := by rw [rethinkCsr0_getLsbD, if_neg (by decide), h.err]
  stop hs := by
    rw [rethinkCsr0_getLsbD, if_neg (by decide)] at hs
    simp only [rethinkCsr0_getLsbD, Nat.reduceEqDiff, if_false, causes_rethinkCsr0]
    exact h.stop hs
  tdmd := by rw [rethinkCsr0_getLsbD, if_neg (by decide), ht]
  intr := rethinkCsr0_intr c

/-! ## Register writes, bit by bit -/

/-- A write sets the command bits, replaces INEA, acknowledges the causes and
clears ERR. -/
theorem csr0Merge_getLsbD (o v : U16) {i : Nat} (hi : i < 16) : (csr0Merge o v).getLsbD i =
    if i < 4 then o.getLsbD i || v.getLsbD i
    else if i < 8 then if i = 6 then v.getLsbD i else o.getLsbD i
    else if i = 15 then false else o.getLsbD i && !v.getLsbD i := by
  simp only [csr0Merge, CSR0.ACKS, CSR0.masks, BitVec.getLsbD_and, BitVec.getLsbD_or,
    BitVec.getLsbD_not, BitVec.getLsbD_twoPow]
  interval_cases i <;> simp

/-- The command bits of the merged CSR0 are raised, never dropped. -/
theorem csr0Merge_command (o v : U16) : ∀ i < 4,
    (csr0Merge o v).getLsbD i = (o.getLsbD i || v.getLsbD i) := by
  intro i hi
  rw [csr0Merge_getLsbD o v (by omega), if_pos hi]

/-- ERR is clear, the engines are as they were, and no cause is new. -/
theorem csr0Merge_status (o v : U16) :
    (csr0Merge o v).getLsbD 15 = false ∧
    (csr0Merge o v).getLsbD 4 = o.getLsbD 4 ∧
    (csr0Merge o v).getLsbD 5 = o.getLsbD 5 ∧
    (causes o = false → causes (csr0Merge o v) = false) := by
  have hbit := fun i hi => csr0Merge_getLsbD o v (i := i) hi
  refine ⟨hbit 15 (by decide), hbit 4 (by decide), hbit 5 (by decide), ?_⟩
  simp (disch := decide) only [causes, hbit]
  simp +contextual

theorem CommandStep.mid {v : U16} {d d' : Daemon} (h : Csr0Inv d.csr0)
    (hs : CommandStep d.csr0 (d.setCsr 0 (csr0Merge d.csr0 v)) d') : Csr0Mid d'.csr0 := by
  obtain ⟨he, h4, h5, hcauses⟩ := csr0Merge_status d.csr0 v
  have hstart := startEngines_csr0 (d.setCsr 0 (csr0Merge d.csr0 v))
  have herr := hstart.2 15 (by decide) (by decide) (by decide)
  rw [Daemon.csr0_setCsr0, he] at herr
  cases hs with
  | stop =>
      rw [Daemon.csr0_setCsr_ne _ (by decide), Daemon.csr0_setCsr0]
      exact ⟨by decide, by decide⟩
  | start => exact .of_running herr hstart.1
  | @startInit d₁ hi =>
      have hc : (d₁.csr0Set CSR0.IDON).csr0 = _ := d₁.csr0_csr0Set _
      rw [hi.csr0] at hc
      refine .of_running ((congrArg (·.getLsbD 15) hc).trans ?_)
        ((congrArg (·.getLsbD 2) hc).trans ?_)
      · simp only [CSR0.masks, getLsbD_or_twoPow, herr]
        decide
      · simp only [CSR0.masks, getLsbD_or_twoPow, hstart.1]
        decide
  | @init d₁ hi =>
      have hc : ((d₁.csr0Set CSR0.IDON).csr0Clr
          (CSR0.RXON ||| CSR0.TXON ||| CSR0.STOP)).csr0 = _ := Daemon.csr0_csr0Clr _ _
      rw [Daemon.csr0_csr0Set, hi.csr0, Daemon.csr0_setCsr0] at hc
      rw [Daemon.csr0_setCsr_ne _ (by decide)]
      refine .of_running ((congrArg (·.getLsbD 15) hc).trans ?_)
        ((congrArg (·.getLsbD 2) hc).trans ?_)
      · simp only [BitVec.getLsbD_and, BitVec.getLsbD_or, he]
        decide
      · simp only [BitVec.getLsbD_and, show (~~~ (CSR0.RXON ||| CSR0.TXON ||| CSR0.STOP)).getLsbD 2
          = false by decide, Bool.and_false]
  | keep hk =>
      simp only [Daemon.csr0_setCsr0, CSR0.tst_bits] at hk ⊢
      refine ⟨he, fun hstop => ?_⟩
      obtain ⟨ho4, ho5, hoc⟩ := h.stop (hk hstop)
      exact ⟨h4.trans ho4, h5.trans ho5, hcauses hoc⟩

/-- Dropping TDMD keeps what holds inside a register write. -/
theorem Csr0Mid.dropTdmd {c : U16} (h : Csr0Mid c) :
    Csr0Mid (c &&& ~~~ CSR0.TDMD) ∧ (c &&& ~~~ CSR0.TDMD).getLsbD 3 = false := by
  have hbit : ∀ i, i ≠ 3 → (c &&& ~~~ CSR0.TDMD).getLsbD i = c.getLsbD i := by
    intro i hi
    simp only [CSR0.masks, getLsbD_and_not_twoPow, hi, decide_false, Bool.not_false,
      Bool.and_true]
  have hcauses : causes (c &&& ~~~ CSR0.TDMD) = causes c := by
    simp (disch := decide) only [causes, hbit]
  refine ⟨⟨(hbit 15 (by decide)).trans h.err, ?_⟩, ?_⟩
  · rw [hbit 2 (by decide), hbit 4 (by decide), hbit 5 (by decide), hcauses]
    exact h.stop
  · simp only [CSR0.masks, getLsbD_and_not_twoPow, decide_true, Bool.not_true, Bool.and_false]

theorem DemandStep.mid {d d' : Daemon} (h : Csr0Mid d.csr0) (hs : DemandStep d d') :
    Csr0Mid d'.csr0 ∧ d'.csr0.getLsbD 3 = false := by
  cases hs with
  | none ht => exact ⟨h, by simpa only [CSR0.tst_bits] using ht⟩
  | ignored =>
      rw [Daemon.csr0_csr0Clr]
      exact h.dropTdmd
  | @sent n d₁ ht =>
      rw [Daemon.csr0_csr0Clr]
      refine Csr0Mid.dropTdmd (.txCsr0 ht.csr0 ?_ ?_)
      · split
        · exact h.err
        · rw [(startEngines_csr0 d).2 15 (by decide) (by decide) (by decide), h.err]
      · split
        · rename_i hon
          simp only [CSR0.tst_bits] at hon
          exact h.not_stopped (.inl hon)
        · exact (startEngines_csr0 d).1

/-! ## The other registers -/

/-- The ranges of CSR1 to CSR3 and of the ring bases. -/
structure RegBounds (d : Daemon) : Prop where
  csr1 : Even (d.csr 1).toNat
  csr2 : (d.csr 2).toNat ≤ 0xFF
  csr3 : (d.csr 3).toNat ≤ 7
  rdra : d.amRdrRdra.toNat ≤ 0x7FFF
  tdra : d.amTdrTdra.toNat ≤ 0x7FFF

namespace RegBounds

theorem frame {d d' : Daemon} (h : RegBounds d) (hf : RingFrame d d') : RegBounds d' where
  csr1 := by rw [hf.csr 1 (by decide)]; exact h.csr1
  csr2 := by rw [hf.csr 2 (by decide)]; exact h.csr2
  csr3 := by rw [hf.csr 3 (by decide)]; exact h.csr3
  rdra := by rw [hf.amRdrRdra]; exact h.rdra
  tdra := by rw [hf.amTdrTdra]; exact h.tdra

theorem setCsr0 {d : Daemon} (h : RegBounds d) (c : U16) : RegBounds (d.setCsr 0 c) :=
  h.frame ((RingFrame.refl d).setCsr0 c)

theorem init {d d' : Daemon} (h : RegBounds d) (hi : InitEffect d d') : RegBounds d' where
  csr1 := by rw [hi.csr]; exact h.csr1
  csr2 := by rw [hi.csr]; exact h.csr2
  csr3 := by rw [hi.csr]; exact h.csr3
  rdra := hi.rdra
  tdra := hi.tdra

theorem clearCsr3 {d : Daemon} (h : RegBounds d) : RegBounds (d.setCsr 3 0) where
  csr1 := h.csr1
  csr2 := h.csr2
  csr3 := by simp [Daemon.setCsr]
  rdra := h.rdra
  tdra := h.tdra

/-- A new `am_initialized` is no part of the bounds. -/
theorem markInit {d : Daemon} (h : RegBounds d) : RegBounds { d with amInitialized := true } :=
  ⟨h.csr1, h.csr2, h.csr3, h.rdra, h.tdra⟩

theorem command {oreg : U16} {d d' : Daemon} (h : RegBounds d) (hs : CommandStep oreg d d') :
    RegBounds d' := by
  cases hs with
  | stop => exact (h.setCsr0 _).clearCsr3
  | start => exact h.frame (startEngines_frame d)
  | startInit hi => exact (((h.frame (startEngines_frame d)).init hi).setCsr0 _).markInit
  | init hi => exact (((h.init hi).setCsr0 _).setCsr0 _).markInit.clearCsr3
  | keep => exact h

theorem demand {d d' : Daemon} (h : RegBounds d) (hs : DemandStep d d') : RegBounds d' := by
  cases hs with
  | none => exact h
  | ignored => exact h.setCsr0 _
  | sent ht =>
      refine (RegBounds.frame ?_ ht.frame).setCsr0 _
      split
      · exact h
      · exact h.frame (startEngines_frame d)

theorem mask {d : Daemon} (h : RegBounds d) (rdra tdra : U32) :
    RegBounds (chipInitMask { d with amRdrRdra := rdra, amTdrTdra := tdra }) :=
  ⟨h.csr1, h.csr2, h.csr3, and_ramMask_le _, and_ramMask_le _⟩

/-- Plain registers are above CSR3. -/
theorem setCsr {d : Daemon} (h : RegBounds d) {n : Nat} (hn : 4 ≤ n) (v : U16) :
    RegBounds (d.setCsr n v) := by
  have hsame : ∀ k, k < 4 → (d.setCsr n v).csr k = d.csr k := by
    intro k hk
    exact Function.update_of_ne (by omega) _ _
  refine ⟨?_, ?_, ?_, h.rdra, h.tdra⟩
  · rw [hsame 1 (by decide)]
    exact h.csr1
  · rw [hsame 2 (by decide)]
    exact h.csr2
  · rw [hsame 3 (by decide)]
    exact h.csr3

theorem even_and_not_one (v : U16) : Even (v &&& ~~~ 1).toNat := by
  have hbit : (v &&& ~~~ 1).getLsbD 0 = false := by simp
  rw [← BitVec.testBit_toNat, Nat.testBit_zero] at hbit
  rw [Nat.even_iff]
  have := of_decide_eq_false hbit
  omega

theorem wputOther {d : Daemon} (h : RegBounds d) (v : U16) : RegBounds (wputOther v d) := by
  unfold A2065.wputOther
  split
  case h_1 =>
    split
    · exact ⟨by simpa [Daemon.setCsr] using even_and_not_one v, h.csr2, h.csr3, h.rdra, h.tdra⟩
    · exact h
  case h_2 =>
    split
    · refine ⟨h.csr1, ?_, h.csr3, h.rdra, h.tdra⟩
      simpa [Daemon.setCsr] using Nat.and_le_right
    · exact h
  case h_3 =>
    split
    · refine ⟨h.csr1, h.csr2, ?_, h.rdra, h.tdra⟩
      simpa [Daemon.setCsr] using Nat.and_le_right
    · exact h
  case h_12 => exact h.mask _ _
  case h_13 => exact h.mask _ _
  case h_14 => exact h.mask _ _
  case h_15 => exact h.mask _ _
  case h_18 =>
    split
    · exact h.setCsr ‹_› v
    · exact h
  all_goals exact ⟨h.csr1, h.csr2, h.csr3, h.rdra, h.tdra⟩

end RegBounds

/-! ## Every operation keeps the invariant -/

/-- The state between operations. -/
structure CsrInvariant (d : Daemon) : Prop extends RegBounds d where
  intr : tst d.csr0 CSR0.INTR = true ↔
    (tst d.csr0 CSR0.BABL ∨ tst d.csr0 CSR0.MISS ∨ tst d.csr0 CSR0.MERR ∨
      tst d.csr0 CSR0.RINT ∨ tst d.csr0 CSR0.TINT ∨ tst d.csr0 CSR0.IDON)
  err : tst d.csr0 CSR0.ERR = false
  tdmd : tst d.csr0 CSR0.TDMD = false
  stop : tst d.csr0 CSR0.STOP = true →
    tst d.csr0 CSR0.TXON = false ∧ tst d.csr0 CSR0.RXON = false ∧
      tst d.csr0 CSR0.BABL = false ∧ tst d.csr0 CSR0.MISS = false ∧
      tst d.csr0 CSR0.MERR = false ∧ tst d.csr0 CSR0.RINT = false ∧
      tst d.csr0 CSR0.TINT = false ∧ tst d.csr0 CSR0.IDON = false

theorem csrInvariant_iff {d : Daemon} :
    CsrInvariant d ↔ Csr0Inv d.csr0 ∧ RegBounds d := by
  constructor
  · rintro ⟨hb, hi, he, ht, hs⟩
    simp only [CSR0.tst_bits] at hi he ht hs
    refine ⟨⟨⟨he, fun h => ?_⟩, ht, ?_⟩, hb⟩
    · obtain ⟨h4, h5, h14, h12, h11, h10, h9, h8⟩ := hs h
      exact ⟨h4, h5, by simp only [causes, h14, h12, h11, h10, h9, h8, Bool.or_self]⟩
    · rw [Bool.eq_iff_iff, hi]
      simp only [causes, Bool.or_eq_true, or_assoc]
  · rintro ⟨⟨⟨he, hs⟩, ht, hi⟩, hb⟩
    refine ⟨hb, ?_, ?_, ?_, ?_⟩ <;> simp only [CSR0.tst_bits]
    · rw [hi]
      simp only [causes, Bool.or_eq_true, or_assoc]
    · exact he
    · exact ht
    · intro h
      obtain ⟨h4, h5, hc⟩ := hs h
      simp only [causes, Bool.or_eq_false_iff] at hc
      obtain ⟨⟨⟨⟨⟨h14, h12⟩, h11⟩, h10⟩, h9⟩, h8⟩ := hc
      exact ⟨h4, h5, h14, h12, h11, h10, h9, h8⟩

theorem Csr0Inv.transmit {c c' : U16} {n : Nat} (h : Csr0Inv c) (hs : c.getLsbD 2 = false)
    (ht : TxCsr0 c n c') : Csr0Inv c' where
  toCsr0Mid := .txCsr0 ht h.err hs
  tdmd := by rw [ht.getLsbD (by decide), h.tdmd]
  intr := ht.intr h.intr

theorem Csr0Inv.receive {c : U16} (h : Csr0Inv c) (hs : c.getLsbD 2 = false) (e : RxExit) :
    Csr0Inv (e.csr0 c) where
  toCsr0Mid := .of_running (by rw [e.csr0_getLsbD c (by decide), h.err])
    (by rw [e.csr0_getLsbD c (by decide), hs])
  tdmd := by rw [e.csr0_getLsbD c (by decide), h.tdmd]
  intr := e.csr0_intr h.intr

/-- Only `case 0` writes CSR0. -/
theorem csr0_wputOther (v : U16) (d : Daemon) :
    (wputOther v d).csr0 = d.csr0 := by
  unfold wputOther
  split <;> try rfl
  case h_18 n =>
    split
    · rw [Daemon.csr0_setCsr_ne _ (by omega)]
    · rfl
  all_goals
    split
    · rw [Daemon.csr0_setCsr_ne _ (by decide)]
    · rfl

theorem chipWput_invariant (W : Wiring) (regOffset : U8) (v : U16) (d : Daemon)
    (h : Csr0Inv d.csr0 ∧ RegBounds d) :
    (chipWput W.onInterrupt W.onTransmit regOffset v d).Always fun d' =>
      Csr0Inv d'.csr0 ∧ RegBounds d' := by
  obtain ⟨hc, hb⟩ := h
  unfold chipWput
  split
  · exact .pure ⟨hc, hb.csr1, hb.csr2, hb.csr3, hb.rdra, hb.tdra⟩
  split
  · exact .pure ⟨hc, hb⟩
  split
  · refine (wputCsr0_step W v d).mono ?_
    rintro d' ⟨d₁, d₂, h₁, h₂, rfl⟩
    obtain ⟨hmid, htdmd⟩ := h₂.mid (h₁.mid hc)
    refine ⟨?_, (((hb.setCsr0 _).command h₁).demand h₂).setCsr0 _⟩
    rw [Daemon.csr0_setCsr0]
    exact hmid.rethink htdmd
  · refine .pure ⟨?_, hb.wputOther v⟩
    rw [csr0_wputOther]
    exact hc

theorem op_invariant (W : Wiring) (o : Op) (d : Daemon) (h : Csr0Inv d.csr0 ∧ RegBounds d) :
    (o.prog W d).Always fun d' => Csr0Inv d'.csr0 ∧ RegBounds d' := by
  cases o with
  | wput regOffset v => exact chipWput_invariant W regOffset v d h
  | transmit =>
      cases hon : tst d.csr0 CSR0.TXON with
      | false =>
          simp only [Op.prog, doTransmit_off _ hon]
          exact .pure h
      | true =>
          simp only [CSR0.tst_bits] at hon
          refine .bind (doTransmit_effect _ d) fun r hr => .pure ⟨?_, h.2.frame hr.frame⟩
          exact h.1.transmit (h.1.not_stopped (.inl hon)) hr.csr0
  | recv databuf len =>
      cases hon : tst d.csr0 CSR0.RXON with
      | false =>
          simp only [Op.prog, gotfunc_off _ _ _ hon]
          exact .pure h
      | true =>
          simp only [CSR0.tst_bits] at hon
          refine .bind (gotfunc_effect _ _ _ d) fun r hr => .pure ⟨?_, h.2.frame hr.frame⟩
          rw [hr.csr0]
          exact h.1.receive (h.1.not_stopped (.inr hon)) r.1

theorem reset_invariant (fakemac macFakemac macRealmac : Mac) :
    Csr0Inv (registersReset (.bootWith fakemac macFakemac macRealmac)).csr0 ∧
      RegBounds (registersReset (.bootWith fakemac macFakemac macRealmac)) := by
  constructor
  · show Csr0Inv CSR0.STOP
    exact ⟨⟨by decide, by decide⟩, by decide, by decide⟩
  · have hzero : (0#16).toNat ≤ 7 := by decide
    exact ⟨⟨0, rfl⟩, hzero.trans (by decide), hzero, Nat.zero_le _, Nat.zero_le _⟩

/-- From `registers_reset()`, whatever the station addresses, the wiring, the
operations and the host, the CSR invariant holds after every operation. -/
theorem csr_invariant (W : Wiring) (fakemac macFakemac macRealmac : Mac) (w : World)
    (moves : List Move) :
    CsrInvariant (runMoves W moves
      (registersReset (.bootWith fakemac macFakemac macRealmac), w)).1 := by
  rw [csrInvariant_iff]
  exact runMoves_inv W (op_invariant W) moves _ (reset_invariant _ _ _)

end A2065
