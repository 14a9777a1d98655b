import A2065.InitBlock

/-!
# INIT and STRT

The driver may write INIT and STRT in one value or one after the other. Both
ways end in the same CSR0, `startedCsr0`, but for the mode that decides which
engines come on: in one write it is the mode in force before the block is
loaded.
-/

namespace A2065

open Bits

/-- The value of INEA in a write. -/
def ineaBit (inea : Bool) : U16 := if inea then CSR0.INEA else 0

/-- CSR0 of an initialised and started chip: the engines `mode` does not
disable are on, IDON is set, and only CERR is left of what there was. -/
def startedCsr0 (o : U16) (inea : Bool) (mode : U16) : U16 :=
  (o &&& CSR0.CERR) ||| ineaBit inea ||| (CSR0.INIT ||| CSR0.STRT ||| CSR0.IDON ||| CSR0.INTR) |||
    (if tst mode MODE.DTX then 0 else CSR0.TXON) ||| (if tst mode MODE.DRX then 0 else CSR0.RXON)

/-- Which bits of CSR0 are open in a stopped chip: INEA and CERR. -/
theorem Reached.stopped_getLsbD {d : Daemon} (h : Reached d) (hs : tst d.csr0 CSR0.STOP = true)
    {i : Nat} (hi : i < 16) (h2 : i ≠ 2) (h6 : i ≠ 6) (h13 : i ≠ 13) :
    d.csr0.getLsbD i = false := by
  simp only [CSR0.tst_bits] at hs
  obtain ⟨h4, h5, hcauses⟩ := h.csr0.stop hs
  obtain ⟨h0, h1⟩ := h.quiet hs
  have hintr := h.csr0.intr
  have herr := h.csr0.err
  have htdmd := h.csr0.tdmd
  rw [hcauses] at hintr
  simp only [causes, Bool.or_eq_false_iff] at hcauses
  obtain ⟨⟨⟨⟨⟨h14, h12⟩, h11⟩, h10⟩, h9⟩, h8⟩ := hcauses
  interval_cases i <;> first | assumption | omega

theorem startEngines_rxon (d : Daemon) : (startEngines d).csr0.getLsbD 5 =
    (d.csr0.getLsbD 5 || !tst d.amMode MODE.DRX) := by
  unfold startEngines
  simp only
  set e := (if tst (d.csr0Clr CSR0.STOP).amMode MODE.DTX = true then d.csr0Clr CSR0.STOP
    else (d.csr0Clr CSR0.STOP).csr0Set CSR0.TXON) with he
  have hrxon : e.csr0.getLsbD 5 = d.csr0.getLsbD 5 := by
    rw [he]
    split <;> simp [CSR0.masks]
  have hmode : e.amMode = d.amMode := by
    rw [he]
    split <;> rfl
  rw [hmode]
  cases hdrx : tst d.amMode MODE.DRX with
  | true => rw [if_pos rfl, hrxon, Bool.not_true, Bool.or_false]
  | false => simp [CSR0.masks]

theorem tst_ineaBit (inea : Bool) : ∀ i, (ineaBit inea).getLsbD i = (inea && decide (i = 6)) := by
  intro i
  cases inea with
  | false => simp [ineaBit]
  | true => simp [ineaBit, CSR0.masks, BitVec.getLsbD_twoPow, eq_comm]

theorem startedCsr0_getLsbD (o : U16) (inea : Bool) (mode : U16) {i : Nat} (hi : i < 16) :
    (startedCsr0 o inea mode).getLsbD i =
      ((o.getLsbD i && decide (i = 13)) || (inea && decide (i = 6)) ||
        decide (i < 2 ∨ i = 7 ∨ i = 8) || (!tst mode MODE.DTX && decide (i = 4)) ||
        (!tst mode MODE.DRX && decide (i = 5))) := by
  simp only [startedCsr0, BitVec.getLsbD_or, BitVec.getLsbD_and, tst_ineaBit]
  cases tst mode MODE.DTX <;> cases tst mode MODE.DRX <;>
    interval_cases i <;> simp [CSR0.masks]

/-- The chip starts with the command bits set and everything else but INEA,
CERR, INTR and IDON clear. -/
theorem rethinkCsr0_startEngines {e : Daemon} {o : U16} {inea : Bool}
    (h : ∀ i < 16, i ≠ 2 → i ≠ 7 → i ≠ 8 → e.csr0.getLsbD i =
      ((o.getLsbD i && decide (i = 13)) || (inea && decide (i = 6)) || decide (i < 2))) :
    rethinkCsr0 ((startEngines e).csr0 ||| CSR0.IDON) = startedCsr0 o inea e.amMode := by
  obtain ⟨hstop, hother⟩ := startEngines_csr0 e
  have htxon := startEngines_txon e
  have hrxon := startEngines_rxon e
  rw [h 4 (by decide) (by decide) (by decide) (by decide)] at htxon
  rw [h 5 (by decide) (by decide) (by decide) (by decide)] at hrxon
  apply BitVec.eq_of_getLsbD_eq
  intro i hi
  rw [rethinkCsr0_getLsbD, startedCsr0_getLsbD _ _ _ hi]
  by_cases h7 : i = 7
  · rw [if_pos h7, h7]
    simp [causes, CSR0.masks]
  rw [if_neg h7, CSR0.masks.2.2.2.2.2.2.2.1, getLsbD_or_twoPow]
  by_cases h8 : i = 8
  · simp [h8]
  by_cases h2 : i = 2
  · rw [h2, hstop]
    simp
  by_cases h4 : i = 4
  · rw [h4, htxon]
    simp
  by_cases h5 : i = 5
  · rw [h5, hrxon]
    simp
  · rw [hother i h2 h4 h5, h i hi h2 h7 h8]
    simp [h4, h5, h7, h8]

/-- The bits of the three values written. -/
theorem initStrt_bits : ∀ inea : Bool, ∀ i < 16,
    (CSR0.INIT ||| CSR0.STRT ||| ineaBit inea).getLsbD i =
      ((inea && decide (i = 6)) || decide (i < 2)) := by decide

theorem init_bits : ∀ inea : Bool, ∀ i < 16, (CSR0.INIT ||| ineaBit inea).getLsbD i =
    ((inea && decide (i = 6)) || decide (i = 0)) := by decide

theorem strt_bits : ∀ inea : Bool, ∀ i < 16, (CSR0.STRT ||| ineaBit inea).getLsbD i =
    ((inea && decide (i = 6)) || decide (i = 1)) := by decide

section Started

variable {d : Daemon} (h : Reached d) (hs : tst d.csr0 CSR0.STOP = true) (inea : Bool) (w : World)
  (W : Wiring)

include h hs

/-- INIT and STRT in one write. -/
theorem init_strt_together :
    let r := (wputCsr0 W.onInterrupt W.onTransmit
      (CSR0.INIT ||| CSR0.STRT ||| ineaBit inea) d).exec w
    r.1.csr0 = startedCsr0 d.csr0 inea d.amMode ∧
      r.1.config = Config.ofWords (blockWord w.ram d.initBlock) ∧
      r.1.macFakemac = (Config.ofWords (blockWord w.ram d.initBlock)).fakemac := by
  have hbits := initStrt_bits inea
  generalize CSR0.INIT ||| CSR0.STRT ||| ineaBit inea = v at hbits
  have hinit : tst v CSR0.INIT = true := by
    simp only [CSR0.tst_bits]
    rw [hbits 0 (by decide)]
    simp
  have hstrt : tst v CSR0.STRT = true := by
    simp only [CSR0.tst_bits]
    rw [hbits 1 (by decide)]
    simp
  have hcmd := initStrt_exec h.quiet hs hinit w hstrt
  set d₀ := d.setCsr 0 (csr0Merge d.csr0 v) with hd₀
  -- CSR0 when the engines start
  have hmerge : ∀ i < 16, i ≠ 2 → i ≠ 7 → i ≠ 8 → d₀.csr0.getLsbD i =
      ((d.csr0.getLsbD i && decide (i = 13)) || (inea && decide (i = 6)) || decide (i < 2)) := by
    intro i hi h2 h7 h8
    rw [hd₀, Daemon.csr0_setCsr0, csr0Merge_getLsbD _ _ hi, hbits i hi]
    by_cases h6 : i = 6
    · simp [h6]
    by_cases h13 : i = 13
    · simp [h13]
    · rw [h.stopped_getLsbD hs hi h2 h6 h13]
      simp [h6, h13]
      omega
  have hcsr0 : ({ ((startEngines d₀).load (Config.ofWords (blockWord w.ram d.initBlock))).csr0Set
      CSR0.IDON with amInitialized := true } : Daemon).csr0 =
        (startEngines d₀).csr0 ||| CSR0.IDON := Daemon.csr0_csr0Set _ _
  have htdmd : ((startEngines d₀).csr0 ||| CSR0.IDON).getLsbD 3 = false := by
    rw [CSR0.masks.2.2.2.2.2.2.2.1, getLsbD_or_twoPow,
      (startEngines_csr0 d₀).2 3 (by decide) (by decide) (by decide),
      hmerge 3 (by decide) (by decide) (by decide) (by decide)]
    simp
  rw [← hcsr0] at htdmd
  obtain ⟨hres, -⟩ := wputCsr0_exec W.onInterrupt W.onTransmit hcmd htdmd
  dsimp only
  rw [hres]
  refine ⟨?_, rfl, rfl⟩
  rw [Daemon.csr0_setCsr0, hcsr0]
  exact rethinkCsr0_startEngines hmerge

/-- CSR0 and the rest after INIT alone. -/
theorem init_alone :
    let r := (wputCsr0 W.onInterrupt W.onTransmit (CSR0.INIT ||| ineaBit inea) d).exec w
    (∀ i < 16, i ≠ 7 → r.1.csr0.getLsbD i = ((d.csr0.getLsbD i && decide (i = 13)) ||
        (inea && decide (i = 6)) || decide (i = 0 ∨ i = 8))) ∧
      r.1.config = Config.ofWords (blockWord w.ram d.initBlock) ∧
      r.1.macFakemac = (Config.ofWords (blockWord w.ram d.initBlock)).fakemac := by
  have hbits := init_bits inea
  generalize CSR0.INIT ||| ineaBit inea = v at hbits
  have hinit : tst v CSR0.INIT = true := by
    simp only [CSR0.tst_bits]
    rw [hbits 0 (by decide)]
    simp
  have hstrt : tst v CSR0.STRT = false := by
    simp only [CSR0.tst_bits]
    rw [hbits 1 (by decide)]
    simp
  have hcmd := init_exec h.quiet hs hinit w hstrt
  set d₀ := d.setCsr 0 (csr0Merge d.csr0 v) with hd₀
  set D : Daemon := { ((d₀.load (Config.ofWords (blockWord w.ram d.initBlock))).csr0Set
    CSR0.IDON).csr0Clr (CSR0.RXON ||| CSR0.TXON ||| CSR0.STOP) with
      amInitialized := true }.setCsr 3 0 with hD
  have hcsr0 : D.csr0 = (csr0Merge d.csr0 v ||| CSR0.IDON) &&&
      ~~~ (CSR0.RXON ||| CSR0.TXON ||| CSR0.STOP) := by
    rw [hD, Daemon.csr0_setCsr_ne _ (by decide)]
    show ((d₀.csr0Set CSR0.IDON).csr0Clr (CSR0.RXON ||| CSR0.TXON ||| CSR0.STOP)).csr0 = _
    rw [Daemon.csr0_csr0Clr, Daemon.csr0_csr0Set, hd₀, Daemon.csr0_setCsr0]
  have hclear : ∀ i < 16, (~~~ (CSR0.RXON ||| CSR0.TXON ||| CSR0.STOP)).getLsbD i =
      !decide (i = 2 ∨ i = 4 ∨ i = 5) := by decide
  have hcbits : ∀ i < 16, D.csr0.getLsbD i = ((d.csr0.getLsbD i && decide (i = 13)) ||
      (inea && decide (i = 6)) || decide (i = 0 ∨ i = 8)) := by
    intro i hi
    rw [hcsr0, BitVec.getLsbD_and, hclear i hi, CSR0.masks.2.2.2.2.2.2.2.1, getLsbD_or_twoPow,
      csr0Merge_getLsbD _ _ hi, hbits i hi]
    by_cases h2 : i = 2
    · simp [h2]
    by_cases h6 : i = 6
    · simp [h6]
    by_cases h13 : i = 13
    · simp [h13]
    · rw [h.stopped_getLsbD hs hi h2 h6 h13]
      by_cases h0 : i = 0
      · simp [h0]
      · by_cases h8 : i = 8
        · simp [h8]
        · simp [h0, h2, h6, h8]
  have htdmd : D.csr0.getLsbD 3 = false := by
    rw [hcbits 3 (by decide)]
    simp
  obtain ⟨hres, -⟩ := wputCsr0_exec W.onInterrupt W.onTransmit hcmd htdmd
  dsimp only
  rw [hres]
  refine ⟨fun i hi h7 => ?_, rfl, rfl⟩
  rw [Daemon.csr0_setCsr0, rethinkCsr0_getLsbD, if_neg h7, hcbits i hi]

end Started

/-- A cause that is set already. -/
theorem or_idon_of_set {c : U16} (h : c.getLsbD 8 = true) : c ||| CSR0.IDON = c := by
  apply BitVec.eq_of_getLsbD_eq
  intro i _
  rw [CSR0.masks.2.2.2.2.2.2.2.1, getLsbD_or_twoPow]
  by_cases h8 : i = 8
  · simp [h8, h]
  · simp [h8]

/-- CSR0 after STRT is merged: as INIT has left it, with STRT. -/
theorem strt_merge {c o v : U16} {inea : Bool}
    (hv : ∀ i < 16, v.getLsbD i = ((inea && decide (i = 6)) || decide (i = 1)))
    (h : ∀ i < 16, i ≠ 7 → c.getLsbD i = ((o.getLsbD i && decide (i = 13)) ||
      (inea && decide (i = 6)) || decide (i = 0 ∨ i = 8)))
    {i : Nat} (hi : i < 16) (h7 : i ≠ 7) :
    (csr0Merge c v).getLsbD i = ((o.getLsbD i && decide (i = 13)) ||
      (inea && decide (i = 6)) || decide (i < 2 ∨ i = 8)) := by
  rw [csr0Merge_getLsbD _ _ hi, hv i hi, h i hi h7]
  by_cases h6 : i = 6
  · simp [h6]
  by_cases h13 : i = 13
  · simp [h13]
  by_cases h8 : i = 8
  · simp [h8]
  by_cases h0 : i = 0
  · simp [h0]
  by_cases h1 : i = 1
  · simp [h1]
  · simp [h0, h1, h6, h8, h13]
    omega

/-- STRT alone, after INIT alone. -/
theorem strt_alone (W : Wiring) {d : Daemon} {o : U16} {inea : Bool} (w : World)
    (h : ∀ i < 16, i ≠ 7 → d.csr0.getLsbD i = ((o.getLsbD i && decide (i = 13)) ||
      (inea && decide (i = 6)) || decide (i = 0 ∨ i = 8))) :
    let r := (wputCsr0 W.onInterrupt W.onTransmit (CSR0.STRT ||| ineaBit inea) d).exec w
    r.1.csr0 = startedCsr0 o inea d.amMode ∧ r.1.config = d.config ∧
      r.1.macFakemac = d.macFakemac := by
  have hbits := strt_bits inea
  generalize CSR0.STRT ||| ineaBit inea = v at hbits
  have hcmd : csr0Command d.csr0 (d.setCsr 0 (csr0Merge d.csr0 v)) =
      pure (startEngines (d.setCsr 0 (csr0Merge d.csr0 v))) := by
    rw [csr0Command_strt d, if_neg]
    all_goals simp only [tst_or_right, CSR0.tst_bits]
    · rw [hbits 0 (by decide)]
      simp
    · rw [hbits 2 (by decide)]
      simp
    · rw [h 1 (by decide) (by decide)]
      simp
    · rw [h 0 (by decide) (by decide)]
      simp
    · rw [hbits 1 (by decide)]
      simp
  set d₀ := d.setCsr 0 (csr0Merge d.csr0 v) with hd₀
  have hmerge : ∀ i < 16, i ≠ 7 → d₀.csr0.getLsbD i = ((o.getLsbD i && decide (i = 13)) ||
      (inea && decide (i = 6)) || decide (i < 2 ∨ i = 8)) := by
    intro i hi h7
    rw [hd₀, Daemon.csr0_setCsr0]
    exact strt_merge hbits h hi h7
  -- IDON is still set
  have hidon : (startEngines d₀).csr0 ||| CSR0.IDON = (startEngines d₀).csr0 := by
    apply or_idon_of_set
    rw [(startEngines_csr0 d₀).2 8 (by decide) (by decide) (by decide),
      hmerge 8 (by decide) (by decide)]
    simp
  have htdmd : (startEngines d₀).csr0.getLsbD 3 = false := by
    rw [(startEngines_csr0 d₀).2 3 (by decide) (by decide) (by decide),
      hmerge 3 (by decide) (by decide)]
    simp
  obtain ⟨hres, -⟩ := wputCsr0_exec W.onInterrupt W.onTransmit (w := w)
    (show (csr0Command d.csr0 d₀).exec w = (startEngines d₀, w) by rw [hcmd]; rfl) htdmd
  dsimp only
  rw [hres]
  refine ⟨?_, ?_, (startEngines_frame d₀).macFakemac⟩
  · rw [Daemon.csr0_setCsr0, ← hidon]
    refine rethinkCsr0_startEngines fun i hi _ h7 h8 => ?_
    rw [hmerge i hi h7]
    simp [h8]
  · rw [Daemon.config_setCsr, config_startEngines, hd₀, Daemon.config_setCsr]

/-- The two ways to bring the chip up, from a state with CSR0 selected. -/
def initTogether (W : Wiring) (inea : Bool) (s : Sys) : Sys :=
  runMoves W [writeRdp (CSR0.INIT ||| CSR0.STRT ||| ineaBit inea)] s

/-- The driver writes INIT, then STRT. -/
def initThenStart (W : Wiring) (inea : Bool) (s : Sys) : Sys :=
  runMoves W [writeRdp (CSR0.INIT ||| ineaBit inea), writeRdp (CSR0.STRT ||| ineaBit inea)] s

/-- They come to the same, and the engines are on that the mode word of the
block does not disable. -/
structure SameStart (W : Wiring) (inea : Bool) (s : Sys) : Prop where
  csr0 : (initTogether W inea s).1.csr0 = (initThenStart W inea s).1.csr0
  config : (initTogether W inea s).1.config = (initThenStart W inea s).1.config
  macFakemac : (initTogether W inea s).1.macFakemac = (initThenStart W inea s).1.macFakemac
  txon : tst (initTogether W inea s).1.csr0 CSR0.TXON =
    !tst (blockWord s.2.ram s.1.initBlock 0) MODE.DTX
  rxon : tst (initTogether W inea s).1.csr0 CSR0.RXON =
    !tst (blockWord s.2.ram s.1.initBlock 0) MODE.DRX

theorem wputCsr0_rap (W : Wiring) (v : U16) (d : Daemon) :
    (wputCsr0 W.onInterrupt W.onTransmit v d).Always fun d' => d'.rap = d.rap := by
  refine (wputCsr0_step W v d).mono ?_
  rintro d' ⟨d₁, d₂, h₁, h₂, rfl⟩
  have hcommand : d₁.rap = d.rap := by
    cases h₁ with
    | stop => rfl
    | start => exact (startEngines_frame _).rap
    | startInit hi => exact hi.rap.trans (startEngines_frame _).rap
    | init hi => exact hi.rap
    | keep => rfl
  refine Eq.trans ?_ hcommand
  cases h₂ with
  | none => rfl
  | ignored => rfl
  | sent ht =>
      refine Eq.trans ht.frame.rap ?_
      split
      · rfl
      · exact (startEngines_frame _).rap

/-- From every stopped state a run reaches, with any boardram contents: INIT
and STRT in one write do what INIT and then STRT do exactly when the mode in
force before disables the same engines as the mode word of the block. -/
theorem init_strt_iff (W : Wiring) (fakemac macFakemac macRealmac : Mac) (w₀ : World)
    (moves : List Move) (d : Daemon) (w : World) (inea : Bool)
    (hrun : d = (runMoves W moves
      (registersReset (.bootWith fakemac macFakemac macRealmac), w₀)).1)
    (hrap : d.rap = 0) (hs : tst d.csr0 CSR0.STOP = true) :
    SameStart W inea (d, w) ↔
      (tst d.amMode MODE.DTX = tst (blockWord w.ram d.initBlock 0) MODE.DTX ∧
        tst d.amMode MODE.DRX = tst (blockWord w.ram d.initBlock 0) MODE.DRX) := by
  have hreached : Reached d := hrun ▸ reached_runMoves W fakemac macFakemac macRealmac w₀ moves
  set block := Config.ofWords (blockWord w.ram d.initBlock) with hblock
  have hmode : block.mode = blockWord w.ram d.initBlock 0 := rfl
  have htogether : initTogether W inea (d, w) = (wputCsr0 W.onInterrupt W.onTransmit
      (CSR0.INIT ||| CSR0.STRT ||| ineaBit inea) d).exec w := apply_writeRdp W _ w hrap
  obtain ⟨hcsr0, hconfig, hmac⟩ := init_strt_together hreached hs inea w W
  rw [← htogether] at hcsr0 hconfig hmac
  -- the second write of the other way starts from what the first has loaded
  set r₁ := (wputCsr0 W.onInterrupt W.onTransmit (CSR0.INIT ||| ineaBit inea) d).exec w with hr₁
  obtain ⟨hbits₁, hconfig₁, hmac₁⟩ := init_alone hreached hs inea w W
  rw [← hr₁] at hbits₁ hconfig₁ hmac₁
  have hrap₁ : r₁.1.rap = 0 := (always_exec (wputCsr0_rap W _ d) w).trans hrap
  have hthen : initThenStart W inea (d, w) = (wputCsr0 W.onInterrupt W.onTransmit
      (CSR0.STRT ||| ineaBit inea) r₁.1).exec r₁.2 := by
    rw [initThenStart, runMoves, List.foldl_cons, apply_writeRdp W _ w hrap, ← hr₁,
      List.foldl_cons]
    exact apply_writeRdp W _ r₁.2 hrap₁
  obtain ⟨hcsr0₂, hconfig₂, hmac₂⟩ := strt_alone W r₁.2 hbits₁
  rw [← hthen] at hcsr0₂ hconfig₂ hmac₂
  have hmode₁ : r₁.1.amMode = block.mode := congrArg Config.mode hconfig₁
  rw [hmode₁] at hcsr0₂
  have htxon : tst (startedCsr0 d.csr0 inea d.amMode) CSR0.TXON = !tst d.amMode MODE.DTX := by
    simp only [CSR0.tst_bits]
    rw [startedCsr0_getLsbD _ _ _ (by decide)]
    simp
  have hrxon : tst (startedCsr0 d.csr0 inea d.amMode) CSR0.RXON = !tst d.amMode MODE.DRX := by
    simp only [CSR0.tst_bits]
    rw [startedCsr0_getLsbD _ _ _ (by decide)]
    simp
  rw [← hmode]
  constructor
  · intro h
    have htx := h.txon
    have hrx := h.rxon
    rw [hcsr0, htxon] at htx
    rw [hcsr0, hrxon] at hrx
    exact ⟨Bool.not_inj htx, Bool.not_inj hrx⟩
  · rintro ⟨hdtx, hdrx⟩
    refine ⟨?_, ?_, ?_, ?_, ?_⟩
    · rw [hcsr0, hcsr0₂, startedCsr0, startedCsr0, hdtx, hdrx]
    · rw [hconfig, hconfig₂, hconfig₁]
    · rw [hmac, hmac₂, hmac₁]
    · rw [hcsr0, htxon, hdtx]
      rfl
    · rw [hcsr0, hrxon, hdrx]
      rfl

/-- A block of zeros, right after reset. -/
theorem init_strt_zero_block : SameStart .null true
    (registersReset (.bootWith BROADCAST_MAC BROADCAST_MAC BROADCAST_MAC), .blank) :=
  (init_strt_iff .null BROADCAST_MAC BROADCAST_MAC BROADCAST_MAC .blank [] _ .blank true rfl rfl
    (by decide)).mpr (by decide +kernel)

/-- A block with DTX and DRX in its mode word, right after reset: one write
turns both engines on. -/
theorem init_strt_disabled : ¬ ∀ (W : Wiring) (fakemac macFakemac macRealmac : Mac) (w₀ : World)
    (moves : List Move) (d : Daemon) (w : World) (inea : Bool),
    d = (runMoves W moves (registersReset (.bootWith fakemac macFakemac macRealmac), w₀)).1 →
    d.rap = 0 → tst d.csr0 CSR0.STOP = true → SameStart W inea (d, w) := by
  intro hall
  have h := hall .null BROADCAST_MAC BROADCAST_MAC BROADCAST_MAC .blank [] _
    { World.blank with ram := Boardram.putRamWord (fun _ => 0) 0 0x0003 } false rfl rfl (by decide)
  exact absurd h.txon (by decide +kernel)

end A2065
