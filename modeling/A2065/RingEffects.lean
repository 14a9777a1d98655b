import A2065.Rings

/-!
# What a ring walk can do to the registers

Said once, for every answer the shared memory may give: a walk of either ring
leaves the configuration alone (`RingFrame`) and moves CSR0 in one of a few
ways (`RxExit.csr0`, `TxCsr0`). Every invariant of the registers is derived
from these two facts.
-/

namespace A2065

open Bits

/-- Everything but CSR0, the ring cursors and `transmitbuffer` agrees. -/
structure RingFrame (d d' : Daemon) : Prop where
  csr : ∀ n, n ≠ 0 → d'.csr n = d.csr n
  rap : d'.rap = d.rap
  amInitialized : d'.amInitialized = d.amInitialized
  amMode : d'.amMode = d.amMode
  amLadrf : d'.amLadrf = d.amLadrf
  amRdrRlen : d'.amRdrRlen = d.amRdrRlen
  amRdrRdra : d'.amRdrRdra = d.amRdrRdra
  amTdrTlen : d'.amTdrTlen = d.amTdrTlen
  amTdrTdra : d'.amTdrTdra = d.amTdrTdra
  fakemac : d'.fakemac = d.fakemac
  macFakemac : d'.macFakemac = d.macFakemac
  macRealmac : d'.macRealmac = d.macRealmac

namespace RingFrame

theorem refl (d : Daemon) : RingFrame d d :=
  ⟨fun _ _ => rfl, rfl, rfl, rfl, rfl, rfl, rfl, rfl, rfl, rfl, rfl, rfl⟩

theorem trans {a b c : Daemon} (h : RingFrame a b) (h' : RingFrame b c) :
    RingFrame a c where
  csr n hn := (h'.csr n hn).trans (h.csr n hn)
  rap := h'.rap.trans h.rap
  amInitialized := h'.amInitialized.trans h.amInitialized
  amMode := h'.amMode.trans h.amMode
  amLadrf := h'.amLadrf.trans h.amLadrf
  amRdrRlen := h'.amRdrRlen.trans h.amRdrRlen
  amRdrRdra := h'.amRdrRdra.trans h.amRdrRdra
  amTdrTlen := h'.amTdrTlen.trans h.amTdrTlen
  amTdrTdra := h'.amTdrTdra.trans h.amTdrTdra
  fakemac := h'.fakemac.trans h.fakemac
  macFakemac := h'.macFakemac.trans h.macFakemac
  macRealmac := h'.macRealmac.trans h.macRealmac

/-- Storing CSR0, the cursors or the buffer stays in the frame. -/
theorem store {d d' : Daemon} (h : RingFrame d d') (c : U16) (t r : U32) (b : Buf) :
    RingFrame d { d'.setCsr 0 c with tdrOffset := t, rdrOffset := r, transmitbuffer := b } where
  csr n hn := by
    simpa [Daemon.setCsr, hn] using h.csr n hn
  rap := h.rap
  amInitialized := h.amInitialized
  amMode := h.amMode
  amLadrf := h.amLadrf
  amRdrRlen := h.amRdrRlen
  amRdrRdra := h.amRdrRdra
  amTdrTlen := h.amTdrTlen
  amTdrTdra := h.amTdrTdra
  fakemac := h.fakemac
  macFakemac := h.macFakemac
  macRealmac := h.macRealmac

theorem setCsr0 {d d' : Daemon} (h : RingFrame d d') (c : U16) :
    RingFrame d (d'.setCsr 0 c) := h.store c d'.tdrOffset d'.rdrOffset d'.transmitbuffer

theorem cursors {d d' : Daemon} (h : RingFrame d d') (t r : U32) (b : Buf) :
    RingFrame d { d' with tdrOffset := t, rdrOffset := r, transmitbuffer := b } := by
  have hs := h.store d'.csr0 t r b
  rwa [Daemon.setCsr, Daemon.csr0, Function.update_eq_self] at hs

end RingFrame

@[simp] theorem Daemon.csr0_setCsr0 (d : Daemon) (c : U16) : (d.setCsr 0 c).csr0 = c := by
  simp [csr0, setCsr]

@[simp] theorem Daemon.csr0_csr0Set (d : Daemon) (v : U16) :
    (d.csr0Set v).csr0 = d.csr0 ||| v := d.csr0_setCsr0 _

@[simp] theorem Daemon.csr0_csr0Clr (d : Daemon) (v : U16) :
    (d.csr0Clr v).csr0 = d.csr0 &&& ~~~ v := d.csr0_setCsr0 _

@[simp] theorem Daemon.setCsr_setCsr (d : Daemon) (n : Nat) (v v' : U16) :
    (d.setCsr n v).setCsr n v' = d.setCsr n v' := by
  simp [setCsr]

@[simp] theorem Daemon.csr0_setCsr_ne (d : Daemon) {n : Nat} (h : n ≠ 0) (v : U16) :
    (d.setCsr n v).csr0 = d.csr0 := by
  simp [csr0, setCsr, h.symm]

theorem rethink_always (cb : Callback) (d : Daemon) :
    (rethink cb d).Always (· = d.setCsr 0 (rethinkCsr0 d.csr0)) := by
  unfold rethink
  simp only
  split
  · exact .bind_any fun _ => .pure rfl
  · exact .pure rfl

theorem rethink_signals (cb : Callback) (d : Daemon) : (rethink cb d).Only Eff.IsSignal := by
  unfold rethink
  simp only
  split
  · exact .bind (cb.signals _) fun _ => .pure _
  · exact .pure _

/-! ## Receive -/

/-- CSR0 when `gotfunc` leaves through an exit. -/
def RxExit.csr0 (c : U16) : RxExit → U16
  | .dropped => c
  | .missed => rethinkCsr0 (c ||| CSR0.MISS)
  | .overrun => rethinkCsr0 (c &&& ~~~ CSR0.RXON)
  | .delivered => rethinkCsr0 (c ||| CSR0.RINT)

/-- What a receive leaves behind. -/
structure RxEffect (d : Daemon) (r : RxExit × Daemon) : Prop where
  frame : RingFrame d r.2
  csr0 : r.2.csr0 = r.1.csr0 d.csr0
  tdrOffset : r.2.tdrOffset = d.tdrOffset
  transmitbuffer : r.2.transmitbuffer = d.transmitbuffer

/-- Ending in `rethink` with CSR0 at `c` has the exit's effect. -/
theorem rxEffect_rethink {d d' : Daemon} {e : RxExit} {c : U16} (cb : Callback)
    (hf : RingFrame d d') (ht : d'.tdrOffset = d.tdrOffset)
    (hb : d'.transmitbuffer = d.transmitbuffer) (hc : e.csr0 d.csr0 = rethinkCsr0 c) :
    (rethink cb (d'.setCsr 0 c) >>= fun d'' => pure (e, d'')).Always (RxEffect d) := by
  refine .bind (rethink_always cb _) fun d'' h => .pure ?_
  rw [h]
  exact ⟨(hf.setCsr0 _).setCsr0 _, by simp [hc], ht, hb⟩

theorem rxRing_effect (cb : Callback) (rdra rlen : U32) (tmp : Buf) (len : Nat)
    (d₀ d : Daemon) (insize : Nat) (first : Bool) (hf : RingFrame d₀ d)
    (hc : d.csr0 = d₀.csr0) (ht : d.tdrOffset = d₀.tdrOffset)
    (hb : d.transmitbuffer = d₀.transmitbuffer) :
    (rxRing cb rdra rlen tmp len d insize first).Always (RxEffect d₀) := by
  -- induction on the bytes still to store, the measure of the loop
  induction hn : len - insize using Nat.strong_induction_on generalizing d insize first with
  | _ n ih =>
      rw [rxRing]
      refine .bind_any fun rmd0 => .bind_any fun rmd1 => .bind_any fun rmd2 =>
        .bind_any fun rmd3 => ?_
      simp only
      split
      · refine .bind_any fun _ => ?_
        cases first with
        | true =>
            exact rxEffect_rethink cb (hf.cursors _ _ _) ht hb
              (congrArg (fun c => rethinkCsr0 (c ||| CSR0.MISS)) hc.symm)
        | false =>
            exact rxEffect_rethink cb (hf.cursors _ _ _) ht hb
              (congrArg (fun c => rethinkCsr0 (c &&& ~~~ CSR0.RXON)) hc.symm)
      · refine .bind_any fun _ => ?_
        split
        · refine .bind_any fun _ => .bind_any fun _ => ?_
          exact rxEffect_rethink cb (hf.cursors _ _ _) ht hb
            (congrArg (fun c => rethinkCsr0 (c ||| CSR0.RINT)) hc.symm)
        · refine .bind_any fun _ => .bind_any fun _ => ?_
          have hpos := byteCount_pos rmd2
          exact ih _ (by omega) _ _ _ (hf.cursors _ _ _) hc ht hb rfl

/-- The ring loop never leaves through the exit of the filters. -/
theorem rxRing_not_dropped (cb : Callback) (rdra rlen : U32) (tmp : Buf) (len : Nat) (d : Daemon)
    (insize : Nat) (first : Bool) :
    (rxRing cb rdra rlen tmp len d insize first).Always fun r => r.1 ≠ .dropped := by
  have hend : ∀ (e : RxExit) (d : Daemon), e ≠ .dropped →
      (rethink cb d >>= fun d => pure (e, d)).Always fun r => r.1 ≠ .dropped :=
    fun e d he => .bind_any fun d' => .pure he
  induction hn : len - insize using Nat.strong_induction_on generalizing d insize first with
  | _ n ih =>
      rw [rxRing]
      refine .bind_any fun rmd0 => .bind_any fun rmd1 => .bind_any fun rmd2 =>
        .bind_any fun rmd3 => ?_
      simp only
      split
      · exact .bind_any fun _ => hend _ _ (by cases first <;> simp)
      · refine .bind_any fun _ => ?_
        split
        · exact .bind_any fun _ => .bind_any fun _ => hend _ _ (by simp)
        · have hpos := byteCount_pos rmd2
          exact .bind_any fun _ => .bind_any fun _ => ih _ (by omega) _ _ _ rfl

theorem gotfunc_effect (cb : Callback) (databuf : Buf) (len : Nat) (d : Daemon) :
    (gotfunc cb databuf len d).Always (RxEffect d) := by
  have hdrop : RxEffect d (.dropped, d) := ⟨.refl d, rfl, rfl, rfl⟩
  unfold gotfunc
  split
  · exact .pure hdrop
  split
  · exact .pure hdrop
  split
  · exact .pure hdrop
  refine .bind_any fun stack => ?_
  simp only
  split
  · exact .pure hdrop
  · exact rxRing_effect cb _ _ _ _ d d 0 true (.refl d) rfl rfl rfl

/-! ## Transmit -/

/-- CSR0 after `do_transmit`, by its return value. -/
inductive TxCsr0 (c : U16) : Nat → U16 → Prop where
  | idle : TxCsr0 c 0 c
  | failed : TxCsr0 c 1 (rethinkCsr0 ((c &&& ~~~ CSR0.TXON) ||| CSR0.TINT))
  | taken (e : RxExit) : TxCsr0 c 1 (rethinkCsr0 (e.csr0 c ||| CSR0.TINT))

/-- A call that took a frame ends by setting TINT. -/
theorem TxCsr0.idle_or_tint {c c' : U16} {n : Nat} (h : TxCsr0 c n c') :
    n = 0 ∧ c' = c ∨ n = 1 ∧ ∃ b, c' = rethinkCsr0 (b ||| CSR0.TINT) := by
  cases h with
  | idle => exact .inl ⟨rfl, rfl⟩
  | failed => exact .inr ⟨rfl, _, rfl⟩
  | taken e => exact .inr ⟨rfl, _, rfl⟩

/-- What a transmit leaves behind. -/
structure TxEffect (d : Daemon) (r : Nat × Daemon) : Prop where
  frame : RingFrame d r.2
  csr0 : TxCsr0 d.csr0 r.1 r.2.csr0

theorem txPad_frame {d₀ d : Daemon} (tmd1 : U16) (outsize : Nat) (hf : RingFrame d₀ d) :
    RingFrame d₀ (txPad d tmd1 outsize).1 ∧ (txPad d tmd1 outsize).1.csr0 = d.csr0 := by
  unfold txPad
  split
  · exact ⟨hf.cursors _ _ _, rfl⟩
  · exact ⟨hf, rfl⟩

/-- The chain loop clears TXON exactly when it ends in an error. -/
theorem txChain_effect (tdra tlen : U32) (d₀ d : Daemon) (outsize : Nat)
    (hf : RingFrame d₀ d) (hc : d.csr0 = d₀.csr0) :
    (txChain tdra tlen d outsize).Always fun r => RingFrame d₀ r.2 ∧
      r.2.csr0 = if r.1.err then d₀.csr0 &&& ~~~ CSR0.TXON else d₀.csr0 := by
  -- induction on the room left in `transmitbuffer`, the measure of the loop
  induction hn : MAX_PACKET_SIZE + 1 - outsize using Nat.strong_induction_on
    generalizing d outsize with
  | _ n ih =>
      rw [txChain]
      refine .bind_any fun tmd0 => .bind_any fun tmd1 => .bind_any fun tmd2 =>
        .bind_any fun tmd3 => ?_
      simp only
      split
      · refine .bind_any fun _ => .bind_any fun _ => .pure ⟨?_, ?_⟩
        · exact (hf.cursors _ _ _).setCsr0 _
        · exact (Daemon.csr0_csr0Clr _ _).trans (congrArg (· &&& ~~~ CSR0.TXON) hc)
      · split
        · exact .bind_any fun _ => .bind_any fun _ => .pure ⟨hf.cursors _ _ _, hc⟩
        · rename_i hsize
          refine .bind_any fun bytes => ?_
          set d₁ : Daemon := { d with
            tdrOffset := d.tdrOffset % tlen,
            transmitbuffer := bufWrite d.transmitbuffer outsize bytes } with hd₁
          have hf₁ : RingFrame d₀ d₁ := hf.cursors _ _ _
          obtain ⟨hpf, hpc⟩ := txPad_frame (tmd1 &&& ~~~ TX.OWN)
            (outsize + min (byteCount tmd2) MAX_PACKET_SIZE) hf₁
          have hle := le_txPad d₁ (tmd1 &&& ~~~ TX.OWN)
            (outsize + min (byteCount tmd2) MAX_PACKET_SIZE)
          split
          · exact .pure ⟨hpf.cursors _ _ _, hpc.trans hc⟩
          · have hpos := byteCount_pos tmd2
            have hmax : 0 < MAX_PACKET_SIZE := by decide
            refine .bind_any fun _ => .bind_any fun _ => ?_
            exact ih _ (by omega) _ _ (hpf.cursors _ _ _) (hpc.trans hc) rfl

/-- The tail of `do_transmit` on a chain gathered without error. -/
theorem txFinish_effect (cb : Callback) (addFcs : Bool) (t : TxWalk) (d₀ d : Daemon)
    (hf : RingFrame d₀ d)
    (hc : d.csr0 = if t.err then d₀.csr0 &&& ~~~ CSR0.TXON else d₀.csr0) :
    (txFinish cb addFcs t d).Always fun d' => RingFrame d₀ d' ∧
      (d'.csr0 = d₀.csr0 &&& ~~~ CSR0.TXON ∨ ∃ e : RxExit, d'.csr0 = e.csr0 d₀.csr0) := by
  unfold txFinish
  split
  · rename_i herr
    exact .pure ⟨hf, .inl (by rw [hc, if_pos herr])⟩
  rename_i herr
  rw [if_neg herr] at hc
  split
  · refine .bind_any fun _ => .bind_any fun _ => .pure ⟨hf.setCsr0 _, .inl ?_⟩
    rw [Daemon.csr0_csr0Clr, hc]
  split
  · unfold txLoop
    split
    · exact .bind_any fun _ => .bind_any fun _ => .pure ⟨hf, .inr ⟨.dropped, hc⟩⟩
    · refine .bind_any fun _ => .bind_any fun _ => .bind (gotfunc_effect cb _ _ d) ?_
      intro r hr
      exact .pure ⟨hf.trans hr.frame, .inr ⟨r.1, by rw [hr.csr0, hc]⟩⟩
  · unfold txWire
    simp only
    split
    · exact .bind_any fun _ => .bind_any fun _ => .pure ⟨hf, .inr ⟨.dropped, hc⟩⟩
    · exact .bind_any fun _ => .bind_any fun _ => .bind_any fun _ =>
        .pure ⟨hf.cursors _ _ _, .inr ⟨.dropped, hc⟩⟩

theorem doTransmit_effect (cb : Callback) (d : Daemon) :
    (doTransmit cb d).Always (TxEffect d) := by
  have hidle : ∀ o, TxEffect d (0, { d with tdrOffset := o }) := fun o =>
    ⟨(RingFrame.refl d).cursors _ _ _, .idle⟩
  unfold doTransmit
  split
  · exact .pure (hidle d.tdrOffset)
  split
  · exact .pure (hidle d.tdrOffset)
  refine .bind_any fun s => ?_
  simp only
  split
  · exact .pure (hidle _)
  refine .bind (txChain_effect _ _ d { d with tdrOffset := s.2 } 0
    ((RingFrame.refl d).cursors _ _ _) rfl) fun r hr => ?_
  refine .bind (txFinish_effect cb _ r.1 d r.2 hr.1 hr.2) fun d' hd' => ?_
  refine .bind (rethink_always cb _) fun d'' h => .pure ?_
  subst h
  refine ⟨(hd'.1.setCsr0 _).setCsr0 _, ?_⟩
  simp only [Daemon.csr0_setCsr0, Daemon.csr0_csr0Set]
  obtain h | ⟨e, h⟩ := hd'.2
  · rw [h]
    exact .failed
  · rw [h]
    exact .taken e

end A2065
