import A2065.ReceiveQueue
import A2065.TransmitBuffer

/-!
# Both rings at once

The two queues of the card share the daemon, CSR0 and boardram. A driver keeps
what belongs to reception (the RX ring and its buffers) in a part `R` of
boardram and sends from the rest. Each queue looks at its own part, its own
cursor and its own switch in CSR0 only, and no step of one touches those of
the other, so both stay queues under every interleaving of receptions,
transmissions, the driver's work on both rings and its writes to CSR0.
-/

namespace A2065

open Bits CyclicMem Circular

/-! ## What a transmission leaves of the receiver -/

/-- The receiver's cursor and switch are as they were. -/
structure SameReceiver (d d' : Daemon) : Prop where
  amMode : d'.amMode = d.amMode
  rdrOffset : d'.rdrOffset = d.rdrOffset
  rxon : tst d'.csr0 CSR0.RXON = tst d.csr0 CSR0.RXON

theorem SameReceiver.refl (d : Daemon) : SameReceiver d d := ⟨rfl, rfl, rfl⟩

theorem SameReceiver.trans {a b c : Daemon} (h : SameReceiver a b) (h' : SameReceiver b c) :
    SameReceiver a c :=
  ⟨h'.amMode.trans h.amMode, h'.rdrOffset.trans h.rdrOffset, h'.rxon.trans h.rxon⟩

theorem SameReceiver.clearTxon {d d' : Daemon} (h : SameReceiver d d') :
    SameReceiver d (d'.csr0Clr CSR0.TXON) := by
  refine h.trans ⟨rfl, rfl, ?_⟩
  rw [Daemon.csr0_csr0Clr]
  simp only [CSR0.tst_bits]
  simp [CSR0.masks]

theorem txChain_receiver (tdra tlen : U32) (d₀ d : Daemon) (outsize : Nat)
    (h : SameReceiver d₀ d) :
    (txChain tdra tlen d outsize).Always fun r => SameReceiver d₀ r.2 := by
  -- induction on the room left in `transmitbuffer`, the measure of the loop
  induction hn : MAX_PACKET_SIZE + 1 - outsize using Nat.strong_induction_on
    generalizing d outsize with
  | _ n ih =>
      rw [txChain]
      refine .bind_any fun tmd0 => .bind_any fun tmd1 => .bind_any fun tmd2 =>
        .bind_any fun tmd3 => ?_
      simp only
      split
      · have hcursor : SameReceiver d₀ { d with tdrOffset := d.tdrOffset % tlen } :=
          h.trans ⟨rfl, rfl, rfl⟩
        exact .bind_any fun _ => .bind_any fun _ => .pure hcursor.clearTxon
      · split
        · exact .bind_any fun _ => .bind_any fun _ => .pure (h.trans ⟨rfl, rfl, rfl⟩)
        · refine .bind_any fun bytes => ?_
          set d₁ : Daemon := { d with
            tdrOffset := d.tdrOffset % tlen,
            transmitbuffer := bufWrite d.transmitbuffer outsize bytes }
          have hpad : SameReceiver d₀ (txPad d₁ (tmd1 &&& ~~~ TX.OWN)
              (outsize + min (byteCount tmd2) MAX_PACKET_SIZE)).1 := by
            unfold txPad
            split <;> exact h.trans ⟨rfl, rfl, rfl⟩
          have hle := le_txPad d₁ (tmd1 &&& ~~~ TX.OWN)
            (outsize + min (byteCount tmd2) MAX_PACKET_SIZE)
          split
          · exact .pure (hpad.trans ⟨rfl, rfl, rfl⟩)
          · have hpos := byteCount_pos tmd2
            have hmax : 0 < MAX_PACKET_SIZE := by decide
            refine .bind_any fun _ => .bind_any fun _ => ?_
            exact ih _ (by omega) _ _ (hpad.trans ⟨rfl, rfl, rfl⟩) rfl

/-- Outside loopback the end of `do_transmit` leaves the receiver alone. -/
theorem txFinish_receiver (cb : Callback) (addFcs : Bool) (t : TxWalk) {d₀ d : Daemon}
    (h : SameReceiver d₀ d) (hloop : tst d.amMode MODE.LOOP = false) :
    (txFinish cb addFcs t d).Always (SameReceiver d₀) := by
  rw [txFinish_eq]
  split
  · rw [handOver, if_neg (by simp [hloop])]
    exact .bind_any fun _ => .bind_any fun _ => .bind_any fun _ => .pure (h.trans ⟨rfl, rfl, rfl⟩)
  unfold markRefused
  split
  · exact .pure h
  split
  · exact .bind_any fun _ => .bind_any fun _ => .pure h.clearTxon
  · exact .bind_any fun _ => .bind_any fun _ => .pure h

theorem doTransmit_receiver (cb : Callback) {d : Daemon} (hloop : tst d.amMode MODE.LOOP = false) :
    (doTransmit cb d).Always fun r => SameReceiver d r.2 := by
  unfold doTransmit
  split
  · exact .pure (.refl d)
  split
  · exact .pure (.refl d)
  refine .bind_any fun s => ?_
  simp only
  split
  · exact .pure ⟨rfl, rfl, rfl⟩
  refine .bind (txChain_receiver _ _ d { d with tdrOffset := s.2 } 0 ⟨rfl, rfl, rfl⟩) fun r hr => ?_
  refine .bind (txFinish_receiver cb _ r.1 hr (by rw [hr.amMode]; exact hloop)) fun d' hd' => ?_
  refine .bind (rethink_always cb _) fun d'' h => .pure ?_
  subst h
  refine hd'.trans ⟨rfl, rfl, ?_⟩
  simp only [Daemon.csr0_setCsr0, Daemon.csr0_csr0Set, CSR0.tst_bits, rethinkCsr0_getLsbD]
  simp [CSR0.masks]

/-! ## Buffers of descriptors that are written back -/

/-- Descriptors written back with their addresses and sizes keep their buffers. -/
theorem RingStep.cells_eq {base : U32} {n p : Nat} {S : Set (BitVec 15)} {m m' : BitVec 15 → U8}
    {xs : List Desc} (h : RingStep base n p S m m' xs)
    (hxs : xs.map Desc.cells = (descsFrom m base n p xs.length).map Desc.cells) {i : Nat}
    (hi : i < n) : (descAt m' base i).cells = (descAt m base i).cells := by
  obtain ⟨k, hk, rfl⟩ := exists_slot hi p
  by_cases hlt : k < xs.length
  · have hcells := congrArg (fun l => l[k]?) hxs
    rw [h.descs.get hlt]
    simpa [descsFrom, hlt] using hcells
  · rw [h.others k (Nat.le_of_not_lt hlt) hk]

/-! ## The receiving side -/

namespace RxLink

variable {cb : Callback} {s : RxLink} {q : List (List U8)} {R : Set (BitVec 15)}

/-- The ring and its buffers lie in `R`. -/
structure Inside (R : Set (BitVec 15)) (s : RxLink) : Prop where
  ring : ringCells s.d.amRdrRdra s.rlen ⊆ R
  buffers : ∀ i < s.rlen, (s.desc i).cells ⊆ R

/-- Descriptors that keep their buffers stay inside. -/
theorem Inside.of_cells (hin : s.Inside R) {s' : RxLink} (hf : RingFrame s.d s'.d)
    (hcells : ∀ i < s.rlen, (descAt s'.w.ram.mem s.d.amRdrRdra i).cells = (s.desc i).cells) :
    s'.Inside R := by
  have hrlen : s'.rlen = s.rlen := congrArg BitVec.toNat hf.amRdrRlen
  refine ⟨?_, fun i hi => ?_⟩
  · rw [hrlen, hf.amRdrRdra]
    exact hin.ring
  · rw [hrlen] at hi
    show (descAt s'.w.ram.mem s'.d.amRdrRdra i).cells ⊆ R
    rw [hf.amRdrRdra, hcells i hi]
    exact hin.buffers i hi

/-- The queue survives what happens outside `R`. -/
theorem Inv.foreign (h : s.Inv q) (hin : s.Inside R) {d : Daemon} {w : World}
    (hf : RingFrame s.d d) (hr : SameReceiver s.d d)
    (hmem : Set.EqOn w.ram.mem s.w.ram.mem R) :
    Inv { s with d := d, w := w } q ∧ Inside R { s with d := d, w := w } := by
  obtain ⟨hpos, hlen⟩ := h.rlen_bounds
  have hrdra := hf.amRdrRdra
  have hrlen : d.amRdrRlen.toNat = s.rlen := congrArg BitVec.toNat hf.amRdrRlen
  have hdesc : ∀ i < s.rlen, descAt w.ram.mem s.d.amRdrRdra i = s.desc i := fun i hi =>
    descAt_congr _ hlen hi (hmem.mono hin.ring)
  have hslot : ∀ i < s.rlen,
      rxSlot w.ram.mem s.d.amRdrRdra i = rxSlot s.w.ram.mem s.d.amRdrRdra i := fun i hi =>
    rxSlot_congr (hdesc i hi) ((h.mem.size i hi).trans (by decide))
      (hmem.mono (hin.buffers i hi)) (h.mem.short i hi)
  refine ⟨⟨?_, hr.rxon.trans h.on, ?_, ?_, ?_, ?_, h.kept⟩,
    hin.of_cells hf fun i hi => congrArg Desc.cells (hdesc i hi)⟩
  · show ringAccepted d.amRdrRdra d.amRdrRlen = true
    rw [hrdra, hf.amRdrRlen]
    exact h.ring
  · show RxMem w.ram.mem d.amRdrRdra d.amRdrRlen.toNat
    rw [hrdra, hrlen]
    refine ⟨h.mem.toRxBuffers.congr fun i hi => ?_, fun i hi hown => ?_⟩
    · rw [hdesc i hi]
      exact ⟨rfl, rfl⟩
    · rw [hdesc i hi] at hown ⊢
      exact h.mem.short i hi hown
  · show s.host < d.amRdrRlen.toNat
    rw [hrlen]
    exact h.host_lt
  · show Holds d.amRdrRlen.toNat (rxSlot w.ram.mem d.amRdrRdra) s.host q
    rw [hrlen, hrdra]
    exact h.holds.congr hslot
  · show (d.rdrOffset % d.amRdrRlen).toNat = slot d.amRdrRlen.toNat s.host q.length
    rw [hr.rdrOffset, hf.amRdrRlen]
    exact h.cursor

/-- What a step on the RX ring leaves of the rest. -/
structure Local (R : Set (BitVec 15)) (s s' : RxLink) : Prop where
  frame : RingFrame s.d s'.d
  tdrOffset : s'.d.tdrOffset = s.d.tdrOffset
  txon : tst s'.d.csr0 CSR0.TXON = tst s.d.csr0 CSR0.TXON
  wire : s'.w.wire = s.w.wire
  mem : Set.EqOn s'.w.ram.mem s.w.ram.mem Rᶜ
  inside : s'.Inside R

/-- One descriptor of the ring is written back, and its buffer may be. -/
theorem Inside.ringStep (hin : s.Inside R) (s' : RxLink) (hf : RingFrame s.d s'.d) {p : Nat}
    {y : Desc} {S : Set (BitVec 15)}
    (hs : RingStep s.d.amRdrRdra s.rlen p S s.w.ram.mem s'.w.ram.mem [y])
    (hy : y.cells = (s.desc (slot s.rlen p 0)).cells) (hS : S ⊆ R) :
    Set.EqOn s'.w.ram.mem s.w.ram.mem Rᶜ ∧ s'.Inside R := by
  refine ⟨hs.frame.mono (Set.compl_subset_compl.mpr (Set.union_subset hin.ring hS)),
    hin.of_cells hf fun i hi => hs.cells_eq ?_ hi⟩
  rw [List.map_singleton, hy]
  rfl

theorem txon_exit (e : RxExit) (c : U16) : tst (e.csr0 c) CSR0.TXON = tst c CSR0.TXON := by
  cases e <;> simp only [RxExit.csr0, CSR0.tst_bits, rethinkCsr0_getLsbD] <;> simp [CSR0.masks]

theorem Inv.recv_local (h : s.Inv q) (hin : s.Inside R) {databuf stack : Buf} {len : Nat}
    (hf : s.Fits (.recv databuf len stack)) : Local R s (s.step cb (.recv databuf len stack)) := by
  have heff := always_exec (gotfunc_effect cb databuf len s.d) { s.w with stack := stack }
  have hwire := silent_wire (gotfunc_silent cb databuf len s.d) { s.w with stack := stack }
  suffices hmem : Set.EqOn (s.call cb databuf len stack).2.ram.mem s.w.ram.mem Rᶜ ∧
      (s.step cb (.recv databuf len stack)).Inside R from
    ⟨heff.frame, heff.tdrOffset, (congrArg (tst · CSR0.TXON) heff.csr0).trans (txon_exit _ _),
      hwire, hmem.1, hmem.2⟩
  rcases Nat.lt_or_eq_of_le h.holds.length_le with hlt | hfull
  · obtain ⟨o, -, -, hstep, -⟩ := h.call_delivered cb hf hlt rfl
    have hplace : slot s.rlen (s.host + q.length) 0 = slot s.rlen s.host q.length := by
      rw [slot_add, Nat.add_zero]
    refine hin.ringStep (s.step cb (.recv databuf len stack)) heff.frame hstep ?_ ?_
    · rw [hplace]
      rfl
    · exact hin.buffers _ (slot_lt h.rlen_bounds.1 _ _)
  · obtain ⟨-, hram⟩ := h.call_missed cb hf hfull
    refine ⟨fun c _ => congrArg (fun r => r.mem c) hram, hin.of_cells heff.frame fun i _ => ?_⟩
    exact congrArg (fun r : Boardram => (descAt r.mem s.d.amRdrRdra i).cells) hram

/-- The host's store when it gives a descriptor back. -/
theorem mem_rearm (h : s.Inv q) (v : U16) :
    (s.w.ram.putRamWord (descOff s.d.amRdrRdra (BitVec.ofNat 32 s.host) + 2) v).mem =
      setWord s.w.ram.mem (descCell s.d.amRdrRdra (slot s.rlen s.host 0) 2) v := by
  have hhost := h.host_lt
  have hlen := h.rlen_bounds.2
  have hindex : (BitVec.ofNat 32 s.host).toNat = s.host := by
    rw [BitVec.toNat_ofNat]
    exact Nat.mod_eq_of_lt (by omega)
  have hword := store_desc s.w.ram s.d.amRdrRdra (BitVec.ofNat 32 s.host) 2 v
  rw [hindex] at hword
  rw [slot_zero_of_lt hhost]
  exact hword

theorem Inv.take_local (h : s.Inv q) (hin : s.Inside R) : Local R s (s.step cb .take) := by
  rw [RxLink.step]
  split
  · exact ⟨.refl _, rfl, rfl, rfl, fun _ _ => rfl, hin⟩
  · obtain ⟨hpos, hlen⟩ := h.rlen_bounds
    have hstep := RingStep.storeMd1 s.d.amRdrRdra s.host s.w.ram.mem hlen hpos
      (rearmed (s.desc s.host).md1)
    rw [← mem_rearm h] at hstep
    obtain ⟨hmem, hins⟩ := hin.ringStep { s with
      w.ram := s.w.ram.putRamWord (descOff s.d.amRdrRdra (BitVec.ofNat 32 s.host) + 2)
        (rearmed (s.desc s.host).md1)
      host := (s.host + 1) % s.rlen
      read := s.read ++ [frameAt s.w.ram.mem s.d.amRdrRdra s.host] } (.refl _) hstep rfl
      (Set.empty_subset R)
    exact ⟨.refl _, rfl, rfl, rfl, hmem, hins⟩

theorem Inv.step_local (h : s.Inv q) (hin : s.Inside R) {a : RxStep} (hf : s.Fits a) :
    Local R s (s.step cb a) := by
  cases a with
  | recv databuf len stack => exact h.recv_local hin hf
  | take => exact h.take_local hin

end RxLink

/-! ## The sending side -/

namespace TxLink

variable {cb : Callback} {d : Daemon} {w : World} {s : TxLink} {done : Nat} {past q : List TxFrame}
  {R : Set (BitVec 15)}

/-- The ring and the buffers of the frames not yet reaped lie outside `R`. -/
structure Outside (R : Set (BitVec 15)) (s : TxLink) : Prop where
  ring : Disjoint (ringCells s.tdra s.tlen) R
  buffers : ∀ c, s.reap ≤ c → c < s.fill → Disjoint (s.desc c).cells R

/-- The part of boardram that is not for reception. -/
theorem Outside.eqOn_ring (h : s.Outside R) {m m' : BitVec 15 → U8} (hmem : Set.EqOn m m' Rᶜ) :
    Set.EqOn m m' (ringCells s.tdra s.tlen) :=
  hmem.mono (Set.subset_compl_iff_disjoint_right.mpr h.ring)

/-- The queue survives what happens inside `R`. -/
theorem Inv.foreign (h : Inv d w s done past q) (hout : s.Outside R) {d' : Daemon} {w' : World}
    (hf : RingFrame s.d d') (hcur : d'.tdrOffset = s.d.tdrOffset)
    (hon : tst d'.csr0 CSR0.TXON = tst s.d.csr0 CSR0.TXON) (hwire : w'.wire = s.w.wire)
    (hmem : Set.EqOn w'.ram.mem s.w.ram.mem Rᶜ) :
    Inv d w { s with d := d', w := w' } done past q ∧ Outside R { s with d := d', w := w' } := by
  obtain ⟨hpos, hlen, -⟩ := ringAccepted_iff.mp h.conf.ring
  have htdra : d'.amTdrTdra = s.tdra := hf.amTdrTdra
  have htlen : d'.amTdrTlen.toNat = s.tlen := congrArg BitVec.toNat hf.amTdrTlen
  have hdesc : ∀ c, descAt w'.ram.mem s.tdra (slot s.tlen s.base c) = s.desc c := fun c =>
    descAt_congr _ hlen (slot_lt hpos ..) (hout.eqOn_ring hmem)
  refine ⟨⟨h.conf.of_frame hf (hon.trans h.conf.txon), h.frame.trans hf, ?_, h.reaped, ?_, ?_, ?_,
    h.enqueued, h.processed, hwire.trans h.wire⟩, ?_, ?_⟩
  · show (d'.tdrOffset % d'.amTdrTlen).toNat = slot d'.amTdrTlen.toNat (s.base + done) 0
    rw [hcur, hf.amTdrTlen]
    exact h.cursor
  · show s.fill ≤ s.reap + d'.amTdrTlen.toNat
    rw [htlen]
    exact h.room
  · show Laid w'.ram.mem d'.amTdrTdra d'.amTdrTlen.toNat s.base done s.fill q
    rw [htdra, htlen]
    refine h.laid.congr fun c hdone hfill => ⟨hdesc c, ?_⟩
    obtain ⟨-, -, hsize⟩ := h.laid.desc hdone hfill
    have hdisj := hout.buffers c (h.reaped.trans hdone) hfill
    exact readBlock_congr (hsize.trans (by decide))
      (hmem.mono (Set.subset_compl_iff_disjoint_right.mpr hdisj))
  · show ∀ c, s.fill ≤ c → c < done + d'.amTdrTlen.toNat →
      readyAt w'.ram.mem d'.amTdrTdra (slot d'.amTdrTlen.toNat s.base c) = false
    rw [htdra, htlen]
    intro c hfill hc
    exact (readyAt_congr (hdesc c)).trans (h.free c hfill hc)
  · show Disjoint (ringCells d'.amTdrTdra d'.amTdrTlen.toNat) R
    rw [htdra, htlen]
    exact hout.ring
  · show ∀ c, s.reap ≤ c → c < s.fill →
      Disjoint (descAt w'.ram.mem d'.amTdrTdra (slot d'.amTdrTlen.toNat s.base c)).cells R
    rw [htdra, htlen]
    intro c hreap hfill
    rw [hdesc c]
    exact hout.buffers c hreap hfill

/-- What a step on the TX ring leaves of the rest. -/
structure Local (R : Set (BitVec 15)) (s s' : TxLink) : Prop where
  frame : RingFrame s.d s'.d
  receiver : SameReceiver s.d s'.d
  mem : Set.EqOn s'.w.ram.mem s.w.ram.mem R
  outside : s'.Outside R

/-- The host of the TX ring writes outside `R` and sends from there. -/
def Apart (R : Set (BitVec 15)) (s : TxLink) : TxStep → Prop
  | .prepare ram => Set.EqOn ram.mem s.w.ram.mem R
  | .commit tmd1 more => ∀ c, s.fill ≤ c → c < s.fill + (more + 1) →
      Disjoint (descAt (s.committed tmd1).mem s.tdra (slot s.tlen s.base c)).cells R
  | .reap | .transmit => True

/-- Descriptors of the ring are written back, and nothing else. -/
theorem Outside.ringStep (hout : s.Outside R) (hpos : 0 < s.tlen) (s' : TxLink)
    (hf : RingFrame s.d s'.d) (hbase : s'.base = s.base) {p : Nat} {xs : List Desc}
    (hs : RingStep s.tdra s.tlen p ∅ s.w.ram.mem s'.w.ram.mem xs)
    (hxs : xs.map Desc.cells =
      (descsFrom s.w.ram.mem s.tdra s.tlen p xs.length).map Desc.cells)
    (hqueue : ∀ c, s'.reap ≤ c → c < s'.fill → Disjoint (s.desc c).cells R) :
    Set.EqOn s'.w.ram.mem s.w.ram.mem R ∧ s'.Outside R := by
  have htdra : s'.tdra = s.tdra := hf.amTdrTdra
  have htlen : s'.tlen = s.tlen := congrArg BitVec.toNat hf.amTdrTlen
  refine ⟨hs.eqOn_of_disjoint hout.ring.symm (Set.disjoint_empty _), ?_, fun c hreap hfill => ?_⟩
  · rw [htdra, htlen]
    exact hout.ring
  · rw [desc, htdra, htlen, hbase, hs.cells_eq hxs (slot_lt hpos ..)]
    exact hqueue c hreap hfill

/-- The store that hands a frame over. -/
theorem ringStep_committed (h : Inv d w s done past q) (tmd1 : U16) :
    RingStep s.tdra s.tlen (s.base + s.fill) ∅ s.w.ram.mem (s.committed tmd1).mem
      [{ s.desc s.fill with md1 := tmd1 }] := by
  obtain ⟨hpos, hlen, -⟩ := ringAccepted_iff.mp h.conf.ring
  have hlt : slot s.tlen s.base s.fill < 512 := Nat.lt_of_lt_of_le (slot_lt hpos ..) hlen
  have hindex : (BitVec.ofNat 32 (slot s.tlen s.base s.fill)).toNat = slot s.tlen s.base s.fill :=
    (BitVec.toNat_ofNat ..).trans (Nat.mod_eq_of_lt (by omega))
  have hstore := store_desc s.w.ram s.tdra (BitVec.ofNat 32 (slot s.tlen s.base s.fill)) 2 tmd1
  have hstep := RingStep.storeMd1 s.tdra (s.base + s.fill) s.w.ram.mem hlen hpos tmd1
  rw [hindex] at hstore
  rw [slot_add, Nat.add_zero, ← hstore] at hstep
  exact hstep

theorem Inv.commit_local (h : Inv d w s done past q) (hout : s.Outside R) {tmd1 : U16} {more : Nat}
    (ha : s.Apart R (.commit tmd1 more)) : Local R s (s.step cb (.commit tmd1 more)) := by
  obtain ⟨hpos, -, -⟩ := ringAccepted_iff.mp h.conf.ring
  have hstep := ringStep_committed h tmd1
  have hcells : [{ s.desc s.fill with md1 := tmd1 }].map Desc.cells =
      (descsFrom s.w.ram.mem s.tdra s.tlen (s.base + s.fill) 1).map Desc.cells := by
    rw [descsFrom, List.range_one, List.map_singleton, List.map_singleton, slot_add, Nat.add_zero]
    rfl
  obtain ⟨hmem, hout'⟩ := hout.ringStep hpos (s.step cb (.commit tmd1 more)) (.refl _) rfl
    hstep hcells fun c hreap hfill => by
      by_cases hold : c < s.fill
      · exact hout.buffers c hreap hold
      · have hnew := ha c (Nat.le_of_not_lt hold) hfill
        rwa [hstep.cells_eq hcells (slot_lt hpos ..)] at hnew
  exact ⟨.refl _, .refl _, hmem, hout'⟩

theorem Inv.transmit_local (h : Inv d w s done past q) (hout : s.Outside R) :
    Local R s (s.step cb .transmit) := by
  have hframe : RingFrame s.d (s.call cb).1.2 :=
    (always_exec (doTransmit_effect cb s.d) s.w).frame
  have hreceiver : SameReceiver s.d (s.call cb).1.2 :=
    always_exec (doTransmit_receiver cb h.conf.loop) s.w
  obtain ⟨hpos, -, -⟩ := ringAccepted_iff.mp h.conf.ring
  suffices hmem : Set.EqOn (s.call cb).2.ram.mem s.w.ram.mem R ∧
      (s.step cb .transmit).Outside R from ⟨hframe, hreceiver, hmem.1, hmem.2⟩
  cases q with
  | nil =>
      obtain ⟨o, -, hexec⟩ := h.call_idle cb
      rw [TxLink.step, hexec]
      exact ⟨fun _ _ => rfl, hout.ring, hout.buffers⟩
  | cons f q =>
      obtain ⟨more, hcomplete, -, hq⟩ := h.laid
      have hmore : more + 1 ≤ s.tlen := by
        have hle := hq.le
        have hroom := h.room
        have hreaped := h.reaped
        omega
      obtain ⟨md1, md3, sent, -, hstep, -, -, -, -, -⟩ := doTransmit_wire cb h.conf h.cursor
        hcomplete.ready (hcomplete.chain hmore) (rfl : _ = s.call cb)
      refine hout.ringStep hpos (s.step cb .transmit) hframe rfl hstep ?_ hout.buffers
      rw [List.length_append, List.length_map, length_descsFrom, List.length_singleton,
        descsFrom_succ, List.map_append, List.map_append, List.map_map]
      rfl

theorem Inv.step_local (h : Inv d w s done past q) (hout : s.Outside R) {a : TxStep}
    (hl : s.Legal a) (ha : s.Apart R a) : Local R s (s.step cb a) := by
  cases a with
  | prepare ram =>
      refine ⟨.refl _, .refl _, ha, hout.ring, fun c hreap hfill => ?_⟩
      exact (congrArg (fun x : Desc => Disjoint x.cells R) (hl.1 c hfill hreap).1).mpr
        (hout.buffers c hreap hfill)
  | commit tmd1 more => exact h.commit_local hout ha
  | reap =>
      rw [TxLink.step]
      split
      · exact ⟨.refl _, .refl _, fun _ _ => rfl, hout.ring,
          fun c hreap => hout.buffers c (Nat.le_of_succ_le hreap)⟩
      · exact ⟨.refl _, .refl _, fun _ _ => rfl, hout⟩
  | transmit => exact h.transmit_local hout

end TxLink

/-! ## The card between its two rings -/

/-- The daemon, with the driver's side of both rings. -/
structure Duplex where
  d : Daemon
  w : World
  /-- the next RX descriptor the driver looks at -/
  host : Nat
  read : List (List U8)
  kept : List (List U8)
  base : Nat
  /-- the next TX descriptor the driver fills -/
  fill : Nat
  /-- the next TX descriptor the driver reaps -/
  reap : Nat
  enqueued : List TxFrame
  log : List TxOutcome

/-- What can happen next; the two directions interleave as they like. -/
inductive DuplexStep where
  /-- an accepted frame arrives, or the driver reads one -/
  | rx (a : RxStep)
  /-- the driver works on the TX ring, or the daemon polls it -/
  | tx (a : TxStep)
  /-- a frame that is too short or that the filters refuse -/
  | noise (databuf : Buf) (len : Nat) (stack : Buf)
  /-- the driver writes CSR0 -/
  | csr0 (v : U16)

namespace Duplex

/-- The receive side. -/
def rx (s : Duplex) : RxLink := ⟨s.d, s.w, s.host, s.read, s.kept⟩

/-- The transmit side. -/
def tx (s : Duplex) : TxLink := ⟨s.d, s.w, s.base, s.fill, s.reap, s.enqueued, s.log⟩

/-- The receive side replaced, with the daemon and the world it has in common
with the other. -/
def putRx (s : Duplex) (r : RxLink) : Duplex :=
  { s with d := r.d, w := r.w, host := r.host, read := r.read, kept := r.kept }

/-- The transmit side replaced, in the same way. -/
def putTx (s : Duplex) (t : TxLink) : Duplex :=
  { s with
    d := t.d, w := t.w, base := t.base, fill := t.fill, reap := t.reap, enqueued := t.enqueued
    log := t.log }

/-- CSR0 merged with what is written, before anything is done about it. -/
def merged (s : Duplex) (v : U16) : Duplex :=
  { s with d := s.d.setCsr 0 (csr0Merge s.d.csr0 v) }

/-- The write asks for a transmission. -/
def demands (s : Duplex) (v : U16) : Bool :=
  tst (csr0Merge s.d.csr0 v) CSR0.TDMD && s.d.amInitialized

/-- One step: of one side, or of the card alone. -/
def step (W : Wiring) (s : Duplex) : DuplexStep → Duplex
  | .rx a => s.putRx (s.rx.step W.onInterrupt a)
  | .tx a => s.putTx (s.tx.step W.onInterrupt a)
  | .noise databuf len stack =>
      let r := (gotfunc W.onInterrupt databuf len s.d).exec { s.w with stack := stack }
      { s with d := r.1.2, w := r.2 }
  | .csr0 v =>
      let r := (chipWput W.onInterrupt W.onTransmit A2065_RDP_OFF v s.d).exec s.w
      { s with
        d := r.1
        w := r.2
        -- what `on_transmit` did, if it was called
        log := if s.demands v then ((s.merged v).tx.step W.onInterrupt .transmit).log else s.log }

/-- The steps in turn. -/
def run (W : Wiring) (steps : List DuplexStep) (s : Duplex) : Duplex := steps.foldl (step W) s

/-- The driver keeps to the rules of each ring, keeps reception in `R`, and
its CSR0 writes acknowledge, enable interrupts and demand transmissions. -/
def Legal (R : Set (BitVec 15)) (s : Duplex) : DuplexStep → Prop
  | .rx a => s.rx.Fits a
  | .tx a => s.tx.Legal a ∧ s.tx.Apart R a
  | .noise databuf len stack =>
      len < 20 ∨ rxAccepts s.d (rxFrame s.d stack databuf len) = false
  | .csr0 v => s.d.rap = 0 ∧ v &&& (CSR0.INIT ||| CSR0.STRT ||| CSR0.STOP) = 0

/-- Both sides start at the daemon's cursors. -/
def start (d : Daemon) (w : World) : Duplex where
  d := d
  w := w
  host := d.rdrOffset.toNat % d.amRdrRlen.toNat
  read := []
  kept := []
  base := d.tdrOffset.toNat
  fill := 0
  reap := 0
  enqueued := []
  log := []

/-- Each ring is a queue, in its part of boardram. -/
structure Inv (R : Set (BitVec 15)) (d : Daemon) (w : World) (s : Duplex) : Prop where
  rx : ∃ q, s.rx.Inv q
  inside : s.rx.Inside R
  tx : ∃ done past q, TxLink.Inv d w s.tx done past q
  outside : s.tx.Outside R

variable {W : Wiring} {R : Set (BitVec 15)} {d : Daemon} {w : World} {s : Duplex}

theorem Inv.step_rx (h : s.Inv R d w) {a : RxStep} (hf : s.rx.Fits a) :
    (s.step W (.rx a)).Inv R d w := by
  obtain ⟨q, hrx⟩ := h.rx
  obtain ⟨done, past, queued, htx⟩ := h.tx
  have hlocal : RxLink.Local R s.rx (s.rx.step W.onInterrupt a) := hrx.step_local h.inside hf
  obtain ⟨htx', hout⟩ := htx.foreign h.outside hlocal.frame hlocal.tdrOffset hlocal.txon
    hlocal.wire hlocal.mem
  exact ⟨hrx.step hf, hlocal.inside, ⟨done, past, queued, htx'⟩, hout⟩

theorem Inv.step_tx (h : s.Inv R d w) {a : TxStep} (hl : s.tx.Legal a) (ha : s.tx.Apart R a) :
    (s.step W (.tx a)).Inv R d w := by
  obtain ⟨q, hrx⟩ := h.rx
  obtain ⟨done, past, queued, htx⟩ := h.tx
  have hlocal : TxLink.Local R s.tx (s.tx.step W.onInterrupt a) :=
    htx.step_local h.outside hl ha
  obtain ⟨hrx', hin⟩ := hrx.foreign h.inside hlocal.frame hlocal.receiver hlocal.mem
  exact ⟨⟨q, hrx'⟩, hin, htx.step W.onInterrupt hl, hlocal.outside⟩

/-- A change of the daemon that leaves both engines alone. -/
theorem Inv.idle (h : s.Inv R d w) {d' : Daemon} {w' : World} (hf : RingFrame s.d d')
    (hr : SameReceiver s.d d') (hcur : d'.tdrOffset = s.d.tdrOffset)
    (hon : tst d'.csr0 CSR0.TXON = tst s.d.csr0 CSR0.TXON)
    (hram : w'.ram = s.w.ram) (hwire : w'.wire = s.w.wire) :
    Inv R d w { s with d := d', w := w' } := by
  obtain ⟨q, hrx⟩ := h.rx
  obtain ⟨done, past, queued, htx⟩ := h.tx
  have hmem : ∀ A, Set.EqOn w'.ram.mem s.w.ram.mem A := fun A a _ => by rw [hram]
  obtain ⟨hrx', hin⟩ := hrx.foreign h.inside hf hr (hmem R)
  obtain ⟨htx', hout⟩ := htx.foreign h.outside hf hcur hon hwire (hmem Rᶜ)
  exact ⟨⟨q, hrx'⟩, hin, ⟨done, past, queued, htx'⟩, hout⟩

/-- A frame that is too short or refused is dropped. -/
theorem Inv.noise_exec (h : s.Inv R d w) (cb : Callback) {databuf stack : Buf} {len : Nat}
    (hn : len < 20 ∨ rxAccepts s.d (rxFrame s.d stack databuf len) = false) :
    (gotfunc cb databuf len s.d).exec { s.w with stack := stack } =
      ((.dropped, s.d), { s.w with stack := stack }) := by
  obtain ⟨q, hrx⟩ := h.rx
  have hon : tst s.d.csr0 CSR0.RXON = true := hrx.on
  have hring : ringAccepted s.d.amRdrRdra s.d.amRdrRlen = true := hrx.ring
  unfold gotfunc
  by_cases hlen : len < 20
  · simp [hon, hlen]
  · simp [hon, hlen, hring, hn.resolve_left hlen]

theorem Inv.step_noise (h : s.Inv R d w) {databuf stack : Buf} {len : Nat}
    (hn : len < 20 ∨ rxAccepts s.d (rxFrame s.d stack databuf len) = false) :
    (s.step W (.noise databuf len stack)).Inv R d w := by
  rw [step, h.noise_exec W.onInterrupt hn]
  exact h.idle (.refl _) (.refl _) rfl rfl rfl rfl

/-! ### CSR0 writes -/

/-- Without a command bit the command chain does nothing. -/
theorem csr0Command_plain {v : U16} (hv : v &&& (CSR0.INIT ||| CSR0.STRT ||| CSR0.STOP) = 0)
    (d : Daemon) : csr0Command d.csr0 (d.setCsr 0 (csr0Merge d.csr0 v)) =
      pure (d.setCsr 0 (csr0Merge d.csr0 v)) := by
  have hbit : ∀ i < 3, (csr0Merge d.csr0 v).getLsbD i = d.csr0.getLsbD i := by
    intro i hi
    have hzero := congrArg (·.getLsbD i) hv
    rw [csr0Merge_command _ _ i (by omega)]
    simp only [CSR0.masks, BitVec.getLsbD_and, BitVec.getLsbD_or, BitVec.getLsbD_twoPow] at hzero
    interval_cases i <;> simp_all
  unfold csr0Command
  simp only [Daemon.csr0_setCsr0, CSR0.tst_bits, hbit 0 (by decide), hbit 1 (by decide),
    hbit 2 (by decide)]
  rw [if_neg (by simp), if_neg (by simp +contextual), if_neg (by simp +contextual)]

/-- Acknowledging and dropping TDMD leave the switches alone. -/
theorem switches_rethink (c : U16) : ∀ mask ∈ [CSR0.RXON, CSR0.TXON],
    tst (rethinkCsr0 c) mask = tst c mask ∧
    tst (rethinkCsr0 (c &&& ~~~ CSR0.TDMD)) mask = tst c mask := by
  simp only [List.forall_mem_cons, List.not_mem_nil, false_implies, implies_true, CSR0.tst_bits,
    rethinkCsr0_getLsbD]
  simp [CSR0.masks]

/-- A CSR0 write without a command bit: CSR0 is merged, `do_transmit` called
if there is a demand, and in the end CSR0 recomputed. -/
theorem wputCsr0_plain (W : Wiring) {v : U16} {d : Daemon} (w : World)
    (hv : v &&& (CSR0.INIT ||| CSR0.STRT ||| CSR0.STOP) = 0)
    (hon : tst d.csr0 CSR0.TXON = true) {m : Daemon}
    (hm : d.setCsr 0 (csr0Merge d.csr0 v) = m) {t : Daemon × World}
    (ht : (if tst m.csr0 CSR0.TDMD && m.amInitialized then
      (((doTransmit W.onInterrupt m).exec w).1.2, ((doTransmit W.onInterrupt m).exec w).2)
      else (m, w)) = t) :
    ∃ c w', (c = rethinkCsr0 t.1.csr0 ∨ c = rethinkCsr0 (t.1.csr0 &&& ~~~ CSR0.TDMD)) ∧
      SameMem t.2 w' ∧
      (wputCsr0 W.onInterrupt W.onTransmit v d).exec w = (t.1.setCsr 0 c, w') := by
  have honm : tst m.csr0 CSR0.TXON = true := by
    rw [← hm, Daemon.csr0_setCsr0]
    simp only [CSR0.tst_bits] at hon ⊢
    rw [(csr0Merge_status d.csr0 v).2.1]
    exact hon
  -- after the demand, `rethink` and its callback
  have hend : ∀ (d₁ : Daemon) (w₁ : World), SameMem t.2 w₁ →
      (csr0Demand W.onTransmit m).exec w = (d₁, w₁) →
      ∃ w', SameMem t.2 w' ∧ (wputCsr0 W.onInterrupt W.onTransmit v d).exec w =
        (d₁.setCsr 0 (rethinkCsr0 d₁.csr0), w') := by
    intro d₁ w₁ hw₁ hdemand
    obtain ⟨hval, hsame⟩ := rethink_exec W.onInterrupt d₁ w₁
    refine ⟨((rethink W.onInterrupt d₁).exec w₁).2, ⟨hsame.ram.trans hw₁.ram,
      hsame.wire.trans hw₁.wire, hsame.stack.trans hw₁.stack⟩, ?_⟩
    have hcommand := csr0Command_plain hv d
    rw [hm] at hcommand
    simp only [wputCsr0, hm, hcommand, DProg.exec_bind, DProg.exec_pure, hdemand]
    exact Prod.ext hval rfl
  cases htdmd : tst m.csr0 CSR0.TDMD with
  | false =>
      rw [htdmd] at ht
      subst ht
      obtain ⟨w', hsame, hexec⟩ := hend m w ⟨rfl, rfl, rfl⟩ (by simp [csr0Demand, htdmd])
      exact ⟨_, w', .inl rfl, hsame, hexec⟩
  | true =>
      cases hinit : m.amInitialized with
      | false =>
          rw [htdmd, hinit] at ht
          subst ht
          obtain ⟨w', hsame, hexec⟩ := hend (m.csr0Clr CSR0.TDMD) w ⟨rfl, rfl, rfl⟩
            (by simp [csr0Demand, htdmd, hinit])
          refine ⟨_, w', .inr rfl, hsame, hexec.trans ?_⟩
          rw [Daemon.csr0_csr0Clr, Daemon.csr0Clr, Daemon.setCsr_setCsr]
          rfl
      | true =>
          rw [htdmd, hinit] at ht
          subst ht
          have hdemand : (csr0Demand W.onTransmit m).exec w =
              (((doTransmit W.onInterrupt m).exec w).1.2.csr0Clr CSR0.TDMD,
                (((W.afterTransmit ((doTransmit W.onInterrupt m).exec w).1.1).call
                  ((doTransmit W.onInterrupt m).exec w).1.2).exec
                    ((doTransmit W.onInterrupt m).exec w).2).2) := by
            simp only [csr0Demand, htdmd, hinit, honm, if_true, Wiring.onTransmit,
              DProg.exec_bind, DProg.exec_pure]
          obtain ⟨w', hsame, hexec⟩ := hend _ _ (signals_exec ((W.afterTransmit _).signals _) _)
            hdemand
          refine ⟨_, w', .inr rfl, hsame, hexec.trans ?_⟩
          rw [Daemon.csr0_csr0Clr, Daemon.csr0Clr, Daemon.setCsr_setCsr]
          rfl

theorem Inv.step_csr0 (h : s.Inv R d w) {v : U16} (hrap : s.d.rap = 0)
    (hv : v &&& (CSR0.INIT ||| CSR0.STRT ||| CSR0.STOP) = 0) :
    (s.step W (.csr0 v)).Inv R d w := by
  obtain ⟨done, past, queued, htx⟩ := h.tx
  have hon : tst s.d.csr0 CSR0.TXON = true := htx.conf.txon
  obtain ⟨-, hmerge4, hmerge5, -⟩ := csr0Merge_status s.d.csr0 v
  -- merging changes neither switch
  have hmerged : Inv R d w (s.merged v) := by
    refine h.idle ((RingFrame.refl _).setCsr0 _) ⟨rfl, rfl, ?_⟩ rfl ?_ rfl rfl
    · simp only [Daemon.csr0_setCsr0, CSR0.tst_bits]
      exact hmerge5
    · simp only [Daemon.csr0_setCsr0, CSR0.tst_bits]
      exact hmerge4
  -- then the transmission, if there is one
  obtain ⟨t, ht⟩ : ∃ t, (if s.demands v then (s.merged v).step W (.tx .transmit)
    else s.merged v) = t := ⟨_, rfl⟩
  have hsent : Inv R d w t := by
    rw [← ht]
    split
    · exact hmerged.step_tx trivial trivial
    · exact hmerged
  obtain ⟨c, w', hc, hsame, hexec⟩ := wputCsr0_plain W s.w hv hon rfl (t := (t.d, t.w)) (by
    have hdemand : (tst (s.merged v).d.csr0 CSR0.TDMD && (s.merged v).d.amInitialized) =
        s.demands v := by
      rw [merged, Daemon.csr0_setCsr0]
      rfl
    refine (congrArg (fun b : Bool => ite (b = true) _ _) hdemand).trans ?_
    rw [← ht]
    cases s.demands v <;> rfl)
  have hswitch : ∀ mask ∈ [CSR0.RXON, CSR0.TXON], tst c mask = tst t.d.csr0 mask := by
    intro mask hmask
    rcases hc with rfl | rfl
    · exact (switches_rethink _ mask hmask).1
    · exact (switches_rethink _ mask hmask).2
  have hstep : s.step W (.csr0 v) = { t with d := t.d.setCsr 0 c, w := w' } := by
    have hwput : (chipWput W.onInterrupt W.onTransmit A2065_RDP_OFF v s.d).exec s.w =
        (t.d.setCsr 0 c, w') := by
      rw [← hexec]
      unfold chipWput
      rw [if_neg (by decide), if_neg (by rw [hrap]; decide), if_pos hrap]
    rw [step, hwput, ← ht]
    split <;> rfl
  rw [hstep]
  refine hsent.idle ((RingFrame.refl _).setCsr0 _) ⟨rfl, rfl, ?_⟩ rfl ?_ hsame.ram hsame.wire
  · rw [Daemon.csr0_setCsr0]
    exact hswitch _ (by simp)
  · rw [Daemon.csr0_setCsr0]
    exact hswitch _ (by simp)

theorem Inv.step (h : s.Inv R d w) {a : DuplexStep} (hl : s.Legal R a) :
    (s.step W a).Inv R d w := by
  cases a with
  | rx a => exact h.step_rx hl
  | tx a => exact h.step_tx hl.1 hl.2
  | noise databuf len stack => exact h.step_noise hl
  | csr0 v => exact h.step_csr0 hl.1 hl.2

/-- Where traffic may begin: both engines on, the RX ring armed and in `R`,
the TX ring empty and elsewhere. -/
structure Ready (R : Set (BitVec 15)) (d : Daemon) (w : World) : Prop where
  armed : RxLink.Armed d w
  conf : TxConfigured d
  free : ∀ i < d.amTdrTlen.toNat, readyAt w.ram.mem d.amTdrTdra i = false
  inside : (start d w).rx.Inside R
  apart : Disjoint (ringCells d.amTdrTdra d.amTdrTlen.toNat) R

theorem Ready.inv (h : Ready R d w) : Inv R d w (start d w) where
  rx := ⟨[], h.armed.inv⟩
  inside := h.inside
  tx := ⟨0, [], [], TxLink.inv_start h.conf h.free⟩
  outside := ⟨h.apart, fun _ _ hlt => absurd hlt (Nat.not_lt_zero _)⟩

/-- After every run the queues are as they should be. -/
theorem Ready.queues (h : Ready R d w) (W : Wiring) (steps : List DuplexStep)
    (hs : Watch (Duplex.step W) (Legal R) (start d w) steps) :
    (run W steps (start d w)).rx.IsFifo W.onInterrupt ∧
      (run W steps (start d w)).tx.InOrder W.onInterrupt d w := by
  have hstep : ∀ (s : Duplex) (a : DuplexStep), s.Inv R d w → s.Legal R a →
      (s.step W a).Inv R d w := fun s a hi hl => hi.step hl
  have hend := Watch.preserves hstep h.inv hs
  obtain ⟨q, hrx⟩ := hend.rx
  obtain ⟨done, past, queued, htx⟩ := hend.tx
  exact ⟨hrx.isFifo, htx.inOrder W.onInterrupt⟩

end Duplex

/-- Both rings are lossless queues at once: whatever the order in which frames
arrive, the daemon transmits, the driver fills, empties and reaps descriptors
and writes CSR0, no frame is lost, duplicated or reordered in either
direction, except those reported with MISS. -/
theorem full_duplex (W : Wiring) (R : Set (BitVec 15)) (d : Daemon) (w : World)
    (h : Duplex.Ready R d w) (steps : List DuplexStep)
    (hs : Watch (Duplex.step W) (Duplex.Legal R) (.start d w) steps) :
    (Duplex.run W steps (.start d w)).rx.IsFifo W.onInterrupt ∧
      (Duplex.run W steps (.start d w)).tx.InOrder W.onInterrupt d w :=
  h.queues W steps hs

/-! ### Two small rings -/

/-- Two RX descriptors at the bottom of boardram, two TX descriptors at 0x100. -/
def smallStation : Daemon :=
  { (registersReset .boot).csr0Set (CSR0.RXON ||| CSR0.TXON) with
    amInitialized := true, amRdrRlen := 2, amTdrTlen := 2, amTdrTdra := 0x100 }

/-- Reception has the first 256 cells; the TX descriptors point to 0x200 and
0x240 and are not handed over. -/
def smallStationRam : World :=
  .holding [(0x00, 0x80), (0x02, RX.OWN), (0x04, 0xFFC0), (0x08, 0xC0), (0x0A, RX.OWN),
    (0x0C, 0xFFC0), (0x100, 0x200), (0x104, 0xFFC0), (0x108, 0x240), (0x10C, 0xFFC0),
    (0x200, 0x1234)]

theorem smallStation_ready : Duplex.Ready (block 0 0x100) smallStation smallStationRam where
  armed := ⟨by decide +kernel, by decide +kernel,
    ⟨by decide +kernel, by decide +kernel, by decide +kernel⟩, by decide +kernel⟩
  conf := ⟨by decide +kernel, by decide +kernel, by decide +kernel, by decide +kernel⟩
  free := by decide +kernel
  inside := by
    refine ⟨block_subset (by decide +kernel), fun i hi => block_subset ?_⟩
    have hall : ∀ i < smallStation.amRdrRlen.toNat,
        ((descAt smallStationRam.ram.mem smallStation.amRdrRdra i).start - 0#15).toNat +
          (descAt smallStationRam.ram.mem smallStation.amRdrRdra i).size ≤ 0x100 := by
      decide +kernel
    exact hall i hi
  apart := disjoint_block_iff.mpr (by decide +kernel)

instance (b : BitVec 15) (n : Nat) (s : TxLink) : (a : TxStep) → Decidable (s.Apart (block b n) a)
  | .prepare _ => inferInstanceAs (Decidable (Set.EqOn _ _ (block b n)))
  | .commit tmd1 more => inferInstanceAs (Decidable (∀ c, s.fill ≤ c → c < s.fill + (more + 1) →
      Disjoint (block (descAt (s.committed tmd1).mem s.tdra (slot s.tlen s.base c)).start
        (descAt (s.committed tmd1).mem s.tdra (slot s.tlen s.base c)).size) (block b n)))
  | .reap | .transmit => .isTrue trivial

instance (b : BitVec 15) (n : Nat) (s : Duplex) :
    (a : DuplexStep) → Decidable (s.Legal (block b n) a)
  | .rx a => inferInstanceAs (Decidable (s.rx.Fits a))
  | .tx _ => inferInstanceAs (Decidable (_ ∧ _))
  | .noise _ _ _ => inferInstanceAs (Decidable (_ ∨ _))
  | .csr0 _ => inferInstanceAs (Decidable (_ ∧ _))

/-- A frame comes in and one goes out on demand while another arrives; the
driver acknowledges, reads and reaps in between. -/
theorem full_duplex_small :
    let s := Duplex.run .null
      [.rx (.recv (fun _ => 0xFF) 20 fun _ => 0), .tx (.commit 0x8300 0),
        .csr0 (CSR0.RINT ||| CSR0.TDMD ||| CSR0.INEA), .rx (.recv (fun _ => 0xFF) 21 fun _ => 0),
        .noise (fun _ => 0) 4 fun _ => 0, .rx .take, .tx .reap, .tx .transmit]
      (.start smallStation smallStationRam)
    s.rx.IsFifo .null ∧ s.tx.InOrder .null smallStation smallStationRam :=
  full_duplex .null (block 0 0x100) smallStation smallStationRam smallStation_ready _
    (by decide +kernel)

end A2065
