import A2065.Gather
import A2065.CsrInvariant
import A2065.Lib.Watch

/-!
# The TX ring as a queue

The host fills descriptors in ring order and hands a frame over with the store
that sets OWN on its first descriptor. Both sides count descriptors from where
the daemon's cursor stood: `reap`, the daemon's cursor and `fill` follow each
other, never more than a ring apart, and the frames between the cursor and
`fill` are the queue.
-/

namespace A2065

open Bits CyclicMem Circular

/-! ## Frames and what becomes of them -/

/-- A frame as the host hands it over. -/
structure TxFrame where
  bytes : List U8
  addFcs : Bool
  /-- the index of its last descriptor -/
  place : Nat

/-- Zeros up to the least length of a frame. -/
def TxFrame.padded (f : TxFrame) : List U8 := f.bytes ++ List.replicate (60 - f.bytes.length) 0

/-- The length `ethernet_send` is called with. -/
def transmitlen (d : Daemon) (addFcs : Bool) (outsize : Nat) : Nat :=
  if tst d.amMode MODE.DTCR ∧ ¬ addFcs then outsize - 4 else outsize

/-- What `ethernet_send` gets from `transmitbuffer`. -/
def onWire (d : Daemon) (tb : Buf) (len : Nat) : List U8 :=
  bufTake (mungepacket d.macFakemac d.macRealmac tb len).2 len

/-- What a call that took a frame has done: the frames it sent, and the
descriptor it left last. -/
structure TxOutcome where
  sent : List (List U8)
  place : Nat
  last : Desc

/-- The call took this frame. `tb` is `transmitbuffer` with the frame at its
start; the translation can look behind it. -/
structure Processed (d : Daemon) (f : TxFrame) (o : TxOutcome) : Prop where
  place : o.place = f.place
  fate : ∃ tb : Buf, bufTake tb f.padded.length = f.padded ∧
    if macAt tb 0 = d.fakemac then
      o.sent = [] ∧ tst o.last.md1 TX.ERR = true ∧ tst o.last.md3 TX.RTRY = true
    else o.sent = [onWire d tb (transmitlen d f.addFcs f.padded.length)]

theorem Processed.of_frame {d d' : Daemon} {f : TxFrame} {o : TxOutcome} (h : Processed d' f o)
    (hf : RingFrame d d') : Processed d f o := by
  obtain ⟨hplace, tb, htb, hfate⟩ := h
  refine ⟨hplace, tb, htb, ?_⟩
  unfold onWire transmitlen at hfate ⊢
  rwa [hf.fakemac, hf.macFakemac, hf.macRealmac, hf.amMode] at hfate

/-! ## One call -/

/-- The transmitter is on, outside loopback and without forced collisions. -/
structure TxConfigured (d : Daemon) : Prop where
  txon : tst d.csr0 CSR0.TXON = true
  loop : tst d.amMode MODE.LOOP = false
  coll : tst d.amMode MODE.COLL = false
  ring : ringAccepted d.amTdrTdra d.amTdrTlen = true

theorem TxConfigured.of_frame {d d' : Daemon} (h : TxConfigured d) (hf : RingFrame d d')
    (hon : tst d'.csr0 CSR0.TXON = true) : TxConfigured d' where
  txon := hon
  loop := by rw [hf.amMode]; exact h.loop
  coll := by rw [hf.amMode]; exact h.coll
  ring := by rw [hf.amTdrTdra, hf.amTdrTlen]; exact h.ring

/-- The end of `do_transmit` hands the frame over. -/
def TxWalk.Hands (t : TxWalk) (d : Daemon) : Prop :=
  t.err = false ∧ tst d.amMode MODE.COLL = false ∧
    (tst d.amMode MODE.LOOP = true ∨ 60 ≤ t.outsize ∧ macAt d.transmitbuffer 0 ≠ d.fakemac)

instance TxWalk.decidableHands (t : TxWalk) (d : Daemon) : Decidable (t.Hands d) :=
  inferInstanceAs (Decidable (_ ∧ _ ∧ (_ ∨ _ ∧ _)))

/-- The frame goes to `gotfunc` in loopback, and to the network otherwise. -/
def handOver (cb : Callback) (addFcs : Bool) (t : TxWalk) (d : Daemon) : DProg Daemon :=
  if tst d.amMode MODE.LOOP then do
    let r ← gotfunc cb d.transmitbuffer t.outsize d
    pure r.2
  else do
    ethernetSend (onWire d d.transmitbuffer (transmitlen d addFcs t.outsize))
    pure { d with transmitbuffer :=
      (mungepacket d.macFakemac d.macRealmac d.transmitbuffer
        (transmitlen d addFcs t.outsize)).2 }

/-- No frame is handed over: the descriptor is marked, if the loop has not. -/
def markRefused (t : TxWalk) (d : Daemon) : DProg Daemon :=
  if t.err then pure d
  else if t.outsize < 60 ∧ ¬ tst d.amMode MODE.LOOP then do
    putRamWord t.off 6 (t.tmd3 ||| (TX.BUFF ||| TX.UFLO))
    putRamWord t.off 2 (t.tmd1 ||| TX.ERR)
    pure (d.csr0Clr CSR0.TXON)
  else do
    putRamWord t.off 2 (t.tmd1 ||| TX.ERR)
    putRamWord t.off 6 (t.tmd3 ||| TX.RTRY)
    pure d

/-- The two ways `do_transmit` ends with a chain. -/
theorem txFinish_eq (cb : Callback) (addFcs : Bool) (t : TxWalk) (d : Daemon) :
    txFinish cb addFcs t d = if t.Hands d then do
      putRamWord t.off 2 t.tmd1
      putRamWord t.off 6 t.tmd3
      handOver cb addFcs t d
    else markRefused t d := by
  unfold txFinish markRefused
  by_cases herr : t.err = true
  · have hnot : ¬ t.Hands d := fun h => absurd (herr.symm.trans h.1) (by decide)
    rw [if_pos herr, if_neg hnot, if_pos herr]
  rw [if_neg herr, if_neg herr]
  rw [Bool.not_eq_true] at herr
  by_cases hcoll : tst d.amMode MODE.COLL = true
  · have hnot : ¬ t.Hands d := fun h => absurd (hcoll.symm.trans h.2.1) (by decide)
    have hwire : txWire addFcs t d = txLoop cb t d := by
      rw [txWire, txLoop, if_pos hcoll, if_pos (by simp [hcoll])]
    rw [if_neg hnot, hwire, ite_self, txLoop, if_pos hcoll]
  by_cases hloop : tst d.amMode MODE.LOOP = true
  · have hands : t.Hands d := ⟨herr, by simpa using hcoll, .inl hloop⟩
    rw [if_neg fun h => h.2 hloop, if_pos hloop, txLoop, if_neg hcoll, if_pos hands, handOver,
      if_pos hloop]
  by_cases hshort : t.outsize < 60
  · have hnot : ¬ t.Hands d := fun h => by
      rcases h.2.2 with hl | hl
      · exact hloop hl
      · omega
    rw [if_pos ⟨hshort, hloop⟩, if_neg hnot, if_pos ⟨hshort, hloop⟩]
  have hlong : 60 ≤ t.outsize ∧ 6 ≤ t.outsize := by omega
  rw [if_neg fun h => hshort h.1, if_neg hloop, txWire]
  by_cases hdst : macAt d.transmitbuffer 0 = d.fakemac
  · have hnot : ¬ t.Hands d := fun h => h.2.2.elim hloop fun hl => hl.2 hdst
    rw [if_pos (by simp [hdst, hlong.2]), if_neg hnot, if_neg fun h => hshort h.1]
  · have hands : t.Hands d := ⟨herr, by simpa using hcoll, .inr ⟨hlong.1, hdst⟩⟩
    rw [if_neg (by simp [hcoll, hdst]), if_pos hands, handOver, if_neg hloop]
    rfl

/-- The end of `do_transmit` for a frame that is not for the station itself. -/
theorem txFinish_sends (cb : Callback) (addFcs : Bool) {t : TxWalk} {d : Daemon} (w : World)
    (hd : TxConfigured d) (herr : t.err = false) (hsize : 60 ≤ t.outsize)
    (hdst : macAt d.transmitbuffer 0 ≠ d.fakemac) :
    (txFinish cb addFcs t d).exec w =
      ({ d with transmitbuffer := (mungepacket d.macFakemac d.macRealmac d.transmitbuffer
          (transmitlen d addFcs t.outsize)).2 },
        { w with
          ram := (w.ram.putRamWord (t.off + 2) t.tmd1).putRamWord (t.off + 6) t.tmd3
          wire := w.wire ++ [onWire d d.transmitbuffer (transmitlen d addFcs t.outsize)] }) := by
  have hands : t.Hands d := ⟨herr, hd.coll, .inr ⟨hsize, hdst⟩⟩
  rw [txFinish_eq, if_pos hands, handOver, if_neg (by simp [hd.loop])]
  simp only [DProg.exec_bind, exec_putRamWord, exec_ethernetSend, DProg.exec_pure]

/-- The end of `do_transmit` outside loopback: TMD1 and TMD3 are written back
and the frame is sent, or both are marked. -/
theorem txFinish_wire (cb : Callback) (addFcs : Bool) {t : TxWalk} {d : Daemon} (w : World)
    (hd : TxConfigured d) (herr : t.err = false) (hsize : 60 ≤ t.outsize) :
    ∃ (md1 md3 : U16) (tb : Buf) (sent : List (List U8)),
      (txFinish cb addFcs t d).exec w = ({ d with transmitbuffer := tb }, { w with
        ram := (w.ram.putRamWord (t.off + 2) md1).putRamWord (t.off + 6) md3
        wire := w.wire ++ sent }) ∧
      tst md1 TX.OWN = tst t.tmd1 TX.OWN ∧
      if macAt d.transmitbuffer 0 = d.fakemac then
        sent = [] ∧ tst md1 TX.ERR = true ∧ tst md3 TX.RTRY = true
      else sent = [onWire d d.transmitbuffer (transmitlen d addFcs t.outsize)] := by
  by_cases hdst : macAt d.transmitbuffer 0 = d.fakemac
  · refine ⟨t.tmd1 ||| TX.ERR, t.tmd3 ||| TX.RTRY, d.transmitbuffer, [], ?_, ?_, ?_⟩
    · have hnot : ¬ t.Hands d := fun h => h.2.2.elim (by simp [hd.loop]) fun hl => hl.2 hdst
      rw [txFinish_eq, if_neg hnot, markRefused, if_neg (by simp [herr]), if_neg (by omega)]
      simp only [DProg.exec_bind, exec_putRamWord, DProg.exec_pure, List.append_nil]
    · simp only [TX.masks, tst_twoPow, getLsbD_or_twoPow]
      simp
    · rw [if_pos hdst]
      simp only [TX.masks, tst_twoPow, getLsbD_or_twoPow]
      simp
  · exact ⟨t.tmd1, t.tmd3, _, _, txFinish_sends cb addFcs w hd herr hsize hdst, rfl,
      (if_neg hdst).mpr rfl⟩

theorem txon_tint {c : U16} (h : tst c CSR0.TXON = true) :
    tst (rethinkCsr0 (c ||| CSR0.TINT)) CSR0.TXON = true := by
  simp only [CSR0.tst_bits, rethinkCsr0_getLsbD, BitVec.getLsbD_or] at h ⊢
  simp [h]

theorem TxFrame.length_padded (f : TxFrame) :
    f.padded.length = f.bytes.length + (60 - f.bytes.length) := by
  rw [padded, List.length_append, List.length_replicate]

theorem paddedSize_wire {d : Daemon} (h : tst d.amMode MODE.LOOP = false) (f : TxFrame) :
    paddedSize d f.bytes.length = f.padded.length := by
  rw [f.length_padded, paddedSize]
  by_cases hlt : f.bytes.length < 60
  · rw [if_pos ⟨hlt, by simp [h]⟩]
    omega
  · rw [if_neg fun hc => hlt hc.1]
    omega

/-- What the chain loop has gathered and padded outside loopback. -/
theorem padded_gathered {d : Daemon} (h : tst d.amMode MODE.LOOP = false) {m : BitVec 15 → U8}
    {xs : List Desc} {f : TxFrame} (hf : f.bytes = gathered m xs) :
    paddedSize d (capacity xs) = f.padded.length ∧
      gathered m xs ++ List.replicate (paddedSize d (capacity xs) - capacity xs) 0 = f.padded := by
  have hsize : paddedSize d (capacity xs) = f.padded.length := by
    rw [← length_gathered m, ← hf, paddedSize_wire h]
  refine ⟨hsize, ?_⟩
  rw [hsize, f.length_padded, ← length_gathered m xs, ← hf, Nat.add_sub_cancel_left, TxFrame.padded]

theorem TxFrame.le_length_padded (f : TxFrame) : 60 ≤ f.padded.length := by
  rw [f.length_padded]
  omega

/-- `do_transmit` takes the frame at its cursor. -/
theorem doTransmit_wire (cb : Callback) {d : Daemon} {w : World} {p : Nat} {init : List Desc}
    {last : Desc} (hd : TxConfigured d)
    (hp : (d.tdrOffset % d.amTdrTlen).toNat = slot d.amTdrTlen.toNat p 0)
    (hready : readyAt w.ram.mem d.amTdrTdra (slot d.amTdrTlen.toNat p 0) = true)
    (h : TxChain w.ram.mem d.amTdrTdra d.amTdrTlen.toNat p init last)
    {r : (Nat × Daemon) × World} (hr : (doTransmit cb d).exec w = r) :
    ∃ (md1 md3 : U16) (sent : List (List U8)), tst md1 TX.OWN = false ∧
      RingStep d.amTdrTdra d.amTdrTlen.toNat p ∅ w.ram.mem r.2.ram.mem
        (init.map Desc.release ++ [{ last with md1 := md1, md3 := md3 }]) ∧
      r.1.1 = 1 ∧ r.1.2.tdrOffset.toNat = slot d.amTdrTlen.toNat p init.length + 1 ∧
      tst r.1.2.csr0 CSR0.TXON = true ∧ r.2.wire = w.wire ++ sent ∧
      Processed d ⟨gathered w.ram.mem (init ++ [last]),
          tst (descAt w.ram.mem d.amTdrTdra (slot d.amTdrTlen.toNat p 0)).md1 TX.ADD_FCS,
          slot d.amTdrTlen.toNat p init.length⟩
        ⟨sent, slot d.amTdrTlen.toNat p init.length, { last with md1 := md1, md3 := md3 }⟩ := by
  obtain ⟨hpos, hlen, -⟩ := ringAccepted_iff.mp hd.ring
  obtain ⟨o, ram, tb, ho, htake, hstep, hexec⟩ := doTransmit_chain cb (k := 0) hd.txon hd.ring hp
    hpos (fun j hj => absurd hj (Nat.not_lt_zero j)) hready h
  rw [hr] at hexec
  generalize hf : TxFrame.mk (gathered w.ram.mem (init ++ [last]))
    (tst (descAt w.ram.mem d.amTdrTdra (slot d.amTdrTlen.toNat p 0)).md1 TX.ADD_FCS)
    (slot d.amTdrTlen.toNat p init.length) = f
  have hbytes : f.bytes = gathered w.ram.mem (init ++ [last]) := by rw [← hf]
  have hfcs : f.addFcs =
      tst (descAt w.ram.mem d.amTdrTdra (slot d.amTdrTlen.toNat p 0)).md1 TX.ADD_FCS := by rw [← hf]
  have hplace : f.place = slot d.amTdrTlen.toNat p init.length := by rw [← hf]
  obtain ⟨hsize, hpadded⟩ := padded_gathered hd.loop hbytes
  rw [Nat.add_zero] at ho hstep
  rw [hpadded, hsize] at htake
  rw [hsize, ← hfcs] at hexec
  obtain ⟨md1, md3, tb', sent, hfin, hown, hfate⟩ := txFinish_wire cb f.addFcs
    (t := ⟨descOff d.amTdrTdra o, last.release.md1, last.md3, f.padded.length, false⟩)
    (d := { d with tdrOffset := o + 1, transmitbuffer := tb }) { w with ram := ram }
    ⟨hd.txon, hd.loop, hd.coll, hd.ring⟩ rfl f.le_length_padded
  obtain ⟨hval, hsame⟩ := txTail_exec cb _ _ hfin
  rw [← hexec] at hval hsame
  have hring := h.finish hlen hstep md1 md3
  rw [← ho, ← mem_store_status] at hring
  refine ⟨md1, md3, sent, hown.trans (own_release last), ?_, by rw [hval], ?_, ?_, hsame.wire,
    hplace.symm, tb, htake, hfate⟩
  · rw [hsame.ram]
    exact hring
  · have hlt := slot_lt hpos p init.length
    rw [hval]
    exact (BitVec.toNat_add ..).trans (by rw [ho]; exact Nat.mod_eq_of_lt (by simp; omega))
  · rw [hval, Daemon.csr0_setCsr0]
    exact txon_tint hd.txon

/-! ## Frames in the ring -/

/-- The `k` descriptors from place `p` on. -/
def descsFrom (m : BitVec 15 → U8) (tdra : U32) (n p k : Nat) : List Desc :=
  (List.range k).map fun j => descAt m tdra (slot n p j)

/-- From place `p` on stands a complete frame over `more + 1` descriptors. -/
structure Complete (m : BitVec 15 → U8) (tdra : U32) (n p more : Nat) : Prop where
  own : ∀ j < more + 1, tst (descAt m tdra (slot n p j)).md1 TX.OWN = true
  stp : ∀ j < more + 1, tst (descAt m tdra (slot n p j)).md1 TX.STP = decide (j = 0)
  enp : ∀ j < more + 1, tst (descAt m tdra (slot n p j)).md1 TX.ENP = decide (j = more)
  buffers : ∀ j < more + 1, Disjoint (descAt m tdra (slot n p j)).cells (ringCells tdra n)
  size : capacity (descsFrom m tdra n p (more + 1)) ≤ MAX_PACKET_SIZE

instance Complete.decidable (m : BitVec 15 → U8) (tdra : U32) (n p more : Nat) :
    Decidable (Complete m tdra n p more) :=
  decidable_of_iff
    ((∀ j < more + 1, tst (descAt m tdra (slot n p j)).md1 TX.OWN = true) ∧
      (∀ j < more + 1, tst (descAt m tdra (slot n p j)).md1 TX.STP = decide (j = 0)) ∧
      (∀ j < more + 1, tst (descAt m tdra (slot n p j)).md1 TX.ENP = decide (j = more)) ∧
      (∀ j < more + 1, Disjoint (descAt m tdra (slot n p j)).cells (ringCells tdra n)) ∧
      capacity (descsFrom m tdra n p (more + 1)) ≤ MAX_PACKET_SIZE)
    ⟨fun ⟨h₁, h₂, h₃, h₄, h₅⟩ => ⟨h₁, h₂, h₃, h₄, h₅⟩,
      fun h => ⟨h.own, h.stp, h.enp, h.buffers, h.size⟩⟩

/-- The frame that stands there. -/
def frameFrom (m : BitVec 15 → U8) (tdra : U32) (n p more : Nat) : TxFrame where
  bytes := gathered m (descsFrom m tdra n p (more + 1))
  addFcs := tst (descAt m tdra (slot n p 0)).md1 TX.ADD_FCS
  place := slot n p more

/-- The descriptors numbered `done`, ..., `fill - 1` from `base` on are taken
up by the frames `q`. -/
def Laid (m : BitVec 15 → U8) (tdra : U32) (n base : Nat) : Nat → Nat → List TxFrame → Prop
  | done, fill, [] => done = fill
  | done, fill, f :: q => ∃ more, Complete m tdra n (base + done) more ∧
      frameFrom m tdra n (base + done) more = f ∧ Laid m tdra n base (done + (more + 1)) fill q

section Layout

variable {m m' : BitVec 15 → U8} {tdra : U32} {n base p more done fill : Nat} {q : List TxFrame}

theorem descsFrom_succ (m : BitVec 15 → U8) (tdra : U32) (n p k : Nat) :
    descsFrom m tdra n p (k + 1) = descsFrom m tdra n p k ++ [descAt m tdra (slot n p k)] := by
  rw [descsFrom, List.range_succ, List.map_append]
  rfl

theorem mem_descsFrom {k : Nat} {x : Desc} :
    x ∈ descsFrom m tdra n p k ↔ ∃ j < k, descAt m tdra (slot n p j) = x := by
  simp [descsFrom]

@[simp] theorem length_descsFrom (m : BitVec 15 → U8) (tdra : U32) (n p k : Nat) :
    (descsFrom m tdra n p k).length = k := by
  simp [descsFrom]

theorem descsAt_descsFrom (m : BitVec 15 → U8) (tdra : U32) (n p k : Nat) :
    DescsAt m tdra n p (descsFrom m tdra n p k) := by
  induction k with
  | zero => exact trivial
  | succ k ih =>
      rw [descsFrom_succ, descsAt_append]
      refine ⟨ih, ?_, trivial⟩
      rw [length_descsFrom, slot_add, Nat.add_zero]

theorem descsFrom_congr {k : Nat}
    (hd : ∀ j < k, descAt m' tdra (slot n p j) = descAt m tdra (slot n p j)) :
    descsFrom m' tdra n p k = descsFrom m tdra n p k :=
  List.map_congr_left fun j hj => hd j (List.mem_range.mp hj)

namespace Complete

theorem chain (h : Complete m tdra n p more) (hn : more + 1 ≤ n) :
    TxChain m tdra n p (descsFrom m tdra n p more) (descAt m tdra (slot n p more)) where
  descs := by
    rw [← descsFrom_succ]
    exact descsAt_descsFrom ..
  length_le := by rwa [length_descsFrom]
  own x hx := by
    rw [← descsFrom_succ] at hx
    obtain ⟨j, hj, rfl⟩ := mem_descsFrom.mp hx
    exact h.own j hj
  enp x hx := by
    obtain ⟨j, hj, rfl⟩ := mem_descsFrom.mp hx
    rw [h.enp j (by omega)]
    exact decide_eq_false (Nat.ne_of_lt hj)
  last_enp := by
    rw [h.enp more (Nat.lt_succ_self more)]
    exact decide_eq_true rfl
  size := by
    rw [← descsFrom_succ]
    exact h.size
  buffers x hx := by
    rw [← descsFrom_succ] at hx
    obtain ⟨j, hj, rfl⟩ := mem_descsFrom.mp hx
    exact h.buffers j hj

theorem ready (h : Complete m tdra n p more) : readyAt m tdra (slot n p 0) = true := by
  rw [readyAt, txReady, h.own 0 (Nat.succ_pos more), h.stp 0 (Nat.succ_pos more)]
  rfl

theorem congr (h : Complete m tdra n p more)
    (hd : ∀ j < more + 1, descAt m' tdra (slot n p j) = descAt m tdra (slot n p j)) :
    Complete m' tdra n p more where
  own j hj := by rw [hd j hj]; exact h.own j hj
  stp j hj := by rw [hd j hj]; exact h.stp j hj
  enp j hj := by rw [hd j hj]; exact h.enp j hj
  buffers j hj := by rw [hd j hj]; exact h.buffers j hj
  size := by rw [descsFrom_congr hd]; exact h.size

end Complete

theorem frameFrom_congr
    (hd : ∀ j < more + 1, descAt m' tdra (slot n p j) = descAt m tdra (slot n p j))
    (hb : ∀ j < more + 1, (descAt m tdra (slot n p j)).bytes m' =
      (descAt m tdra (slot n p j)).bytes m) :
    frameFrom m' tdra n p more = frameFrom m tdra n p more := by
  have hbytes : gathered m' (descsFrom m tdra n p (more + 1)) =
      gathered m (descsFrom m tdra n p (more + 1)) := by
    refine List.flatMap_congr fun x hx => ?_
    obtain ⟨j, hj, rfl⟩ := mem_descsFrom.mp hx
    exact hb j hj
  rw [frameFrom, frameFrom, descsFrom_congr hd, hd 0 (Nat.succ_pos more), hbytes]

namespace Laid

theorem le (h : Laid m tdra n base done fill q) : done ≤ fill := by
  induction q generalizing done with
  | nil => exact Nat.le_of_eq h
  | cons f q ih =>
      obtain ⟨more, -, -, hq⟩ := h
      have := ih hq
      omega

/-- Each descriptor of the queue is owned by the chip, and its buffer is
outside the ring. -/
theorem desc (h : Laid m tdra n base done fill q) {c : Nat} (hd : done ≤ c) (hf : c < fill) :
    tst (descAt m tdra (slot n base c)).md1 TX.OWN = true ∧
      Disjoint (descAt m tdra (slot n base c)).cells (ringCells tdra n) ∧
      (descAt m tdra (slot n base c)).size ≤ MAX_PACKET_SIZE := by
  induction q generalizing done with
  | nil =>
      have hdf : done = fill := h
      omega
  | cons f q ih =>
      obtain ⟨more, hc, -, hq⟩ := h
      by_cases hlt : c < done + (more + 1)
      · obtain ⟨j, rfl⟩ := Nat.exists_eq_add_of_le hd
        have hj : j < more + 1 := by omega
        rw [← slot_add]
        exact ⟨hc.own j hj, hc.buffers j hj,
          (size_le_capacity (mem_descsFrom.mpr ⟨j, hj, rfl⟩)).trans hc.size⟩
      · exact ih hq (Nat.le_of_not_lt hlt)

/-- The queue is a function of its descriptors and their buffers. -/
theorem congr (h : Laid m tdra n base done fill q)
    (hd : ∀ c, done ≤ c → c < fill →
      descAt m' tdra (slot n base c) = descAt m tdra (slot n base c) ∧
      (descAt m tdra (slot n base c)).bytes m' = (descAt m tdra (slot n base c)).bytes m) :
    Laid m' tdra n base done fill q := by
  induction q generalizing done with
  | nil => exact h
  | cons f q ih =>
      obtain ⟨more, hc, rfl, hq⟩ := h
      have hle := hq.le
      have hj : ∀ j < more + 1,
          descAt m' tdra (slot n (base + done) j) = descAt m tdra (slot n (base + done) j) ∧
          (descAt m tdra (slot n (base + done) j)).bytes m' =
            (descAt m tdra (slot n (base + done) j)).bytes m := by
        intro j hj
        rw [slot_add]
        exact hd _ (Nat.le_add_right ..) (by omega)
      refine ⟨more, hc.congr fun j h => (hj j h).1, ?_, ih hq fun c hdc => hd c (by omega)⟩
      exact frameFrom_congr (fun j h => (hj j h).1) fun j h => (hj j h).2

/-- A change to other descriptors of the ring. -/
theorem ringStep (h : Laid m tdra n base done fill q) {a : Nat} {xs : List Desc}
    (hs : RingStep tdra n (base + a) ∅ m m' xs)
    (hc : ∀ c, done ≤ c → c < fill →
      a + xs.length ≤ c ∧ c < a + n ∨ a + xs.length ≤ c + n ∧ c < a) :
    Laid m' tdra n base done fill q := by
  refine h.congr fun c hd hf => ⟨hs.kept (hc c hd hf), ?_⟩
  obtain ⟨-, hdisj, hsize⟩ := h.desc hd hf
  exact readBlock_congr (hsize.trans (by decide))
    (hs.eqOn_of_disjoint hdisj (Set.disjoint_empty _))

/-- A frame is added behind the queue. -/
theorem snoc (h : Laid m tdra n base done fill q) (hc : Complete m tdra n (base + fill) more) :
    Laid m tdra n base done (fill + (more + 1)) (q ++ [frameFrom m tdra n (base + fill) more]) := by
  induction q generalizing done with
  | nil =>
      obtain rfl : done = fill := h
      exact ⟨more, hc, rfl, rfl⟩
  | cons f q ih =>
      obtain ⟨k, hk, hf, hq⟩ := h
      exact ⟨k, hk, hf, ih hq⟩

end Laid

end Layout

/-! ## The link -/

/-- The daemon and a host that fills its TX ring. Descriptors are numbered
from the place where the daemon's cursor stood. -/
structure TxLink where
  d : Daemon
  w : World
  base : Nat
  /-- the next descriptor the host fills -/
  fill : Nat
  /-- the next descriptor the host reaps -/
  reap : Nat
  enqueued : List TxFrame
  log : List TxOutcome

/-- What can happen next. -/
inductive TxStep where
  /-- the host writes to descriptors it has reaped, or elsewhere -/
  | prepare (ram : Boardram)
  /-- the store to TMD1 that completes a frame over `more + 1` descriptors -/
  | commit (tmd1 : U16) (more : Nat)
  | reap
  | transmit

namespace TxLink

/-- The length of the ring. -/
abbrev tlen (s : TxLink) : Nat := s.d.amTdrTlen.toNat

/-- Where the ring lies. -/
abbrev tdra (s : TxLink) : U32 := s.d.amTdrTdra

/-- The descriptor of count `c`, which the host fills or has filled. -/
abbrev desc (s : TxLink) (c : Nat) : Desc := descAt s.w.ram.mem s.tdra (slot s.tlen s.base c)

/-- Boardram after TMD1 of the descriptor at `fill` is stored. -/
def committed (s : TxLink) (tmd1 : U16) : Boardram :=
  s.w.ram.putRamWord (descOff s.tdra (BitVec.ofNat 32 (slot s.tlen s.base s.fill)) + 2) tmd1

/-- The daemon polls the ring. -/
def call (cb : Callback) (s : TxLink) : (Nat × Daemon) × World := (doTransmit cb s.d).exec s.w

/-- Read off the socket and off the descriptor before the cursor. -/
def outcome (s : TxLink) (r : (Nat × Daemon) × World) : TxOutcome where
  sent := r.2.wire.drop s.w.wire.length
  place := r.1.2.tdrOffset.toNat - 1
  last := descAt r.2.ram.mem s.tdra (r.1.2.tdrOffset.toNat - 1)

/-- The state a call leaves. -/
def after (s : TxLink) (r : (Nat × Daemon) × World) : TxLink :=
  { s with
    d := r.1.2
    w := r.2
    log := if r.1.1 = 1 then s.log ++ [s.outcome r] else s.log }

/-- One step. -/
def step (cb : Callback) (s : TxLink) : TxStep → TxLink
  | .prepare ram => { s with w.ram := ram }
  | .commit tmd1 more =>
      { s with
        w.ram := s.committed tmd1
        fill := s.fill + (more + 1)
        enqueued := s.enqueued ++
          [frameFrom (s.committed tmd1).mem s.tdra s.tlen (s.base + s.fill) more] }
  | .reap =>
      if s.reap < s.fill ∧ ¬ tst (s.desc s.reap).md1 TX.OWN then { s with reap := s.reap + 1 }
      else s
  | .transmit => s.after (s.call cb)

/-- The steps in turn. -/
def run (cb : Callback) (steps : List TxStep) (s : TxLink) : TxLink := steps.foldl (step cb) s

/-- The host leaves alone what it has not reaped, and OWN of the first
descriptor of a frame is set last. -/
def Legal (s : TxLink) : TxStep → Prop
  | .prepare ram =>
      (∀ c < s.fill, s.reap ≤ c → descAt ram.mem s.tdra (slot s.tlen s.base c) = s.desc c ∧
        (s.desc c).bytes ram.mem = (s.desc c).bytes s.w.ram.mem) ∧
      ∀ c < s.reap + s.tlen, s.fill ≤ c →
        readyAt ram.mem s.tdra (slot s.tlen s.base c) = false
  | .commit tmd1 more => s.fill + (more + 1) ≤ s.reap + s.tlen ∧
      Complete (s.committed tmd1).mem s.tdra s.tlen (s.base + s.fill) more
  | .reap | .transmit => True

instance (s : TxLink) : (a : TxStep) → Decidable (s.Legal a)
  | .prepare _ | .commit _ _ => inferInstanceAs (Decidable (_ ∧ _))
  | .reap | .transmit => .isTrue trivial

/-- The host fills from where the daemon is going to look. -/
def start (d : Daemon) (w : World) : TxLink := ⟨d, w, d.tdrOffset.toNat, 0, 0, [], []⟩

/-- The frames were taken in the order they were enqueued, each once; with
frames queued a call takes one, and otherwise it changes nothing. -/
structure InOrder (cb : Callback) (d : Daemon) (w : World) (s : TxLink) : Prop where
  length_le : s.log.length ≤ s.enqueued.length
  processed : List.Forall₂ (Processed d) (s.enqueued.take s.log.length) s.log
  wire : s.w.wire = w.wire ++ s.log.flatMap TxOutcome.sent
  busy : s.log.length < s.enqueued.length → (s.call cb).1.1 = 1
  idle : s.log.length = s.enqueued.length → (s.call cb).1.1 = 0 ∧
    (s.call cb).2.ram = s.w.ram ∧ (s.call cb).1.2.csr0 = s.d.csr0

/-! ## The invariant -/

/-- `done` descriptors are behind the cursor, with the frames `past`; the
frames `q` follow, up to `fill`, and nothing else in the ring is ready. -/
structure Inv (d : Daemon) (w : World) (s : TxLink) (done : Nat) (past q : List TxFrame) :
    Prop where
  conf : TxConfigured s.d
  frame : RingFrame d s.d
  cursor : (s.d.tdrOffset % s.d.amTdrTlen).toNat = slot s.tlen (s.base + done) 0
  reaped : s.reap ≤ done
  room : s.fill ≤ s.reap + s.tlen
  laid : Laid s.w.ram.mem s.tdra s.tlen s.base done s.fill q
  free : ∀ c, s.fill ≤ c → c < done + s.tlen →
    readyAt s.w.ram.mem s.tdra (slot s.tlen s.base c) = false
  enqueued : s.enqueued = past ++ q
  processed : List.Forall₂ (Processed d) past s.log
  wire : s.w.wire = w.wire ++ s.log.flatMap TxOutcome.sent

section Steps

variable (cb : Callback) {d : Daemon} {w : World} {s : TxLink} {done : Nat} {past q : List TxFrame}

theorem inv_start (hd : TxConfigured d)
    (hfree : ∀ i < d.amTdrTlen.toNat, readyAt w.ram.mem d.amTdrTdra i = false) :
    Inv d w (start d w) 0 [] [] := by
  obtain ⟨hpos, -, -⟩ := ringAccepted_iff.mp hd.ring
  refine ⟨hd, .refl d, BitVec.toNat_umod .., Nat.le_refl 0, Nat.zero_le _, rfl, ?_, rfl, .nil, ?_⟩
  · intro c _ _
    exact hfree _ (slot_lt hpos _ _)
  · exact (List.append_nil _).symm

theorem Inv.prepare (h : Inv d w s done past q) {ram : Boardram} (hl : s.Legal (.prepare ram)) :
    Inv d w (s.step cb (.prepare ram)) done past q := by
  obtain ⟨hkeep, hready⟩ := hl
  have hreaped := h.reaped
  have hle := h.laid.le
  refine ⟨h.conf, h.frame, h.cursor, hreaped, h.room, ?_, ?_, h.enqueued, h.processed, h.wire⟩
  · exact h.laid.congr fun c hd hf => hkeep c hf (by omega)
  · intro c hc hcn
    have hcn' : c < done + s.tlen := hcn
    by_cases hr : c < s.reap + s.tlen
    · exact hready c hr hc
    · -- the descriptor was taken by the daemon and is not reaped yet
      have hsame := (hkeep (c - s.tlen) (by omega) (by omega)).1
      rw [desc, slot_sub_size s.base (by omega)] at hsame
      exact (readyAt_congr hsame).trans (h.free c hc hcn)

theorem Inv.commit (h : Inv d w s done past q) {tmd1 : U16} {more : Nat}
    (hl : s.Legal (.commit tmd1 more)) :
    ∃ q', Inv d w (s.step cb (.commit tmd1 more)) done past q' := by
  obtain ⟨hroom, hcomplete⟩ := hl
  obtain ⟨hpos, hlen, -⟩ := ringAccepted_iff.mp h.conf.ring
  have hreaped := h.reaped
  have hle := h.laid.le
  have hstep : RingStep s.tdra s.tlen (s.base + s.fill) ∅ s.w.ram.mem (s.committed tmd1).mem
      [{ s.desc s.fill with md1 := tmd1 }] := by
    have hlt : slot s.tlen s.base s.fill < 512 := Nat.lt_of_lt_of_le (slot_lt hpos ..) hlen
    have hidx : (BitVec.ofNat 32 (slot s.tlen s.base s.fill)).toNat = slot s.tlen s.base s.fill :=
      (BitVec.toNat_ofNat ..).trans (Nat.mod_eq_of_lt (by omega))
    have hmem : (s.committed tmd1).mem = setWord s.w.ram.mem
        (descCell s.tdra (slot s.tlen s.base s.fill) 2) tmd1 := by
      have hstore := store_desc s.w.ram s.tdra (BitVec.ofNat 32 (slot s.tlen s.base s.fill)) 2 tmd1
      rwa [hidx] at hstore
    have hmd1 := RingStep.storeMd1 s.tdra (s.base + s.fill) s.w.ram.mem hlen hpos tmd1
    rw [slot_add, Nat.add_zero, ← hmem] at hmd1
    exact hmd1
  refine ⟨q ++ [frameFrom (s.committed tmd1).mem s.tdra s.tlen (s.base + s.fill) more],
    h.conf, h.frame, h.cursor, hreaped, hroom, ?_, ?_, ?_, h.processed, h.wire⟩
  · refine (h.laid.ringStep hstep fun c hd hf => .inr ?_).snoc hcomplete
    rw [List.length_singleton]
    omega
  · intro c hc hcn
    have hc' : s.fill + (more + 1) ≤ c := hc
    have hcn' : c < done + s.tlen := hcn
    have hkept := hstep.kept (c := c) (.inl (by rw [List.length_singleton]; omega))
    exact (readyAt_congr hkept).trans (h.free c (by omega) hcn)
  · show s.enqueued ++ _ = _
    rw [h.enqueued, List.append_assoc]

theorem Inv.reap (h : Inv d w s done past q) : Inv d w (s.step cb .reap) done past q := by
  unfold step
  simp only
  split
  · rename_i hc
    obtain ⟨hlt, hown⟩ := hc
    have hreaped := h.reaped
    have hroom := h.room
    -- what lies behind the cursor is still owned
    have hne : s.reap ≠ done := by
      intro heq
      exact hown (h.laid.desc (Nat.le_of_eq heq.symm) hlt).1
    exact ⟨h.conf, h.frame, h.cursor, by show s.reap + 1 ≤ done; omega,
      by show s.fill ≤ s.reap + 1 + s.tlen; omega, h.laid, h.free, h.enqueued, h.processed, h.wire⟩
  · exact h

/-- Without a queued frame no descriptor is ready. -/
theorem Inv.none_ready (h : Inv d w s done past []) {i : Nat} (hi : i < s.tlen) :
    readyAt s.w.ram.mem s.tdra i = false := by
  have hdone : done = s.fill := h.laid
  obtain ⟨k, hk, rfl⟩ := exists_slot hi (s.base + s.fill)
  rw [slot_add]
  exact h.free _ (Nat.le_add_right ..) (by omega)

/-- The first queued frame is ready. -/
theorem Inv.some_ready {f : TxFrame} (h : Inv d w s done past (f :: q)) :
    ∃ i < s.tlen, readyAt s.w.ram.mem s.tdra i = true := by
  obtain ⟨hpos, -, -⟩ := ringAccepted_iff.mp h.conf.ring
  obtain ⟨more, hcomplete, -, -⟩ := h.laid
  exact ⟨_, slot_lt hpos _ _, hcomplete.ready⟩

/-- Without a queued frame a call reduces the cursor. -/
theorem Inv.call_idle (h : Inv d w s done past []) :
    ∃ o : U32, (o % s.d.amTdrTlen).toNat = (s.d.tdrOffset % s.d.amTdrTlen).toNat ∧
      s.call cb = ((0, { s.d with tdrOffset := o }), s.w) := by
  obtain ⟨o, ho, hexec⟩ := doTransmit_none cb fun i hi => h.none_ready hi
  refine ⟨o, ?_, hexec⟩
  rcases ho with rfl | rfl
  · rfl
  · rw [BitVec.toNat_umod, BitVec.toNat_umod, Nat.mod_mod]

theorem Inv.after_idle (h : Inv d w s done past []) :
    Inv d w (s.after (s.call cb)) done past [] := by
  obtain ⟨o, ho, hexec⟩ := h.call_idle cb
  rw [hexec]
  exact ⟨⟨h.conf.txon, h.conf.loop, h.conf.coll, h.conf.ring⟩, h.frame.cursors _ _ _,
    ho.trans h.cursor, h.reaped, h.room, h.laid, h.free, h.enqueued, h.processed, h.wire⟩

/-- What a call reports that left the descriptors `init ++ [last]` from the
cursor on. -/
theorem outcome_eq {r : (Nat × Daemon) × World} {p : Nat} {init : List Desc} {last : Desc}
    {sent : List (List U8)} {S : Set (BitVec 15)} {m : BitVec 15 → U8}
    (hstep : RingStep s.tdra s.tlen p S m r.2.ram.mem (init ++ [last]))
    (hcursor : r.1.2.tdrOffset.toNat = slot s.tlen p init.length + 1)
    (hwire : r.2.wire = s.w.wire ++ sent) :
    s.outcome r = ⟨sent, slot s.tlen p init.length, last⟩ := by
  have hlast := (descsAt_append.mp hstep.descs).2.1
  rw [slot_add, Nat.add_zero] at hlast
  rw [outcome, hcursor, hwire, Nat.add_sub_cancel, hlast, List.drop_left]

/-- A step that only releases descriptors makes none ready. -/
theorem not_readyAt_of_released {tdra : U32} {n base a c : Nat} {S : Set (BitVec 15)}
    {m m' : BitVec 15 → U8} {xs : List Desc} (hstep : RingStep tdra n (base + a) S m m' xs)
    (hreleased : ∀ x ∈ xs, tst x.md1 TX.OWN = false) (hc : a + xs.length ≤ c)
    (hcn : c < a + xs.length + n)
    (hfree : c < a + n → readyAt m tdra (slot n base c) = false) :
    readyAt m' tdra (slot n base c) = false := by
  by_cases hold : c < a + n
  · exact (readyAt_congr (hstep.kept (.inl ⟨hc, hold⟩))).trans (hfree hold)
  · -- a released descriptor, one round on
    have hj : c - n - a < xs.length := by omega
    rw [readyAt, ← slot_sub_size base (by omega : n ≤ c), show c - n = a + (c - n - a) by omega,
      ← slot_add, hstep.descs.get hj, txReady, hreleased _ (List.getElem_mem hj)]
    rfl

/-- With a queued frame a call takes the first one. -/
theorem Inv.call_busy {f : TxFrame} (h : Inv d w s done past (f :: q)) :
    (s.call cb).1.1 = 1 ∧ ∃ done', Inv d w (s.after (s.call cb)) done' (past ++ [f]) q := by
  obtain ⟨more, hcomplete, hf, hq⟩ := h.laid
  have hreaped := h.reaped
  have hroom := h.room
  have hle := hq.le
  have hmore : more + 1 ≤ s.tlen := by omega
  have hframe : RingFrame s.d (s.call cb).1.2 :=
    (always_exec (doTransmit_effect cb s.d) s.w).frame
  obtain ⟨md1, md3, sent, hown, hstep, htaken, hcursor, hon, hwire, hproc⟩ :=
    doTransmit_wire cb h.conf h.cursor hcomplete.ready (hcomplete.chain hmore)
      (rfl : _ = s.call cb)
  generalize s.call cb = r at *
  have hout := outcome_eq hstep (by rw [List.length_map]; exact hcursor) hwire
  rw [List.length_map, length_descsFrom] at hout
  rw [length_descsFrom] at hcursor hproc
  rw [← descsFrom_succ] at hproc
  rw [slot_add] at hstep
  generalize hxs : (descsFrom s.w.ram.mem s.tdra s.tlen (s.base + done) more).map Desc.release ++
    [{ s.desc (done + more) with md1 := md1, md3 := md3 }] = xs at hstep
  have hcount : xs.length = more + 1 := by
    rw [← hxs, List.length_append, List.length_map, length_descsFrom, List.length_singleton]
  have hreleased : ∀ x ∈ xs, tst x.md1 TX.OWN = false := by
    intro x hx
    rw [← hxs] at hx
    rcases List.mem_append.mp hx with hx | hx
    · obtain ⟨y, -, rfl⟩ := List.mem_map.mp hx
      exact own_release y
    · rw [List.mem_singleton.mp hx]
      exact hown
  have hlog : (s.after r).log = s.log ++ [s.outcome r] := if_pos htaken
  have htlen : (s.after r).tlen = s.tlen := congrArg BitVec.toNat hframe.amTdrTlen
  have htdra : (s.after r).tdra = s.tdra := hframe.amTdrTdra
  refine ⟨htaken, done + (more + 1), h.conf.of_frame hframe hon, h.frame.trans hframe, ?_, ?_, ?_,
    ?_, ?_, ?_, ?_, ?_⟩
  · show (r.1.2.tdrOffset % r.1.2.amTdrTlen).toNat = slot _ (s.base + _) 0
    rw [htlen, hframe.amTdrTlen, BitVec.toNat_umod, hcursor, slot, slot, Nat.mod_add_mod]
    congr 1
    omega
  · exact Nat.le_trans hreaped (Nat.le_add_right ..)
  · rw [htlen]
    exact hroom
  · rw [htlen, htdra]
    refine hq.ringStep hstep fun c hd hc => .inl ?_
    have hc' : c < s.fill := hc
    rw [hcount]
    omega
  · intro c hc hcn
    have hc' : s.fill ≤ c := hc
    rw [htlen] at hcn
    rw [htlen, htdra]
    show readyAt r.2.ram.mem s.tdra (slot s.tlen s.base c) = false
    exact not_readyAt_of_released hstep hreleased (by omega) (by omega) fun hold => h.free c hc hold
  · show s.enqueued = _
    rw [h.enqueued, List.append_assoc]
    rfl
  · rw [hlog, hout]
    refine List.rel_append h.processed (.cons (Processed.of_frame ?_ h.frame) .nil)
    rw [← hf]
    exact hproc
  · rw [hlog, hout]
    show r.2.wire = _
    rw [hwire, h.wire, List.flatMap_append, List.flatMap_singleton, List.append_assoc]

theorem Inv.step (h : Inv d w s done past q) {a : TxStep} (hl : s.Legal a) :
    ∃ done' past' q', Inv d w (s.step cb a) done' past' q' := by
  cases a with
  | prepare ram => exact ⟨done, past, q, h.prepare cb hl⟩
  | commit tmd1 more =>
      obtain ⟨q', hq'⟩ := h.commit cb hl
      exact ⟨done, past, q', hq'⟩
  | reap => exact ⟨done, past, q, h.reap cb⟩
  | transmit =>
      show ∃ done' past' q', Inv d w (s.after (s.call cb)) done' past' q'
      cases q with
      | nil => exact ⟨done, past, [], h.after_idle cb⟩
      | cons f q =>
          obtain ⟨-, done', h'⟩ := h.call_busy cb
          exact ⟨done', past ++ [f], q, h'⟩

end Steps

theorem Inv.inOrder (cb : Callback) {d : Daemon} {w : World} {s : TxLink} {done : Nat}
    {past q : List TxFrame} (h : Inv d w s done past q) : s.InOrder cb d w := by
  have hlen : past.length = s.log.length := h.processed.length_eq
  have hall : s.enqueued.length = s.log.length + q.length := by
    rw [h.enqueued, List.length_append, hlen]
  refine ⟨by omega, ?_, h.wire, ?_, ?_⟩
  · rw [h.enqueued, ← hlen, List.take_left]
    exact h.processed
  · intro hlt
    cases q with
    | nil =>
        rw [List.length_nil] at hall
        omega
    | cons f q => exact (h.call_busy cb).1
  · intro heq
    obtain rfl : q = [] := List.eq_nil_of_length_eq_zero (by omega)
    obtain ⟨o, -, hexec⟩ := h.call_idle cb
    rw [hexec]
    exact ⟨rfl, rfl, rfl⟩

end TxLink

/-- The TX ring sends every queued frame once and in order. -/
theorem tx_ring_in_order (cb : Callback) (d : Daemon) (w : World) (hd : TxConfigured d)
    (hfree : ∀ i < d.amTdrTlen.toNat, readyAt w.ram.mem d.amTdrTdra i = false)
    (steps : List TxStep) (hs : Watch (TxLink.step cb) TxLink.Legal (.start d w) steps) :
    (TxLink.run cb steps (.start d w)).InOrder cb d w := by
  have hstep : ∀ (s : TxLink) (a : TxStep), (∃ done past q, TxLink.Inv d w s done past q) →
      s.Legal a → ∃ done past q, TxLink.Inv d w (s.step cb a) done past q := by
    intro s a ⟨done, past, q, h⟩ hl
    exact h.step cb hl
  obtain ⟨done, past, q, h⟩ := hs.preserves hstep ⟨0, [], [], TxLink.inv_start hd hfree⟩
  exact h.inOrder cb

/-- Four TX descriptors, the cursor on the last. -/
def smallSender : Daemon :=
  { (registersReset .boot).csr0Set CSR0.TXON with amTdrTlen := 4, tdrOffset := 3 }

/-- A frame over the last and the first descriptor, and one for the station
address behind it; OWN is still to be set. -/
def preparedRing : World :=
  .holding [(0x18, 0x100), (0x1A, 0x0200), (0x1C, 0xFFC0), (0x00, 0x200), (0x02, 0x8100),
    (0x04, 0xFFF0), (0x08, 0x300), (0x0A, 0x0300), (0x0C, 0xFFC0), (0x100, 0x1234)]

theorem tx_ring_in_order_wrapped : (TxLink.run .null
    [.transmit, .prepare preparedRing.ram, .commit 0x8200 1, .transmit, .commit 0x8300 0, .reap,
      .transmit, .reap, .transmit]
    (.start smallSender .blank)).InOrder .null smallSender .blank :=
  tx_ring_in_order .null smallSender .blank
    ⟨by decide +kernel, by decide +kernel, by decide +kernel, by decide +kernel⟩
    (by decide +kernel) _ (by decide +kernel)

end A2065
