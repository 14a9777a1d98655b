import A2065.TransmitCall

/-!
# Whole frames

What `do_transmit` hands over, to `ethernet_send` or in loopback to `gotfunc`,
against the chain it took. The chain loop ends in one of three ways: at a
descriptor the chip does not own, at a buffer that does not fit in a packet, or
at ENP. Only the first is an error to it. The second leaves in `transmitbuffer`
the buffers before, and the end of `do_transmit` takes them for a frame.

All is said of the window before the call. The loop clears OWN as it goes, so a
buffer that lies over an earlier descriptor of its chain is read without that
bit: the buffer of descriptor `j` is read from `released … j`.
-/

namespace A2065

open Bits CyclicMem Circular

/-! ## What is handed over -/

/-- What `do_transmit` hands over: what the chain loop has left when the frame
is handed on, and nothing otherwise. -/
def handedOver (d : Daemon) (w : World) : Option ((TxWalk × Daemon) × World) :=
  if tst d.csr0 CSR0.TXON ∧ ringAccepted d.amTdrTdra d.amTdrTlen then
    let s := (txScan d.amTdrTdra d.amTdrTlen (d.tdrOffset % d.amTdrTlen)).exec w
    let r := (txChain d.amTdrTdra d.amTdrTlen { d with tdrOffset := s.1.2 } 0).exec s.2
    if txReady s.1.1 ∧ r.1.1.Hands r.1.2 then some r else none
  else none

/-- `do_transmit` takes the frame `k` places behind its cursor. -/
structure TakesAt (d : Daemon) (m : BitVec 15 → U8) (k : Nat) : Prop where
  txon : tst d.csr0 CSR0.TXON = true
  ring : ringAccepted d.amTdrTdra d.amTdrTlen = true
  lt : k < d.amTdrTlen.toNat
  first : ∀ j < k, readyAt m d.amTdrTdra (slot d.amTdrTlen.toNat d.tdrOffset.toNat j) = false
  ready : readyAt m d.amTdrTdra (slot d.amTdrTlen.toNat d.tdrOffset.toNat k) = true

section TakesAt

variable {d : Daemon} {w : World} {k : Nat}

theorem TakesAt.unique {m : BitVec 15 → U8} {l : Nat} (h : TakesAt d m k) (h' : TakesAt d m l) :
    k = l := by
  rcases Nat.lt_trichotomy k l with hlt | heq | hlt
  · exact absurd (h.ready.symm.trans (h'.first k hlt)) (by decide)
  · exact heq
  · exact absurd (h'.ready.symm.trans (h.first l hlt)) (by decide)

/-- The frame that is taken starts with STP. -/
theorem TakesAt.stp {m : BitVec 15 → U8} (h : TakesAt d m k) : tst (descAt m d.amTdrTdra
    (slot d.amTdrTlen.toNat (d.tdrOffset.toNat + k) 0)).md1 TX.STP = true := by
  have hready := h.ready
  rw [readyAt, txReady, Bool.and_eq_true] at hready
  rw [slot_add, Nat.add_zero]
  exact hready.2

theorem exists_takesAt {r : (TxWalk × Daemon) × World} (h : handedOver d w = some r) :
    ∃ k, TakesAt d w.ram.mem k := by
  unfold handedOver at h
  split at h
  case isFalse => cases h
  case isTrue hon =>
    obtain ⟨hpos, hlen, -⟩ := ringAccepted_iff.mp hon.2
    by_cases hex : ∃ i < d.amTdrTlen.toNat, readyAt w.ram.mem d.amTdrTdra i = true
    · obtain ⟨k, hk, hready, hfirst⟩ := exists_first_ready hex d.tdrOffset.toNat
      exact ⟨k, hon.1, hon.2, hk, hfirst, hready⟩
    · obtain ⟨s, hscan, hs⟩ := txScan_none (w := w) hlen (toNat_mod_lt (o := d.tdrOffset) hpos)
        fun i hi => Bool.eq_false_iff.mpr fun hr => hex ⟨i, hi, hr⟩
      simp [hscan, hs] at h

/-- The scan finds the frame that is taken. -/
theorem TakesAt.scan (h : TakesAt d w.ram.mem k) :
    ∃ (md1 : U16) (offset : U32),
      (offset % d.amTdrTlen).toNat = slot d.amTdrTlen.toNat (d.tdrOffset.toNat + k) 0 ∧
      (txScan d.amTdrTdra d.amTdrTlen (d.tdrOffset % d.amTdrTlen)).exec w = ((md1, offset), w) ∧
      txReady md1 = true := by
  obtain ⟨offset, hmod, hscan⟩ := txScan_first (p := d.tdrOffset.toNat) h.ring
    BitVec.toNat_umod h.lt h.first h.ready
  exact ⟨_, offset, hmod, hscan, h.ready⟩

theorem handedOver_scanned {md1 : U16} {offset : U32} (hon : tst d.csr0 CSR0.TXON = true)
    (hring : ringAccepted d.amTdrTdra d.amTdrTlen = true)
    (hscan : (txScan d.amTdrTdra d.amTdrTlen (d.tdrOffset % d.amTdrTlen)).exec w =
      ((md1, offset), w))
    (hready : txReady md1 = true) {r : (TxWalk × Daemon) × World}
    (hr : (txChain d.amTdrTdra d.amTdrTlen { d with tdrOffset := offset } 0).exec w = r) :
    handedOver d w = if r.1.1.Hands r.1.2 then some r else none := by
  subst hr
  simp only [handedOver, hon, hring, hscan, hready, true_and, and_self, if_true]

/-- The chain loop starts at the frame that is taken, and what it leaves is
what `do_transmit` goes on with. -/
theorem TakesAt.run (cb : Callback) (h : TakesAt d w.ram.mem k) :
    ∃ (offset : U32) (addFcs : Bool),
      (offset % d.amTdrTlen).toNat = slot d.amTdrTlen.toNat (d.tdrOffset.toNat + k) 0 ∧
      ∀ r, (txChain d.amTdrTdra d.amTdrTlen { d with tdrOffset := offset } 0).exec w = r →
        handedOver d w = (if r.1.1.Hands r.1.2 then some r else none) ∧
        (doTransmit cb d).exec w = (txTail cb addFcs r.1.1 r.1.2).exec r.2 := by
  obtain ⟨md1, offset, hmod, hscan, hready⟩ := h.scan
  refine ⟨offset, tst md1 TX.ADD_FCS, hmod, ?_⟩
  intro r hr
  refine ⟨handedOver_scanned h.txon h.ring hscan hready hr, ?_⟩
  rw [doTransmit_scanned cb h.txon h.ring hscan hready, DProg.exec_bind, hr]

end TakesAt

/-! ## How the chain loop ends -/

/-- What the loop copies of the first `k` buffers from place `p` on. -/
def partsFrom (m : BitVec 15 → U8) (tdra : U32) (n p k : Nat) : List U8 :=
  (List.range k).flatMap fun j => (descAt m tdra (slot n p j)).part (released tdra n p j m)

/-- The first `k` buffers from place `p` on, as the loop finds them. -/
def buffersFrom (m : BitVec 15 → U8) (tdra : U32) (n p k : Nat) : List U8 :=
  (List.range k).flatMap fun j => (descAt m tdra (slot n p j)).bytes (released tdra n p j m)

section Parts

variable {m : BitVec 15 → U8} {tdra : U32} {n p k : Nat}

theorem partsFrom_succ : partsFrom m tdra n p (k + 1) =
    partsFrom m tdra n p k ++ (descAt m tdra (slot n p k)).part (released tdra n p k m) := by
  rw [partsFrom, List.range_succ, List.flatMap_append, List.flatMap_singleton, partsFrom]

theorem length_partsFrom_succ : (partsFrom m tdra n p (k + 1)).length =
    (partsFrom m tdra n p k).length +
      min (descAt m tdra (slot n p k)).size MAX_PACKET_SIZE := by
  rw [partsFrom_succ, List.length_append, Desc.length_part]

theorem length_partsFrom_mono {l : Nat} (h : k ≤ l) :
    (partsFrom m tdra n p k).length ≤ (partsFrom m tdra n p l).length := by
  induction h with
  | refl => exact Nat.le_refl _
  | step _ ih =>
      rw [length_partsFrom_succ]
      exact Nat.le_add_right_of_le ih

theorem capacity_descsFrom_succ : capacity (descsFrom m tdra n p (k + 1)) =
    capacity (descsFrom m tdra n p k) + (descAt m tdra (slot n p k)).size := by
  rw [descsFrom, List.range_succ, List.map_append, ← descsFrom, capacity, List.map_append,
    List.sum_append, ← capacity]
  rfl

/-- No more is copied than the descriptors say. -/
theorem length_partsFrom_le (k : Nat) :
    (partsFrom m tdra n p k).length ≤ capacity (descsFrom m tdra n p k) := by
  induction k with
  | zero => exact Nat.le_refl 0
  | succ k ih =>
      rw [length_partsFrom_succ, capacity_descsFrom_succ]
      exact Nat.add_le_add ih (Nat.min_le_left ..)

/-- Buffers that fit in a packet are copied whole. -/
theorem partsFrom_eq_buffersFrom (h : capacity (descsFrom m tdra n p k) ≤ MAX_PACKET_SIZE) :
    partsFrom m tdra n p k = buffersFrom m tdra n p k ∧
      (partsFrom m tdra n p k).length = capacity (descsFrom m tdra n p k) := by
  induction k with
  | zero => exact ⟨rfl, rfl⟩
  | succ k ih =>
      rw [capacity_descsFrom_succ] at h ⊢
      obtain ⟨heq, hlen⟩ := ih (Nat.le_of_add_right_le h)
      have hsize : (descAt m tdra (slot n p k)).size ≤ MAX_PACKET_SIZE :=
        Nat.le_of_add_left_le h
      rw [length_partsFrom_succ, hlen, Nat.min_eq_left hsize]
      refine ⟨?_, rfl⟩
      rw [partsFrom_succ, heq, Desc.part_eq_bytes _ hsize, buffersFrom, buffersFrom,
        List.range_succ, List.flatMap_append, List.flatMap_singleton]

/-- Every buffer that is copied adds a byte at least. -/
theorem le_length_partsFrom (k : Nat) : k ≤ (partsFrom m tdra n p k).length := by
  induction k with
  | zero => exact Nat.zero_le _
  | succ k ih =>
      have hpos : 0 < (descAt m tdra (slot n p k)).size := byteCount_pos _
      have hmax : 0 < MAX_PACKET_SIZE := by decide
      rw [length_partsFrom_succ]
      omega

/-- Short of the sum of the byte counts, the loop has copied a part of one
buffer only: the first, which alone is longer than a packet. -/
theorem zero_of_partsFrom_lt (hfits : (partsFrom m tdra n p (k + 1)).length ≤ MAX_PACKET_SIZE)
    (hlong : MAX_PACKET_SIZE < capacity (descsFrom m tdra n p (k + 1))) :
    k = 0 ∧ MAX_PACKET_SIZE < (descAt m tdra (slot n p 0)).size := by
  induction k with
  | zero =>
      refine ⟨rfl, ?_⟩
      rwa [capacity_descsFrom_succ, descsFrom, List.range_zero, List.map_nil, capacity_nil,
        Nat.zero_add] at hlong
  | succ k ih =>
      exfalso
      have hbefore := (length_partsFrom_mono (Nat.le_succ (k + 1))).trans hfits
      have hsome : k + 1 ≤ (partsFrom m tdra n p (k + 1)).length := le_length_partsFrom _
      have hpos : 0 < (descAt m tdra (slot n p (k + 1))).size := byteCount_pos _
      have hmax : 0 < MAX_PACKET_SIZE := by decide
      rw [length_partsFrom_succ] at hfits
      rw [capacity_descsFrom_succ] at hlong
      by_cases hcap : capacity (descsFrom m tdra n p (k + 1)) ≤ MAX_PACKET_SIZE
      · rw [(partsFrom_eq_buffersFrom hcap).2] at hfits hsome
        omega
      · -- the first buffer has filled the packet, and there is another
        obtain ⟨rfl, hsize⟩ := ih hbefore (Nat.lt_of_not_le hcap)
        rw [length_partsFrom_succ, Nat.min_eq_right hsize.le] at hfits
        omega

end Parts

/-- The loop gets past the first `k` descriptors from place `p` on. -/
structure Passed (m : BitVec 15 → U8) (tdra : U32) (n p k : Nat) : Prop where
  le : k ≤ n
  own : ∀ j < k, tst (descAt m tdra (slot n p j)).md1 TX.OWN = true
  enp : ∀ j < k, tst (descAt m tdra (slot n p j)).md1 TX.ENP = false
  fits : (partsFrom m tdra n p k).length ≤ MAX_PACKET_SIZE

/-- The chip owns descriptor `k` from place `p` on, and has not released it. -/
def OwnsNext (m : BitVec 15 → U8) (tdra : U32) (n p k : Nat) : Prop :=
  k < n ∧ tst (descAt m tdra (slot n p k)).md1 TX.OWN = true

section Passed

variable {m : BitVec 15 → U8} {tdra : U32} {n p k l : Nat}

theorem passed_zero (m : BitVec 15 → U8) (tdra : U32) (n p : Nat) : Passed m tdra n p 0 where
  le := Nat.zero_le n
  own := fun j hj => absurd hj (Nat.not_lt_zero j)
  enp := fun j hj => absurd hj (Nat.not_lt_zero j)
  fits := Nat.zero_le _

theorem Passed.mono (h : Passed m tdra n p l) (hkl : k ≤ l) : Passed m tdra n p k where
  le := hkl.trans h.le
  own := fun j hj => h.own j (Nat.lt_of_lt_of_le hj hkl)
  enp := fun j hj => h.enp j (Nat.lt_of_lt_of_le hj hkl)
  fits := (length_partsFrom_mono hkl).trans h.fits

theorem passed_succ : Passed m tdra n p (k + 1) ↔ Passed m tdra n p k ∧ OwnsNext m tdra n p k ∧
    tst (descAt m tdra (slot n p k)).md1 TX.ENP = false ∧
    (partsFrom m tdra n p (k + 1)).length ≤ MAX_PACKET_SIZE := by
  constructor
  · intro h
    have hk := Nat.lt_succ_self k
    exact ⟨h.mono (Nat.le_succ k), ⟨h.le, h.own k hk⟩, h.enp k hk, h.fits⟩
  · intro ⟨h, hnext, henp, hfits⟩
    refine ⟨hnext.1, ?_, ?_, hfits⟩
    · intro j hj
      rcases Nat.lt_succ_iff_lt_or_eq.mp hj with hlt | rfl
      · exact h.own j hlt
      · exact hnext.2
    · intro j hj
      rcases Nat.lt_succ_iff_lt_or_eq.mp hj with hlt | rfl
      · exact h.enp j hlt
      · exact henp

/-- There is one descriptor the loop does not get past. -/
theorem Passed.unique (hk : Passed m tdra n p k) (hk' : ¬ Passed m tdra n p (k + 1))
    (hl : Passed m tdra n p l) (hl' : ¬ Passed m tdra n p (l + 1)) : k = l := by
  rcases Nat.lt_trichotomy k l with hlt | heq | hlt
  · exact absurd (hl.mono hlt) hk'
  · exact heq
  · exact absurd (hk.mono hlt) hl'

end Passed

/-- The three ends of the chain loop, at the descriptor it does not get past.
`pad` is the size after padding. -/
inductive LoopEnd (m : BitVec 15 → U8) (tdra : U32) (n p : Nat) (pad : Nat → Nat)
    (r : (TxWalk × Daemon) × World) : Prop where
  | refused (k : Nat) (passed : Passed m tdra n p k) (stop : ¬ OwnsNext m tdra n p k)
      (err : r.1.1.err = true)
  | full (k : Nat) (passed : Passed m tdra n p k) (next : OwnsNext m tdra n p k)
      (stop : MAX_PACKET_SIZE < (partsFrom m tdra n p (k + 1)).length)
      (walk : ∃ o : U32, o.toNat = slot n p k ∧
        r.1.1 = ⟨descOff tdra o, (descAt m tdra (slot n p k)).release.md1,
          (descAt m tdra (slot n p k)).md3, (partsFrom m tdra n p k).length, false⟩)
      (bytes : bufTake r.1.2.transmitbuffer (partsFrom m tdra n p k).length =
        partsFrom m tdra n p k)
  | last (k : Nat) (passed : Passed m tdra n p k) (next : OwnsNext m tdra n p k)
      (stop : tst (descAt m tdra (slot n p k)).md1 TX.ENP = true)
      (fits : (partsFrom m tdra n p (k + 1)).length ≤ MAX_PACKET_SIZE)
      (walk : ∃ o : U32, o.toNat = slot n p k ∧
        r.1.1 = ⟨descOff tdra o, (descAt m tdra (slot n p k)).release.md1,
          (descAt m tdra (slot n p k)).md3, pad (partsFrom m tdra n p (k + 1)).length, false⟩)
      (bytes : bufTake r.1.2.transmitbuffer (pad (partsFrom m tdra n p (k + 1)).length) =
        partsFrom m tdra n p (k + 1) ++ List.replicate
          (pad (partsFrom m tdra n p (k + 1)).length - (partsFrom m tdra n p (k + 1)).length) 0)
      (ram : r.2.ram.mem = released tdra n p k m)

/-- The frame the loop gathers from place `p` on: the buffers up to ENP and the
padding, or those before the one that does not fit. -/
inductive GathersFrom (m : BitVec 15 → U8) (tdra : U32) (n p : Nat) (pad : Nat → Nat) :
    List U8 → Prop where
  | full (k : Nat) (passed : Passed m tdra n p k) (next : OwnsNext m tdra n p k)
      (stop : MAX_PACKET_SIZE < (partsFrom m tdra n p (k + 1)).length) :
      GathersFrom m tdra n p pad (partsFrom m tdra n p k)
  | last (k : Nat) (passed : Passed m tdra n p k) (next : OwnsNext m tdra n p k)
      (stop : tst (descAt m tdra (slot n p k)).md1 TX.ENP = true)
      (fits : (partsFrom m tdra n p (k + 1)).length ≤ MAX_PACKET_SIZE) :
      GathersFrom m tdra n p pad (partsFrom m tdra n p (k + 1) ++ List.replicate
        (pad (partsFrom m tdra n p (k + 1)).length - (partsFrom m tdra n p (k + 1)).length) 0)

section Gathers

variable {m : BitVec 15 → U8} {tdra : U32} {n p : Nat} {pad : Nat → Nat}
  {r : (TxWalk × Daemon) × World}

/-- An end without an error has gathered a frame. -/
theorem LoopEnd.gathers (he : LoopEnd m tdra n p pad r) (herr : r.1.1.err = false) :
    GathersFrom m tdra n p pad (bufTake r.1.2.transmitbuffer r.1.1.outsize) := by
  cases he with
  | refused k _ _ err => exact absurd (err.symm.trans herr) (by decide)
  | full k passed next stop walk bytes =>
      obtain ⟨o, -, hwalk⟩ := walk
      rw [hwalk, bytes]
      exact .full k passed next stop
  | last k passed next stop fits walk bytes =>
      obtain ⟨o, -, hwalk⟩ := walk
      rw [hwalk, bytes]
      exact .last k passed next stop fits

/-- The loop ends where boardram says. -/
theorem GathersFrom.of_loopEnd {frame : List U8} (h : GathersFrom m tdra n p pad frame)
    (he : LoopEnd m tdra n p pad r) :
    r.1.1.err = false ∧ bufTake r.1.2.transmitbuffer r.1.1.outsize = frame := by
  cases h with
  | full k passed next stop =>
      have hstop : ¬ Passed m tdra n p (k + 1) := fun hp => Nat.not_lt.mpr hp.fits stop
      cases he with
      | refused l hl stop' =>
          obtain rfl := passed.unique hstop hl fun hp => stop' (passed_succ.mp hp).2.1
          exact absurd next stop'
      | full l hl _ stop' walk bytes =>
          obtain rfl := passed.unique hstop hl fun hp => Nat.not_lt.mpr hp.fits stop'
          obtain ⟨o, -, hwalk⟩ := walk
          rw [hwalk]
          exact ⟨rfl, bytes⟩
      | last l hl _ stop' fits =>
          obtain rfl := passed.unique hstop hl fun hp => by
            simp [(passed_succ.mp hp).2.2.1] at stop'
          exact absurd stop (Nat.not_lt.mpr fits)
  | last k passed next stop fits =>
      have hstop : ¬ Passed m tdra n p (k + 1) := fun hp => by
        simp [(passed_succ.mp hp).2.2.1] at stop
      cases he with
      | refused l hl stop' =>
          obtain rfl := passed.unique hstop hl fun hp => stop' (passed_succ.mp hp).2.1
          exact absurd next stop'
      | full l hl _ stop' =>
          obtain rfl := passed.unique hstop hl fun hp => Nat.not_lt.mpr hp.fits stop'
          exact absurd stop' (Nat.not_lt.mpr fits)
      | last l hl _ stop' fits' walk bytes =>
          obtain rfl := passed.unique hstop hl fun hp => by
            simp [(passed_succ.mp hp).2.2.1] at stop'
          obtain ⟨o, -, hwalk⟩ := walk
          rw [hwalk]
          exact ⟨rfl, bytes⟩

end Gathers

/-- The chain loop from the `j`-th descriptor on, with those before it released
and their buffers gathered. -/
theorem txChain_loopEnd {tdra tlen : U32} (hlen : tlen.toNat ≤ 512) (hpos : 0 < tlen.toNat)
    {m : BitVec 15 → U8} {p j i : Nat} (hi : j + i = tlen.toNat) {d : Daemon} {w : World}
    (hmem : w.ram.mem = released tdra tlen.toNat p j m)
    (hp : (d.tdrOffset % tlen).toNat = slot tlen.toNat p j)
    (hpassed : Passed m tdra tlen.toNat p j) {outsize : Nat}
    (hsize : (partsFrom m tdra tlen.toNat p j).length = outsize)
    (hbytes : bufTake d.transmitbuffer outsize = partsFrom m tdra tlen.toNat p j) :
    LoopEnd m tdra tlen.toNat p (paddedSize d) ((txChain tdra tlen d outsize).exec w) := by
  induction i generalizing j d w outsize with
  | zero =>
      -- once around the ring: the first descriptor is released
      obtain rfl : j = tlen.toNat := hi
      have hown : tst (descAt w.ram.mem tdra (d.tdrOffset % tlen).toNat).md1 TX.OWN = false := by
        rw [hp, hmem, slot_size]
        exact own_released hpos
      exact .refused _ hpassed (fun h => Nat.lt_irrefl _ h.1) (txChain_refused rfl hown)
  | succ i ih =>
      have hj : j < tlen.toNat := by omega
      obtain ⟨x, hx⟩ : ∃ x, descAt m tdra (slot tlen.toNat p j) = x := ⟨_, rfl⟩
      have hdesc : descAt w.ram.mem tdra (d.tdrOffset % tlen).toNat = x := by
        rw [hp, hmem, descAt_released hlen (Nat.le_refl j) hj, hx]
      by_cases hown : tst x.md1 TX.OWN = true
      case neg =>
        refine .refused j hpassed ?_ (txChain_refused hdesc (by simpa using hown))
        intro h
        exact hown (hx ▸ h.2)
      have hnext : OwnsNext m tdra tlen.toNat p j := ⟨hj, hx.symm ▸ hown⟩
      have hsize' : (partsFrom m tdra tlen.toNat p (j + 1)).length =
          outsize + min x.size MAX_PACKET_SIZE := by
        rw [length_partsFrom_succ, hsize, hx]
      by_cases hfits : outsize + min x.size MAX_PACKET_SIZE ≤ MAX_PACKET_SIZE
      case neg =>
        have hfull := txChain_full hdesc hown (Nat.lt_of_not_le hfits)
        refine .full j hpassed hnext (by omega) ⟨_, hp, ?_⟩ ?_
        · rw [hfull, hx, hsize]
        · rw [hfull, hsize]
          exact hbytes
      have hcopy : bufTake (bufWrite d.transmitbuffer outsize (x.part w.ram.mem))
          (outsize + min x.size MAX_PACKET_SIZE) = partsFrom m tdra tlen.toNat p (j + 1) := by
        rw [← x.length_part w.ram.mem, bufTake_bufWrite, hbytes, partsFrom_succ, hx, hmem]
      by_cases henp : tst x.md1 TX.ENP = true
      case pos =>
        have hlast := txChain_lastPart hdesc hown henp hfits rfl
        refine .last j hpassed hnext (hx.symm ▸ henp) (by rwa [hsize']) ⟨_, hp, ?_⟩ ?_ ?_
        · rw [hlast, hx, hsize']
        · rw [hlast, hsize']
          dsimp only
          rw [bufTake_padded _ _ (by rw [x.length_part]) (le_paddedSize ..), hbytes,
            partsFrom_succ, hx, hmem]
        · rw [hlast, hmem]
      obtain ⟨ram, hram, hexec⟩ := txChain_part hdesc hown (by simpa using henp) hfits
      rw [hp, hmem, ← hx, storeStatus_released hlen hj] at hram
      have hpassed' : Passed m tdra tlen.toNat p (j + 1) := by
        rw [passed_succ, hx, hsize']
        exact ⟨hpassed, hnext, by simpa using henp, hfits⟩
      rw [hexec]
      exact ih (j := j + 1) (by omega)
        (d := { d with
          tdrOffset := d.tdrOffset % tlen + 1
          transmitbuffer := bufWrite d.transmitbuffer outsize (x.part w.ram.mem) })
        (w := { w with ram := ram }) hram (toNat_cursor_next hlen hpos hp) hpassed' hsize' hcopy

/-- What the call goes on with: an end of the loop, and the frame in hand or a
mark on the descriptor. -/
theorem TakesAt.loopEnd (cb : Callback) {d : Daemon} {w : World} {k : Nat}
    (h : TakesAt d w.ram.mem k) :
    ∃ (addFcs : Bool) (r : (TxWalk × Daemon) × World),
      LoopEnd w.ram.mem d.amTdrTdra d.amTdrTlen.toNat (d.tdrOffset.toNat + k) (paddedSize d) r ∧
      RingFrame d r.1.2 ∧ handedOver d w = (if r.1.1.Hands r.1.2 then some r else none) ∧
      (doTransmit cb d).exec w = (txTail cb addFcs r.1.1 r.1.2).exec r.2 := by
  obtain ⟨hpos, hlen, -⟩ := ringAccepted_iff.mp h.ring
  obtain ⟨offset, addFcs, hmod, hrun⟩ := h.run cb
  obtain ⟨r, hr⟩ : ∃ r, (txChain d.amTdrTdra d.amTdrTlen
    { d with tdrOffset := offset } 0).exec w = r := ⟨_, rfl⟩
  obtain ⟨hhanded, hcall⟩ := hrun r hr
  refine ⟨addFcs, r, ?_, ?_, hhanded, hcall⟩
  · rw [← hr]
    exact txChain_loopEnd hlen hpos (Nat.zero_add _) (d := { d with tdrOffset := offset })
      (released_zero ..).symm hmod (passed_zero ..) rfl rfl
  · rw [← hr]
    exact (always_exec (txChain_effect _ _ d { d with tdrOffset := offset } 0
      ((RingFrame.refl d).cursors _ _ _) rfl) w).1

/-! ## Only whole frames -/

/-- From place `p` on the chip owns a chain of `more + 1` descriptors: STP on
the first, and ENP on the last only. -/
structure ChainAt (m : BitVec 15 → U8) (tdra : U32) (n p more : Nat) : Prop where
  more_lt : more < n
  stp : tst (descAt m tdra (slot n p 0)).md1 TX.STP = true
  own : ∀ j ≤ more, tst (descAt m tdra (slot n p j)).md1 TX.OWN = true
  enp : ∀ j ≤ more, tst (descAt m tdra (slot n p j)).md1 TX.ENP = decide (j = more)

/-- What the loop has left is the chain at place `p`, with every byte of every
buffer. -/
structure WholeFrame (d : Daemon) (m : BitVec 15 → U8) (p more : Nat)
    (r : (TxWalk × Daemon) × World) : Prop where
  chain : ChainAt m d.amTdrTdra d.amTdrTlen.toNat p more
  /-- the last descriptor is the one at hand, and those before it are released -/
  last : ∃ o : U32, o.toNat = slot d.amTdrTlen.toNat p more ∧
    r.1.1.off = descOff d.amTdrTdra o
  ram : r.2.ram.mem = released d.amTdrTdra d.amTdrTlen.toNat p more m
  /-- the byte counts add up to the frame before padding -/
  length : r.1.1.outsize =
    paddedSize d (capacity (descsFrom m d.amTdrTdra d.amTdrTlen.toNat p (more + 1)))
  bytes : bufTake r.1.2.transmitbuffer r.1.1.outsize =
    buffersFrom m d.amTdrTdra d.amTdrTlen.toNat p (more + 1) ++ List.replicate (r.1.1.outsize -
      capacity (descsFrom m d.amTdrTdra d.amTdrTlen.toNat p (more + 1))) 0

/-- A frame that is handed over is a whole chain. A chain that is longer than a
packet is not handed over, and ERR is set in one of its descriptors. -/
structure OnlyWhole (cb : Callback) (d : Daemon) (w : World) : Prop where
  whole : ∀ r, handedOver d w = some r →
    ∃ k more, TakesAt d w.ram.mem k ∧ WholeFrame d w.ram.mem (d.tdrOffset.toNat + k) more r
  reported : ∀ k more, TakesAt d w.ram.mem k →
    ChainAt w.ram.mem d.amTdrTdra d.amTdrTlen.toNat (d.tdrOffset.toNat + k) more →
    MAX_PACKET_SIZE < capacity (descsFrom w.ram.mem d.amTdrTdra d.amTdrTlen.toNat
      (d.tdrOffset.toNat + k) (more + 1)) →
    handedOver d w = none ∧ ∃ j ≤ more, tst (descAt ((doTransmit cb d).exec w).2.ram.mem
      d.amTdrTdra (slot d.amTdrTlen.toNat (d.tdrOffset.toNat + k) j)).md1 TX.ERR = true

/-- From place `p` on, what the loop copies of the first `k` buffers is not the
chain. The buffer behind them does not fit any more, or a single buffer is
longer than a packet. -/
def CutShort (m : BitVec 15 → U8) (tdra : U32) (n p k : Nat) : Prop :=
  (Passed m tdra n p k ∧ OwnsNext m tdra n p k ∧
    MAX_PACKET_SIZE < (partsFrom m tdra n p (k + 1)).length) ∨
  (k = 1 ∧ OwnsNext m tdra n p 0 ∧ tst (descAt m tdra (slot n p 0)).md1 TX.ENP = true ∧
    MAX_PACKET_SIZE < (descAt m tdra (slot n p 0)).size)

/-- Neither mode nor the bytes keep a frame back. -/
def Passes (d : Daemon) (bytes : List U8) : Prop :=
  tst d.amMode MODE.COLL = false ∧
    (tst d.amMode MODE.LOOP = true ∨ 60 ≤ bytes.length ∧ bytes.take 6 ≠ d.fakemac.toList)

/-- `do_transmit` hands over a part of the frame it takes. -/
def SendsPart (d : Daemon) (m : BitVec 15 → U8) : Prop :=
  ∃ i k, TakesAt d m i ∧
    CutShort m d.amTdrTdra d.amTdrTlen.toNat (d.tdrOffset.toNat + i) k ∧
    Passes d (partsFrom m d.amTdrTdra d.amTdrTlen.toNat (d.tdrOffset.toNat + i) k)

theorem hands_iff {d : Daemon} {r : TxWalk × Daemon} (hf : RingFrame d r.2)
    (herr : r.1.err = false) {bytes : List U8}
    (hbytes : bufTake r.2.transmitbuffer r.1.outsize = bytes) :
    r.1.Hands r.2 ↔ Passes d bytes := by
  have hlen : r.1.outsize = bytes.length := by rw [← hbytes, length_bufTake]
  unfold TxWalk.Hands Passes
  rw [hf.amMode, hf.fakemac, hlen]
  simp only [herr, true_and]
  refine and_congr_right fun _ => or_congr_right (and_congr_right fun hlong => ?_)
  rw [← hbytes, ← macAt_bufTake _ (by omega), Ne, Ne, Vector.toList_inj]

section Cut

variable {m : BitVec 15 → U8} {tdra : U32} {n p k more : Nat} {r : (TxWalk × Daemon) × World}

theorem ChainAt.last_enp (h : ChainAt m tdra n p more) :
    tst (descAt m tdra (slot n p more)).md1 TX.ENP = true :=
  (h.enp more (Nat.le_refl more)).trans (decide_eq_true rfl)

theorem ChainAt.eq_of_enp (h : ChainAt m tdra n p more) (hk : k ≤ more)
    (henp : tst (descAt m tdra (slot n p k)).md1 TX.ENP = true) : k = more :=
  of_decide_eq_true ((h.enp k hk).symm.trans henp)

/-- The loop does not get past a chain. -/
theorem Passed.le_chain (hk : Passed m tdra n p k) (h : ChainAt m tdra n p more) : k ≤ more := by
  by_contra hlt
  exact absurd (h.last_enp.symm.trans (hk.enp more (Nat.lt_of_not_le hlt))) (by decide)

theorem ChainAt.unique {l : Nat} (h : ChainAt m tdra n p more) (h' : ChainAt m tdra n p l) :
    more = l := by
  rcases Nat.le_total more l with hle | hle
  · exact h'.eq_of_enp hle h.last_enp
  · exact (h.eq_of_enp hle h'.last_enp).symm

/-- A chain that is cut short is longer than a packet. -/
theorem CutShort.long (h : CutShort m tdra n p k) (hc : ChainAt m tdra n p more) :
    MAX_PACKET_SIZE < capacity (descsFrom m tdra n p (more + 1)) := by
  rcases h with ⟨hpassed, -, hlong⟩ | ⟨-, -, hfirst, hlong⟩
  · calc MAX_PACKET_SIZE
        < (partsFrom m tdra n p (k + 1)).length := hlong
      _ ≤ (partsFrom m tdra n p (more + 1)).length :=
          length_partsFrom_mono (Nat.succ_le_succ (hpassed.le_chain hc))
      _ ≤ capacity (descsFrom m tdra n p (more + 1)) := length_partsFrom_le _
  · obtain rfl := hc.eq_of_enp (Nat.zero_le more) hfirst
    rw [capacity_descsFrom_succ]
    exact Nat.lt_add_left _ hlong

/-- The loop takes a chain that is cut short for a frame. -/
theorem CutShort.gathers (d : Daemon) (h : CutShort m tdra n p k) :
    GathersFrom m tdra n p (paddedSize d) (partsFrom m tdra n p k) := by
  rcases h with ⟨hpassed, hnext, hlong⟩ | ⟨rfl, hnext, hfirst, hlong⟩
  · exact .full k hpassed hnext hlong
  · -- a single buffer fills the packet, and there is nothing to pad
    have hsize : (partsFrom m tdra n p (0 + 1)).length = MAX_PACKET_SIZE := by
      rw [length_partsFrom_succ, Nat.min_eq_right hlong.le]
      exact Nat.zero_add _
    have hpad : paddedSize d MAX_PACKET_SIZE = MAX_PACKET_SIZE :=
      if_neg fun hlt => absurd hlt.1 (by decide)
    have hlast : GathersFrom m tdra n p (paddedSize d) _ :=
      .last 0 (passed_zero m tdra n p) hnext hfirst hsize.le
    rwa [hsize, hpad, Nat.sub_self, List.replicate_zero, List.append_nil] at hlast

/-- The loop meets a chain that is cut short without an error. -/
theorem CutShort.gathered {d : Daemon} (h : CutShort m tdra n p k)
    (he : LoopEnd m tdra n p (paddedSize d) r) :
    r.1.1.err = false ∧ bufTake r.1.2.transmitbuffer r.1.1.outsize = partsFrom m tdra n p k :=
  (h.gathers d).of_loopEnd he

/-- At a chain the loop stops without an error, and at a descriptor of it. -/
theorem LoopEnd.at_chain {pad : Nat → Nat} (he : LoopEnd m tdra n p pad r)
    (hc : ChainAt m tdra n p more) :
    r.1.1.err = false ∧ ∃ j ≤ more, ∃ o : U32, o.toNat = slot n p j ∧
      r.1.1.off = descOff tdra o := by
  cases he with
  | refused l hl stop =>
      have hle := hl.le_chain hc
      exact absurd ⟨Nat.lt_of_le_of_lt hle hc.more_lt, hc.own l hle⟩ stop
  | full l hl _ _ walk =>
      obtain ⟨o, ho, hwalk⟩ := walk
      rw [hwalk]
      exact ⟨rfl, l, hl.le_chain hc, o, ho, rfl⟩
  | last l hl _ _ _ walk =>
      obtain ⟨o, ho, hwalk⟩ := walk
      rw [hwalk]
      exact ⟨rfl, l, hl.le_chain hc, o, ho, rfl⟩

end Cut

/-- The loop ends with an error, with a part of a chain, or with a chain. -/
theorem LoopEnd.cases {d : Daemon} {m : BitVec 15 → U8} {p : Nat}
    {r : (TxWalk × Daemon) × World}
    (hstp : tst (descAt m d.amTdrTdra (slot d.amTdrTlen.toNat p 0)).md1 TX.STP = true)
    (he : LoopEnd m d.amTdrTdra d.amTdrTlen.toNat p (paddedSize d) r) :
    r.1.1.err = true ∨ (∃ k, CutShort m d.amTdrTdra d.amTdrTlen.toNat p k) ∨
      ∃ more, WholeFrame d m p more r ∧
        capacity (descsFrom m d.amTdrTdra d.amTdrTlen.toNat p (more + 1)) ≤ MAX_PACKET_SIZE := by
  cases he with
  | refused l _ _ err => exact .inl err
  | full l hl hnext stop => exact .inr (.inl ⟨l, .inl ⟨hl, hnext, stop⟩⟩)
  | last l hl hnext stop fits walk bytes ram =>
      by_cases hcap : capacity (descsFrom m d.amTdrTdra d.amTdrTlen.toNat p (l + 1)) ≤
        MAX_PACKET_SIZE
      case neg =>
        obtain ⟨rfl, hlong⟩ := zero_of_partsFrom_lt fits (Nat.lt_of_not_le hcap)
        exact .inr (.inl ⟨1, .inr ⟨rfl, hnext, stop, hlong⟩⟩)
      obtain ⟨hwhole, hlen⟩ := partsFrom_eq_buffersFrom hcap
      obtain ⟨o, ho, hwalk⟩ := walk
      have hchain : ChainAt m d.amTdrTdra d.amTdrTlen.toNat p l := by
        refine ⟨hnext.1, hstp, ?_, ?_⟩
        · intro j hj
          rcases Nat.lt_or_eq_of_le hj with hlt | rfl
          · exact hl.own j hlt
          · exact hnext.2
        · intro j hj
          rcases Nat.lt_or_eq_of_le hj with hlt | rfl
          · rw [hl.enp j hlt, decide_eq_false hlt.ne]
          · rw [stop, decide_eq_true rfl]
      rw [hlen] at bytes
      refine .inr (.inr ⟨l, ⟨hchain, ⟨o, ho, ?_⟩, ram, ?_, ?_⟩, hcap⟩)
      · rw [hwalk]
      · rw [hwalk, hlen]
      · rw [hwalk, hlen, ← hwhole]
        exact bytes

theorem err_set (v : U16) : tst (v ||| TX.ERR) TX.ERR = true := by
  simp only [TX.masks, tst_twoPow, getLsbD_or_twoPow]
  simp

/-- A chain that is not handed over is marked. -/
theorem markRefused_err {tdra o : U32} {t : TxWalk} (d : Daemon) (w : World)
    (herr : t.err = false) (hoff : t.off = descOff tdra o) (ho : o.toNat < 512) :
    tst (descAt ((markRefused t d).exec w).2.ram.mem tdra o.toNat).md1 TX.ERR = true := by
  unfold markRefused
  rw [if_neg (by simp [herr]), hoff]
  split
  · have hstore : ∀ ram : Boardram, (ram.putRamWord (descOff tdra o + 2) (t.tmd1 ||| TX.ERR)).mem =
        setWord ram.mem (descCell tdra o.toNat 2) (t.tmd1 ||| TX.ERR) := fun ram =>
      store_desc ram tdra o 2 _
    simp only [DProg.exec_bind, exec_putRamWord, DProg.exec_pure]
    rw [hstore, descAt_setMd1 _ _ _ ho ho, if_pos rfl]
    exact err_set _
  · simp only [DProg.exec_bind, exec_putRamWord, DProg.exec_pure]
    rw [mem_store_status, descAt_storeStatus _ _ _ _ ho ho, if_pos rfl]
    exact err_set _

/-- A chain that is cut short and handed over nevertheless. -/
theorem SendsPart.of_hands {d : Daemon} {m : BitVec 15 → U8} {i k : Nat}
    {r : (TxWalk × Daemon) × World} (htakes : TakesAt d m i)
    (hcut : CutShort m d.amTdrTdra d.amTdrTlen.toNat (d.tdrOffset.toNat + i) k)
    (hend : LoopEnd m d.amTdrTdra d.amTdrTlen.toNat (d.tdrOffset.toNat + i) (paddedSize d) r)
    (hframe : RingFrame d r.1.2) (hands : r.1.1.Hands r.1.2) : SendsPart d m := by
  obtain ⟨herr, hbytes⟩ := hcut.gathered hend
  exact ⟨i, k, htakes, hcut, (hands_iff hframe herr hbytes).mp hands⟩

theorem SendsPart.not_onlyWhole {cb : Callback} {d : Daemon} {w : World}
    (h : SendsPart d w.ram.mem) : ¬ OnlyWhole cb d w := by
  intro hwhole
  obtain ⟨i, k, htakes, hcut, hpass⟩ := h
  obtain ⟨-, r, hend, hframe, hhanded, -⟩ := htakes.loopEnd cb
  obtain ⟨herr, hbytes⟩ := hcut.gathered hend
  rw [if_pos ((hands_iff hframe herr hbytes).mpr hpass)] at hhanded
  obtain ⟨l, more, htakes', hframe⟩ := hwhole.whole r hhanded
  obtain rfl := htakes.unique htakes'
  -- a whole chain that is cut short would have been reported
  have hnone := (hwhole.reported i more htakes hframe.chain (hcut.long hframe.chain)).1
  rw [hhanded] at hnone
  cases hnone

theorem whole_of_handedOver {d : Daemon} {w : World} (h : ¬ SendsPart d w.ram.mem)
    {r : (TxWalk × Daemon) × World} (hr : handedOver d w = some r) :
    ∃ k more, TakesAt d w.ram.mem k ∧
      WholeFrame d w.ram.mem (d.tdrOffset.toNat + k) more r := by
  obtain ⟨k, htakes⟩ := exists_takesAt hr
  obtain ⟨-, r', hend, hframe, hhanded, -⟩ := htakes.loopEnd .null
  by_cases hands : r'.1.1.Hands r'.1.2
  case neg =>
    rw [hr, if_neg hands] at hhanded
    cases hhanded
  rw [hr, if_pos hands] at hhanded
  cases hhanded
  rcases hend.cases htakes.stp with herr | ⟨l, hcut⟩ | ⟨more, hwhole, -⟩
  · exact absurd (herr.symm.trans hands.1) (by decide)
  · exact absurd (.of_hands htakes hcut hend hframe hands) h
  · exact ⟨k, more, htakes, hwhole⟩

/-- A chain longer than a packet is not handed over, and it is marked. -/
theorem reported_of_long (cb : Callback) {d : Daemon} {w : World} {k more : Nat}
    (h : ¬ SendsPart d w.ram.mem) (htakes : TakesAt d w.ram.mem k)
    (hchain : ChainAt w.ram.mem d.amTdrTdra d.amTdrTlen.toNat (d.tdrOffset.toNat + k) more)
    (hlong : MAX_PACKET_SIZE < capacity (descsFrom w.ram.mem d.amTdrTdra d.amTdrTlen.toNat
      (d.tdrOffset.toNat + k) (more + 1))) :
    handedOver d w = none ∧ ∃ j ≤ more, tst (descAt ((doTransmit cb d).exec w).2.ram.mem
      d.amTdrTdra (slot d.amTdrTlen.toNat (d.tdrOffset.toNat + k) j)).md1 TX.ERR = true := by
  obtain ⟨addFcs, r, hend, hframe, hhanded, hcall⟩ := htakes.loopEnd cb
  obtain ⟨herr, j, hj, o, ho, hoff⟩ := hend.at_chain hchain
  have hnot : ¬ r.1.1.Hands r.1.2 := by
    intro hands
    rcases hend.cases htakes.stp with herr' | ⟨l, hcut⟩ | ⟨more', hwhole, hcap⟩
    · exact absurd (herr'.symm.trans herr) (by decide)
    · exact h (.of_hands htakes hcut hend hframe hands)
    · obtain rfl := hchain.unique hwhole.chain
      exact absurd hlong (Nat.not_lt.mpr hcap)
  rw [if_neg hnot] at hhanded
  refine ⟨hhanded, j, hj, ?_⟩
  obtain ⟨hpos, hlen, -⟩ := ringAccepted_iff.mp htakes.ring
  have hplace : o.toNat < 512 := by
    rw [ho]
    exact Nat.lt_of_lt_of_le (slot_lt hpos ..) hlen
  have hsame := (txTail_exec cb addFcs r.1.1 (d := r.1.2) (w := r.2) rfl).2
  rw [hcall, hsame.ram, txFinish_eq, if_neg hnot, ← ho]
  exact markRefused_err r.1.2 r.2 herr hoff hplace

/-- What `do_transmit` hands over is a whole frame, except where the chain is
cut short and neither the mode nor its first bytes keep it back. -/
theorem only_whole_iff (cb : Callback) (d : Daemon) (w : World) :
    OnlyWhole cb d w ↔ ¬ SendsPart d w.ram.mem := by
  constructor
  · exact fun hwhole hpart => hpart.not_onlyWhole hwhole
  · intro h
    constructor
    · exact fun r hr => whole_of_handedOver h hr
    · exact fun k more htakes hchain hlong => reported_of_long cb h htakes hchain hlong

/-- Two TX descriptors at 0x40, and the transmitter on. -/
def cutDaemon : Daemon :=
  { (registersReset .boot).csr0Set CSR0.TXON with
    amTdrTdra := 0x40
    amTdrTlen := 2 }

/-- A chain of 100 and 4000 bytes, four more than a packet. -/
def cutWorld : World :=
  .holding [(0x40, 0x100), (0x42, 0x8200), (0x44, 0xFF9C), (0x48, 0x200), (0x4A, 0x8100),
    (0x4C, 0xF060), (0x100, 0xFFFF)]

theorem cutWorld_sendsPart : SendsPart cutDaemon cutWorld.ram.mem := by
  refine ⟨0, 1, ⟨by decide +kernel, by decide +kernel, by decide, ?_, by decide +kernel⟩,
    .inl ⟨⟨by decide, by decide +kernel, by decide +kernel, by decide +kernel⟩,
      ⟨by decide, by decide +kernel⟩, ?_⟩, ?_⟩
  · exact fun j hj => absurd hj (Nat.not_lt_zero j)
  · rw [length_partsFrom_succ, length_partsFrom_succ]
    decide +kernel
  · exact ⟨by decide +kernel, .inr (by decide +kernel)⟩

/-- Of the chain only the first buffer is handed over. -/
theorem part_of_frame_sent : ¬ OnlyWhole .null cutDaemon cutWorld :=
  cutWorld_sendsPart.not_onlyWhole

end A2065
