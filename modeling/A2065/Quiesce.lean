import A2065.WholeFrames

/-!
# Transmission comes to rest

Call `do_transmit` again and again while the host stores nothing. Outside
loopback the only stores are to MD1 and MD3 of TX descriptors, and none of them
sets OWN (`OnlyReleases`). A call that takes a frame also clears OWN of the
descriptor it starts from, whichever way it ends. So the descriptors with OWN
and STP become fewer with each such call, and none of them comes back.
-/

namespace A2065

open Bits CyclicMem Circular

/-! ## Stores that set no OWN -/

/-- The descriptors the chip owns in `m'` have the MD1 they had in `m`. -/
def OnlyReleases (base : U32) (n : Nat) (m m' : BitVec 15 → U8) : Prop :=
  ∀ i < n, tst (descAt m' base i).md1 TX.OWN = true →
    (descAt m' base i).md1 = (descAt m base i).md1

section OnlyReleases

variable {base : U32} {n : Nat} {m m' m'' : BitVec 15 → U8}

theorem OnlyReleases.refl (base : U32) (n : Nat) (m : BitVec 15 → U8) : OnlyReleases base n m m :=
  fun _ _ _ => rfl

theorem OnlyReleases.trans (h : OnlyReleases base n m m') (h' : OnlyReleases base n m' m'') :
    OnlyReleases base n m m'' := by
  intro i hi hown
  have hsame := h' i hi hown
  rw [hsame] at hown
  rw [hsame, h i hi hown]

/-- A released descriptor stays released. -/
theorem OnlyReleases.own (h : OnlyReleases base n m m') {i : Nat} (hi : i < n)
    (hfree : tst (descAt m base i).md1 TX.OWN = false) :
    tst (descAt m' base i).md1 TX.OWN = false := by
  by_contra hown
  rw [Bool.not_eq_false] at hown
  have hsame := h i hi hown
  rw [hsame, hfree] at hown
  cases hown

theorem OnlyReleases.ready (h : OnlyReleases base n m m') {i : Nat} (hi : i < n)
    (hready : readyAt m' base i = true) : readyAt m base i = true := by
  have hboth := hready
  rw [readyAt, txReady, Bool.and_eq_true] at hboth
  rw [readyAt, ← h i hi hboth.1]
  exact hready

theorem onlyReleases_putMd1 (base : U32) (hn : n ≤ 512) (ram : Boardram) {o : U32}
    (ho : o.toNat < n) {v : U16} (hv : tst v TX.OWN = false) :
    OnlyReleases base n ram.mem (ram.putRamWord (descOff base o + 2) v).mem ∧
      tst (descAt (ram.putRamWord (descOff base o + 2) v).mem base o.toNat).md1 TX.OWN = false := by
  have hmem : (ram.putRamWord (descOff base o + 2) v).mem =
      setWord ram.mem (descCell base o.toNat 2) v := store_desc ram base o 2 v
  have hdesc : ∀ i < n, descAt (ram.putRamWord (descOff base o + 2) v).mem base i =
      if i = o.toNat then { descAt ram.mem base o.toNat with md1 := v }
      else descAt ram.mem base i := by
    intro i hi
    rw [hmem, descAt_setMd1 _ _ _ (by omega) (by omega)]
  constructor
  · intro i hi hown
    rw [hdesc i hi] at hown ⊢
    by_cases heq : i = o.toNat
    · rw [if_pos heq] at hown
      exact absurd (hown.symm.trans hv) (by decide)
    · rw [if_neg heq]
  · rw [hdesc _ ho, if_pos rfl]
    exact hv

theorem md1_putMd3 (hn : n ≤ 512) (ram : Boardram) {o : U32} (ho : o.toNat < n) (v : U16) {i : Nat}
    (hi : i < n) : (descAt (ram.putRamWord (descOff base o + 6) v).mem base i).md1 =
      (descAt ram.mem base i).md1 := by
  have hmem : (ram.putRamWord (descOff base o + 6) v).mem =
      setWord ram.mem (descCell base o.toNat 6) v := store_desc ram base o 6 v
  rw [hmem, descAt_setMd3 _ _ _ (by omega) (by omega)]
  by_cases heq : i = o.toNat
  · rw [if_pos heq, heq]
  · rw [if_neg heq]

theorem onlyReleases_putMd3 (hn : n ≤ 512) (ram : Boardram) {o : U32} (ho : o.toNat < n) (v : U16) :
    OnlyReleases base n ram.mem (ram.putRamWord (descOff base o + 6) v).mem :=
  fun _ hi _ => md1_putMd3 hn ram ho v hi

/-- MD1 and MD3, in the order of all ways out but the underflow. -/
theorem onlyReleases_status (base : U32) (hn : n ≤ 512) (ram : Boardram) {o : U32}
    (ho : o.toNat < n) {md1 : U16} (md3 : U16) (hown : tst md1 TX.OWN = false) :
    OnlyReleases base n ram.mem
        ((ram.putRamWord (descOff base o + 2) md1).putRamWord (descOff base o + 6) md3).mem ∧
      tst (descAt ((ram.putRamWord (descOff base o + 2) md1).putRamWord
        (descOff base o + 6) md3).mem base o.toNat).md1 TX.OWN = false := by
  obtain ⟨hfirst, hfree⟩ := onlyReleases_putMd1 base hn ram ho hown
  refine ⟨hfirst.trans (onlyReleases_putMd3 hn _ ho md3), ?_⟩
  rw [md1_putMd3 hn _ ho md3 ho]
  exact hfree

end OnlyReleases

theorem own_or_err {v : U16} (h : tst v TX.OWN = false) : tst (v ||| TX.ERR) TX.OWN = false := by
  simp only [TX.masks, tst_twoPow, BitVec.getLsbD_or] at h ⊢
  rw [h]
  decide

/-! ## One call -/

/-- What the chain loop leaves: the descriptor at hand is out of OWN, and the
one the loop has started from is either released or the one at hand. -/
structure ChainReleases (base : U32) (n i : Nat) (m : BitVec 15 → U8)
    (r : (TxWalk × Daemon) × World) : Prop where
  stores : OnlyReleases base n m r.2.ram.mem
  walk : tst r.1.1.tmd1 TX.OWN = false
  hand : ∃ o : U32, o.toNat < n ∧ r.1.1.off = descOff base o ∧
    (tst (descAt r.2.ram.mem base i).md1 TX.OWN = false ∨ o.toNat = i ∧ r.1.1.err = false)

theorem txChain_releases {tdra tlen : U32} (hlen : tlen.toNat ≤ 512) (hpos : 0 < tlen.toNat)
    (d : Daemon) (w : World) (outsize : Nat) :
    ChainReleases tdra tlen.toNat (d.tdrOffset % tlen).toNat w.ram.mem
      ((txChain tdra tlen d outsize).exec w) := by
  have hi : ∀ o : U32, (o % tlen).toNat < tlen.toNat := fun o => toNat_mod_lt hpos
  induction d, outsize, w using txChain_run_induction tdra tlen with
  | refused d outsize w x hx hown =>
      obtain ⟨hstores, hfree⟩ := onlyReleases_status tdra hlen w.ram (hi d.tdrOffset)
        (x.md3 ||| (TX.BUFF ||| TX.UFLO)) (own_or_err hown)
      rw [txChain_refused_exec hx hown]
      exact ⟨hstores, own_or_err hown, _, hi d.tdrOffset, rfl, .inl hfree⟩
  | full d outsize w x hx hown hfull =>
      obtain ⟨hstores, hfree⟩ := onlyReleases_status tdra hlen w.ram (hi d.tdrOffset) x.md3
        (own_release x)
      rw [txChain_full_exec hx hown hfull]
      exact ⟨hstores, own_release x, _, hi d.tdrOffset, rfl, .inl hfree⟩
  | last d outsize w x hx hown henp hfits =>
      rw [txChain_lastPart hx hown henp hfits rfl]
      exact ⟨OnlyReleases.refl _ _ _, own_release x, _, hi d.tdrOffset, rfl, .inr ⟨rfl, rfl⟩⟩
  | part d outsize w x hx hown henp hfits ih =>
      -- the descriptor is released, and the loop goes on behind it
      obtain ⟨hstores, hfree⟩ := onlyReleases_status tdra hlen w.ram (hi d.tdrOffset) x.md3
        (own_release x)
      obtain ⟨o, ho, hoff, -⟩ := ih.hand
      rw [txChain_part_exec hx hown henp hfits]
      exact ⟨hstores.trans ih.stores, ih.walk, o, ho, hoff,
        .inl (ih.stores.own (hi d.tdrOffset) hfree)⟩

/-- Outside loopback the end of `do_transmit` releases the descriptor at hand
unless the loop has ended in an error. -/
theorem txFinish_releases (cb : Callback) (addFcs : Bool) {t : TxWalk} {d : Daemon} (w : World)
    {base o : U32} {n : Nat} (hn : n ≤ 512) (hloop : tst d.amMode MODE.LOOP = false)
    (hoff : t.off = descOff base o) (ho : o.toNat < n) (hown : tst t.tmd1 TX.OWN = false) :
    OnlyReleases base n w.ram.mem ((txFinish cb addFcs t d).exec w).2.ram.mem ∧
      (t.err = false →
        tst (descAt ((txFinish cb addFcs t d).exec w).2.ram.mem base o.toNat).md1 TX.OWN =
          false) := by
  rw [txFinish_eq]
  by_cases hands : t.Hands d
  · rw [if_pos hands, handOver, if_neg (by simp [hloop])]
    simp only [DProg.exec_bind, exec_putRamWord, exec_ethernetSend, DProg.exec_pure, hoff]
    have hstatus := onlyReleases_status base hn w.ram ho t.tmd3 hown
    exact ⟨hstatus.1, fun _ => hstatus.2⟩
  rw [if_neg hands, markRefused]
  by_cases herr : t.err = true
  · rw [if_pos herr]
    exact ⟨OnlyReleases.refl _ _ _, fun h => absurd (herr.symm.trans h) (by decide)⟩
  rw [if_neg herr]
  by_cases hshort : t.outsize < 60 ∧ ¬ tst d.amMode MODE.LOOP
  · -- an underflow stores MD3 first
    rw [if_pos hshort]
    simp only [DProg.exec_bind, exec_putRamWord, DProg.exec_pure, hoff]
    obtain ⟨hfirst, hfree⟩ := onlyReleases_putMd1 base hn
      (w.ram.putRamWord (descOff base o + 6) (t.tmd3 ||| (TX.BUFF ||| TX.UFLO))) ho
      (own_or_err hown)
    exact ⟨(onlyReleases_putMd3 hn w.ram ho _).trans hfirst, fun _ => hfree⟩
  · rw [if_neg hshort]
    simp only [DProg.exec_bind, exec_putRamWord, DProg.exec_pure, hoff]
    have hstatus := onlyReleases_status base hn w.ram ho (t.tmd3 ||| TX.RTRY)
      (own_or_err hown)
    exact ⟨hstatus.1, fun _ => hstatus.2⟩

/-- `do_transmit` starts a frame at descriptor `i`. -/
def StartsAt (d : Daemon) (m : BitVec 15 → U8) (i : Nat) : Prop :=
  ∃ k, TakesAt d m k ∧ i = slot d.amTdrTlen.toNat d.tdrOffset.toNat k

theorem exists_startsAt_iff {d : Daemon} {m : BitVec 15 → U8} :
    (∃ i, StartsAt d m i) ↔ tst d.csr0 CSR0.TXON = true ∧
      ringAccepted d.amTdrTdra d.amTdrTlen = true ∧
      ∃ i < d.amTdrTlen.toNat, readyAt m d.amTdrTdra i = true := by
  constructor
  · rintro ⟨i, k, h, rfl⟩
    exact ⟨h.txon, h.ring, _, slot_lt (Nat.zero_lt_of_lt h.lt) .., h.ready⟩
  · intro ⟨hon, hring, hready⟩
    obtain ⟨k, hk, hr, hfirst⟩ := exists_first_ready hready d.tdrOffset.toNat
    exact ⟨_, k, ⟨hon, hring, hk, hfirst, hr⟩, rfl⟩

section Call

variable (cb : Callback) {d : Daemon} {w : World}

/-- The call releases the descriptor it starts from. -/
theorem StartsAt.releases {i : Nat} (h : StartsAt d w.ram.mem i)
    (hloop : tst d.amMode MODE.LOOP = false) :
    OnlyReleases d.amTdrTdra d.amTdrTlen.toNat w.ram.mem ((doTransmit cb d).exec w).2.ram.mem ∧
      tst (descAt ((doTransmit cb d).exec w).2.ram.mem d.amTdrTdra i).md1 TX.OWN = false ∧
      ((doTransmit cb d).exec w).1.1 = 1 := by
  obtain ⟨k, h, rfl⟩ := h
  obtain ⟨hpos, hlen, -⟩ := ringAccepted_iff.mp h.ring
  obtain ⟨offset, addFcs, hmod, hrun⟩ := h.run cb
  rw [slot_add, Nat.add_zero] at hmod
  have hchain : ChainReleases d.amTdrTdra d.amTdrTlen.toNat (offset % d.amTdrTlen).toNat w.ram.mem
      ((txChain d.amTdrTdra d.amTdrTlen { d with tdrOffset := offset } 0).exec w) :=
    txChain_releases hlen hpos { d with tdrOffset := offset } w 0
  have hframe := (always_exec (txChain_effect d.amTdrTdra d.amTdrTlen d
    { d with tdrOffset := offset } 0 ((RingFrame.refl d).cursors _ _ _) rfl) w).1
  obtain ⟨r, hr⟩ : ∃ r, (txChain d.amTdrTdra d.amTdrTlen
    { d with tdrOffset := offset } 0).exec w = r := ⟨_, rfl⟩
  obtain ⟨-, hcall⟩ := hrun r hr
  rw [hr, hmod] at hchain
  rw [hr] at hframe
  obtain ⟨o, ho, hoff, hstart⟩ := hchain.hand
  obtain ⟨hstores, hhand⟩ := txFinish_releases cb addFcs r.2 hlen
    (by rw [hframe.amMode]; exact hloop) hoff ho hchain.walk
  obtain ⟨hval, hsame⟩ := txTail_exec cb addFcs r.1.1
    (show (txFinish cb addFcs r.1.1 r.1.2).exec r.2 = (_, _) from rfl)
  rw [hcall, hsame.ram, hval]
  refine ⟨hchain.stores.trans hstores, ?_, rfl⟩
  rcases hstart with hfree | ⟨heq, herr⟩
  · exact hstores.own (slot_lt hpos ..) hfree
  · rw [← heq]
    exact hhand herr

/-- A call that starts no frame changes nothing but the cursor. -/
theorem doTransmit_rest (h : ¬ ∃ i, StartsAt d w.ram.mem i) :
    ∃ o : U32, (doTransmit cb d).exec w = ((0, { d with tdrOffset := o }), w) := by
  rw [exists_startsAt_iff] at h
  by_cases hon : tst d.csr0 CSR0.TXON = true
  · by_cases hring : ringAccepted d.amTdrTdra d.amTdrTlen = true
    · obtain ⟨o, -, hexec⟩ := doTransmit_none cb (d := d) (w := w) fun i hi =>
        Bool.eq_false_iff.mpr fun hr => h ⟨hon, hring, i, hi, hr⟩
      exact ⟨o, hexec⟩
    · refine ⟨d.tdrOffset, ?_⟩
      rw [doTransmit, if_neg (by simp [hon]), if_pos hring]
      rfl
  · refine ⟨d.tdrOffset, ?_⟩
    rw [doTransmit, if_pos hon]
    rfl

end Call

/-! ## Repeated calls -/

/-- Daemon and memory after `k` calls. -/
def txCalls (cb : Callback) (d : Daemon) (w : World) : Nat → Daemon × World
  | 0 => (d, w)
  | k + 1 =>
      let s := txCalls cb d w k
      let r := (doTransmit cb s.1).exec s.2
      (r.1.2, r.2)

/-- What call `k` returns, counted from 0. -/
def txReturn (cb : Callback) (d : Daemon) (w : World) (k : Nat) : Nat :=
  ((doTransmit cb (txCalls cb d w k).1).exec (txCalls cb d w k).2).1.1

/-- The TX descriptors with OWN and STP. -/
def readyCount (d : Daemon) (m : BitVec 15 → U8) : Nat :=
  ((Finset.range d.amTdrTlen.toNat).filter fun i => readyAt m d.amTdrTdra i = true).card

/-- Each call that takes a frame leaves fewer descriptors to start from; after
as many calls as there were, nothing more happens; no descriptor starts two
frames. -/
structure Quiesces (cb : Callback) (d : Daemon) (w : World) : Prop where
  takes : ∀ k, txReturn cb d w k = 1 ↔
    ∃ i, StartsAt (txCalls cb d w k).1 (txCalls cb d w k).2.ram.mem i
  fewer : ∀ k, txReturn cb d w k = 1 →
    readyCount (txCalls cb d w (k + 1)).1 (txCalls cb d w (k + 1)).2.ram.mem <
      readyCount (txCalls cb d w k).1 (txCalls cb d w k).2.ram.mem
  rests : ∀ k, readyCount d w.ram.mem ≤ k → txReturn cb d w k = 0 ∧
    (txCalls cb d w (k + 1)).2.ram = (txCalls cb d w k).2.ram ∧
    (txCalls cb d w (k + 1)).1.csr0 = (txCalls cb d w k).1.csr0
  once : ∀ j k i, j < k → StartsAt (txCalls cb d w j).1 (txCalls cb d w j).2.ram.mem i →
    ¬ StartsAt (txCalls cb d w k).1 (txCalls cb d w k).2.ram.mem i

section Calls

variable (cb : Callback) (d : Daemon) (w : World)

theorem txCalls_frame (k : Nat) : RingFrame d (txCalls cb d w k).1 := by
  induction k with
  | zero => exact .refl d
  | succ k ih => exact ih.trans (always_exec (doTransmit_effect cb _) _).frame

variable {cb d w}

theorem readyCount_pos {d : Daemon} {m : BitVec 15 → U8} {i : Nat} (h : StartsAt d m i) :
    0 < readyCount d m := by
  obtain ⟨k, h, rfl⟩ := h
  apply Finset.card_pos.mpr
  refine ⟨slot d.amTdrTlen.toNat d.tdrOffset.toNat k, ?_⟩
  rw [Finset.mem_filter, Finset.mem_range]
  exact ⟨slot_lt (Nat.zero_lt_of_lt h.lt) .., h.ready⟩

/-- Fewer descriptors are ready when one that was is released and no other has
come. -/
theorem readyCount_lt {d d' : Daemon} {m m' : BitVec 15 → U8} {i : Nat} (hf : RingFrame d d')
    (h : StartsAt d m i) (hstores : OnlyReleases d.amTdrTdra d.amTdrTlen.toNat m m')
    (hfree : tst (descAt m' d.amTdrTdra i).md1 TX.OWN = false) :
    readyCount d' m' < readyCount d m := by
  obtain ⟨k, h, rfl⟩ := h
  unfold readyCount
  rw [hf.amTdrTlen, hf.amTdrTdra]
  apply Finset.card_lt_card
  rw [Finset.ssubset_iff_of_subset]
  · refine ⟨slot d.amTdrTlen.toNat d.tdrOffset.toNat k, ?_, ?_⟩
    · rw [Finset.mem_filter, Finset.mem_range]
      exact ⟨slot_lt (Nat.zero_lt_of_lt h.lt) .., h.ready⟩
    · rw [Finset.mem_filter, readyAt, txReady, hfree]
      simp
  · intro j hj
    rw [Finset.mem_filter, Finset.mem_range] at hj ⊢
    exact ⟨hj.1, hstores.ready hj.1 hj.2⟩

/-- A call that returns 0 is followed by calls that return 0. -/
theorem startsAt_of_succ {k : Nat}
    (h : ∃ i, StartsAt (txCalls cb d w (k + 1)).1 (txCalls cb d w (k + 1)).2.ram.mem i) :
    ∃ i, StartsAt (txCalls cb d w k).1 (txCalls cb d w k).2.ram.mem i := by
  by_contra hno
  obtain ⟨o, hexec⟩ := doTransmit_rest cb hno
  simp only [txCalls, hexec] at h
  rw [exists_startsAt_iff] at h hno
  exact hno h

section OutsideLoopback

variable (hloop : tst d.amMode MODE.LOOP = false)

include hloop

theorem txCalls_loop (k : Nat) : tst (txCalls cb d w k).1.amMode MODE.LOOP = false := by
  rw [(txCalls_frame cb d w k).amMode]
  exact hloop

theorem txReturn_eq_one_iff (k : Nat) :
    txReturn cb d w k = 1 ↔
      ∃ i, StartsAt (txCalls cb d w k).1 (txCalls cb d w k).2.ram.mem i := by
  constructor
  · intro h
    by_contra hno
    obtain ⟨o, hexec⟩ := doTransmit_rest cb hno
    rw [txReturn, hexec] at h
    cases h
  · rintro ⟨i, h⟩
    exact (h.releases cb (txCalls_loop hloop k)).2.2

theorem txCalls_onlyReleases (k : Nat) :
    OnlyReleases d.amTdrTdra d.amTdrTlen.toNat (txCalls cb d w k).2.ram.mem
      (txCalls cb d w (k + 1)).2.ram.mem := by
  have hf := txCalls_frame cb d w k
  by_cases h : ∃ i, StartsAt (txCalls cb d w k).1 (txCalls cb d w k).2.ram.mem i
  · obtain ⟨i, h⟩ := h
    have hcall := (h.releases cb (txCalls_loop hloop k)).1
    rwa [hf.amTdrTdra, hf.amTdrTlen] at hcall
  · obtain ⟨o, hexec⟩ := doTransmit_rest cb h
    simp only [txCalls, hexec]
    exact OnlyReleases.refl _ _ _

theorem readyCount_txCalls_lt {k : Nat} (hk : txReturn cb d w k = 1) :
    readyCount (txCalls cb d w (k + 1)).1 (txCalls cb d w (k + 1)).2.ram.mem <
      readyCount (txCalls cb d w k).1 (txCalls cb d w k).2.ram.mem := by
  obtain ⟨i, h⟩ := (txReturn_eq_one_iff hloop k).mp hk
  obtain ⟨hcall, hfree, -⟩ := h.releases cb (txCalls_loop hloop k)
  exact readyCount_lt (always_exec (doTransmit_effect cb _) _).frame h hcall hfree

/-- As long as frames are taken, each call has taken one. -/
theorem readyCount_txCalls_add_le {k : Nat} (hk : txReturn cb d w k = 1) :
    readyCount (txCalls cb d w k).1 (txCalls cb d w k).2.ram.mem + k ≤
      readyCount d w.ram.mem := by
  induction k with
  | zero => exact Nat.le_refl _
  | succ k ih =>
      rw [txReturn_eq_one_iff hloop] at hk
      have hprev := (txReturn_eq_one_iff hloop k).mpr (startsAt_of_succ hk)
      have hle := ih hprev
      have hlt := readyCount_txCalls_lt hloop hprev
      omega

/-- What a call has released stays released. -/
theorem own_txCalls_of_le {i j k : Nat} (hi : i < d.amTdrTlen.toNat) (hjk : j ≤ k)
    (hfree : tst (descAt (txCalls cb d w j).2.ram.mem d.amTdrTdra i).md1 TX.OWN = false) :
    tst (descAt (txCalls cb d w k).2.ram.mem d.amTdrTdra i).md1 TX.OWN = false := by
  induction hjk with
  | refl => exact hfree
  | step _ ih => exact (txCalls_onlyReleases hloop _).own hi ih

end OutsideLoopback

end Calls

/-- Outside loopback and with no stores of the host in between, repeated
transmission comes to rest. -/
theorem transmit_quiesces (cb : Callback) (d : Daemon) (w : World)
    (hloop : tst d.amMode MODE.LOOP = false) : Quiesces cb d w := by
  constructor
  case takes => exact txReturn_eq_one_iff hloop
  case fewer => exact fun k hk => readyCount_txCalls_lt hloop hk
  case rests =>
    intro k hk
    have hno : ¬ ∃ i, StartsAt (txCalls cb d w k).1 (txCalls cb d w k).2.ram.mem i := by
      rintro ⟨i, h⟩
      have hle := readyCount_txCalls_add_le hloop ((txReturn_eq_one_iff hloop k).mpr ⟨i, h⟩)
      have hpos := readyCount_pos h
      omega
    obtain ⟨o, hexec⟩ := doTransmit_rest cb hno
    rw [txReturn, hexec]
    simp only [txCalls, hexec]
    exact ⟨trivial, trivial, rfl⟩
  case once =>
    intro j k i hjk hj hk
    have hfj := txCalls_frame cb d w j
    have hfk := txCalls_frame cb d w k
    obtain ⟨-, hfree, -⟩ := hj.releases cb (txCalls_loop hloop j)
    obtain ⟨a, ha, rfl⟩ := hk
    have hi : slot d.amTdrTlen.toNat (txCalls cb d w k).1.tdrOffset.toNat a <
        d.amTdrTlen.toNat := by
      have hlt := ha.lt
      rw [hfk.amTdrTlen] at hlt
      exact slot_lt (Nat.zero_lt_of_lt hlt) ..
    rw [hfk.amTdrTlen, hfj.amTdrTdra] at hfree
    -- what call `j` has released is still released before call `k`
    have hstill := own_txCalls_of_le (j := j + 1) hloop hi hjk hfree
    have hready := ha.ready
    rw [hfk.amTdrTlen, hfk.amTdrTdra, readyAt, txReady, hstill] at hready
    cases hready

/-- One chain in the ring: the second call finds nothing. -/
theorem transmit_quiesces_wrapped : readyCount wrapDaemon wrapWorld.ram.mem = 1 ∧
    txReturn .null wrapDaemon wrapWorld 1 = 0 := by
  have hcount : readyCount wrapDaemon wrapWorld.ram.mem = 1 := by decide +kernel
  have hrests := (transmit_quiesces .null wrapDaemon wrapWorld (by decide +kernel)).rests 1
    (Nat.le_of_eq hcount)
  exact ⟨hcount, hrests.1⟩

end A2065
