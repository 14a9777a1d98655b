import A2065.TransmitQueue
import A2065.MacBytes

/-!
# One call of do_transmit, cell by cell

The buffers of a chain need to keep clear of the descriptors of the chain only:
a buffer may lie over any other descriptor of the ring. What a call leaves
behind is therefore said of single cells. To release a descriptor is to clear
the top bit of one cell, the high byte of its TMD1, and that is all a call
changes in the window.
-/

namespace A2065

open Bits CyclicMem Circular

/-! ## Released descriptors -/

/-- A word stored back without its top bit. -/
theorem setWord_clear_own (m : BitVec 15 → U8) (c : BitVec 15) :
    setWord m c (wordAt m c &&& ~~~ TX.OWN) = Function.update m c (m c &&& 0x7F) := by
  have hhigh : ((wordAt m c &&& ~~~ TX.OWN) >>> 8).setWidth 8 = m c &&& 0x7F := by
    apply BitVec.eq_of_getLsbD_eq
    intro i hi
    interval_cases i <;> simp [wordAt, TX.OWN]
  have hlow : (wordAt m c &&& ~~~ TX.OWN).setWidth 8 = m (c + 1) := by
    apply BitVec.eq_of_getLsbD_eq
    intro i hi
    interval_cases i <;> simp [wordAt, TX.OWN]
  have hne : c + 1 ≠ c := by bv_omega
  rw [setWord, hhigh, hlow, ← Function.update_of_ne hne (m c &&& 0x7F) m, Function.update_eq_self]

/-- TMD1 goes back without OWN, and TMD3 as it was. -/
theorem storeStatus_release (m : BitVec 15 → U8) (base : U32) {i : Nat} (hi : i < 512) :
    storeStatus m base i (descAt m base i).release.md1 (descAt m base i).md3 =
      Function.update m (descCell base i 2) (m (descCell base i 2) &&& 0x7F) := by
  have hmd3 := congrArg Desc.md3 (descAt_setMd1 m base (descAt m base i).release.md1 hi hi)
  rw [if_pos rfl] at hmd3
  rw [storeStatus, ← hmd3]
  exact (setWord_wordAt _ _).trans (setWord_clear_own m (descCell base i 2))

/-- The window with OWN cleared on the first `k` descriptors from place `p` on. -/
def released (base : U32) (n p k : Nat) (m : BitVec 15 → U8) : BitVec 15 → U8 := fun c =>
  if ∃ j < k, c = descCell base (slot n p j) 2 then m c &&& 0x7F else m c

section Released

variable {base : U32} {n p k : Nat} {m : BitVec 15 → U8}

theorem released_of_ne {c : BitVec 15} (h : ∀ j < k, c ≠ descCell base (slot n p j) 2) :
    released base n p k m c = m c :=
  if_neg fun ⟨j, hj, hc⟩ => h j hj hc

theorem released_zero (base : U32) (n p : Nat) (m : BitVec 15 → U8) :
    released base n p 0 m = m := by
  funext c
  exact released_of_ne fun j hj => absurd hj (Nat.not_lt_zero j)

theorem released_succ (base : U32) (n p k : Nat) (m : BitVec 15 → U8) :
    released base n p (k + 1) m = Function.update (released base n p k m)
      (descCell base (slot n p k) 2)
      (released base n p k m (descCell base (slot n p k) 2) &&& 0x7F) := by
  funext c
  by_cases hc : c = descCell base (slot n p k) 2
  · subst hc
    rw [Function.update_self, released, if_pos ⟨k, Nat.lt_succ_self k, rfl⟩, released]
    split
    · rw [BitVec.and_assoc, BitVec.and_self]
    · rfl
  · rw [Function.update_of_ne hc]
    have hiff : (∃ j < k + 1, c = descCell base (slot n p j) 2) ↔
        ∃ j < k, c = descCell base (slot n p j) 2 := by
      constructor
      · intro ⟨j, hj, hcj⟩
        rcases Nat.lt_succ_iff_lt_or_eq.mp hj with hlt | rfl
        · exact ⟨j, hlt, hcj⟩
        · exact absurd hcj hc
      · intro ⟨j, hj, hcj⟩
        exact ⟨j, Nat.lt_succ_of_lt hj, hcj⟩
    simp only [released, hiff]

/-- Descriptors of one ring share no cell. -/
theorem descCell_ne (base : U32) {i j a b : Nat} (hi : i < 512) (hj : j < 512) (ha : a < 8)
    (hb : b < 8) (h : i ≠ j) : descCell base i a ≠ descCell base j b := by
  intro heq
  have hoff : 8 * i + a = 8 * j + b := (offset_inj (cell base) (by omega) (by omega)).mp heq
  omega

/-- The descriptors behind the released ones are as they were. -/
theorem descAt_released (hn : n ≤ 512) {j : Nat} (hkj : k ≤ j) (hj : j < n) :
    descAt (released base n p k m) base (slot n p j) = descAt m base (slot n p j) := by
  have hslot : ∀ i, slot n p i < 512 := fun i => Nat.lt_of_lt_of_le (slot_lt (by omega) p i) hn
  apply descAt_of_cells
  intro a ha
  apply released_of_ne
  intro i hi
  have hplace : slot n p j ≠ slot n p i := by
    rw [Ne, slot_inj hj (by omega)]
    omega
  exact descCell_ne base (hslot j) (hslot i) ha (by decide) hplace

/-- Releasing one more. -/
theorem storeStatus_released (hn : n ≤ 512) (hk : k < n) :
    storeStatus (released base n p k m) base (slot n p k)
      (descAt m base (slot n p k)).release.md1 (descAt m base (slot n p k)).md3 =
      released base n p (k + 1) m := by
  have hslot : slot n p k < 512 := Nat.lt_of_lt_of_le (slot_lt (by omega) p k) hn
  have hstore := storeStatus_release (released base n p k m) base hslot
  rw [descAt_released hn (Nat.le_refl k) hk] at hstore
  rw [hstore, released_succ]

/-- OWN of a released descriptor. -/
theorem own_released {j : Nat} (hj : j < k) :
    tst (descAt (released base n p k m) base (slot n p j)).md1 TX.OWN = false := by
  have hcell : released base n p k m (descCell base (slot n p j) 2) =
      m (descCell base (slot n p j) 2) &&& 0x7F := if_pos ⟨j, hj, rfl⟩
  simp only [TX.masks, tst_twoPow, descAt, wordAt, hcell]
  simp

/-- OWN is cleared on exactly the released descriptors. -/
theorem own_released_iff (hn : n ≤ 512) {i : Nat} (hi : i < n) :
    tst (descAt (released base n p k m) base i).md1 TX.OWN = true ↔
      tst (descAt m base i).md1 TX.OWN = true ∧ ∀ j < k, i ≠ slot n p j := by
  obtain ⟨l, hl, rfl⟩ := exists_slot hi p
  by_cases hlk : l < k
  · rw [own_released hlk]
    exact iff_of_false (by decide) fun hall => hall.2 l hlk rfl
  · rw [descAt_released hn (by omega) hl, iff_self_and]
    intro _ j hj heq
    have hlj := (slot_inj hl (by omega)).mp heq
    omega

end Released

/-! ## The chain -/

/-- The cells of one descriptor. -/
def descCells (base : U32) (i : Nat) : Set (BitVec 15) := block (descCell base i 0) 8

instance Desc.decidableDisjointDesc (x : Desc) (base : U32) (i : Nat) :
    Decidable (Disjoint x.cells (descCells base i)) :=
  inferInstanceAs (Decidable (Disjoint (block _ _) (block _ _)))

theorem descCell_mem_descCells (base : U32) (i : Nat) {k : Nat} (hk : k < 8) :
    descCell base i k ∈ descCells base i := by
  have hcell : descCell base i k = descCell base i 0 + BitVec.ofNat 15 k := by
    rw [descCell, descCell, Nat.add_zero, BitVec.ofNat_add, BitVec.add_assoc]
  rw [hcell]
  exact offset_mem_block _ hk (by omega)

/-- From place `p` on the chip owns `more + 1` descriptors with ENP on the last
only. Together they are not longer than a packet, and no buffer of theirs lies
over a descriptor of theirs. -/
structure OwnedChain (m : BitVec 15 → U8) (tdra : U32) (n p more : Nat) : Prop where
  more_lt : more < n
  own : ∀ j ≤ more, tst (descAt m tdra (slot n p j)).md1 TX.OWN = true
  enp : ∀ j ≤ more, tst (descAt m tdra (slot n p j)).md1 TX.ENP = decide (j = more)
  size : capacity (descsFrom m tdra n p (more + 1)) ≤ MAX_PACKET_SIZE
  apart : ∀ i ≤ more, ∀ j ≤ more,
    Disjoint (descAt m tdra (slot n p i)).cells (descCells tdra (slot n p j))

theorem descsFrom_cons (m : BitVec 15 → U8) (tdra : U32) (n p k : Nat) :
    descsFrom m tdra n p (k + 1) =
      descAt m tdra (slot n p 0) :: descsFrom m tdra n (p + 1) k := by
  rw [descsFrom, List.range_succ_eq_map, List.map_cons, List.map_map, descsFrom]
  congr 1
  apply List.map_congr_left
  intro j _
  rw [slot_add, Nat.add_comm 1]
  rfl

/-- The room from descriptor `j` on, and from the next one on. -/
theorem capacity_descsFrom_cons (m : BitVec 15 → U8) (base : U32) (n p j k : Nat) :
    capacity (descsFrom m base n (p + j) (k + 1)) =
      (descAt m base (slot n p j)).size + capacity (descsFrom m base n (p + (j + 1)) k) := by
  rw [descsFrom_cons, capacity_cons, slot_add, Nat.add_zero, Nat.add_assoc p]

/-- The buffers of a chain do not see its descriptors released. -/
theorem OwnedChain.bytes_released {m : BitVec 15 → U8} {tdra : U32} {n p more k j : Nat}
    (h : OwnedChain m tdra n p more) (hk : k ≤ more) (hj : j ≤ more) :
    (descAt m tdra (slot n p j)).bytes (released tdra n p k m) =
      (descAt m tdra (slot n p j)).bytes m := by
  have hle : (descAt m tdra (slot n p j)).size ≤ 2 ^ 15 := by
    have hmem : descAt m tdra (slot n p j) ∈ descsFrom m tdra n p (more + 1) :=
      mem_descsFrom.mpr ⟨j, Nat.lt_succ_of_le hj, rfl⟩
    exact ((size_le_capacity hmem).trans h.size).trans (by decide)
  apply readBlock_congr hle
  intro c hc
  apply released_of_ne
  rintro i hi rfl
  exact Set.disjoint_left.mp (h.apart j hj i (by omega)) hc
    (descCell_mem_descCells tdra _ (by decide))

/-- The chain loop from the `j`-th descriptor on, with those before it
released and `outsize` bytes gathered. -/
theorem OwnedChain.gather {tdra tlen : U32} (hlen : tlen.toNat ≤ 512) {m : BitVec 15 → U8}
    {p more j r : Nat} (h : OwnedChain m tdra tlen.toNat p more) (hr : j + r = more) {d : Daemon}
    {w : World} {outsize : Nat} (hmem : w.ram.mem = released tdra tlen.toNat p j m)
    (hp : (d.tdrOffset % tlen).toNat = slot tlen.toNat p j)
    {xs : List Desc} (hxs : descsFrom m tdra tlen.toNat (p + j) (r + 1) = xs)
    (hsize : outsize + capacity xs ≤ MAX_PACKET_SIZE) :
    ∃ (o : U32) (ram : Boardram), o.toNat = slot tlen.toNat p more ∧
      ram.mem = released tdra tlen.toNat p more m ∧
      (txChain tdra tlen d outsize).exec w =
        ((⟨descOff tdra o, (descAt m tdra (slot tlen.toNat p more)).release.md1,
            (descAt m tdra (slot tlen.toNat p more)).md3,
            paddedSize d (outsize + capacity xs), false⟩,
          { d with
            tdrOffset := o + 1
            transmitbuffer := bufWrite d.transmitbuffer outsize (gathered m xs ++ List.replicate
              (paddedSize d (outsize + capacity xs) - (outsize + capacity xs)) 0) }),
          { w with ram := ram }) := by
  induction r generalizing j d w outsize xs with
  | zero =>
      obtain rfl : j = more := hr
      have hx : descAt w.ram.mem tdra (d.tdrOffset % tlen).toNat =
          descAt m tdra (slot tlen.toNat p j) := by
        rw [hp, hmem, descAt_released hlen (Nat.le_refl j) h.more_lt]
      have hone : xs = [descAt m tdra (slot tlen.toNat p j)] := by
        rw [← hxs, descsFrom_cons, slot_add, Nat.add_zero]
        rfl
      subst hone
      rw [capacity_cons, capacity_nil, Nat.add_zero] at hsize ⊢
      have hend := txChain_end hx (h.own j (Nat.le_refl j))
        ((h.enp j (Nat.le_refl j)).trans (decide_eq_true rfl)) hsize
      rw [hmem, h.bytes_released (Nat.le_refl j) (Nat.le_refl j)] at hend
      rw [gathered, List.flatMap_singleton]
      exact ⟨d.tdrOffset % tlen, w.ram, hp, hmem, hend⟩
  | succ r ih =>
      have hj : j < more := by omega
      have hjn : j < tlen.toNat := Nat.lt_trans hj h.more_lt
      have hx : descAt w.ram.mem tdra (d.tdrOffset % tlen).toNat =
          descAt m tdra (slot tlen.toNat p j) := by
        rw [hp, hmem, descAt_released hlen (Nat.le_refl j) hjn]
      have hcons : xs = descAt m tdra (slot tlen.toNat p j) ::
          descsFrom m tdra tlen.toNat (p + (j + 1)) (r + 1) := by
        rw [← hxs, descsFrom_cons, slot_add, Nat.add_zero, Nat.add_assoc]
      subst hcons
      rw [capacity_cons, ← Nat.add_assoc] at hsize ⊢
      obtain ⟨ram, hram, hexec⟩ := txChain_next hx (h.own j hj.le)
        ((h.enp j hj.le).trans (decide_eq_false hj.ne)) (Nat.le_of_add_right_le hsize)
      rw [hp, hmem, storeStatus_released hlen hjn] at hram
      have hnext : ((d.tdrOffset % tlen + 1) % tlen).toNat = slot tlen.toNat p (j + 1) :=
        toNat_cursor_next hlen (by omega) hp
      obtain ⟨o, ram', ho, hram', hexec'⟩ := ih (j := j + 1) (by omega)
        (d := { d with
          tdrOffset := d.tdrOffset % tlen + 1
          transmitbuffer := bufWrite d.transmitbuffer outsize
            ((descAt m tdra (slot tlen.toNat p j)).bytes w.ram.mem) })
        (w := { w with ram := ram }) hram hnext rfl hsize
      refine ⟨o, ram', ho, hram', ?_⟩
      rw [hexec, hexec', hmem, h.bytes_released hj.le hj.le]
      -- the two copies are one
      have hcopy := bufWrite_append d.transmitbuffer outsize
        ((descAt m tdra (slot tlen.toNat p j)).bytes m)
      rw [show ((descAt m tdra (slot tlen.toNat p j)).bytes m).length =
        (descAt m tdra (slot tlen.toNat p j)).size from length_readBlock ..] at hcopy
      simp only [hcopy]
      rw [gathered, gathered, List.flatMap_cons, List.append_assoc]
      rfl

/-! ## The call -/

/-- A cause that is set before `rethink` stays, and INTR with it. -/
theorem cause_interrupts (c : U16) {v : U16} (hv : v = CSR0.TINT ∨ v = CSR0.RINT) :
    tst (rethinkCsr0 (c ||| v)) v = true ∧ tst (rethinkCsr0 (c ||| v)) CSR0.INTR = true := by
  rcases hv with rfl | rfl
  · simp only [CSR0.tst_bits, rethinkCsr0_getLsbD, BitVec.getLsbD_or]
    simp [CSR0.masks, causes]
  · simp only [CSR0.tst_bits, rethinkCsr0_getLsbD, BitVec.getLsbD_or]
    simp [CSR0.masks, causes]

/-- The first six bytes of a buffer, as an address. -/
theorem macAt_bufTake (b : Buf) {n : Nat} (h : 6 ≤ n) :
    (macAt b 0).toList = (bufTake b n).take 6 := by
  calc (macAt b 0).toList
      = bufTake b 6 := by
        rw [Bytewise.toList_macAt]
        simp only [Nat.zero_add]
        rfl
    _ = (bufTake b n).take 6 := by
        rw [bufTake, bufTake, ← List.map_take, List.take_range, Nat.min_eq_left h]

theorem macAt_bufWrite (b : Buf) {bytes : List U8} (h : 6 ≤ bytes.length) :
    (macAt (bufWrite b 0 bytes) 0).toList = bytes.take 6 := by
  have htake := bufTake_bufWrite b 0 bytes
  rw [Nat.zero_add] at htake
  rw [macAt_bufTake _ h, htake]
  rfl

/-- `do_transmit` gathers the chain `k` places behind the cursor. -/
theorem OwnedChain.doTransmit_exec (cb : Callback) {d : Daemon} {w : World} {p k more : Nat}
    (hd : TxConfigured d) (hp : (d.tdrOffset % d.amTdrTlen).toNat = slot d.amTdrTlen.toNat p 0)
    (hk : k < d.amTdrTlen.toNat)
    (hfirst : ∀ j < k, readyAt w.ram.mem d.amTdrTdra (slot d.amTdrTlen.toNat p j) = false)
    (hready : readyAt w.ram.mem d.amTdrTdra (slot d.amTdrTlen.toNat p k) = true)
    (h : OwnedChain w.ram.mem d.amTdrTdra d.amTdrTlen.toNat (p + k) more) {f : TxFrame}
    (hf : frameFrom w.ram.mem d.amTdrTdra d.amTdrTlen.toNat (p + k) more = f) {last : Desc}
    (hlast : descAt w.ram.mem d.amTdrTdra (slot d.amTdrTlen.toNat (p + k) more) = last) :
    ∃ (o : U32) (ram : Boardram), o.toNat = slot d.amTdrTlen.toNat (p + k) more ∧
      ram.mem = released d.amTdrTdra d.amTdrTlen.toNat (p + k) more w.ram.mem ∧
      (doTransmit cb d).exec w = (txTail cb f.addFcs
        ⟨descOff d.amTdrTdra o, last.release.md1, last.md3, f.padded.length, false⟩
        { d with
          tdrOffset := o + 1
          transmitbuffer := bufWrite d.transmitbuffer 0 f.padded }).exec { w with ram := ram } := by
  obtain ⟨-, hlen, -⟩ := ringAccepted_iff.mp hd.ring
  obtain ⟨offset, hmod, hfound⟩ := doTransmit_found cb hd.txon hd.ring hp hk hfirst hready
  obtain ⟨o, ram, ho, hram, hexec⟩ := h.gather hlen (Nat.zero_add more)
    (d := { d with tdrOffset := offset }) (released_zero ..).symm hmod rfl
    (show 0 + _ ≤ MAX_PACKET_SIZE by rw [Nat.zero_add]; exact h.size)
  have hbytes : f.bytes = gathered w.ram.mem
      (descsFrom w.ram.mem d.amTdrTdra d.amTdrTlen.toNat (p + k) (more + 1)) := by
    rw [← hf]
    rfl
  have hfcs : f.addFcs =
      tst (descAt w.ram.mem d.amTdrTdra (slot d.amTdrTlen.toNat p k)).md1 TX.ADD_FCS := by
    rw [← hf]
    exact congrArg (fun i => tst (descAt w.ram.mem d.amTdrTdra i).md1 TX.ADD_FCS)
      (slot_add _ p k 0)
  obtain ⟨hsize, hpadded⟩ := padded_gathered (d := { d with tdrOffset := offset }) hd.loop hbytes
  rw [Nat.zero_add, Nat.add_zero, hpadded, hsize, hlast] at hexec
  refine ⟨o, ram, ho, hram, ?_⟩
  rw [hfound, DProg.exec_bind, hexec, hfcs]

/-- What a call that took the chain from place `p` on has done. -/
structure Transmitted (d : Daemon) (w : World) (p more : Nat) (r : (Nat × Daemon) × World) :
    Prop where
  ret : r.1.1 = 1
  /-- one frame is sent -/
  wire : r.2.wire = w.wire ++
    [onWire d (bufWrite d.transmitbuffer 0
        (frameFrom w.ram.mem d.amTdrTdra d.amTdrTlen.toNat p more).padded)
      (transmitlen d (frameFrom w.ram.mem d.amTdrTdra d.amTdrTlen.toNat p more).addFcs
        (frameFrom w.ram.mem d.amTdrTdra d.amTdrTlen.toNat p more).padded.length)]
  /-- of the window, the top bit of `more + 1` cells is cleared -/
  ram : ∀ c, r.2.ram.mem c =
    if ∃ j < more + 1, c = descCell d.amTdrTdra (slot d.amTdrTlen.toNat p j) 2
    then w.ram.mem c &&& 0x7F else w.ram.mem c
  own : ∀ i < d.amTdrTlen.toNat, tst (descAt r.2.ram.mem d.amTdrTdra i).md1 TX.OWN = true ↔
    tst (descAt w.ram.mem d.amTdrTdra i).md1 TX.OWN = true ∧
      ∀ j < more + 1, i ≠ slot d.amTdrTlen.toNat p j
  tint : tst r.1.2.csr0 CSR0.TINT = true
  intr : tst r.1.2.csr0 CSR0.INTR = true
  cursor : r.1.2.tdrOffset.toNat ≡ p + more + 1 [MOD d.amTdrTlen.toNat]

/-- The first ready descriptor stands `k` places behind the cursor, and a chain
from there on: the call sends the chain as one frame and releases exactly it. -/
theorem do_transmit_gathers (cb : Callback) (d : Daemon) (w : World) (k more : Nat)
    (hd : TxConfigured d) (hk : k < d.amTdrTlen.toNat)
    (hfirst : ∀ j < k, readyAt w.ram.mem d.amTdrTdra
      (slot d.amTdrTlen.toNat d.tdrOffset.toNat j) = false)
    (hready : readyAt w.ram.mem d.amTdrTdra
      (slot d.amTdrTlen.toNat d.tdrOffset.toNat k) = true)
    (hchain : OwnedChain w.ram.mem d.amTdrTdra d.amTdrTlen.toNat (d.tdrOffset.toNat + k) more)
    (hdst : (frameFrom w.ram.mem d.amTdrTdra d.amTdrTlen.toNat
      (d.tdrOffset.toNat + k) more).padded.take 6 ≠ d.fakemac.toList) :
    Transmitted d w (d.tdrOffset.toNat + k) more ((doTransmit cb d).exec w) := by
  obtain ⟨hpos, hlen, -⟩ := ringAccepted_iff.mp hd.ring
  obtain ⟨f, hf⟩ : ∃ f, frameFrom w.ram.mem d.amTdrTdra d.amTdrTlen.toNat
    (d.tdrOffset.toNat + k) more = f := ⟨_, rfl⟩
  obtain ⟨last, hlast⟩ : ∃ x, descAt w.ram.mem d.amTdrTdra
    (slot d.amTdrTlen.toNat (d.tdrOffset.toNat + k) more) = x := ⟨_, rfl⟩
  rw [hf] at hdst
  obtain ⟨o, ram, ho, hram, hcall⟩ := hchain.doTransmit_exec cb (p := d.tdrOffset.toNat) hd
    BitVec.toNat_umod hk hfirst hready hf hlast
  have hmac : macAt (bufWrite d.transmitbuffer 0 f.padded) 0 ≠ d.fakemac := by
    intro heq
    apply hdst
    rw [← heq, macAt_bufWrite _ (Nat.le_trans (by decide) f.le_length_padded)]
  have hfin := txFinish_sends cb f.addFcs
    (t := ⟨descOff d.amTdrTdra o, last.release.md1, last.md3, f.padded.length, false⟩)
    (d := { d with
      tdrOffset := o + 1
      transmitbuffer := bufWrite d.transmitbuffer 0 f.padded }) { w with ram := ram }
    ⟨hd.txon, hd.loop, hd.coll, hd.ring⟩ rfl f.le_length_padded hmac
  obtain ⟨hval, hsame⟩ := txTail_exec cb _ _ hfin
  rw [← hcall] at hval hsame
  have hmem : ((doTransmit cb d).exec w).2.ram.mem = released d.amTdrTdra d.amTdrTlen.toNat
      (d.tdrOffset.toNat + k) (more + 1) w.ram.mem := by
    rw [hsame.ram, ← storeStatus_released hlen hchain.more_lt, hlast, ← hram, ← ho]
    exact mem_store_status ..
  refine ⟨by rw [hval], ?_, fun c => by rw [hmem]; rfl, ?_, ?_, ?_, ?_⟩
  · rw [hsame.wire, hf]
    rfl
  · intro i hi
    rw [hmem]
    exact own_released_iff hlen hi
  · rw [hval, Daemon.csr0_setCsr0]
    exact (cause_interrupts d.csr0 (.inl rfl)).1
  · rw [hval, Daemon.csr0_setCsr0]
    exact (cause_interrupts d.csr0 (.inl rfl)).2
  · rw [hval]
    exact cursor_modEq hlen hpos ho

/-- Four TX descriptors at 0x40, the cursor at the third, without CRC. -/
def wrapDaemon : Daemon :=
  { (registersReset .boot).csr0Set CSR0.TXON with
    amMode := MODE.DTCR
    amTdrTdra := 0x40
    amTdrTlen := 4
    tdrOffset := 2 }

/-- A chain over the last and the first descriptor. Its first buffer wraps at
the end of the window, its second lies over a descriptor that is not in the
chain. -/
def wrapWorld : World :=
  .holding [(0x58, 0x7FF0), (0x5A, 0x8200), (0x5C, 0xFFD8), (0x40, 0x48), (0x42, 0x8100),
    (0x44, 0xFFF8), (0x7FF0, 0x1234), (0x48, 0x5678)]

theorem wrapWorld_chain : OwnedChain wrapWorld.ram.mem 0x40 4 3 1 where
  more_lt := by decide
  own := by decide +kernel
  enp := by decide +kernel
  size := by decide +kernel
  apart := by decide +kernel

theorem do_transmit_gathers_wrapped :
    Transmitted wrapDaemon wrapWorld 3 1 ((doTransmit .null wrapDaemon).exec wrapWorld) :=
  do_transmit_gathers .null wrapDaemon wrapWorld 1 1
    ⟨by decide +kernel, by decide +kernel, by decide +kernel, by decide +kernel⟩ (by decide)
    (by decide +kernel) (by decide +kernel) wrapWorld_chain (by decide +kernel)

end A2065
