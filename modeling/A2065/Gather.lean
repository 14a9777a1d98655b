import A2065.Descriptors

/-!
# Gathering a frame

What `do_transmit` does undisturbed: the scan finds the first descriptor that
is ready, and the chain loop copies the buffers of a chain into
`transmitbuffer`, one after the other, and releases all descriptors of the
chain but the last.
-/

namespace A2065

open Bits CyclicMem Circular

/-! ## The scan -/

section Scan

variable {tdra tlen start : U32} {w : World}

/-- The descriptor with index `i` is ready. -/
def readyAt (m : BitVec 15 → U8) (tdra : U32) (i : Nat) : Bool := txReady (descAt m tdra i).md1

theorem readyAt_congr {m m' : BitVec 15 → U8} {i : Nat} (h : descAt m' tdra i = descAt m tdra i) :
    readyAt m' tdra i = readyAt m tdra i := by
  rw [readyAt, h, readyAt]

/-- An index of the scan, without overflow. -/
theorem toNat_scan_index (hlen : tlen.toNat ≤ 512) (hs : start.toNat < tlen.toNat) {k : Nat}
    (hk : k < tlen.toNat) :
    ((start + BitVec.ofNat 32 k) % tlen).toNat = slot tlen.toNat start.toNat k := by
  have hsum : (start + BitVec.ofNat 32 k).toNat = start.toNat + k := by
    rw [BitVec.toNat_add, BitVec.toNat_ofNat, Nat.mod_eq_of_lt (show k < 2 ^ 32 by omega),
      Nat.mod_eq_of_lt (by omega)]
  rw [BitVec.toNat_umod, hsum, slot]

theorem txScanFrom_found (hlen : tlen.toNat ≤ 512) (hs : start.toNat < tlen.toNat) {k : Nat}
    (hk : k < tlen.toNat) (hready : readyAt w.ram.mem tdra (slot tlen.toNat start.toNat k) = true)
    {i n : Nat} (hik : i ≤ k) (hkn : k < i + n)
    (hfirst : ∀ j, i ≤ j → j < k →
      readyAt w.ram.mem tdra (slot tlen.toNat start.toNat j) = false)
    (tmd1 : U16) (offset : U32) :
    (txScanFrom tdra tlen start i tmd1 offset n).exec w =
      (((descAt w.ram.mem tdra (slot tlen.toNat start.toNat k)).md1,
        (start + BitVec.ofNat 32 k) % tlen), w) := by
  unfold readyAt at hready hfirst
  induction n generalizing i tmd1 offset with
  | zero => omega
  | succ n ih =>
      have hidx := toNat_scan_index hlen hs (Nat.lt_of_le_of_lt hik hk)
      rw [txScanFrom]
      simp only [DProg.exec_bind, exec_getRamWord, load_md1, hidx]
      by_cases h : i = k
      · subst h
        rw [if_pos hready]
        rfl
      · rw [if_neg (by simp [hfirst i (Nat.le_refl i) (by omega)])]
        exact ih (by omega) (by omega) (fun j hj => hfirst j (by omega)) _ _

theorem txScanFrom_none (hlen : tlen.toNat ≤ 512) (hs : start.toNat < tlen.toNat)
    (hnone : ∀ i < tlen.toNat, readyAt w.ram.mem tdra i = false) {i n : Nat}
    (hin : i + n ≤ tlen.toNat) {tmd1 : U16} (htmd1 : txReady tmd1 = false) (offset : U32) :
    ∃ r, (txScanFrom tdra tlen start i tmd1 offset n).exec w = (r, w) ∧ txReady r.1 = false := by
  unfold readyAt at hnone
  induction n generalizing i tmd1 offset with
  | zero => exact ⟨_, rfl, htmd1⟩
  | succ n ih =>
      have hidx := toNat_scan_index hlen hs (k := i) (by omega)
      have hnot := hnone _ (slot_lt (by omega) start.toNat i)
      rw [txScanFrom]
      simp only [DProg.exec_bind, exec_getRamWord, load_md1, hidx]
      rw [if_neg (by simp [hnot])]
      exact ih (by omega) hnot _

/-- The scan stops at the first ready descriptor in ring order. -/
theorem txScan_found (hlen : tlen.toNat ≤ 512) (hs : start.toNat < tlen.toNat) {k : Nat}
    (hk : k < tlen.toNat) (hready : readyAt w.ram.mem tdra (slot tlen.toNat start.toNat k) = true)
    (hfirst : ∀ j < k, readyAt w.ram.mem tdra (slot tlen.toNat start.toNat j) = false) :
    ∃ offset : U32, offset.toNat = slot tlen.toNat start.toNat k ∧
      (txScan tdra tlen start).exec w =
        (((descAt w.ram.mem tdra offset.toNat).md1, offset), w) := by
  have hzero := slot_zero_of_lt hs
  unfold txScan
  simp only [DProg.exec_bind, exec_getRamWord, load_md1]
  by_cases h : k = 0
  · subst h
    rw [hzero, readyAt] at hready
    rw [if_pos hready]
    exact ⟨start, hzero.symm, rfl⟩
  · have hnot := hfirst 0 (by omega)
    rw [hzero, readyAt] at hnot
    rw [if_neg (by simp [hnot])]
    refine ⟨(start + BitVec.ofNat 32 k) % tlen, toNat_scan_index hlen hs hk, ?_⟩
    rw [toNat_scan_index hlen hs hk]
    exact txScanFrom_found hlen hs hk hready (Nat.zero_le k) (by omega)
      (fun j _ hj => hfirst j hj) _ _

theorem txScan_none (hlen : tlen.toNat ≤ 512) (hs : start.toNat < tlen.toNat)
    (hnone : ∀ i < tlen.toNat, readyAt w.ram.mem tdra i = false) :
    ∃ r, (txScan tdra tlen start).exec w = (r, w) ∧ txReady r.1 = false := by
  have hnot : txReady (descAt w.ram.mem tdra start.toNat).md1 = false := hnone _ hs
  unfold txScan
  simp only [DProg.exec_bind, exec_getRamWord, load_md1]
  rw [if_neg (by simp [hnot])]
  exact txScanFrom_none hlen hs hnone (by omega) hnot _

end Scan

/-- What the guard on a ring says. -/
theorem ringAccepted_iff {base len : U32} : ringAccepted base len = true ↔
    0 < len.toNat ∧ len.toNat ≤ 512 ∧ base + (len - 1) * 8 ≤ RAM_MASK := by
  have hpos : len ≠ 0 ↔ 0 < len.toNat := by
    rw [Nat.pos_iff_ne_zero, Ne, Ne, ← BitVec.toNat_inj]
    rfl
  have hle : ¬ len > 512 ↔ len.toNat ≤ 512 := BitVec.not_lt
  rw [ringAccepted, decide_eq_true_iff, hpos, hle]
  simp

theorem toNat_mod_lt {o tlen : U32} (h : 0 < tlen.toNat) : (o % tlen).toNat < tlen.toNat := by
  rw [BitVec.toNat_umod]
  exact Nat.mod_lt _ h

/-! ## Calls that find no frame -/

/-- Without a ready descriptor the cursor is reduced and nothing else
happens. -/
theorem doTransmit_none (cb : Callback) {d : Daemon} {w : World}
    (hnone : ∀ i < d.amTdrTlen.toNat, readyAt w.ram.mem d.amTdrTdra i = false) :
    ∃ o : U32, (o = d.tdrOffset ∨ o = d.tdrOffset % d.amTdrTlen) ∧
      (doTransmit cb d).exec w = ((0, { d with tdrOffset := o }), w) := by
  unfold doTransmit
  split
  · exact ⟨d.tdrOffset, .inl rfl, rfl⟩
  split
  · exact ⟨d.tdrOffset, .inl rfl, rfl⟩
  rename_i hring
  obtain ⟨hpos, hlen, -⟩ := ringAccepted_iff.mp (by simpa using hring)
  obtain ⟨r, hexec, hr⟩ := txScan_none hlen (toNat_mod_lt (o := d.tdrOffset) hpos) hnone
  refine ⟨_, .inr rfl, ?_⟩
  simp only [DProg.exec_bind, hexec]
  rw [if_pos (by simp [hr])]
  rfl

/-! ## The transmit buffer -/

@[simp] theorem length_bufTake (b : Buf) (n : Nat) : (bufTake b n).length = n := by
  rw [bufTake, List.length_map, List.length_range]

theorem bufTake_add (b : Buf) (n k : Nat) :
    bufTake b (n + k) = bufTake b n ++ (List.range k).map fun i => b (n + i) := by
  rw [bufTake, List.range_add, List.map_append, List.map_map]
  rfl

/-- Bytes copied to the end of a prefix. -/
theorem bufTake_bufWrite (b : Buf) (i : Nat) (bytes : List U8) :
    bufTake (bufWrite b i bytes) (i + bytes.length) = bufTake b i ++ bytes := by
  rw [bufTake_add]
  congr 1
  · refine List.map_congr_left fun k hk => ?_
    rw [bufWrite, if_neg (by rw [List.mem_range] at hk; omega)]
  · refine List.ext_getElem (by simp) fun k hk hk' => ?_
    simp [bufWrite, hk']

/-- Two copies, one behind the other. -/
theorem bufWrite_append (b : Buf) (i : Nat) (xs ys : List U8) :
    bufWrite (bufWrite b i xs) (i + xs.length) ys = bufWrite b i (xs ++ ys) := by
  funext k
  unfold bufWrite
  by_cases hk : i ≤ k
  · by_cases hx : k - i < xs.length
    · rw [if_neg (by omega), if_pos hk, if_pos hk, List.getElem?_append_left hx]
    · have hnone : xs[k - i]? = none := List.getElem?_eq_none (by omega)
      rw [if_pos (by omega), if_pos hk, if_pos hk, List.getElem?_append_right (by omega), hnone,
        Nat.sub_add_eq]
      rfl
  · rw [if_neg (by omega), if_neg hk, if_neg hk]

/-! ## One descriptor of a chain -/

/-- The bytes on the wire for `n` gathered ones: outside loopback, at least 60. -/
def paddedSize (d : Daemon) (n : Nat) : Nat := if n < 60 ∧ ¬ tst d.amMode MODE.LOOP then 60 else n

theorem le_paddedSize (d : Daemon) (n : Nat) : n ≤ paddedSize d n := by
  unfold paddedSize
  split
  · omega
  · exact Nat.le_refl n

/-- The descriptor with OWN cleared. -/
def Desc.release (x : Desc) : Desc := { x with md1 := x.md1 &&& ~~~ TX.OWN }

theorem own_release (x : Desc) : tst x.release.md1 TX.OWN = false := by
  simp only [Desc.release, TX.masks, tst_twoPow, getLsbD_and_not_twoPow]
  simp

theorem enp_release (x : Desc) : tst x.release.md1 TX.ENP = tst x.md1 TX.ENP := by
  simp only [Desc.release, TX.masks, tst_twoPow, getLsbD_and_not_twoPow]
  simp

/-- Padding happens on the last descriptor only. -/
theorem txPad_of_not_enp {tmd1 : U16} (h : tst tmd1 TX.ENP = false) (d : Daemon) (outsize : Nat) :
    txPad d tmd1 outsize = (d, outsize) := by
  rw [txPad, if_neg (by simp [h])]

/-- MD1 and then MD3 of a descriptor are stored. -/
theorem mem_store_status (m : Boardram) (base i : U32) (md1 md3 : U16) :
    ((m.putRamWord (descOff base i + 2) md1).putRamWord (descOff base i + 6) md3).mem =
      storeStatus m.mem base i.toNat md1 md3 := by
  have h1 := store_desc m base i 2 md1
  have h3 := store_desc (m.putRamWord (descOff base i + 2) md1) base i 6 md3
  rw [storeStatus, ← h1]
  exact h3

section Chain

variable {tdra tlen : U32} {d : Daemon} {w : World} {outsize : Nat} {x : Desc}

/-- The bytes the chain loop copies from a buffer: at most a packet. -/
def Desc.part (m : BitVec 15 → U8) (x : Desc) : List U8 :=
  readBlock m x.start (min x.size MAX_PACKET_SIZE)

@[simp] theorem Desc.length_part (m : BitVec 15 → U8) (x : Desc) :
    (x.part m).length = min x.size MAX_PACKET_SIZE :=
  length_readBlock ..

theorem Desc.part_eq_bytes (m : BitVec 15 → U8) (h : x.size ≤ MAX_PACKET_SIZE) :
    x.part m = x.bytes m := by
  rw [part, Nat.min_eq_left h, bytes]

theorem Desc.part_exec (x : Desc) (w : World) :
    (ramReadBlock (descAddr x.md0 x.md1) (min (byteCount x.md2) MAX_PACKET_SIZE)).exec w =
      (x.part w.ram.mem, w) := by
  rw [ramReadBlock_exec, cell_descAddr]
  rfl

/-- A descriptor the chip does not own ends the loop with an error. -/
theorem txChain_refused_exec (hx : descAt w.ram.mem tdra (d.tdrOffset % tlen).toNat = x)
    (hown : tst x.md1 TX.OWN = false) :
    (txChain tdra tlen d outsize).exec w =
      ((⟨descOff tdra (d.tdrOffset % tlen), x.md1 ||| TX.ERR, x.md3 ||| (TX.BUFF ||| TX.UFLO),
          outsize, true⟩, { d with tdrOffset := d.tdrOffset % tlen }.csr0Clr CSR0.TXON),
        { w with
          ram := (w.ram.putRamWord (descOff tdra (d.tdrOffset % tlen) + 2)
            (x.md1 ||| TX.ERR)).putRamWord (descOff tdra (d.tdrOffset % tlen) + 6)
            (x.md3 ||| (TX.BUFF ||| TX.UFLO)) }) := by
  rw [txChain]
  simp only [DProg.exec_bind, exec_getRamWord, load_md0, load_md1, load_md2, load_md3, hx]
  rw [if_pos (by simp [hown])]
  rfl

theorem txChain_refused (hx : descAt w.ram.mem tdra (d.tdrOffset % tlen).toNat = x)
    (hown : tst x.md1 TX.OWN = false) :
    ((txChain tdra tlen d outsize).exec w).1.1.err = true := by
  rw [txChain_refused_exec hx hown]

/-- A buffer that does not fit ends the loop: the descriptor is released, and
the bytes gathered so far are the frame. -/
theorem txChain_full_exec (hx : descAt w.ram.mem tdra (d.tdrOffset % tlen).toNat = x)
    (hown : tst x.md1 TX.OWN = true)
    (hsize : MAX_PACKET_SIZE < outsize + min x.size MAX_PACKET_SIZE) :
    (txChain tdra tlen d outsize).exec w =
      ((⟨descOff tdra (d.tdrOffset % tlen), x.release.md1, x.md3, outsize, false⟩,
        { d with tdrOffset := d.tdrOffset % tlen }),
        { w with
          ram := (w.ram.putRamWord (descOff tdra (d.tdrOffset % tlen) + 2)
            x.release.md1).putRamWord (descOff tdra (d.tdrOffset % tlen) + 6) x.md3 }) := by
  have hfull : outsize + min (byteCount x.md2) MAX_PACKET_SIZE > MAX_PACKET_SIZE := hsize
  rw [txChain]
  simp only [DProg.exec_bind, exec_getRamWord, load_md0, load_md1, load_md2, load_md3, hx]
  rw [if_neg (by simp [hown]), if_pos hfull]
  rfl

theorem txChain_full (hx : descAt w.ram.mem tdra (d.tdrOffset % tlen).toNat = x)
    (hown : tst x.md1 TX.OWN = true)
    (hsize : MAX_PACKET_SIZE < outsize + min x.size MAX_PACKET_SIZE) :
    ((txChain tdra tlen d outsize).exec w).1 =
      (⟨descOff tdra (d.tdrOffset % tlen), x.release.md1, x.md3, outsize, false⟩,
        { d with tdrOffset := d.tdrOffset % tlen }) := by
  rw [txChain_full_exec hx hown hsize]

/-- A descriptor that is not the last: what the loop copies of its buffer is
appended and it is released. -/
theorem txChain_part_exec (hx : descAt w.ram.mem tdra (d.tdrOffset % tlen).toNat = x)
    (hown : tst x.md1 TX.OWN = true) (henp : tst x.md1 TX.ENP = false)
    (hsize : outsize + min x.size MAX_PACKET_SIZE ≤ MAX_PACKET_SIZE) :
    (txChain tdra tlen d outsize).exec w = (txChain tdra tlen { d with
      tdrOffset := d.tdrOffset % tlen + 1
      transmitbuffer := bufWrite d.transmitbuffer outsize (x.part w.ram.mem) }
      (outsize + min x.size MAX_PACKET_SIZE)).exec { w with
        ram := (w.ram.putRamWord (descOff tdra (d.tdrOffset % tlen) + 2)
          x.release.md1).putRamWord (descOff tdra (d.tdrOffset % tlen) + 6) x.md3 } := by
  have henp' : tst (x.md1 &&& ~~~ TX.OWN) TX.ENP = false := (enp_release x).trans henp
  have hfits : ¬ outsize + min (byteCount x.md2) MAX_PACKET_SIZE > MAX_PACKET_SIZE :=
    Nat.not_lt.mpr hsize
  rw [txChain]
  simp only [DProg.exec_bind, exec_getRamWord, load_md0, load_md1, load_md2, load_md3, hx]
  rw [if_neg (by simp [hown]), if_neg hfits]
  simp only [DProg.exec_bind, x.part_exec, txPad_of_not_enp henp']
  rw [if_neg (by simp [henp'])]
  rfl

/-- The same in terms of the memory the rest of the loop finds. -/
theorem txChain_part (hx : descAt w.ram.mem tdra (d.tdrOffset % tlen).toNat = x)
    (hown : tst x.md1 TX.OWN = true) (henp : tst x.md1 TX.ENP = false)
    (hsize : outsize + min x.size MAX_PACKET_SIZE ≤ MAX_PACKET_SIZE) :
    ∃ ram : Boardram, ram.mem = storeStatus w.ram.mem tdra (d.tdrOffset % tlen).toNat
        x.release.md1 x.md3 ∧
      (txChain tdra tlen d outsize).exec w = (txChain tdra tlen { d with
        tdrOffset := d.tdrOffset % tlen + 1
        transmitbuffer := bufWrite d.transmitbuffer outsize (x.part w.ram.mem) }
        (outsize + min x.size MAX_PACKET_SIZE)).exec { w with ram := ram } :=
  ⟨_, mem_store_status w.ram tdra (d.tdrOffset % tlen) x.release.md1 x.md3,
    txChain_part_exec hx hown henp hsize⟩

/-- The last descriptor: what the loop copies of its buffer is appended and
padded, and it is left to `txFinish`. -/
theorem txChain_lastPart (hx : descAt w.ram.mem tdra (d.tdrOffset % tlen).toNat = x)
    (hown : tst x.md1 TX.OWN = true) (henp : tst x.md1 TX.ENP = true)
    (hsize : outsize + min x.size MAX_PACKET_SIZE ≤ MAX_PACKET_SIZE) {len : Nat}
    (hlen : outsize + min x.size MAX_PACKET_SIZE = len) :
    (txChain tdra tlen d outsize).exec w =
      ((⟨descOff tdra (d.tdrOffset % tlen), x.release.md1, x.md3, paddedSize d len, false⟩,
        { d with
          tdrOffset := d.tdrOffset % tlen + 1
          transmitbuffer := bufWrite d.transmitbuffer outsize (x.part w.ram.mem ++
            List.replicate (paddedSize d len - len) 0) }), w) := by
  subst hlen
  have henp' : tst (x.md1 &&& ~~~ TX.OWN) TX.ENP = true := (enp_release x).trans henp
  have hfits : ¬ outsize + min (byteCount x.md2) MAX_PACKET_SIZE > MAX_PACKET_SIZE :=
    Nat.not_lt.mpr hsize
  rw [txChain]
  simp only [DProg.exec_bind, exec_getRamWord, load_md0, load_md1, load_md2, load_md3, hx]
  rw [if_neg (by simp [hown]), if_neg hfits]
  simp only [DProg.exec_bind, x.part_exec]
  rw [if_pos henp']
  unfold paddedSize
  by_cases hpad : outsize + min x.size MAX_PACKET_SIZE < 60 ∧ ¬ tst d.amMode MODE.LOOP = true
  · rw [if_pos hpad, txPad, if_pos ⟨henp', hpad⟩, ← bufWrite_append, x.length_part]
    rfl
  · rw [if_neg hpad, txPad, if_neg fun h => hpad h.2, Nat.sub_self, List.replicate_zero,
      List.append_nil]
    rfl

/-- Induction along the chain loop: it ends at a descriptor the chip does not
own, one whose buffer does not fit, or one with ENP, and goes on behind any
other. -/
@[elab_as_elim]
theorem txChain_run_induction (tdra tlen : U32) {motive : Daemon → Nat → World → Prop}
    (refused : ∀ d outsize w x, descAt w.ram.mem tdra (d.tdrOffset % tlen).toNat = x →
      tst x.md1 TX.OWN = false → motive d outsize w)
    (full : ∀ d outsize w x, descAt w.ram.mem tdra (d.tdrOffset % tlen).toNat = x →
      tst x.md1 TX.OWN = true → MAX_PACKET_SIZE < outsize + min x.size MAX_PACKET_SIZE →
      motive d outsize w)
    (last : ∀ d outsize w x, descAt w.ram.mem tdra (d.tdrOffset % tlen).toNat = x →
      tst x.md1 TX.OWN = true → tst x.md1 TX.ENP = true →
      outsize + min x.size MAX_PACKET_SIZE ≤ MAX_PACKET_SIZE → motive d outsize w)
    (part : ∀ d outsize w x, descAt w.ram.mem tdra (d.tdrOffset % tlen).toNat = x →
      tst x.md1 TX.OWN = true → tst x.md1 TX.ENP = false →
      outsize + min x.size MAX_PACKET_SIZE ≤ MAX_PACKET_SIZE →
      motive { d with
        tdrOffset := d.tdrOffset % tlen + 1
        transmitbuffer := bufWrite d.transmitbuffer outsize (x.part w.ram.mem) }
        (outsize + min x.size MAX_PACKET_SIZE) { w with
          ram := (w.ram.putRamWord (descOff tdra (d.tdrOffset % tlen) + 2)
            x.release.md1).putRamWord (descOff tdra (d.tdrOffset % tlen) + 6) x.md3 } →
      motive d outsize w)
    (d : Daemon) (outsize : Nat) (w : World) : motive d outsize w := by
  -- the measure is the room left in `transmitbuffer`: no buffer is empty
  induction hroom : MAX_PACKET_SIZE + 1 - outsize using Nat.strong_induction_on
    generalizing d outsize w with
  | _ room ih =>
      obtain ⟨x, hx⟩ : ∃ x, descAt w.ram.mem tdra (d.tdrOffset % tlen).toNat = x := ⟨_, rfl⟩
      cases hown : tst x.md1 TX.OWN with
      | false => exact refused d outsize w x hx hown
      | true =>
          by_cases hfits : outsize + min x.size MAX_PACKET_SIZE ≤ MAX_PACKET_SIZE
          case neg => exact full d outsize w x hx hown (Nat.lt_of_not_le hfits)
          cases henp : tst x.md1 TX.ENP with
          | true => exact last d outsize w x hx hown henp hfits
          | false =>
              have hpos : 0 < min x.size MAX_PACKET_SIZE := lt_min (byteCount_pos _) (by decide)
              exact part d outsize w x hx hown henp hfits (ih _ (by omega) _ _ _ rfl)

/-- A descriptor that is not the last: its buffer is appended and it is
released. -/
theorem txChain_next (hx : descAt w.ram.mem tdra (d.tdrOffset % tlen).toNat = x)
    (hown : tst x.md1 TX.OWN = true) (henp : tst x.md1 TX.ENP = false)
    (hsize : outsize + x.size ≤ MAX_PACKET_SIZE) :
    ∃ ram : Boardram, ram.mem = storeStatus w.ram.mem tdra (d.tdrOffset % tlen).toNat
        x.release.md1 x.md3 ∧
      (txChain tdra tlen d outsize).exec w = (txChain tdra tlen { d with
        tdrOffset := d.tdrOffset % tlen + 1
        transmitbuffer := bufWrite d.transmitbuffer outsize (x.bytes w.ram.mem) }
        (outsize + x.size)).exec { w with ram := ram } := by
  have hx_size : x.size ≤ MAX_PACKET_SIZE := Nat.le_of_add_left_le hsize
  have hpart := txChain_part hx hown henp (by rwa [Nat.min_eq_left hx_size])
  rwa [Nat.min_eq_left hx_size, x.part_eq_bytes _ hx_size] at hpart

/-- The last descriptor: its buffer is appended and padded, and it is left to
`txFinish`. -/
theorem txChain_end (hx : descAt w.ram.mem tdra (d.tdrOffset % tlen).toNat = x)
    (hown : tst x.md1 TX.OWN = true) (henp : tst x.md1 TX.ENP = true)
    (hsize : outsize + x.size ≤ MAX_PACKET_SIZE) :
    (txChain tdra tlen d outsize).exec w =
      ((⟨descOff tdra (d.tdrOffset % tlen), x.release.md1, x.md3,
          paddedSize d (outsize + x.size), false⟩,
        { d with
          tdrOffset := d.tdrOffset % tlen + 1
          transmitbuffer := bufWrite d.transmitbuffer outsize (x.bytes w.ram.mem ++
            List.replicate (paddedSize d (outsize + x.size) - (outsize + x.size)) 0) }), w) := by
  have hx_size : x.size ≤ MAX_PACKET_SIZE := Nat.le_of_add_left_le hsize
  have hmin := Nat.min_eq_left hx_size
  have hpart := txChain_lastPart hx hown henp (by rwa [hmin]) (congrArg (outsize + ·) hmin)
  rwa [x.part_eq_bytes _ hx_size] at hpart

/-- What `transmitbuffer` starts with once bytes are appended and padded to
`n`. -/
theorem bufTake_padded (b : Buf) {i n len : Nat} (bytes : List U8)
    (hlen : i + bytes.length = len) (hn : len ≤ n) :
    bufTake (bufWrite b i (bytes ++ List.replicate (n - len) 0)) n =
      bufTake b i ++ bytes ++ List.replicate (n - len) 0 := by
  have htake := bufTake_bufWrite b i (bytes ++ List.replicate (n - len) 0)
  rw [List.length_append, List.length_replicate, ← Nat.add_assoc, hlen,
    Nat.add_sub_cancel' hn] at htake
  rw [htake, List.append_assoc]

end Chain

/-! ## A chain -/

/-- From place `p` on stands a chain the chip owns: ENP on the last descriptor
only, together not longer than a packet, and no buffer in the ring. -/
structure TxChain (m : BitVec 15 → U8) (tdra : U32) (n p : Nat) (init : List Desc)
    (last : Desc) : Prop where
  descs : DescsAt m tdra n p (init ++ [last])
  length_le : init.length + 1 ≤ n
  own : ∀ x ∈ init ++ [last], tst x.md1 TX.OWN = true
  enp : ∀ x ∈ init, tst x.md1 TX.ENP = false
  last_enp : tst last.md1 TX.ENP = true
  size : capacity (init ++ [last]) ≤ MAX_PACKET_SIZE
  buffers : ∀ x ∈ init ++ [last], Disjoint x.cells (ringCells tdra n)

section Cursor

variable {o len : U32} {p j : Nat} (hlen : len.toNat ≤ 512) (hpos : 0 < len.toNat)

include hlen hpos

/-- A cursor moves on without overflow. -/
theorem toNat_cursor_add (hp : o.toNat = slot len.toNat p j) :
    (o + 1).toNat = slot len.toNat p j + 1 := by
  have hlt := slot_lt hpos p j
  rw [BitVec.toNat_add, hp]
  exact Nat.mod_eq_of_lt (show slot len.toNat p j + 1 < 2 ^ 32 by omega)

/-- The place behind the `j`-th. -/
theorem toNat_cursor_next (hp : o.toNat = slot len.toNat p j) :
    ((o + 1) % len).toNat = slot len.toNat p (j + 1) := by
  rw [BitVec.toNat_umod, toNat_cursor_add hlen hpos hp, slot, slot, Nat.mod_add_mod, Nat.add_assoc]

theorem toNat_cursor_succ (hp : o.toNat = slot len.toNat p 0) :
    ((o + 1) % len).toNat = slot len.toNat (p + 1) 0 := by
  rw [toNat_cursor_next hlen hpos hp, slot_add]

theorem cursor_modEq (hp : o.toNat = slot len.toNat p j) :
    (o + 1).toNat ≡ p + j + 1 [MOD len.toNat] := by
  rw [toNat_cursor_add hlen hpos hp]
  exact (Nat.mod_modEq ..).add_right 1

end Cursor

/-- The chain loop gathers the buffers of a chain and releases all its
descriptors but the last. -/
theorem txChain_exec {tdra tlen : U32} (hlen : tlen.toNat ≤ 512) {init : List Desc} {last : Desc}
    {d : Daemon} {w : World} {p outsize : Nat}
    (h : TxChain w.ram.mem tdra tlen.toNat p init last)
    (hp : (d.tdrOffset % tlen).toNat = slot tlen.toNat p 0)
    (hsize : outsize + capacity (init ++ [last]) ≤ MAX_PACKET_SIZE) :
    ∃ (o : U32) (ram : Boardram) (tb : Buf), o.toNat = slot tlen.toNat p init.length ∧
      bufTake tb (paddedSize d (outsize + capacity (init ++ [last]))) =
        bufTake d.transmitbuffer outsize ++ gathered w.ram.mem (init ++ [last]) ++
          List.replicate (paddedSize d (outsize + capacity (init ++ [last])) -
            (outsize + capacity (init ++ [last]))) 0 ∧
      RingStep tdra tlen.toNat p ∅ w.ram.mem ram.mem (init.map Desc.release) ∧
      (txChain tdra tlen d outsize).exec w =
        ((⟨descOff tdra o, last.release.md1, last.md3,
            paddedSize d (outsize + capacity (init ++ [last])), false⟩,
          { d with tdrOffset := o + 1, transmitbuffer := tb }), { w with ram := ram }) := by
  have hpos : 0 < tlen.toNat := Nat.lt_of_lt_of_le (Nat.succ_pos _) h.length_le
  induction init generalizing d w p outsize with
  | nil =>
      have hx : descAt w.ram.mem tdra (d.tdrOffset % tlen).toNat = last := by
        rw [hp]
        exact h.descs.1
      rw [List.nil_append, capacity_cons, capacity_nil, Nat.add_zero] at hsize ⊢
      refine ⟨d.tdrOffset % tlen, w.ram, _, hp, ?_, .refl _ _ _ _,
        txChain_end hx (h.own last (by simp)) h.last_enp hsize⟩
      rw [bufTake_padded _ _ (by rw [Desc.bytes, length_readBlock]) (le_paddedSize ..), gathered,
        List.flatMap_singleton]
  | cons x xs ih =>
      have hx : descAt w.ram.mem tdra (d.tdrOffset % tlen).toNat = x := by
        rw [hp]
        exact h.descs.1
      rw [List.cons_append, capacity_cons, ← Nat.add_assoc] at hsize ⊢
      obtain ⟨ram, hmem, hexec⟩ := txChain_next hx (h.own x (by simp)) (h.enp x (by simp))
        (Nat.le_of_add_right_le hsize)
      have hstep : RingStep tdra tlen.toNat p ∅ w.ram.mem ram.mem [x.release] := by
        have hstore := RingStep.store tdra p w.ram.mem hlen hpos x.release.md1 x.md3
        rw [← hp, hx, ← hmem] at hstore
        exact hstore
      -- the rest of the chain is where it was, and so are its buffers
      have hrest : TxChain ram.mem tdra tlen.toNat (p + 1) xs last := by
        refine ⟨h.descs.2.congr fun k hk => ?_, Nat.le_of_succ_le h.length_le, ?_, ?_, h.last_enp,
          ?_, ?_⟩
        · rw [slot_add]
          have := h.length_le
          exact hstep.others _ (by simp) (by simp at hk this; omega)
        · exact fun y hy => h.own y (List.mem_cons_of_mem _ hy)
        · exact fun y hy => h.enp y (List.mem_cons_of_mem _ hy)
        · exact (Nat.le_add_left _ _).trans (Nat.le_of_eq (capacity_cons x _).symm |>.trans h.size)
        · exact fun y hy => h.buffers y (List.mem_cons_of_mem _ hy)
      have hgathered : gathered ram.mem (xs ++ [last]) = gathered w.ram.mem (xs ++ [last]) :=
        gathered_congr (hrest.size.trans (by decide)) fun y hy =>
          hstep.eqOn_of_disjoint (hrest.buffers y hy) (Set.disjoint_empty _)
      obtain ⟨o, ram', tb, ho, htake, hring, hexec'⟩ := ih
        (d := { d with
          tdrOffset := d.tdrOffset % tlen + 1
          transmitbuffer := bufWrite d.transmitbuffer outsize (x.bytes w.ram.mem) })
        (w := { w with ram := ram }) hrest (toNat_cursor_succ hlen hpos hp) hsize
      refine ⟨o, ram', tb, ?_, ?_, ?_, ?_⟩
      · rw [ho, slot_add, Nat.add_comm, List.length_cons]
      · have hprefix := bufTake_bufWrite d.transmitbuffer outsize (x.bytes w.ram.mem)
        rw [show (x.bytes w.ram.mem).length = x.size from length_readBlock ..] at hprefix
        rw [gathered, List.flatMap_cons, ← gathered, ← hgathered, ← List.append_assoc, ← hprefix]
        exact htake
      · have hall := hstep.append hring (by
          rw [List.length_singleton, List.length_map, Nat.add_comm]
          exact Nat.le_of_succ_le h.length_le)
        rwa [Set.union_empty] at hall
      · exact hexec.trans hexec'

/-- The last descriptor of a gathered chain is written back. -/
theorem TxChain.finish {m m' : BitVec 15 → U8} {tdra : U32} {n p : Nat} {init : List Desc}
    {last : Desc} (h : TxChain m tdra n p init last) (hn : n ≤ 512)
    (hs : RingStep tdra n p ∅ m m' (init.map Desc.release)) (md1 md3 : U16) :
    RingStep tdra n p ∅ m (storeStatus m' tdra (slot n p init.length) md1 md3)
      (init.map Desc.release ++ [{ last with md1 := md1, md3 := md3 }]) := by
  have hpos : 0 < n := Nat.lt_of_lt_of_le (Nat.succ_pos _) h.length_le
  have hlast : descAt m' tdra (slot n p init.length) = last := by
    rw [hs.others _ (by rw [List.length_map]) h.length_le]
    have hd := (descsAt_append.mp h.descs).2.1
    rwa [slot_add, Nat.add_zero] at hd
  have hstore := RingStep.store tdra (p + init.length) m' hn hpos md1 md3
  rw [slot_add, Nat.add_zero, hlast] at hstore
  have hall := hs.append (by rw [List.length_map]; exact hstore) (by
    rw [List.length_map]
    exact h.length_le)
  rwa [Set.union_empty] at hall

/-- What `do_transmit` does once a frame is gathered. -/
def txTail (cb : Callback) (addFcs : Bool) (t : TxWalk) (d : Daemon) : DProg (Nat × Daemon) := do
  let d ← txFinish cb addFcs t d
  let d ← rethink cb (d.csr0Set CSR0.TINT)
  pure (1, d)

/-- TINT is all that is added to what `txFinish` leaves. -/
theorem txTail_exec (cb : Callback) (addFcs : Bool) (t : TxWalk) {d d' : Daemon} {w w' : World}
    (h : (txFinish cb addFcs t d).exec w = (d', w')) :
    ((txTail cb addFcs t d).exec w).1 =
        (1, (d'.csr0Set CSR0.TINT).setCsr 0 (rethinkCsr0 (d'.csr0 ||| CSR0.TINT))) ∧
      SameMem w' ((txTail cb addFcs t d).exec w).2 := by
  obtain ⟨hval, hmem⟩ := rethink_exec cb (d'.csr0Set CSR0.TINT) w'
  unfold txTail
  simp only [DProg.exec_bind, h, DProg.exec_pure]
  rw [hval, Daemon.csr0_csr0Set]
  exact ⟨rfl, hmem⟩

/-- The scan of `do_transmit` ends at the first ready descriptor, `k` places
behind the cursor. -/
theorem txScan_first {d : Daemon} {w : World} {p k : Nat}
    (hring : ringAccepted d.amTdrTdra d.amTdrTlen = true)
    (hp : (d.tdrOffset % d.amTdrTlen).toNat = slot d.amTdrTlen.toNat p 0)
    (hk : k < d.amTdrTlen.toNat)
    (hfirst : ∀ j < k, readyAt w.ram.mem d.amTdrTdra (slot d.amTdrTlen.toNat p j) = false)
    (hready : readyAt w.ram.mem d.amTdrTdra (slot d.amTdrTlen.toNat p k) = true) :
    ∃ offset : U32, (offset % d.amTdrTlen).toNat = slot d.amTdrTlen.toNat (p + k) 0 ∧
      (txScan d.amTdrTdra d.amTdrTlen (d.tdrOffset % d.amTdrTlen)).exec w =
        (((descAt w.ram.mem d.amTdrTdra (slot d.amTdrTlen.toNat p k)).md1, offset), w) := by
  obtain ⟨hpos, hlen, -⟩ := ringAccepted_iff.mp hring
  have hplace : ∀ j, slot d.amTdrTlen.toNat (d.tdrOffset % d.amTdrTlen).toNat j =
      slot d.amTdrTlen.toNat p j := by
    intro j
    rw [hp, slot, slot, slot, Nat.add_zero, Nat.mod_add_mod]
  obtain ⟨offset, ho, hscan⟩ := txScan_found (w := w) hlen
    (toNat_mod_lt (o := d.tdrOffset) hpos) hk (by rw [hplace]; exact hready)
    (fun j hj => by rw [hplace]; exact hfirst j hj)
  rw [hplace] at ho
  rw [ho] at hscan
  refine ⟨offset, ?_, hscan⟩
  rw [BitVec.toNat_umod, ho, slot_add, Nat.add_zero, slot, Nat.mod_mod]

/-- `do_transmit` once its scan has found a ready descriptor. -/
theorem doTransmit_scanned (cb : Callback) {d : Daemon} {w : World} {md1 : U16} {offset : U32}
    (hon : tst d.csr0 CSR0.TXON = true) (hring : ringAccepted d.amTdrTdra d.amTdrTlen = true)
    (hscan : (txScan d.amTdrTdra d.amTdrTlen (d.tdrOffset % d.amTdrTlen)).exec w =
      ((md1, offset), w))
    (hready : txReady md1 = true) :
    (doTransmit cb d).exec w = (txChain d.amTdrTdra d.amTdrTlen { d with tdrOffset := offset } 0
      >>= fun r => txTail cb (tst md1 TX.ADD_FCS) r.1 r.2).exec w := by
  unfold doTransmit
  rw [if_neg (by simp [hon]), if_neg (by simp [hring])]
  simp only [DProg.exec_bind, hscan]
  rw [if_neg (by simp [hready])]
  simp only [txTail, DProg.exec_bind]

/-- `do_transmit` turns to the first ready descriptor, `k` places behind the
cursor. -/
theorem doTransmit_found (cb : Callback) {d : Daemon} {w : World} {p k : Nat}
    (hon : tst d.csr0 CSR0.TXON = true) (hring : ringAccepted d.amTdrTdra d.amTdrTlen = true)
    (hp : (d.tdrOffset % d.amTdrTlen).toNat = slot d.amTdrTlen.toNat p 0)
    (hk : k < d.amTdrTlen.toNat)
    (hfirst : ∀ j < k, readyAt w.ram.mem d.amTdrTdra (slot d.amTdrTlen.toNat p j) = false)
    (hready : readyAt w.ram.mem d.amTdrTdra (slot d.amTdrTlen.toNat p k) = true) :
    ∃ offset : U32, (offset % d.amTdrTlen).toNat = slot d.amTdrTlen.toNat (p + k) 0 ∧
      (doTransmit cb d).exec w = (txChain d.amTdrTdra d.amTdrTlen { d with tdrOffset := offset } 0
        >>= fun r => txTail cb
          (tst (descAt w.ram.mem d.amTdrTdra (slot d.amTdrTlen.toNat p k)).md1 TX.ADD_FCS)
          r.1 r.2).exec w := by
  obtain ⟨offset, ho, hscan⟩ := txScan_first hring hp hk hfirst hready
  exact ⟨offset, ho, doTransmit_scanned cb hon hring hscan hready⟩

/-- Among ready descriptors one comes first, counted from any place. -/
theorem exists_first_ready {m : BitVec 15 → U8} {tdra : U32} {n : Nat}
    (h : ∃ i < n, readyAt m tdra i = true) (p : Nat) :
    ∃ k < n, readyAt m tdra (slot n p k) = true ∧
      ∀ j < k, readyAt m tdra (slot n p j) = false := by
  have hex : ∃ k, k < n ∧ readyAt m tdra (slot n p k) = true := by
    obtain ⟨i, hi, hr⟩ := h
    obtain ⟨k, hk, rfl⟩ := exists_slot hi p
    exact ⟨k, hk, hr⟩
  obtain ⟨hk, hr⟩ := Nat.find_spec hex
  refine ⟨Nat.find hex, hk, hr, ?_⟩
  intro j hj
  have hmin := Nat.find_min hex hj
  simpa [Nat.lt_trans hj hk] using hmin

/-- With a ready descriptor anywhere in the ring, a frame is taken. -/
theorem doTransmit_ready (cb : Callback) {d : Daemon} {w : World}
    (hon : tst d.csr0 CSR0.TXON = true) (hring : ringAccepted d.amTdrTdra d.amTdrTlen = true)
    (hready : ∃ i < d.amTdrTlen.toNat, readyAt w.ram.mem d.amTdrTdra i = true) :
    ((doTransmit cb d).exec w).1.1 = 1 := by
  obtain ⟨k, hk, hr, hfirst⟩ := exists_first_ready hready d.tdrOffset.toNat
  obtain ⟨offset, -, hfound⟩ := doTransmit_found cb (p := d.tdrOffset.toNat) hon hring
    BitVec.toNat_umod hk hfirst hr
  rw [hfound]
  simp only [txTail, DProg.exec_bind, DProg.exec_pure]

/-- `do_transmit` gathers the chain at the first ready descriptor, `k` places
behind the cursor. -/
theorem doTransmit_chain (cb : Callback) {d : Daemon} {w : World} {p k : Nat} {init : List Desc}
    {last : Desc} (hon : tst d.csr0 CSR0.TXON = true)
    (hring : ringAccepted d.amTdrTdra d.amTdrTlen = true)
    (hp : (d.tdrOffset % d.amTdrTlen).toNat = slot d.amTdrTlen.toNat p 0)
    (hk : k < d.amTdrTlen.toNat)
    (hfirst : ∀ j < k, readyAt w.ram.mem d.amTdrTdra (slot d.amTdrTlen.toNat p j) = false)
    (hready : readyAt w.ram.mem d.amTdrTdra (slot d.amTdrTlen.toNat p k) = true)
    (h : TxChain w.ram.mem d.amTdrTdra d.amTdrTlen.toNat (p + k) init last) :
    ∃ (o : U32) (ram : Boardram) (tb : Buf),
      o.toNat = slot d.amTdrTlen.toNat (p + k) init.length ∧
      bufTake tb (paddedSize d (capacity (init ++ [last]))) =
        gathered w.ram.mem (init ++ [last]) ++ List.replicate
          (paddedSize d (capacity (init ++ [last])) - capacity (init ++ [last])) 0 ∧
      RingStep d.amTdrTdra d.amTdrTlen.toNat (p + k) ∅ w.ram.mem ram.mem
        (init.map Desc.release) ∧
      (doTransmit cb d).exec w = (txTail cb
        (tst (descAt w.ram.mem d.amTdrTdra (slot d.amTdrTlen.toNat p k)).md1 TX.ADD_FCS)
        ⟨descOff d.amTdrTdra o, last.release.md1, last.md3,
          paddedSize d (capacity (init ++ [last])), false⟩
        { d with tdrOffset := o + 1, transmitbuffer := tb }).exec { w with ram := ram } := by
  obtain ⟨hpos, hlen, -⟩ := ringAccepted_iff.mp hring
  obtain ⟨offset, hmod, hfound⟩ := doTransmit_found cb hon hring hp hk hfirst hready
  obtain ⟨o, ram, tb, hlast, htake, hstep, hexec⟩ := txChain_exec hlen
    (d := { d with tdrOffset := offset }) h hmod (by rw [Nat.zero_add]; exact h.size)
  rw [Nat.zero_add] at htake hexec
  refine ⟨o, ram, tb, hlast, htake, hstep, ?_⟩
  rw [hfound, DProg.exec_bind, hexec]
  rfl

end A2065
