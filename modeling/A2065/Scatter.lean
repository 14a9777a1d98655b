import A2065.Gather

/-!
# Scattering a frame

What the ring loop of `gotfunc` does undisturbed: it fills the buffers of the
next descriptors one after the other until the frame is stored, and releases
each descriptor as it leaves it.
-/

namespace A2065

open Bits CyclicMem Circular

/-- The descriptor as the ring loop leaves it. -/
def Desc.fill (len : Nat) (first last : Bool) (x : Desc) : Desc :=
  let rmd1 := x.md1 &&& ~~~ RX.OWN
  let rmd1 := if first then rmd1 ||| RX.STP else rmd1
  { x with
    md1 := if last then rmd1 ||| RX.ENP else rmd1
    md3 := if last then BitVec.ofNat 16 len else x.md3 }

/-- The call ends in `rethink` on `d`. -/
def rxLeave (cb : Callback) (e : RxExit) (d : Daemon) (w : World) : (RxExit × Daemon) × World :=
  let r := (rethink cb d).exec w
  ((e, r.1), r.2)

section Ring

variable {cb : Callback} {rdra rlen : U32} {tmp : Buf} {len insize : Nat} {first : Bool}
  {d : Daemon} {w : World} {x : Desc}

/-- The first descriptor is not owned. -/
theorem rxRing_missed (hx : descAt w.ram.mem rdra (d.rdrOffset % rlen).toNat = x)
    (hown : tst x.md1 RX.OWN = false) :
    (rxRing cb rdra rlen tmp len d insize true).exec w = rxLeave cb .missed
      ({ d with rdrOffset := d.rdrOffset % rlen }.csr0Set CSR0.MISS) w := by
  -- RMD1 is stored back as it was loaded
  have hsame : w.ram.putRamWord (descOff rdra (d.rdrOffset % rlen) + 2) x.md1 = w.ram := by
    rw [← hx, ← load_md1, Boardram.putRamWord_getRamWord]
  rw [rxRing]
  simp only [DProg.exec_bind, exec_getRamWord, load_md0, load_md1, load_md2, load_md3, hx]
  rw [if_pos (by simp [hown])]
  simp only [DProg.exec_bind, exec_putRamWord, if_true, hsame, DProg.exec_pure]
  rfl

/-- A later descriptor is not owned. -/
theorem rxRing_overrun (hx : descAt w.ram.mem rdra (d.rdrOffset % rlen).toNat = x)
    (hown : tst x.md1 RX.OWN = false) :
    ∃ ram : Boardram,
      ram.mem = setWord w.ram.mem (descCell rdra (d.rdrOffset % rlen).toNat 2)
        (x.md1 ||| (RX.BUFF ||| RX.OFLO)) ∧
      (rxRing cb rdra rlen tmp len d insize false).exec w = rxLeave cb .overrun
        ({ d with rdrOffset := d.rdrOffset % rlen }.csr0Clr CSR0.RXON) { w with ram := ram } := by
  refine ⟨_, store_desc w.ram rdra (d.rdrOffset % rlen) 2 (x.md1 ||| (RX.BUFF ||| RX.OFLO)), ?_⟩
  rw [rxRing]
  simp only [DProg.exec_bind, exec_getRamWord, load_md0, load_md1, load_md2, load_md3, hx]
  rw [if_pos (by simp [hown])]
  simp only [DProg.exec_bind, exec_putRamWord, Bool.false_eq_true, if_false, DProg.exec_pure]
  rfl

theorem Desc.mem_write (x : Desc) (m : Boardram) (src : Buf) (hsize : x.size ≤ 2 ^ 15) :
    (m.ramWriteBlock (descAddr x.md0 x.md1) src x.size).mem =
      writeBlock m.mem x.start src x.size := by
  rw [m.mem_ramWriteBlock _ src hsize, cell_descAddr]
  rfl

/-- An owned descriptor that is too small for the rest of the frame. -/
theorem rxRing_next (hx : descAt w.ram.mem rdra (d.rdrOffset % rlen).toNat = x)
    (hown : tst x.md1 RX.OWN = true) (hmore : insize + x.size < len) :
    ∃ ram : Boardram,
      ram.mem = storeStatus (w.ram.ramWriteBlock (descAddr x.md0 x.md1)
          (fun i => tmp (insize + i)) x.size).mem rdra
        (d.rdrOffset % rlen).toNat (x.fill len first false).md1 (x.fill len first false).md3 ∧
      (rxRing cb rdra rlen tmp len d insize first).exec w =
        (rxRing cb rdra rlen tmp len { d with rdrOffset := d.rdrOffset % rlen + 1 }
          (insize + x.size) false).exec { w with ram := ram } := by
  have hbyte : byteCount x.md2 = x.size := rfl
  refine ⟨_, mem_store_status _ rdra (d.rdrOffset % rlen) (x.fill len first false).md1
    (x.fill len first false).md3, ?_⟩
  rw [rxRing]
  simp only [DProg.exec_bind, exec_getRamWord, load_md0, load_md1, load_md2, load_md3, hx]
  rw [if_neg (by simp [hown])]
  simp only [DProg.exec_bind, hbyte, exec_ramWriteBlock]
  rw [if_neg (by omega)]
  rfl

/-- An owned descriptor with room for the rest of the frame. -/
theorem rxRing_last (hx : descAt w.ram.mem rdra (d.rdrOffset % rlen).toNat = x)
    (hown : tst x.md1 RX.OWN = true) (hroom : len ≤ insize + x.size) :
    ∃ ram : Boardram,
      ram.mem = storeStatus (w.ram.ramWriteBlock (descAddr x.md0 x.md1)
          (fun i => tmp (insize + i)) x.size).mem rdra
        (d.rdrOffset % rlen).toNat (x.fill len first true).md1 (x.fill len first true).md3 ∧
      (rxRing cb rdra rlen tmp len d insize first).exec w = rxLeave cb .delivered
        ({ d with rdrOffset := d.rdrOffset % rlen + 1 }.csr0Set CSR0.RINT)
        { w with ram := ram } := by
  have hbyte : byteCount x.md2 = x.size := rfl
  refine ⟨_, mem_store_status _ rdra (d.rdrOffset % rlen) (x.fill len first true).md1
    (x.fill len first true).md3, ?_⟩
  rw [rxRing]
  simp only [DProg.exec_bind, exec_getRamWord, load_md0, load_md1, load_md2, load_md3, hx]
  rw [if_neg (by simp [hown])]
  simp only [DProg.exec_bind, hbyte, exec_ramWriteBlock]
  rw [if_pos hroom]
  simp only [DProg.exec_bind, exec_putRamWord, DProg.exec_pure]
  rfl

end Ring

/-! ## A run of descriptors -/

/-- The descriptors of a frame as the ring loop leaves them. -/
def fillChain (len : Nat) : Bool → List Desc → Desc → List Desc
  | first, [], last => [last.fill len first true]
  | first, x :: xs, last => x.fill len first false :: fillChain len false xs last

@[simp] theorem length_fillChain (len : Nat) (first : Bool) (init : List Desc) (last : Desc) :
    (fillChain len first init last).length = init.length + 1 := by
  induction init generalizing first with
  | nil => rfl
  | cons x xs ih => rw [fillChain, List.length_cons, ih, List.length_cons]

/-- STP goes to the first descriptor, ENP and the count to the last. -/
theorem fillChain_getElem (len : Nat) (first : Bool) (init : List Desc) (last : Desc) {j : Nat}
    (hj : j < (fillChain len first init last).length) (hj' : j < (init ++ [last]).length) :
    (fillChain len first init last)[j] =
      (init ++ [last])[j].fill len (first && j == 0) (j == init.length) := by
  induction init generalizing first j with
  | nil =>
      obtain rfl : j = 0 := by simpa using hj
      simp [fillChain]
  | cons x xs ih =>
      cases j with
      | zero => simp [fillChain]
      | succ j =>
          have hget := ih false (j := j) (Nat.lt_of_succ_lt_succ hj) (Nat.lt_of_succ_lt_succ hj')
          simpa [fillChain] using hget

/-- The cells of all buffers. -/
def bufferCells (xs : List Desc) : Set (BitVec 15) := {c | ∃ x ∈ xs, c ∈ x.cells}

theorem bufferCells_cons (x : Desc) (xs : List Desc) :
    bufferCells (x :: xs) = x.cells ∪ bufferCells xs := by
  ext c
  simp [bufferCells]

theorem disjoint_bufferCells {T : Set (BitVec 15)} {xs : List Desc}
    (h : ∀ x ∈ xs, Disjoint T x.cells) : Disjoint T (bufferCells xs) := by
  rw [Set.disjoint_left]
  rintro c hc ⟨x, hx, hcx⟩
  exact Set.disjoint_left.mp (h x hx) hc hcx

/-- From place `p` on the chip owns descriptors whose buffers are apart from
each other and from the ring, together not larger than a packet. -/
structure RxRun (m : BitVec 15 → U8) (rdra : U32) (n p : Nat) (xs : List Desc) : Prop where
  descs : DescsAt m rdra n p xs
  length_le : xs.length ≤ n
  own : ∀ x ∈ xs, tst x.md1 RX.OWN = true
  size : capacity xs ≤ MAX_PACKET_SIZE
  buffers : ∀ x ∈ xs, Disjoint x.cells (ringCells rdra n)
  apart : xs.Pairwise fun x y => Disjoint x.cells y.cells

/-- One descriptor is filled. -/
theorem RingStep.fill {m : BitVec 15 → U8} {rdra : U32} {n p : Nat} {x : Desc} (hn : n ≤ 512)
    (hpos : 0 < n) (hx : descAt m rdra (slot n p 0) = x)
    (hdisj : Disjoint x.cells (ringCells rdra n)) (src : Buf) (len : Nat) (first last : Bool) :
    RingStep rdra n p x.cells m
      (storeStatus (writeBlock m x.start src x.size) rdra (slot n p 0)
        (x.fill len first last).md1 (x.fill len first last).md3) [x.fill len first last] := by
  have hblock := RingStep.block p m hn x.start src x.size hdisj
  have hkept : descAt (writeBlock m x.start src x.size) rdra (slot n p 0) = x :=
    (hblock.others 0 (Nat.zero_le 0) hpos).trans hx
  have hstore := RingStep.store rdra p (writeBlock m x.start src x.size) hn hpos
    (x.fill len first last).md1 (x.fill len first last).md3
  rw [hkept] at hstore
  have hall := hblock.append hstore hpos
  rwa [Set.union_empty] at hall

theorem RxRun.ringStep {m : BitVec 15 → U8} {rdra : U32} {n p : Nat} {x : Desc} {xs : List Desc}
    (h : RxRun m rdra n p (x :: xs)) (hn : n ≤ 512) (src : Buf) (len : Nat) (first last : Bool) :
    RingStep rdra n p x.cells m
      (storeStatus (writeBlock m x.start src x.size) rdra (slot n p 0)
        (x.fill len first last).md1 (x.fill len first last).md3) [x.fill len first last] :=
  .fill hn (Nat.lt_of_lt_of_le (Nat.succ_pos _) h.length_le) h.descs.1
    (h.buffers x (List.mem_cons_self ..)) src len first last

/-- What the step leaves for the following descriptors. -/
theorem RxRun.tail {m m' : BitVec 15 → U8} {rdra : U32} {n p : Nat} {x y : Desc} {xs : List Desc}
    (h : RxRun m rdra n p (x :: xs)) (hs : RingStep rdra n p x.cells m m' [y]) :
    RxRun m' rdra n (p + 1) xs where
  descs := h.descs.2.congr fun k hk => by
    have hlen := h.length_le
    rw [List.length_cons] at hlen
    rw [slot_add]
    exact hs.others _ (Nat.le_add_right 1 k) (by omega)
  length_le := Nat.le_of_succ_le h.length_le
  own y hy := h.own y (List.mem_cons_of_mem _ hy)
  size := Nat.le_trans (Nat.le_add_left _ _) (capacity_cons x xs ▸ h.size)
  buffers y hy := h.buffers y (List.mem_cons_of_mem _ hy)
  apart := h.apart.of_cons

/-- The buffer of a filled descriptor. -/
theorem RxRun.bytes_filled {m : BitVec 15 → U8} {rdra : U32} {n p : Nat} {x : Desc}
    {xs : List Desc} (h : RxRun m rdra n p (x :: xs)) (hn : n ≤ 512) (src : Buf) (md1 md3 : U16) :
    x.bytes (storeStatus (writeBlock m x.start src x.size) rdra (slot n p 0) md1 md3) =
      (List.range x.size).map src := by
  have hpos : 0 < n := Nat.lt_of_lt_of_le (Nat.succ_pos _) h.length_le
  have hsize : x.size ≤ 2 ^ 15 :=
    (size_le_capacity (List.mem_cons_self ..)).trans (h.size.trans (by decide))
  have hdisj := Set.subset_compl_iff_disjoint_right.mpr (h.buffers x (List.mem_cons_self ..))
  rw [Desc.bytes, readBlock_congr hsize
    ((eqOn_storeStatus _ rdra md1 md3 hn (slot_lt hpos p 0)).mono hdisj)]
  exact readBlock_writeBlock m x.start src (Nat.le_refl _) hsize

/-- The ring loop stores the frame in the buffers of the run and releases its
descriptors. -/
theorem rxRing_exec (cb : Callback) {rdra rlen : U32} (hlen : rlen.toNat ≤ 512) (tmp : Buf)
    {len : Nat} {init : List Desc} {last : Desc} {d : Daemon} {w : World} {p insize : Nat}
    (first : Bool) (h : RxRun w.ram.mem rdra rlen.toNat p (init ++ [last]))
    (hp : (d.rdrOffset % rlen).toNat = slot rlen.toNat p 0)
    (hneed : insize + capacity init < len)
    (hroom : len ≤ insize + capacity (init ++ [last])) :
    ∃ (o : U32) (ram : Boardram), o.toNat = slot rlen.toNat p init.length ∧
      gathered ram.mem (init ++ [last]) =
        (List.range (capacity (init ++ [last]))).map (fun i => tmp (insize + i)) ∧
      RingStep rdra rlen.toNat p (bufferCells (init ++ [last])) w.ram.mem ram.mem
        (fillChain len first init last) ∧
      (rxRing cb rdra rlen tmp len d insize first).exec w =
        rxLeave cb .delivered ({ d with rdrOffset := o + 1 }.csr0Set CSR0.RINT)
          { w with ram := ram } := by
  have hmax : MAX_PACKET_SIZE ≤ 2 ^ 15 := by decide
  have hpos : 0 < rlen.toNat := Nat.lt_of_lt_of_le (by simp) h.length_le
  induction init generalizing d w p insize first with
  | nil =>
      rw [List.nil_append] at h hroom ⊢
      have hsize := (size_le_capacity (List.mem_singleton_self last)).trans (h.size.trans hmax)
      have hx : descAt w.ram.mem rdra (d.rdrOffset % rlen).toNat = last := by
        rw [hp]
        exact h.descs.1
      rw [capacity_cons, capacity_nil, Nat.add_zero] at hroom ⊢
      obtain ⟨ram, hmem, hexec⟩ := rxRing_last hx (h.own last (by simp)) hroom
      rw [last.mem_write _ _ hsize, hp] at hmem
      refine ⟨d.rdrOffset % rlen, ram, hp, ?_, ?_, hexec⟩
      · rw [gathered, List.flatMap_singleton, hmem]
        exact h.bytes_filled hlen _ _ _
      · have hstep := h.ringStep hlen (fun i => tmp (insize + i)) len first true
        rw [← hmem] at hstep
        rwa [bufferCells_cons, show bufferCells [] = ∅ by simp [bufferCells], Set.union_empty]
  | cons x xs ih =>
      rw [List.cons_append] at h hroom ⊢
      have hsize := (size_le_capacity (List.mem_cons_self ..)).trans (h.size.trans hmax)
      have hx : descAt w.ram.mem rdra (d.rdrOffset % rlen).toNat = x := by
        rw [hp]
        exact h.descs.1
      rw [capacity_cons, ← Nat.add_assoc] at hneed hroom
      obtain ⟨ram, hmem, hexec⟩ := rxRing_next hx (h.own x (by simp))
        (Nat.lt_of_le_of_lt (Nat.le_add_right ..) hneed)
      rw [x.mem_write _ _ hsize, hp] at hmem
      have hstep := h.ringStep hlen (fun i => tmp (insize + i)) len first false
      have hbytes := h.bytes_filled hlen (fun i => tmp (insize + i))
        (x.fill len first false).md1 (x.fill len first false).md3
      rw [← hmem] at hstep hbytes
      obtain ⟨o, ram', ho, hgathered, hring, hexec'⟩ := ih
        (d := { d with rdrOffset := d.rdrOffset % rlen + 1 }) (w := { w with ram := ram }) false
        (h.tail hstep) (toNat_cursor_succ hlen hpos hp) hneed hroom
      -- the following writes leave this buffer alone
      have hkept : x.bytes ram'.mem = x.bytes ram.mem := by
        refine readBlock_congr hsize (hring.eqOn_of_disjoint (h.buffers x (by simp)) ?_)
        exact disjoint_bufferCells fun y hy => List.rel_of_pairwise_cons h.apart hy
      refine ⟨o, ram', ?_, ?_, ?_, hexec.trans hexec'⟩
      · rw [ho, slot_add, Nat.add_comm, List.length_cons]
      · rw [gathered, List.flatMap_cons, ← gathered, hgathered, hkept, hbytes, capacity_cons,
          List.range_add, List.map_append, List.map_map]
        simp only [Function.comp_def, Nat.add_assoc]
      · have hall := hstep.append hring (by
          have hle := h.length_le
          simp only [List.length_cons, List.length_append, List.length_nil, length_fillChain]
            at hle ⊢
          omega)
        rwa [bufferCells_cons]

/-- A frame that fits into the next descriptor. -/
theorem rxRing_single (cb : Callback) {rdra rlen : U32} (hlen : rlen.toNat ≤ 512) (tmp : Buf)
    {len : Nat} {x : Desc} {d : Daemon} {w : World} {p : Nat}
    (h : RxRun w.ram.mem rdra rlen.toNat p [x])
    (hp : (d.rdrOffset % rlen).toNat = slot rlen.toNat p 0) (hpos : 0 < len)
    (hroom : len ≤ x.size) :
    ∃ (o : U32) (ram : Boardram), o.toNat = slot rlen.toNat p 0 ∧
      x.bytes ram.mem = (List.range x.size).map tmp ∧
      RingStep rdra rlen.toNat p x.cells w.ram.mem ram.mem [x.fill len true true] ∧
      (rxRing cb rdra rlen tmp len d 0 true).exec w =
        rxLeave cb .delivered ({ d with rdrOffset := o + 1 }.csr0Set CSR0.RINT)
          { w with ram := ram } := by
  have hrun : RxRun w.ram.mem rdra rlen.toNat p ([] ++ [x]) := h
  obtain ⟨o, ram, ho, hdata, hstep, hexec⟩ := rxRing_exec cb hlen tmp true hrun hp
    (by simpa using hpos) (by simpa using hroom)
  refine ⟨o, ram, ho, by simpa [gathered] using hdata, ?_, hexec⟩
  simpa [bufferCells, fillChain] using hstep

/-! ## One call of gotfunc -/

theorem gotfunc_accepted (cb : Callback) {databuf : Buf} {len : Nat} {d : Daemon} {w : World}
    (hon : tst d.csr0 CSR0.RXON = true) (hlen : 20 ≤ len)
    (hring : ringAccepted d.amRdrRdra d.amRdrRlen = true)
    (hacc : rxAccepts d (rxFrame d w.stack databuf len) = true) :
    (gotfunc cb databuf len d).exec w = (rxRing cb d.amRdrRdra d.amRdrRlen
      (appendFcs (rxFrame d w.stack databuf len) len) (len + 4) d 0 true).exec w := by
  unfold gotfunc
  rw [if_neg (by simp [hon]), if_neg (by omega), if_neg (by simp [hring])]
  rw [DProg.exec_bind]
  exact congrArg (fun p : DProg (RxExit × Daemon) => p.exec w) (if_neg (by simpa using hacc))

theorem rxLeave_eq (cb : Callback) (e : RxExit) (d : Daemon) (w : World) :
    (rxLeave cb e d w).1 = (e, d.setCsr 0 (rethinkCsr0 d.csr0)) ∧
      SameMem w (rxLeave cb e d w).2 :=
  ⟨congrArg (e, ·) (rethink_exec cb d w).1, (rethink_exec cb d w).2⟩

theorem own_fill (len : Nat) (first last : Bool) (x : Desc) :
    tst (x.fill len first last).md1 RX.OWN = false := by
  simp only [Desc.fill, RX.masks, tst_twoPow]
  cases first <;> cases last <;> simp

theorem enp_fill (len : Nat) (first last : Bool) {x : Desc} (h : tst x.md1 RX.ENP = false) :
    tst (x.fill len first last).md1 RX.ENP = last := by
  simp only [Desc.fill, RX.masks, tst_twoPow] at h ⊢
  cases first <;> cases last <;> simp_all

theorem own_fillChain {len : Nat} {first : Bool} {init : List Desc} {last y : Desc}
    (hy : y ∈ fillChain len first init last) : tst y.md1 RX.OWN = false := by
  obtain ⟨j, hj, rfl⟩ := List.getElem_of_mem hy
  rw [fillChain_getElem len first init last hj (by simpa using hj)]
  exact own_fill ..

/-- Where the descriptors of a frame are found afterwards. -/
theorem RingStep.filled {rdra : U32} {n p len : Nat} {S : Set (BitVec 15)}
    {m m' : BitVec 15 → U8} {first : Bool} {init : List Desc} {last : Desc}
    (h : RingStep rdra n p S m m' (fillChain len first init last)) {j : Nat}
    (hj : j < (init ++ [last]).length) : descAt m' rdra (slot n p j) =
      (init ++ [last])[j].fill len (first && j == 0) (j == init.length) := by
  have hj' : j < (fillChain len first init last).length := by simpa using hj
  rw [h.descs.get hj', fillChain_getElem _ _ _ _ hj' hj]

/-- The four FCS bytes of a frame, high byte first. -/
def fcs (frame : List U8) : List U8 :=
  let crc := crc32Compute (fun i => (frame[i]?).getD 0) frame.length
  [(crc >>> 24).setWidth 8, (crc >>> 16).setWidth 8, (crc >>> 8).setWidth 8, crc.setWidth 8]

theorem bufTake_appendFcs (tmp : Buf) (n : Nat) :
    bufTake (appendFcs tmp n) (n + 4) = bufTake tmp n ++ fcs (bufTake tmp n) := by
  have hcrc : crc32Compute tmp n =
      crc32Compute (fun i => ((bufTake tmp n)[i]?).getD 0) (bufTake tmp n).length := by
    rw [length_bufTake]
    refine crc32Compute_congr fun i hi => ?_
    simp [bufTake, hi]
  have hwrite := bufTake_bufWrite tmp n (fcs (bufTake tmp n))
  rw [show (fcs (bufTake tmp n)).length = 4 from rfl] at hwrite
  rw [← hwrite]
  unfold appendFcs fcs
  simp only
  rw [hcrc]

/-- The frame and its FCS are stored in the run of descriptors. -/
theorem gotfunc_stores (cb : Callback) {d : Daemon} {w : World} (databuf : Buf) {n : Nat}
    {init : List Desc} {last : Desc} (hon : tst d.csr0 CSR0.RXON = true)
    (hring : ringAccepted d.amRdrRdra d.amRdrRlen = true) (hmin : 20 ≤ n)
    (hacc : rxAccepts d (rxFrame d w.stack databuf n) = true)
    (hrun : RxRun w.ram.mem d.amRdrRdra d.amRdrRlen.toNat d.rdrOffset.toNat (init ++ [last]))
    (hneed : capacity init < n + 4) (hroom : n + 4 ≤ capacity (init ++ [last])) :
    ∃ (o : U32) (ram : Boardram),
      o.toNat = slot d.amRdrRlen.toNat d.rdrOffset.toNat init.length ∧
      (gathered ram.mem (init ++ [last])).take (n + 4) =
        bufTake (rxFrame d w.stack databuf n) n ++
          fcs (bufTake (rxFrame d w.stack databuf n) n) ∧
      RingStep d.amRdrRdra d.amRdrRlen.toNat d.rdrOffset.toNat (bufferCells (init ++ [last]))
        w.ram.mem ram.mem (fillChain (n + 4) true init last) ∧
      (gotfunc cb databuf n d).exec w =
        rxLeave cb .delivered ({ d with rdrOffset := o + 1 }.csr0Set CSR0.RINT)
          { w with ram := ram } := by
  obtain ⟨-, hlen, -⟩ := ringAccepted_iff.mp hring
  obtain ⟨o, ram, ho, hdata, hstep, hexec⟩ := rxRing_exec cb (d := d) hlen
    (appendFcs (rxFrame d w.stack databuf n) n) true hrun (BitVec.toNat_umod ..)
    (by rwa [Nat.zero_add]) (by rwa [Nat.zero_add])
  refine ⟨o, ram, ho, ?_, hstep, ?_⟩
  · simp only [Nat.zero_add] at hdata
    rw [hdata, ← List.map_take, List.take_range, Nat.min_eq_left hroom]
    exact bufTake_appendFcs _ n
  · rw [gotfunc_accepted cb hon hmin hring hacc]
    exact hexec

end A2065
