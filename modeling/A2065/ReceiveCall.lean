import A2065.Scatter
import A2065.TransmitCall

/-!
# One call of gotfunc, cell by cell

A frame that passes the filters and finds enough owned descriptors is stored
with its FCS in their buffers, whatever sizes these have: a frame may end at
the end of a buffer, and the FCS may lie across two. Of the window a call
changes the buffers and the descriptors of that run and nothing else.
-/

namespace A2065

open Bits CyclicMem Circular

/-! ## Cells and descriptors -/

theorem mem_ringCells {base : U32} {n : Nat} {c : BitVec 15} (h : c ∈ ringCells base n) :
    ∃ i < n, ∃ k < 8, c = descCell base i k := by
  have hlt : (c - cell base).toNat < 8 * n := h
  refine ⟨(c - cell base).toNat / 8, by omega, (c - cell base).toNat % 8, by omega, ?_⟩
  rw [descCell, Nat.div_add_mod, BitVec.ofNat_toNat, BitVec.setWidth_eq]
  bv_omega

/-- The words of a descriptor determine its eight cells. -/
theorem cells_of_descAt {m m' : BitVec 15 → U8} {base : U32} {i : Nat}
    (h : descAt m' base i = descAt m base i) {k : Nat} (hk : k < 8) :
    m' (descCell base i k) = m (descCell base i k) := by
  have hword : ∀ l, wordAt m' (descCell base i l) = wordAt m (descCell base i l) →
      m' (descCell base i l) = m (descCell base i l) ∧
        m' (descCell base i (l + 1)) = m (descCell base i (l + 1)) := by
    intro l hl
    rw [← descCell_succ, ← wordAt_hi m', ← wordAt_lo m', hl, wordAt_hi, wordAt_lo]
    exact ⟨rfl, rfl⟩
  have h0 := hword 0 (congrArg Desc.md0 h)
  have h2 := hword 2 (congrArg Desc.md1 h)
  have h4 := hword 4 (congrArg Desc.md2 h)
  have h6 := hword 6 (congrArg Desc.md3 h)
  interval_cases k
  exacts [h0.1, h0.2, h2.1, h2.2, h4.1, h4.2, h6.1, h6.2]

/-- Of the ring only the cells of the new descriptors have changed. -/
theorem RingStep.cells {base : U32} {n p : Nat} {S : Set (BitVec 15)} {m m' : BitVec 15 → U8}
    {xs : List Desc} (h : RingStep base n p S m m' xs) {c : BitVec 15} (hS : c ∉ S)
    (hdesc : ∀ j < xs.length, c ∉ descCells base (slot n p j)) : m' c = m c := by
  by_cases hring : c ∈ ringCells base n
  · obtain ⟨i, hi, k, hk, rfl⟩ := mem_ringCells hring
    obtain ⟨j, hj, rfl⟩ := exists_slot hi p
    by_cases hjx : j < xs.length
    · exact absurd (descCell_mem_descCells base _ hk) (hdesc j hjx)
    · exact cells_of_descAt (h.others j (by omega) hj) hk
  · apply h.frame
    rintro (hc | hc)
    · exact hring hc
    · exact hS hc

/-! ## The call -/

/-- A frame that passes the filters, and from `rdr_offset` on `more + 1` owned
descriptors, no more than it needs, with STP and ENP clear. -/
structure RxSetup (d : Daemon) (w : World) (databuf : Buf) (len more : Nat) : Prop where
  rxon : tst d.csr0 CSR0.RXON = true
  ring : ringAccepted d.amRdrRdra d.amRdrRlen = true
  accepted : rxAccepts d (rxFrame d w.stack databuf len) = true
  min : 20 ≤ len
  max : len ≤ 4092
  more_lt : more < d.amRdrRlen.toNat
  own : ∀ x ∈ descsFrom w.ram.mem d.amRdrRdra d.amRdrRlen.toNat d.rdrOffset.toNat (more + 1),
    tst x.md1 RX.OWN = true
  clear : ∀ x ∈ descsFrom w.ram.mem d.amRdrRdra d.amRdrRlen.toNat d.rdrOffset.toNat (more + 1),
    tst x.md1 RX.STP = false ∧ tst x.md1 RX.ENP = false
  need : capacity (descsFrom w.ram.mem d.amRdrRdra d.amRdrRlen.toNat d.rdrOffset.toNat more) <
    len + 4
  room : len + 4 ≤
    capacity (descsFrom w.ram.mem d.amRdrRdra d.amRdrRlen.toNat d.rdrOffset.toNat (more + 1))
  size : capacity (descsFrom w.ram.mem d.amRdrRdra d.amRdrRlen.toNat d.rdrOffset.toNat (more + 1)) ≤
    MAX_PACKET_SIZE
  buffers : ∀ x ∈ descsFrom w.ram.mem d.amRdrRdra d.amRdrRlen.toNat d.rdrOffset.toNat (more + 1),
    Disjoint x.cells (ringCells d.amRdrRdra d.amRdrRlen.toNat)
  apart : (descsFrom w.ram.mem d.amRdrRdra d.amRdrRlen.toNat d.rdrOffset.toNat (more + 1)).Pairwise
    fun x y => Disjoint x.cells y.cells

/-- The frame stands in the descriptors from place `p` on, which were `xs`. -/
structure RxStored (d : Daemon) (w : World) (databuf : Buf) (len p : Nat) (xs : List Desc)
    (r : (RxExit × Daemon) × World) : Prop where
  exit : r.1.1 = .delivered
  /-- the frame, munged outside loopback, and its FCS -/
  data : (gathered r.2.ram.mem xs).take (len + 4) = bufTake (rxFrame d w.stack databuf len) len ++
    fcs (bufTake (rxFrame d w.stack databuf len) len)
  own : ∀ i < d.amRdrRlen.toNat, tst (descAt r.2.ram.mem d.amRdrRdra i).md1 RX.OWN = true ↔
    tst (descAt w.ram.mem d.amRdrRdra i).md1 RX.OWN = true ∧
      ∀ j < xs.length, i ≠ slot d.amRdrRlen.toNat p j
  stp : ∀ j < xs.length, tst (descAt r.2.ram.mem d.amRdrRdra
    (slot d.amRdrRlen.toNat p j)).md1 RX.STP = decide (j = 0)
  enp : ∀ j < xs.length, tst (descAt r.2.ram.mem d.amRdrRdra
    (slot d.amRdrRlen.toNat p j)).md1 RX.ENP = decide (j + 1 = xs.length)
  /-- RMD3 of the last is the length, that of the others is as it was -/
  md3 : ∀ j < xs.length, (descAt r.2.ram.mem d.amRdrRdra (slot d.amRdrRlen.toNat p j)).md3.toNat =
    if j + 1 = xs.length then len + 4
    else (descAt w.ram.mem d.amRdrRdra (slot d.amRdrRlen.toNat p j)).md3.toNat
  md0 : ∀ j < xs.length, (descAt r.2.ram.mem d.amRdrRdra (slot d.amRdrRlen.toNat p j)).md0 =
    (descAt w.ram.mem d.amRdrRdra (slot d.amRdrRlen.toNat p j)).md0
  md2 : ∀ j < xs.length, (descAt r.2.ram.mem d.amRdrRdra (slot d.amRdrRlen.toNat p j)).md2 =
    (descAt w.ram.mem d.amRdrRdra (slot d.amRdrRlen.toNat p j)).md2
  /-- the high address bits -/
  hadr : ∀ j < xs.length,
    (descAt r.2.ram.mem d.amRdrRdra (slot d.amRdrRlen.toNat p j)).md1.setWidth 8 =
      (descAt w.ram.mem d.amRdrRdra (slot d.amRdrRlen.toNat p j)).md1.setWidth 8
  frame : ∀ c, (∀ x ∈ xs, c ∉ x.cells) →
    (∀ j < xs.length, c ∉ descCells d.amRdrRdra (slot d.amRdrRlen.toNat p j)) →
      r.2.ram.mem c = w.ram.mem c
  cursor : r.1.2.rdrOffset.toNat ≡ p + xs.length [MOD d.amRdrRlen.toNat]
  rint : tst r.1.2.csr0 CSR0.RINT = true
  intr : tst r.1.2.csr0 CSR0.INTR = true

theorem stp_fill (len : Nat) (first last : Bool) {x : Desc} (h : tst x.md1 RX.STP = false) :
    tst (x.fill len first last).md1 RX.STP = first := by
  simp only [Desc.fill, RX.masks, tst_twoPow] at h ⊢
  cases first <;> cases last <;> simp_all

/-- The flags are in the high byte of RMD1. -/
theorem hadr_fill (len : Nat) (first last : Bool) (x : Desc) :
    (x.fill len first last).md1.setWidth 8 = x.md1.setWidth 8 := by
  have hown : RX.OWN.setWidth 8 = 0#8 := by decide
  have hones : ∀ v : U8, v &&& 255#8 = v := by decide
  have hstp : RX.STP.setWidth 8 = 0#8 := by decide
  have henp : RX.ENP.setWidth 8 = 0#8 := by decide
  cases first <;> cases last <;>
    simp [Desc.fill, BitVec.setWidth_or, BitVec.setWidth_and, hown, hstp, henp, hones]

theorem RxSetup.run {d : Daemon} {w : World} {databuf : Buf} {len more : Nat}
    (h : RxSetup d w databuf len more) :
    RxRun w.ram.mem d.amRdrRdra d.amRdrRlen.toNat d.rdrOffset.toNat
      (descsFrom w.ram.mem d.amRdrRdra d.amRdrRlen.toNat d.rdrOffset.toNat (more + 1)) where
  descs := descsAt_descsFrom ..
  length_le := by
    rw [length_descsFrom]
    exact h.more_lt
  own := h.own
  size := h.size
  buffers := h.buffers
  apart := h.apart

/-- Each descriptor of the run is filled. -/
theorem RingStep.filled_descsFrom {rdra : U32} {n p len more : Nat} {S : Set (BitVec 15)}
    {m m' : BitVec 15 → U8} (h : RingStep rdra n p S m m'
      (fillChain len true (descsFrom m rdra n p more) (descAt m rdra (slot n p more))))
    {j : Nat} (hj : j < more + 1) : descAt m' rdra (slot n p j) =
      (descAt m rdra (slot n p j)).fill len (decide (j = 0)) (decide (j = more)) := by
  have hlt : j < (descsFrom m rdra n p more ++ [descAt m rdra (slot n p more)]).length := by
    simpa using hj
  rw [h.filled hlt, length_descsFrom, Bool.true_and]
  simp only [← descsFrom_succ, beq_eq_decide]
  simp [descsFrom]

/-- A frame that finds enough owned descriptors is stored in them. -/
theorem rx_scatter (cb : Callback) (d : Daemon) (w : World) (databuf : Buf) (len more : Nat)
    (h : RxSetup d w databuf len more) :
    RxStored d w databuf len d.rdrOffset.toNat
      (descsFrom w.ram.mem d.amRdrRdra d.amRdrRlen.toNat d.rdrOffset.toNat (more + 1))
      ((gotfunc cb databuf len d).exec w) := by
  obtain ⟨hpos, hlen, -⟩ := ringAccepted_iff.mp h.ring
  have hrun := h.run
  have hroom := h.room
  rw [descsFrom_succ] at hrun hroom
  obtain ⟨o, ram, ho, hdata, hstep, hexec⟩ :=
    gotfunc_stores cb databuf h.rxon h.ring h.min h.accepted hrun h.need hroom
  obtain ⟨hval, hsame⟩ := rxLeave_eq cb .delivered
    ({ d with rdrOffset := o + 1 }.csr0Set CSR0.RINT) { w with ram := ram }
  rw [← hexec] at hval hsame
  rw [length_descsFrom] at ho
  rw [← descsFrom_succ] at hdata hstep
  generalize (gotfunc cb databuf len d).exec w = r at hval hsame
  obtain ⟨⟨e, d'⟩, w'⟩ := r
  obtain ⟨rfl, rfl⟩ := Prod.mk.inj hval
  obtain rfl : w'.ram = ram := hsame.ram
  have hfill := fun j => hstep.filled_descsFrom (j := j)
  have hclear := fun j hj => h.clear _ (mem_descsFrom.mpr ⟨j, hj, rfl⟩)
  constructor
  case exit => rfl
  case data => exact hdata
  case own =>
    intro i hi
    rw [hstep.flag_iff (fun y hy => own_fillChain hy) hi, length_fillChain, length_descsFrom,
      length_descsFrom]
  case stp =>
    intro j hj
    rw [length_descsFrom] at hj
    rw [hfill j hj, stp_fill _ _ _ (hclear j hj).1]
  case enp =>
    intro j hj
    rw [length_descsFrom] at hj
    rw [hfill j hj, enp_fill _ _ _ (hclear j hj).2, length_descsFrom]
    simp
  case md3 =>
    intro j hj
    rw [length_descsFrom] at hj
    rw [hfill j hj, length_descsFrom]
    have hmax := h.max
    by_cases hlast : j = more
    · rw [if_pos (by omega), Desc.fill]
      simp only [hlast, decide_true, if_true, BitVec.toNat_ofNat]
      omega
    · rw [if_neg (by omega), Desc.fill]
      simp [hlast]
  case md0 =>
    intro j hj
    rw [length_descsFrom] at hj
    rw [hfill j hj]
    rfl
  case md2 =>
    intro j hj
    rw [length_descsFrom] at hj
    rw [hfill j hj]
    rfl
  case hadr =>
    intro j hj
    rw [length_descsFrom] at hj
    rw [hfill j hj, hadr_fill]
  case frame =>
    intro c hbuffers hdescs
    apply hstep.cells
    · rintro ⟨x, hx, hc⟩
      exact hbuffers x hx hc
    · rw [length_descsFrom] at hdescs
      rwa [length_fillChain, length_descsFrom]
  case cursor =>
    rw [length_descsFrom]
    exact cursor_modEq hlen hpos ho
  case rint => exact (cause_interrupts d.csr0 (.inr rfl)).1
  case intr => exact (cause_interrupts d.csr0 (.inr rfl)).2

/-- Two RX descriptors at 0, with the cursor on the second. -/
def scatterDaemon : Daemon :=
  { (registersReset (.bootWith someFakemac someFakemac someRealmac)).csr0Set CSR0.RXON with
    amRdrRlen := 2
    rdrOffset := 1 }

/-- Buffers of 22 and 16 bytes: the FCS of a frame of 20 lies across both. -/
def scatterWorld : World :=
  .holding [(0x00, 0x300), (0x02, 0x8000), (0x04, 0xFFF0), (0x08, 0x400), (0x0A, 0x8000),
    (0x0C, 0xFFEA)]

/-- A broadcast that wraps around the end of the ring. -/
theorem rx_scatter_wrapped : RxStored scatterDaemon scatterWorld (fun _ => 0xFF) 20 1
    (descsFrom scatterWorld.ram.mem 0 2 1 2)
    ((gotfunc .null (fun _ => 0xFF) 20 scatterDaemon).exec scatterWorld) :=
  rx_scatter .null scatterDaemon scatterWorld (fun _ => 0xFF) 20 1
    { rxon := by decide +kernel
      ring := by decide +kernel
      accepted := by decide +kernel
      min := by decide +kernel
      max := by decide +kernel
      more_lt := by decide +kernel
      own := by decide +kernel
      clear := by decide +kernel
      need := by decide +kernel
      room := by decide +kernel
      size := by decide +kernel
      buffers := by decide +kernel
      apart := by decide +kernel }

end A2065
