import A2065.Exec
import A2065.Lib.Circular
import Mathlib.Algebra.Order.BigOperators.Group.List
import Mathlib.Algebra.Order.Group.Nat

/-!
# Descriptors in memory

The four words of a descriptor, by ring and index. A ring of at most 512
descriptors fits into the window, so a store to one word of it leaves all
others alone; what lies outside the ring is left alone anyway.
-/

namespace A2065

open Bits CyclicMem Circular

/-- The four words of a ring descriptor. -/
structure Desc where
  md0 : U16
  md1 : U16
  md2 : U16
  md3 : U16
  deriving DecidableEq

/-- The cell of byte `k` of the descriptor with index `i`. -/
def descCell (base : U32) (i k : Nat) : BitVec 15 := cell base + BitVec.ofNat 15 (8 * i + k)

/-- Descriptor `i` of the ring at `base`. -/
def descAt (m : BitVec 15 → U8) (base : U32) (i : Nat) : Desc where
  md0 := wordAt m (descCell base i 0)
  md1 := wordAt m (descCell base i 2)
  md2 := wordAt m (descCell base i 4)
  md3 := wordAt m (descCell base i 6)

/-- The first cell of a descriptor's buffer, and the number of its cells. -/
def Desc.start (x : Desc) : BitVec 15 := x.md0.setWidth 15

/-- The size of the buffer in bytes; the third word is its negative. -/
def Desc.size (x : Desc) : Nat := byteCount x.md2

/-- The window has 15 address bits, so the high byte of the address is lost. -/
theorem cell_descAddr (md0 md1 : U16) : cell (descAddr md0 md1) = md0.setWidth 15 := by
  rw [descAddr, cell_and_mask, cell]
  apply BitVec.eq_of_getLsbD_eq
  intro i hi
  simp [hi, show i < 16 by omega]

theorem cell_descOff (base i : U32) (k : Nat) :
    cell (descOff base i + BitVec.ofNat 32 k) = descCell base i.toNat k := by
  have hi : cell (i * 8) = BitVec.ofNat 15 (8 * i.toNat) := by
    rw [Nat.mul_comm, BitVec.ofNat_mul, cell, BitVec.setWidth_mul _ _ (by decide)]
    rfl
  rw [descOff, cell_add, cell_add, hi, cell_ofNat, descCell, BitVec.ofNat_add, BitVec.add_assoc]

/-! ## Loads and stores -/

section Loads

variable (m : Boardram) (base i : U32)

theorem load_desc (k : Nat) : m.getRamWord (descOff base i + BitVec.ofNat 32 k) =
    wordAt m.mem (descCell base i.toNat k) := by
  rw [Boardram.getRamWord_eq, cell_descOff]

theorem store_desc (k : Nat) (v : U16) : (m.putRamWord (descOff base i + BitVec.ofNat 32 k) v).mem =
    setWord m.mem (descCell base i.toNat k) v := by
  rw [Boardram.mem_putRamWord, cell_descOff]

@[simp] theorem load_md0 : m.getRamWord (descOff base i + 0) = (descAt m.mem base i.toNat).md0 :=
  load_desc m base i 0

@[simp] theorem load_md1 : m.getRamWord (descOff base i + 2) = (descAt m.mem base i.toNat).md1 :=
  load_desc m base i 2

@[simp] theorem load_md2 : m.getRamWord (descOff base i + 4) = (descAt m.mem base i.toNat).md2 :=
  load_desc m base i 4

@[simp] theorem load_md3 : m.getRamWord (descOff base i + 6) = (descAt m.mem base i.toNat).md3 :=
  load_desc m base i 6

end Loads

/-- A store to one word of a ring and a load of a word of it. -/
theorem wordAt_setWord_desc (m : BitVec 15 → U8) (base : U32) {i j k l : Nat} (v : U16)
    (hi : i < 512) (hj : j < 512) (hk : k ≤ 6) (hl : l ≤ 6)
    (hkl : l = k ∨ k + 2 ≤ l ∨ l + 2 ≤ k) :
    wordAt (setWord m (descCell base i k) v) (descCell base j l) =
      if j = i ∧ l = k then v else wordAt m (descCell base j l) := by
  unfold descCell
  split
  · rename_i h
    obtain ⟨rfl, rfl⟩ := h
    exact wordAt_setWord m v (by bv_omega)
  · rename_i h
    exact wordAt_setWord_offset m _ v (by omega) (by omega) (by omega)

/-- MD1 and then MD3 are stored, as all ways out of the walkers but one do. -/
def storeStatus (m : BitVec 15 → U8) (base : U32) (i : Nat) (md1 md3 : U16) : BitVec 15 → U8 :=
  setWord (setWord m (descCell base i 2) md1) (descCell base i 6) md3

theorem descAt_setMd1 (m : BitVec 15 → U8) (base : U32) {i j : Nat} (v : U16)
    (hi : i < 512) (hj : j < 512) : descAt (setWord m (descCell base i 2) v) base j =
      if j = i then { descAt m base i with md1 := v } else descAt m base j := by
  have hword := fun l => wordAt_setWord_desc m base (k := 2) (l := l) v hi hj (by decide)
  simp only [descAt, hword 0 (by decide) (by decide), hword 2 (by decide) (by decide),
    hword 4 (by decide) (by decide), hword 6 (by decide) (by decide)]
  by_cases h : j = i
  · simp [h]
  · simp [h]

theorem descAt_setMd3 (m : BitVec 15 → U8) (base : U32) {i j : Nat} (v : U16)
    (hi : i < 512) (hj : j < 512) : descAt (setWord m (descCell base i 6) v) base j =
      if j = i then { descAt m base i with md3 := v } else descAt m base j := by
  have hword := fun l => wordAt_setWord_desc m base (k := 6) (l := l) v hi hj (by decide)
  simp only [descAt, hword 0 (by decide) (by decide), hword 2 (by decide) (by decide),
    hword 4 (by decide) (by decide), hword 6 (by decide) (by decide)]
  by_cases h : j = i
  · simp [h]
  · simp [h]

theorem descAt_storeStatus (m : BitVec 15 → U8) (base : U32) {i j : Nat} (md1 md3 : U16)
    (hi : i < 512) (hj : j < 512) : descAt (storeStatus m base i md1 md3) base j =
      if j = i then { descAt m base i with md1 := md1, md3 := md3 } else descAt m base j := by
  rw [storeStatus, descAt_setMd3 _ base md3 hi hj, descAt_setMd1 _ base md1 hi hi,
    descAt_setMd1 _ base md1 hi hj, if_pos rfl]
  split <;> rfl

/-! ## The ring and the rest -/

/-- The cells of a ring of `n` descriptors. -/
def ringCells (base : U32) (n : Nat) : Set (BitVec 15) := block (cell base) (8 * n)

theorem descCell_mem (base : U32) {i k n : Nat} (hn : n ≤ 512) (hi : i < n) (hk : k < 8) :
    descCell base i k ∈ ringCells base n :=
  offset_mem_block _ (by omega) (by omega)

theorem descCell_succ (base : U32) (i k : Nat) :
    descCell base i k + 1 = descCell base i (k + 1) := by
  rw [descCell, descCell, BitVec.add_assoc, ← Nat.add_assoc, BitVec.ofNat_add (8 * i + k)]
  rfl

/-- A descriptor is a function of its eight cells. -/
theorem descAt_of_cells {m m' : BitVec 15 → U8} {base : U32} {i : Nat}
    (h : ∀ k < 8, m (descCell base i k) = m' (descCell base i k)) :
    descAt m base i = descAt m' base i := by
  have hw : ∀ k, k ≤ 6 → wordAt m (descCell base i k) = wordAt m' (descCell base i k) := by
    intro k hk
    rw [wordAt, wordAt, descCell_succ, h k (by omega), h (k + 1) (by omega)]
  rw [descAt, descAt, hw 0 (by decide), hw 2 (by decide), hw 4 (by decide), hw 6 (by decide)]

theorem descAt_congr {m m' : BitVec 15 → U8} (base : U32) {i n : Nat} (hn : n ≤ 512) (hi : i < n)
    (h : Set.EqOn m m' (ringCells base n)) : descAt m base i = descAt m' base i :=
  descAt_of_cells fun _ hk => h (descCell_mem base hn hi hk)

theorem eqOn_setWord_desc (m : BitVec 15 → U8) (base : U32) {i k n : Nat} (v : U16)
    (hn : n ≤ 512) (hi : i < n) (hk : k ≤ 6) :
    Set.EqOn (setWord m (descCell base i k) v) m (ringCells base n)ᶜ := by
  refine (eqOn_setWord m _ v).mono (Set.compl_subset_compl.mpr ?_)
  rintro c (rfl | rfl)
  · exact descCell_mem base hn hi (by omega)
  · rw [descCell_succ]
    exact descCell_mem base hn hi (by omega)

theorem eqOn_storeStatus (m : BitVec 15 → U8) (base : U32) {i n : Nat} (md1 md3 : U16)
    (hn : n ≤ 512) (hi : i < n) :
    Set.EqOn (storeStatus m base i md1 md3) m (ringCells base n)ᶜ :=
  (eqOn_setWord_desc _ base md3 hn hi (by decide)).trans
    (eqOn_setWord_desc m base md1 hn hi (by decide))

/-! ## Runs of descriptors -/

/-- From place `p` of the ring on stand the descriptors `xs`. -/
def DescsAt (m : BitVec 15 → U8) (base : U32) (n : Nat) : Nat → List Desc → Prop
  | _, [] => True
  | p, x :: xs => descAt m base (slot n p 0) = x ∧ DescsAt m base n (p + 1) xs

theorem descsAt_append {m : BitVec 15 → U8} {base : U32} {n : Nat} {p : Nat} {xs ys : List Desc} :
    DescsAt m base n p (xs ++ ys) ↔
      DescsAt m base n p xs ∧ DescsAt m base n (p + xs.length) ys := by
  induction xs generalizing p with
  | nil => simp [DescsAt]
  | cons x xs ih =>
      simp only [List.cons_append, DescsAt, ih, List.length_cons, and_assoc,
        Nat.add_assoc, Nat.add_comm 1]

theorem DescsAt.congr {m m' : BitVec 15 → U8} {base : U32} {n p : Nat} {xs : List Desc}
    (h : DescsAt m base n p xs)
    (hm : ∀ k < xs.length, descAt m' base (slot n p k) = descAt m base (slot n p k)) :
    DescsAt m' base n p xs := by
  induction xs generalizing p with
  | nil => exact trivial
  | cons x xs ih =>
      refine ⟨(hm 0 (Nat.zero_lt_succ _)).trans h.1, ih h.2 fun k hk => ?_⟩
      rw [slot_add, Nat.add_comm]
      exact hm (k + 1) (Nat.succ_lt_succ hk)

theorem DescsAt.get {m : BitVec 15 → U8} {base : U32} {n p : Nat} {xs : List Desc}
    (h : DescsAt m base n p xs) {k : Nat} (hk : k < xs.length) :
    descAt m base (slot n p k) = xs[k] := by
  induction xs generalizing p k with
  | nil => cases hk
  | cons x xs ih =>
      cases k with
      | zero => exact h.1
      | succ k =>
          have hk' : k < xs.length := Nat.lt_of_succ_lt_succ hk
          rw [List.getElem_cons_succ, ← ih h.2 hk', slot_add, Nat.add_comm]

/-- The descriptors from place `p` on have become `xs`. Nothing else of the
ring has changed, and nothing outside it but `S`. -/
structure RingStep (base : U32) (n p : Nat) (S : Set (BitVec 15)) (m m' : BitVec 15 → U8)
    (xs : List Desc) : Prop where
  descs : DescsAt m' base n p xs
  others : ∀ k, xs.length ≤ k → k < n → descAt m' base (slot n p k) = descAt m base (slot n p k)
  frame : Set.EqOn m' m (ringCells base n ∪ S)ᶜ

namespace RingStep

variable {base : U32} {n p : Nat} {S T : Set (BitVec 15)} {m m₁ m' : BitVec 15 → U8}
  {xs ys : List Desc}

theorem refl (base : U32) (n p : Nat) (m : BitVec 15 → U8) : RingStep base n p ∅ m m [] :=
  ⟨trivial, fun _ _ _ => rfl, fun _ _ => rfl⟩

/-- Two changes to consecutive parts of a ring, not longer than the ring. -/
theorem append (h : RingStep base n p S m m₁ xs)
    (h' : RingStep base n (p + xs.length) T m₁ m' ys) (hn : xs.length + ys.length ≤ n) :
    RingStep base n p (S ∪ T) m m' (xs ++ ys) where
  descs := by
    rw [descsAt_append]
    refine ⟨h.descs.congr fun k hk => ?_, h'.descs⟩
    -- counted from the second part, the first comes behind it
    have hplace : slot n p k = slot n (p + xs.length) (k + (n - xs.length)) := by
      rw [slot_add, show xs.length + (k + (n - xs.length)) = k + n by omega, slot_add_size]
    rw [hplace]
    exact h'.others _ (by omega) (by omega)
  others k hk hkn := by
    rw [List.length_append] at hk
    have hplace : slot n p k = slot n (p + xs.length) (k - xs.length) := by
      rw [slot_add, show xs.length + (k - xs.length) = k by omega]
    rw [← h.others k (by omega) hkn, hplace]
    exact h'.others _ (by omega) (by omega)
  frame := by
    refine (h'.frame.mono ?_).trans (h.frame.mono ?_) <;> rw [Set.compl_subset_compl]
    · exact Set.union_subset_union_right _ Set.subset_union_right
    · exact Set.union_subset_union_right _ Set.subset_union_left

/-- One descriptor has changed. -/
theorem single {y : Desc} (hpos : 0 < n)
    (hdesc : ∀ j < n, descAt m' base j = if j = slot n p 0 then y else descAt m base j)
    (hframe : Set.EqOn m' m (ringCells base n)ᶜ) : RingStep base n p ∅ m m' [y] where
  descs := ⟨(hdesc _ (slot_lt hpos p 0)).trans (if_pos rfl), trivial⟩
  others k hk hkn := by
    rw [hdesc _ (slot_lt hpos p k), if_neg]
    rw [slot_inj hkn hpos]
    exact Nat.ne_of_gt hk
  frame := hframe.mono (Set.compl_subset_compl.mpr Set.subset_union_left)

theorem storeMd1 (base : U32) (p : Nat) (m : BitVec 15 → U8) (hn : n ≤ 512) (hpos : 0 < n)
    (v : U16) : RingStep base n p ∅ m (setWord m (descCell base (slot n p 0) 2) v)
      [{ descAt m base (slot n p 0) with md1 := v }] := by
  have hlt := slot_lt hpos p 0
  exact single hpos (fun j hj => descAt_setMd1 m base v (by omega) (by omega))
    (eqOn_setWord_desc m base v hn hlt (by decide))

theorem store (base : U32) (p : Nat) (m : BitVec 15 → U8) (hn : n ≤ 512) (hpos : 0 < n)
    (md1 md3 : U16) : RingStep base n p ∅ m (storeStatus m base (slot n p 0) md1 md3)
      [{ descAt m base (slot n p 0) with md1 := md1, md3 := md3 }] := by
  have hlt := slot_lt hpos p 0
  exact single hpos (fun j hj => descAt_storeStatus m base md1 md3 (by omega) (by omega))
    (eqOn_storeStatus m base md1 md3 hn hlt)

/-- A block outside the ring is written. -/
theorem block (p : Nat) (m : BitVec 15 → U8) (hn : n ≤ 512) (a : BitVec 15) (src : Buf) (k : Nat)
    (hdisj : Disjoint (CyclicMem.block a k) (ringCells base n)) :
    RingStep base n p (CyclicMem.block a k) m (writeBlock m a src k) [] where
  descs := trivial
  others i _ hi := descAt_congr base hn (slot_lt (by omega) p i)
    ((eqOn_writeBlock m a src k).mono (Set.subset_compl_iff_disjoint_left.mpr hdisj))
  frame := (eqOn_writeBlock m a src k).mono (Set.compl_subset_compl.mpr Set.subset_union_right)

/-- A flag that the new descriptors do not have is cleared on exactly these. -/
theorem flag_iff (h : RingStep base n p S m m' xs) {flag : U16}
    (hclear : ∀ x ∈ xs, tst x.md1 flag = false) {i : Nat} (hi : i < n) :
    tst (descAt m' base i).md1 flag = true ↔
      tst (descAt m base i).md1 flag = true ∧ ∀ j < xs.length, i ≠ slot n p j := by
  obtain ⟨k, hk, rfl⟩ := exists_slot hi p
  by_cases hkx : k < xs.length
  · rw [h.descs.get hkx, hclear _ (List.getElem_mem hkx)]
    exact iff_of_false (by decide) fun hall => hall.2 k hkx rfl
  · rw [h.others k (by omega) hk, iff_self_and]
    intro _ j hj heq
    have hkj := (slot_inj hk (by omega)).mp heq
    omega

/-- The other descriptors, counted from a place before the change. -/
theorem kept {a c : Nat} (h : RingStep base n (p + a) S m m' xs)
    (hc : a + xs.length ≤ c ∧ c < a + n ∨ a + xs.length ≤ c + n ∧ c < a) :
    descAt m' base (slot n p c) = descAt m base (slot n p c) := by
  rcases hc with hc | hc
  · have hplace : slot n p c = slot n (p + a) (c - a) := by
      rw [slot_add, Nat.add_sub_cancel' (by omega)]
    rw [hplace]
    exact h.others _ (by omega) (by omega)
  · have hplace : slot n p c = slot n (p + a) (c + n - a) := by
      rw [slot_add, Nat.add_sub_cancel' (by omega), slot_add_size]
    rw [hplace]
    exact h.others _ (by omega) (by omega)

/-- What is disjoint from the ring and from `S` is as it was. -/
theorem eqOn_of_disjoint (h : RingStep base n p S m m' xs) {T : Set (BitVec 15)}
    (hring : Disjoint T (ringCells base n)) (hS : Disjoint T S) : Set.EqOn m' m T :=
  h.frame.mono (Set.subset_compl_iff_disjoint_right.mpr (Set.disjoint_union_right.mpr ⟨hring, hS⟩))

end RingStep

/-! ## Buffers -/

namespace Desc

/-- The cells of the buffer. -/
def cells (x : Desc) : Set (BitVec 15) := block x.start x.size

/-- The contents of the buffer. -/
def bytes (m : BitVec 15 → U8) (x : Desc) : List U8 := readBlock m x.start x.size

end Desc

/-- The total size of the buffers. -/
def capacity (xs : List Desc) : Nat := (xs.map Desc.size).sum

/-- The contents of the buffers, one after the other. -/
def gathered (m : BitVec 15 → U8) (xs : List Desc) : List U8 := xs.flatMap (Desc.bytes m)

@[simp] theorem capacity_nil : capacity [] = 0 := rfl

@[simp] theorem capacity_cons (x : Desc) (xs : List Desc) :
    capacity (x :: xs) = x.size + capacity xs := List.sum_cons

@[simp] theorem length_gathered (m : BitVec 15 → U8) (xs : List Desc) :
    (gathered m xs).length = capacity xs := by
  induction xs with
  | nil => rfl
  | cons x xs ih =>
      rw [gathered, List.flatMap_cons, List.length_append, ← gathered, ih, capacity_cons]
      simp [Desc.bytes]

theorem size_le_capacity {x : Desc} {xs : List Desc} (h : x ∈ xs) : x.size ≤ capacity xs :=
  List.le_sum_of_mem (List.mem_map_of_mem h)

/-- A change elsewhere leaves the buffers alone. -/
theorem gathered_congr {m m' : BitVec 15 → U8} {xs : List Desc} (hsize : capacity xs ≤ 2 ^ 15)
    (h : ∀ x ∈ xs, Set.EqOn m' m x.cells) : gathered m' xs = gathered m xs := by
  refine List.flatMap_congr fun x hx => ?_
  exact readBlock_congr ((size_le_capacity hx).trans hsize) (h x hx)

instance Desc.decidableDisjointRing (x : Desc) (base : U32) (n : Nat) :
    Decidable (Disjoint x.cells (ringCells base n)) :=
  inferInstanceAs (Decidable (Disjoint (block _ _) (block _ _)))

instance Desc.decidableDisjoint (x y : Desc) : Decidable (Disjoint x.cells y.cells) :=
  inferInstanceAs (Decidable (Disjoint (block _ _) (block _ _)))

/-- A window that holds the given words and is zero elsewhere. -/
def World.holding (words : List (U32 × U16)) : World :=
  { World.blank with ram := words.foldl (fun m p => m.putRamWord p.1 p.2) World.blank.ram }

end A2065
