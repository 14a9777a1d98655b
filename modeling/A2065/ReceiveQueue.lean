import A2065.Scatter
import A2065.CsrInvariant
import A2065.Lib.Watch

/-!
# The RX ring as a queue

The daemon fills descriptors behind its cursor, the host empties them at its
own index. Together they make a bounded queue: the descriptors with OWN clear
are a circular buffer in the sense of `Circular.Holds`, `gotfunc` pushes and
the host pops. MISS is the full queue.
-/

namespace A2065

open Bits CyclicMem Circular

/-! ## The link -/

/-- What `gotfunc` stores for a frame: the frame as translated, and its FCS. -/
def rxImage (d : Daemon) (stack databuf : Buf) (len : Nat) : List U8 :=
  bufTake (appendFcs (rxFrame d stack databuf len) len) (len + 4)

/-- The frame in the buffer of a descriptor, as long as RMD3 says. -/
def frameAt (m : BitVec 15 → U8) (rdra : U32) (i : Nat) : List U8 :=
  readBlock m (descAt m rdra i).start (descAt m rdra i).md3.toNat

/-- The frame waiting in a descriptor, `none` while the chip owns it. -/
def rxSlot (m : BitVec 15 → U8) (rdra : U32) (i : Nat) : Option (List U8) :=
  if tst (descAt m rdra i).md1 RX.OWN then none else some (frameAt m rdra i)

/-- The daemon and a host that empties its RX ring. -/
structure RxLink where
  d : Daemon
  w : World
  /-- the index the host looks at next -/
  host : Nat
  /-- the frames the host has read -/
  read : List (List U8)
  /-- the accepted frames that were not missed, in arrival order -/
  kept : List (List U8)

/-- What can happen next. -/
inductive RxStep where
  /-- a frame arrives; `stack` is what the local array of `gotfunc` holds -/
  | recv (databuf : Buf) (len : Nat) (stack : Buf)
  /-- the host looks at its descriptor -/
  | take

namespace RxLink

/-- The length of the ring. -/
abbrev rlen (s : RxLink) : Nat := s.d.amRdrRlen.toNat

/-- Descriptor `i` as boardram has it. -/
abbrev desc (s : RxLink) (i : Nat) : Desc := descAt s.w.ram.mem s.d.amRdrRdra i

/-- The call of `gotfunc` for a frame. -/
def call (cb : Callback) (s : RxLink) (databuf : Buf) (len : Nat) (stack : Buf) :
    (RxExit × Daemon) × World :=
  (gotfunc cb databuf len s.d).exec { s.w with stack := stack }

/-- RMD1 with OWN set and the other flags clear. -/
def rearmed (rmd1 : U16) : U16 := (rmd1 &&& 0x00FF) ||| RX.OWN

/-- One step. A frame is kept unless the call reports a miss. -/
def step (cb : Callback) (s : RxLink) : RxStep → RxLink
  | .recv databuf len stack =>
      let r := s.call cb databuf len stack
      { s with
        d := r.1.2
        w := r.2
        kept := if r.1.1 = .missed then s.kept
          else s.kept ++ [rxImage s.d stack databuf len] }
  | .take =>
      if tst (s.desc s.host).md1 RX.OWN then s
      else
        { s with
          w.ram := s.w.ram.putRamWord (descOff s.d.amRdrRdra (BitVec.ofNat 32 s.host) + 2)
            (rearmed (s.desc s.host).md1)
          host := (s.host + 1) % s.rlen
          read := s.read ++ [frameAt s.w.ram.mem s.d.amRdrRdra s.host] }

/-- The steps in turn. -/
def run (cb : Callback) (steps : List RxStep) (s : RxLink) : RxLink := steps.foldl (step cb) s

/-- The filled descriptors not yet read, in ring order from the host's index. -/
def unread (s : RxLink) : List (List U8) :=
  contents s.rlen (rxSlot s.w.ram.mem s.d.amRdrRdra) s.host

/-- All descriptors are filled and unread. -/
def Full (s : RxLink) : Prop := ∀ i < s.rlen, tst (s.desc i).md1 RX.OWN = false

/-- The host starts at the daemon's cursor. -/
def start (d : Daemon) (w : World) : RxLink := ⟨d, w, d.rdrOffset.toNat % d.amRdrRlen.toNat, [], []⟩

/-- A frame that passes the filters and fits into every buffer. -/
def Fits (s : RxLink) : RxStep → Prop
  | .recv databuf len stack => 20 ≤ len ∧ len ≤ 4092 ∧
      rxAccepts s.d (rxFrame s.d stack databuf len) = true ∧
      ∀ i < s.rlen, len + 4 ≤ (s.desc i).size
  | .take => True

end RxLink

/-! ## Buffers of a ring -/

/-- The buffers of the ring are small enough, apart from the ring and from
each other. -/
structure RxBuffers (m : BitVec 15 → U8) (rdra : U32) (n : Nat) : Prop where
  size : ∀ i < n, (descAt m rdra i).size ≤ MAX_PACKET_SIZE
  buffers : ∀ i < n, Disjoint (descAt m rdra i).cells (ringCells rdra n)
  apart : ∀ i < n, ∀ j < n, i ≠ j → Disjoint (descAt m rdra i).cells (descAt m rdra j).cells

/-- Addresses and sizes say where the buffers are. -/
theorem RxBuffers.congr {m m' : BitVec 15 → U8} {rdra : U32} {n : Nat} (h : RxBuffers m rdra n)
    (heq : ∀ i < n, (descAt m' rdra i).md0 = (descAt m rdra i).md0 ∧
      (descAt m' rdra i).md2 = (descAt m rdra i).md2) : RxBuffers m' rdra n := by
  have hsize : ∀ i < n, (descAt m' rdra i).size = (descAt m rdra i).size := by
    intro i hi
    rw [Desc.size, (heq i hi).2, Desc.size]
  have hcells : ∀ i < n, (descAt m' rdra i).cells = (descAt m rdra i).cells := by
    intro i hi
    rw [Desc.cells, hsize i hi, Desc.start, (heq i hi).1, Desc.cells, Desc.start]
  refine ⟨fun i hi => ?_, fun i hi => ?_, fun i hi j hj hij => ?_⟩
  · rw [hsize i hi]
    exact h.size i hi
  · rw [hcells i hi]
    exact h.buffers i hi
  · rw [hcells i hi, hcells j hj]
    exact h.apart i hi j hj hij

/-! ## Memory -/

theorem rxSlot_eq_none {m : BitVec 15 → U8} {rdra : U32} {i : Nat} :
    rxSlot m rdra i = none ↔ tst (descAt m rdra i).md1 RX.OWN = true := by
  unfold rxSlot
  split
  · rename_i h
    simp [h]
  · rename_i h
    simp [h]

/-- The same descriptor, an untouched buffer: the same frame. -/
theorem rxSlot_congr {m m' : BitVec 15 → U8} {rdra : U32} {i : Nat}
    (hdesc : descAt m' rdra i = descAt m rdra i) (hsize : (descAt m rdra i).size ≤ 2 ^ 15)
    (heq : Set.EqOn m' m (descAt m rdra i).cells)
    (hshort : tst (descAt m rdra i).md1 RX.OWN = false →
      (descAt m rdra i).md3.toNat ≤ (descAt m rdra i).size) :
    rxSlot m' rdra i = rxSlot m rdra i := by
  unfold rxSlot frameAt
  rw [hdesc]
  split
  · rfl
  · rename_i hown
    have hle := hshort (Bool.eq_false_iff.mpr hown)
    rw [readBlock_congr (hle.trans hsize) (heq.mono (block_mono _ hle))]

/-- The ring between calls: a frame in a released descriptor is not longer
than its buffer. -/
structure RxMem (m : BitVec 15 → U8) (rdra : U32) (n : Nat) : Prop extends RxBuffers m rdra n where
  short : ∀ i < n, tst (descAt m rdra i).md1 RX.OWN = false →
    (descAt m rdra i).md3.toNat ≤ (descAt m rdra i).size

namespace RxMem

variable {m m' : BitVec 15 → U8} {rdra : U32} {n p : Nat}

/-- Only the descriptor at place `p` has changed, and not its address and
size. -/
theorem update (h : RxMem m rdra n) {y : Desc} {S : Set (BitVec 15)}
    (hs : RingStep rdra n p S m m' [y]) (h0 : y.md0 = (descAt m rdra (slot n p 0)).md0)
    (h2 : y.md2 = (descAt m rdra (slot n p 0)).md2)
    (hy : tst y.md1 RX.OWN = false → y.md3.toNat ≤ y.size)
    (hS : ∀ i < n, i ≠ slot n p 0 → Disjoint (descAt m rdra i).cells S) :
    RxMem m' rdra n ∧ ∀ i < n, i ≠ slot n p 0 → rxSlot m' rdra i = rxSlot m rdra i := by
  have hnew : descAt m' rdra (slot n p 0) = y := hs.descs.1
  have hold : ∀ i < n, i ≠ slot n p 0 → descAt m' rdra i = descAt m rdra i := by
    intro i hi hne
    obtain ⟨k, hk, rfl⟩ := exists_slot hi p
    refine hs.others k (Nat.pos_of_ne_zero ?_) hk
    rintro rfl
    exact hne rfl
  refine ⟨⟨h.toRxBuffers.congr fun i hi => ?_, fun i hi hown => ?_⟩, fun i hi hne => ?_⟩
  · by_cases hne : i = slot n p 0
    · rw [hne, hnew]
      exact ⟨h0, h2⟩
    · rw [hold i hi hne]
      exact ⟨rfl, rfl⟩
  · by_cases hne : i = slot n p 0
    · rw [hne, hnew] at hown ⊢
      exact hy hown
    · rw [hold i hi hne] at hown ⊢
      exact h.short i hi hown
  · refine rxSlot_congr (hold i hi hne) ((h.size i hi).trans (by decide)) ?_ (h.short i hi)
    exact hs.eqOn_of_disjoint (h.buffers i hi) (hS i hi hne)

/-- A frame of `len` bytes is stored in the descriptor at place `p`. -/
theorem fill (h : RxMem m rdra n) (hn : 0 < n) {x : Desc} (hx : descAt m rdra (slot n p 0) = x)
    {len : Nat} (hmax : len < 2 ^ 16) (hlen : len ≤ x.size)
    (hs : RingStep rdra n p x.cells m m' [x.fill len true true]) {frame : List U8}
    (hdata : (x.bytes m').take len = frame) :
    RxMem m' rdra n ∧ ∀ i < n, rxSlot m' rdra i =
      Function.update (rxSlot m rdra) (slot n p 0) (some frame) i := by
  have hmd3 : (x.fill len true true).md3.toNat = len := Nat.mod_eq_of_lt hmax
  obtain ⟨hmem, hothers⟩ := h.update hs (by rw [hx]; rfl) (by rw [hx]; rfl)
    (fun _ => by rw [hmd3]; exact hlen)
    (fun i hi hne => hx ▸ h.apart i hi _ (slot_lt hn p 0) hne)
  refine ⟨hmem, fun i hi => ?_⟩
  by_cases hne : i = slot n p 0
  · have hnew : descAt m' rdra (slot n p 0) = x.fill len true true := hs.descs.1
    have hown := own_fill len true true x
    rw [hne, Function.update_self, rxSlot, hnew, if_neg (by simp [hown]), frameAt, hnew, hmd3,
      ← hdata, Desc.bytes, take_readBlock _ _ hlen]
    rfl
  · rw [Function.update_of_ne hne, hothers i hi hne]

/-- The descriptor at place `p` is given back to the chip. -/
theorem rearm (h : RxMem m rdra n) (hlen : n ≤ 512) (hn : 0 < n) {v : U16}
    (hv : tst v RX.OWN = true) :
    RxMem (setWord m (descCell rdra (slot n p 0) 2) v) rdra n ∧
      ∀ i < n, rxSlot (setWord m (descCell rdra (slot n p 0) 2) v) rdra i =
        Function.update (rxSlot m rdra) (slot n p 0) none i := by
  have hs := RingStep.storeMd1 rdra p m hlen hn v
  obtain ⟨hmem, hothers⟩ := h.update hs rfl rfl (fun hown => by rw [hv] at hown; cases hown)
    (fun i _ _ => Set.disjoint_empty _)
  refine ⟨hmem, fun i hi => ?_⟩
  by_cases hne : i = slot n p 0
  · rw [hne, Function.update_self, rxSlot_eq_none, hs.descs.1]
    exact hv
  · rw [Function.update_of_ne hne, hothers i hi hne]

end RxMem

namespace RxLink

/-- The unread frames are `q`: they stand from the host's index up to the
daemon's cursor. -/
structure Inv (s : RxLink) (q : List (List U8)) : Prop where
  ring : ringAccepted s.d.amRdrRdra s.d.amRdrRlen = true
  on : tst s.d.csr0 CSR0.RXON = true
  mem : RxMem s.w.ram.mem s.d.amRdrRdra s.rlen
  host_lt : s.host < s.rlen
  holds : Holds s.rlen (rxSlot s.w.ram.mem s.d.amRdrRdra) s.host q
  cursor : (s.d.rdrOffset % s.d.amRdrRlen).toNat = slot s.rlen s.host q.length
  kept : s.read ++ q = s.kept

variable {cb : Callback} {s : RxLink} {q : List (List U8)} {databuf stack : Buf} {len : Nat}

theorem Inv.rlen_bounds (h : s.Inv q) : 0 < s.rlen ∧ s.rlen ≤ 512 := by
  obtain ⟨hpos, hle, -⟩ := ringAccepted_iff.mp h.ring
  exact ⟨hpos, hle⟩

theorem Inv.full_iff (h : s.Inv q) : q.length = s.rlen ↔ s.Full := by
  rw [h.holds.full_iff]
  refine forall_congr' fun i => imp_congr_right fun _ => ?_
  rw [Ne, rxSlot_eq_none, Bool.not_eq_true]

/-- A frame for a full ring. -/
theorem Inv.call_missed (cb : Callback) (h : s.Inv q) (hf : s.Fits (.recv databuf len stack))
    (hfull : q.length = s.rlen) :
    (s.call cb databuf len stack).1 = (.missed,
        let d := { s.d with rdrOffset := s.d.rdrOffset % s.d.amRdrRlen }.csr0Set CSR0.MISS
        d.setCsr 0 (rethinkCsr0 d.csr0)) ∧
      (s.call cb databuf len stack).2.ram = s.w.ram := by
  obtain ⟨hmin, -, hacc, -⟩ := hf
  have hown := h.full_iff.mp hfull _ (toNat_mod_lt (o := s.d.rdrOffset) h.rlen_bounds.1)
  have hexec : s.call cb databuf len stack = rxLeave cb .missed
      ({ s.d with rdrOffset := s.d.rdrOffset % s.d.amRdrRlen }.csr0Set CSR0.MISS)
      { s.w with stack := stack } :=
    (gotfunc_accepted cb (w := { s.w with stack := stack }) h.on hmin h.ring hacc).trans
      (rxRing_missed (w := { s.w with stack := stack }) rfl hown)
  obtain ⟨hleave, hsame⟩ := rxLeave_eq cb .missed
    ({ s.d with rdrOffset := s.d.rdrOffset % s.d.amRdrRlen }.csr0Set CSR0.MISS)
    { s.w with stack := stack }
  rw [hexec]
  exact ⟨hleave, hsame.ram⟩

/-- A frame for a ring with room. -/
theorem Inv.call_delivered (cb : Callback) (h : s.Inv q) (hf : s.Fits (.recv databuf len stack))
    (hlt : q.length < s.rlen) {x : Desc} (hx : s.desc (slot s.rlen s.host q.length) = x) :
    ∃ o : U32, o.toNat = slot s.rlen s.host q.length ∧
      (s.call cb databuf len stack).1 = (.delivered,
        let d := { s.d with rdrOffset := o + 1 }.csr0Set CSR0.RINT
        d.setCsr 0 (rethinkCsr0 d.csr0)) ∧
      RingStep s.d.amRdrRdra s.rlen (s.host + q.length) x.cells s.w.ram.mem
        (s.call cb databuf len stack).2.ram.mem [x.fill (len + 4) true true] ∧
      (x.bytes (s.call cb databuf len stack).2.ram.mem).take (len + 4) =
        rxImage s.d stack databuf len := by
  obtain ⟨hmin, -, hacc, hsize⟩ := hf
  obtain ⟨hpos, hlen⟩ := h.rlen_bounds
  have hi : slot s.rlen s.host q.length < s.rlen := slot_lt hpos _ _
  have hplace : slot s.rlen (s.host + q.length) 0 = slot s.rlen s.host q.length := by
    rw [slot_add, Nat.add_zero]
  have hroom : len + 4 ≤ x.size := hx ▸ hsize _ hi
  have hrun : RxRun s.w.ram.mem s.d.amRdrRdra s.rlen (s.host + q.length) [x] := by
    refine ⟨⟨by rw [hplace]; exact hx, trivial⟩, hpos, ?_, ?_, ?_, List.pairwise_singleton _ _⟩
    · rintro y hy
      rw [List.mem_singleton.mp hy, ← hx]
      exact rxSlot_eq_none.mp (h.holds.tail_eq_none hlt)
    · rw [capacity_cons, capacity_nil, Nat.add_zero, ← hx]
      exact h.mem.size _ hi
    · rintro y hy
      rw [List.mem_singleton.mp hy, ← hx]
      exact h.mem.buffers _ hi
  obtain ⟨o, ram, ho, hdata, hstep, hexec⟩ := rxRing_single cb hlen
    (appendFcs (rxFrame s.d stack databuf len) len) (w := { s.w with stack := stack })
    (d := s.d) hrun (h.cursor.trans hplace.symm) (Nat.succ_pos _) hroom
  have hcall : s.call cb databuf len stack = rxLeave cb .delivered
      ({ s.d with rdrOffset := o + 1 }.csr0Set CSR0.RINT)
      { s.w with stack := stack, ram := ram } :=
    (gotfunc_accepted cb (w := { s.w with stack := stack }) h.on hmin h.ring hacc).trans hexec
  obtain ⟨hleave, hsame⟩ := rxLeave_eq cb .delivered
    ({ s.d with rdrOffset := o + 1 }.csr0Set CSR0.RINT) { s.w with stack := stack, ram := ram }
  rw [hcall, hsame.ram]
  refine ⟨o, ho.trans hplace, hleave, hstep, ?_⟩
  rw [hdata, ← List.map_take, List.take_range, Nat.min_eq_left hroom]
  rfl

/-- Raising a cause leaves RXON alone. -/
theorem rxon_raise (c : U16) (hon : tst c CSR0.RXON = true) :
    tst (rethinkCsr0 (c ||| CSR0.MISS)) CSR0.RXON = true ∧
      tst (rethinkCsr0 (c ||| CSR0.RINT)) CSR0.RXON = true := by
  simp only [CSR0.tst_bits, rethinkCsr0_getLsbD] at hon ⊢
  simp [CSR0.masks, hon]

/-- A frame for the ring is delivered, or missed because the ring is full. -/
theorem Inv.exit_cases (cb : Callback) (h : s.Inv q) (hf : s.Fits (.recv databuf len stack)) :
    (s.call cb databuf len stack).1.1 = .delivered ∧ ¬ s.Full ∨
      (s.call cb databuf len stack).1.1 = .missed ∧ s.Full := by
  rcases Nat.lt_or_eq_of_le h.holds.length_le with hlt | hfull
  · obtain ⟨o, -, hcall, -, -⟩ := h.call_delivered cb hf hlt rfl
    exact .inl ⟨by rw [hcall], fun hF => Nat.ne_of_lt hlt (h.full_iff.mpr hF)⟩
  · exact .inr ⟨by rw [(h.call_missed cb hf hfull).1], h.full_iff.mp hfull⟩

/-- A missed frame changes nothing but CSR0 and the cursor's representation. -/
theorem Inv.recv_missed (h : s.Inv q) (hf : s.Fits (.recv databuf len stack))
    (hfull : q.length = s.rlen) : (s.step cb (.recv databuf len stack)).Inv q := by
  obtain ⟨hcall, hram⟩ := h.call_missed cb hf hfull
  rw [step, hcall]
  generalize (s.call cb databuf len stack).2 = w' at hram ⊢
  obtain ⟨ram, slots, wire, stack'⟩ := w'
  subst hram
  refine ⟨h.ring, ?_, h.mem, h.host_lt, h.holds, ?_, h.kept⟩
  · simp only [Daemon.csr0_setCsr0, Daemon.csr0_csr0Set]
    exact (rxon_raise s.d.csr0 h.on).1
  · have hmod : ((s.d.rdrOffset % s.d.amRdrRlen) % s.d.amRdrRlen).toNat =
        (s.d.rdrOffset % s.d.amRdrRlen).toNat := by
      rw [BitVec.toNat_umod, BitVec.toNat_umod, Nat.mod_mod]
    exact hmod.trans h.cursor

/-- A delivered frame is pushed. -/
theorem Inv.recv_delivered (h : s.Inv q) (hf : s.Fits (.recv databuf len stack))
    (hlt : q.length < s.rlen) :
    (s.step cb (.recv databuf len stack)).Inv (q ++ [rxImage s.d stack databuf len]) := by
  obtain ⟨hpos, hlen⟩ := h.rlen_bounds
  have hplace : slot s.rlen (s.host + q.length) 0 = slot s.rlen s.host q.length := by
    rw [slot_add, Nat.add_zero]
  obtain ⟨o, ho, hcall, hring, hdata⟩ := h.call_delivered cb hf hlt rfl
  rw [← hplace] at hring hdata ho
  obtain ⟨-, hmax, -, hsize⟩ := hf
  rw [step, hcall]
  generalize (s.call cb databuf len stack).2 = w' at hring hdata ⊢
  obtain ⟨hmem, hslot⟩ := h.mem.fill hpos rfl (by omega) (hsize _ (slot_lt hpos _ 0)) hring hdata
  rw [hplace] at hslot
  refine ⟨h.ring, ?_, hmem, h.host_lt, (h.holds.push hlt _).congr hslot, ?_, ?_⟩
  · simp only [Daemon.csr0_setCsr0, Daemon.csr0_csr0Set]
    exact (rxon_raise s.d.csr0 h.on).2
  · rw [List.length_append, List.length_singleton, ← slot_add, ← Nat.add_zero (1 : Nat),
      ← slot_add]
    exact toNat_cursor_succ hlen hpos ho
  · rw [if_neg (by simp), ← h.kept, List.append_assoc]

theorem own_rearmed (v : U16) : tst (rearmed v) RX.OWN = true := by
  simp [rearmed, RX.masks, tst_twoPow]

/-- The host pops. -/
theorem Inv.take (h : s.Inv q) : ∃ q', (s.step cb .take).Inv q' := by
  obtain ⟨hpos, hlen⟩ := h.rlen_bounds
  have hhost : slot s.rlen s.host 0 = s.host := slot_zero_of_lt h.host_lt
  have hfront := h.holds.front hpos
  rw [hhost] at hfront
  rw [step]
  split
  · exact ⟨q, h⟩
  · rename_i hown
    rw [rxSlot, if_neg hown] at hfront
    -- the queue starts with the frame the host reads
    obtain ⟨q', rfl⟩ : ∃ q', q = frameAt s.w.ram.mem s.d.amRdrRdra s.host :: q' := by
      cases q with
      | nil => cases hfront
      | cons x q' => exact ⟨q', by rw [← Option.some.inj hfront]⟩
    obtain ⟨hmem, hslot⟩ := h.mem.rearm (p := s.host) hlen hpos (own_rearmed (s.desc s.host).md1)
    have hindex : (BitVec.ofNat 32 s.host).toNat = s.host := by
      rw [BitVec.toNat_ofNat]
      have := h.host_lt
      exact Nat.mod_eq_of_lt (by omega)
    have hstore : (s.w.ram.putRamWord (descOff s.d.amRdrRdra (BitVec.ofNat 32 s.host) + 2)
        (rearmed (s.desc s.host).md1)).mem =
        setWord s.w.ram.mem (descCell s.d.amRdrRdra (slot s.rlen s.host 0) 2)
          (rearmed (s.desc s.host).md1) := by
      have hword := store_desc s.w.ram s.d.amRdrRdra (BitVec.ofNat 32 s.host) 2
        (rearmed (s.desc s.host).md1)
      rw [hindex] at hword
      rw [hhost]
      exact hword
    refine ⟨q', h.ring, h.on, ?_, Nat.mod_lt _ hpos, ?_, ?_, ?_⟩
    · exact (congrArg (fun m => RxMem m s.d.amRdrRdra s.rlen) hstore).mpr hmem
    · exact (congrArg (fun m => Holds s.rlen (rxSlot m s.d.amRdrRdra) _ q') hstore).mpr
        (h.holds.pop.congr hslot)
    · have hcursor := h.cursor
      rwa [List.length_cons, Nat.add_comm, ← slot_add, ← slot_mod] at hcursor
    · rw [← h.kept, List.append_assoc]
      rfl

/-! ## Runs -/

theorem Inv.step (h : s.Inv q) {a : RxStep} (hf : s.Fits a) : ∃ q', (s.step cb a).Inv q' := by
  cases a with
  | recv databuf len stack =>
      rcases Nat.lt_or_eq_of_le h.holds.length_le with hlt | hfull
      · exact ⟨_, h.recv_delivered hf hlt⟩
      · exact ⟨q, h.recv_missed hf hfull⟩
  | take => exact h.take

/-- The ring as the host sets it up: every descriptor armed, no flag but OWN. -/
structure Armed (d : Daemon) (w : World) : Prop where
  ring : ringAccepted d.amRdrRdra d.amRdrRlen = true
  on : tst d.csr0 CSR0.RXON = true
  buffers : RxBuffers w.ram.mem d.amRdrRdra d.amRdrRlen.toNat
  armed : ∀ i < d.amRdrRlen.toNat, (descAt w.ram.mem d.amRdrRdra i).md1 &&& 0xFF00 = RX.OWN

theorem Armed.inv {d : Daemon} {w : World} (h : Armed d w) : (start d w).Inv [] := by
  obtain ⟨hpos, -, -⟩ := ringAccepted_iff.mp h.ring
  have hown : ∀ i < d.amRdrRlen.toNat, tst (descAt w.ram.mem d.amRdrRdra i).md1 RX.OWN = true := by
    intro i hi
    have hbit := congrArg (·.getLsbD 15) (h.armed i hi)
    simpa [RX.masks, tst_twoPow] using hbit
  refine ⟨h.ring, h.on, ⟨h.buffers, fun i hi hfalse => ?_⟩, Nat.mod_lt _ hpos,
    holds_nil (fun i hi => rxSlot_eq_none.mpr (hown i hi)) _, ?_, rfl⟩
  · exact absurd ((hown i hi).symm.trans hfalse) (by decide)
  · rw [BitVec.toNat_umod]
    exact (slot_zero_of_lt (Nat.mod_lt _ hpos)).symm

/-- The frames read, followed by the unread ones, are the accepted frames that
were not missed; and the next accepted frame is missed exactly when the ring
is full. -/
structure IsFifo (cb : Callback) (s : RxLink) : Prop where
  frames : s.read ++ s.unread = s.kept
  miss : ∀ databuf len stack, s.Fits (.recv databuf len stack) →
    ((s.call cb databuf len stack).1.1 = .missed ↔ s.Full) ∧
    (tst (s.call cb databuf len stack).1.2.csr0 CSR0.MISS = true ↔
      tst s.d.csr0 CSR0.MISS = true ∨ s.Full)

theorem miss_raise (c : U16) : tst (rethinkCsr0 (c ||| CSR0.MISS)) CSR0.MISS = true ∧
    tst (rethinkCsr0 (c ||| CSR0.RINT)) CSR0.MISS = tst c CSR0.MISS := by
  simp only [CSR0.tst_bits, rethinkCsr0_getLsbD]
  simp [CSR0.masks]

theorem Inv.isFifo (h : s.Inv q) : s.IsFifo cb where
  frames := by rw [unread, h.holds.contents_eq, h.kept]
  miss databuf len stack hf := by
    rcases Nat.lt_or_eq_of_le h.holds.length_le with hlt | hfull
    · have hnot : ¬ s.Full := fun hF => Nat.ne_of_lt hlt (h.full_iff.mpr hF)
      obtain ⟨o, -, hcall, -, -⟩ := h.call_delivered cb hf hlt rfl
      simp only [hcall, Daemon.csr0_setCsr0, Daemon.csr0_csr0Set]
      refine ⟨by simp [hnot], ?_⟩
      rw [or_iff_left hnot]
      exact Bool.eq_iff_iff.mp (miss_raise s.d.csr0).2
    · have hF := h.full_iff.mp hfull
      obtain ⟨hcall, -⟩ := h.call_missed cb hf hfull
      simp only [hcall, Daemon.csr0_setCsr0, Daemon.csr0_csr0Set]
      exact ⟨iff_of_true trivial hF, iff_of_true (miss_raise s.d.csr0).1 (.inr hF)⟩

end RxLink

/-- The RX ring is a lossless queue, for every interleaving of frames that are
accepted with a host that empties the ring. -/
theorem rx_ring_fifo (cb : Callback) (d : Daemon) (w : World) (h : RxLink.Armed d w)
    (steps : List RxStep) (hfit : Watch (RxLink.step cb) RxLink.Fits (.start d w) steps) :
    (RxLink.run cb steps (.start d w)).IsFifo cb := by
  have hstep : ∀ (s : RxLink) (a : RxStep), (∃ q, s.Inv q) → s.Fits a →
      ∃ q, (s.step cb a).Inv q := by
    rintro s a ⟨q, hs⟩ hf
    exact hs.step hf
  obtain ⟨q, hinv⟩ := Watch.preserves hstep ⟨[], h.inv⟩ hfit
  exact hinv.isFifo

/-! ### A ring of two descriptors -/

instance (s : RxLink) : (a : RxStep) → Decidable (s.Fits a)
  | .recv _ _ _ => inferInstanceAs (Decidable (_ ∧ _))
  | .take => .isTrue trivial

/-- A receiver with a ring of two descriptors at the bottom of boardram. -/
def smallReceiver : Daemon :=
  { (registersReset .boot).csr0Set CSR0.RXON with amRdrRlen := 2 }

/-- Its descriptors are armed, with 64 bytes each. -/
def smallRing : World :=
  { World.blank with
    ram := ((((((World.blank.ram.putRamWord 0 0x100).putRamWord 2 RX.OWN).putRamWord 4 0xFFC0)
      ).putRamWord 8 0x200).putRamWord 10 RX.OWN).putRamWord 12 0xFFC0 }

theorem smallRing_armed : RxLink.Armed smallReceiver smallRing :=
  ⟨by decide +kernel, by decide +kernel, ⟨by decide +kernel, by decide +kernel, by decide +kernel⟩,
    by decide +kernel⟩

/-- Two frames fill the ring, the third is missed, the host reads one and a
fourth frame comes in. -/
theorem rx_ring_fifo_small : (RxLink.run .null
    [.recv (fun _ => 0xFF) 20 (fun _ => 0), .recv (fun _ => 0xFF) 21 (fun _ => 0),
      .recv (fun _ => 0xFF) 22 (fun _ => 0), .take, .recv (fun _ => 0xFF) 23 (fun _ => 0)]
    (.start smallReceiver smallRing)).IsFifo .null :=
  rx_ring_fifo .null smallReceiver smallRing smallRing_armed _ (by decide +kernel)

end A2065
