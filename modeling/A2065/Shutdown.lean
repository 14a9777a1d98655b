import A2065.ReceiveCall
import A2065.Visits

/-!
# Shutdowns the host hears of

A call of `do_transmit` or `gotfunc` that takes a descriptor, marks an error
or stops an engine has to leave a cause for an interrupt in CSR0. Every exit
does, except one: a frame that has filled some descriptors and finds the next
one not owned turns RXON off and sets nothing. When that happens is said of
boardram alone (`RunsOut`): the frame is followed through the ring, buffer by
buffer, until the owned descriptors run out.
-/

namespace A2065

open Bits CyclicMem Circular

/-! ## The calls -/

/-- Error flags of TMD3: BUFF, UFLO, LCOL, LCAR and RTRY. -/
def TX.ERRORS : U16 := 0xDC00

/-- Error flags of RMD1: ERR, FRAM, OFLO, CRC and BUFF. -/
def RX.ERRORS : U16 := 0x7C00

/-- A store of an error flag to a descriptor. -/
def StoresError (d : Daemon) (ev : DEvent) : Prop :=
  ∃ (i : U32) (v : U16),
    (ev = storeWord (descOff d.amTdrTdra i) 2 v ∧ tst v TX.ERR = true) ∨
    (ev = storeWord (descOff d.amTdrTdra i) 6 v ∧ tst v TX.ERRORS = true) ∨
    (ev = storeWord (descOff d.amRdrRdra i) 2 v ∧ tst v RX.ERRORS = true)

/-- OWN of a descriptor of the ring was set and is clear. -/
def ClearsOwn (m m' : BitVec 15 → U8) (base : U32) (n : Nat) : Prop :=
  ∃ i < n, owned (descAt m base i).md1 = true ∧ owned (descAt m' base i).md1 = false

namespace RingCall

/-- The daemon and the world after the call. -/
def result (cb : Callback) (d : Daemon) (w : World) : RingCall → Daemon × World
  | .transmit => (((doTransmit cb d).exec w).1.2, ((doTransmit cb d).exec w).2)
  | .receive databuf len =>
      (((gotfunc cb databuf len d).exec w).1.2, ((gotfunc cb databuf len d).exec w).2)

/-- What the call does, with the daemon and the world as it finds them. -/
def trace (cb : Callback) (d : Daemon) (w : World) : RingCall → List DEvent
  | .transmit => (doTransmit cb d).trace w
  | .receive databuf len => (gotfunc cb databuf len d).trace w

/-- The call has done something the host has to hear of. -/
def Concerns (cb : Callback) (d : Daemon) (w : World) (c : RingCall) : Prop :=
  ClearsOwn w.ram.mem (c.result cb d w).2.ram.mem d.amTdrTdra d.amTdrTlen.toNat ∨
    ClearsOwn w.ram.mem (c.result cb d w).2.ram.mem d.amRdrRdra d.amRdrRlen.toNat ∨
    (∃ ev ∈ c.trace cb d w, StoresError d ev) ∨
    tst d.csr0 CSR0.TXON = true ∧ tst (c.result cb d w).1.csr0 CSR0.TXON = false ∨
    tst d.csr0 CSR0.RXON = true ∧ tst (c.result cb d w).1.csr0 CSR0.RXON = false

/-- Then a cause and INTR are set. -/
def Announced (cb : Callback) (d : Daemon) (w : World) (c : RingCall) : Prop :=
  c.Concerns cb d w →
    tst (c.result cb d w).1.csr0 (CSR0.RINT ||| CSR0.TINT ||| CSR0.MISS) = true ∧
      tst (c.result cb d w).1.csr0 CSR0.INTR = true

end RingCall

/-! ## Following a frame through the ring -/

/-- Boardram with a whole buffer of the frame stored, and its descriptor at
`off` released. -/
def Boardram.fillNext (m : Boardram) (off : U32) (src : Buf) (first : Bool) : Boardram :=
  let rmd1 := m.getRamWord (off + 2) &&& ~~~ RX.OWN
  ((m.ramWriteBlock (descAddr (m.getRamWord (off + 0)) (m.getRamWord (off + 2))) src
    (byteCount (m.getRamWord (off + 4)))).putRamWord (off + 2)
      (if first then rmd1 ||| RX.STP else rmd1)).putRamWord (off + 6) (m.getRamWord (off + 6))

/-- From the descriptor at index `o` on, with `insize` bytes stored, the owned
descriptors end before the frame does, but not before it has begun. -/
inductive RunsOut (rdra rlen : U32) (tmp : Buf) (len : Nat) :
    Boardram → U32 → Nat → Bool → Prop where
  | ends {m : Boardram} {o : U32} {insize : Nat}
      (hown : tst (m.getRamWord (descOff rdra (o % rlen) + 2)) RX.OWN = false) :
      RunsOut rdra rlen tmp len m o insize false
  | next {m : Boardram} {o : U32} {insize : Nat} {first : Bool}
      (hown : tst (m.getRamWord (descOff rdra (o % rlen) + 2)) RX.OWN = true)
      (hmore : insize + byteCount (m.getRamWord (descOff rdra (o % rlen) + 4)) < len)
      (h : RunsOut rdra rlen tmp len
        (m.fillNext (descOff rdra (o % rlen)) (fun i => tmp (insize + i)) first) (o % rlen + 1)
        (insize + byteCount (m.getRamWord (descOff rdra (o % rlen) + 4))) false) :
      RunsOut rdra rlen tmp len m o insize first

namespace RunsOut

variable {rdra rlen o : U32} {tmp : Buf} {len insize : Nat} {first : Bool} {m : Boardram}

theorem refused_iff (hown : tst (m.getRamWord (descOff rdra (o % rlen) + 2)) RX.OWN = false) :
    RunsOut rdra rlen tmp len m o insize first ↔ first = false := by
  constructor
  · intro h
    cases h with
    | ends _ => rfl
    | next hown' => exact absurd (hown.symm.trans hown') (by decide)
  · rintro rfl
    exact .ends hown

theorem not_last (hown : tst (m.getRamWord (descOff rdra (o % rlen) + 2)) RX.OWN = true)
    (hroom : len ≤ insize + byteCount (m.getRamWord (descOff rdra (o % rlen) + 4))) :
    ¬ RunsOut rdra rlen tmp len m o insize first := by
  intro h
  cases h with
  | ends hown' => exact absurd (hown.symm.trans hown') (by decide)
  | next _ hmore => omega

theorem next_iff (hown : tst (m.getRamWord (descOff rdra (o % rlen) + 2)) RX.OWN = true)
    (hmore : insize + byteCount (m.getRamWord (descOff rdra (o % rlen) + 4)) < len) :
    RunsOut rdra rlen tmp len m o insize first ↔ RunsOut rdra rlen tmp len
      (m.fillNext (descOff rdra (o % rlen)) (fun i => tmp (insize + i)) first) (o % rlen + 1)
      (insize + byteCount (m.getRamWord (descOff rdra (o % rlen) + 4))) false := by
  constructor
  · intro h
    cases h with
    | ends hown' => exact absurd (hown.symm.trans hown') (by decide)
    | next _ _ h => exact h
  · exact .next hown hmore

end RunsOut

theorem exec_getRamWord_bind {α : Type} (base disp : U32) (f : U16 → DProg α) (w : World) :
    (getRamWord base disp >>= f).exec w = (f (w.ram.getRamWord (base + disp))).exec w := rfl

section Turn

variable {cb : Callback} {rdra rlen : U32} {tmp : Buf} {len insize : Nat} {first : Bool}
  {d : Daemon} {w : World}

theorem rxRing_exit_refused
    (hown : tst (w.ram.getRamWord (descOff rdra (d.rdrOffset % rlen) + 2)) RX.OWN = false) :
    ((rxRing cb rdra rlen tmp len d insize first).exec w).1.1 = cond first .missed .overrun := by
  rw [rxRing]
  dsimp only
  rw [exec_getRamWord_bind, exec_getRamWord_bind, exec_getRamWord_bind, exec_getRamWord_bind,
    if_pos (Bool.eq_false_iff.mp hown)]
  simp only [DProg.exec_bind, DProg.exec_pure]
  cases first <;> rfl

theorem rxRing_exit_last
    (hown : tst (w.ram.getRamWord (descOff rdra (d.rdrOffset % rlen) + 2)) RX.OWN = true)
    (hroom : len ≤ insize + byteCount (w.ram.getRamWord (descOff rdra (d.rdrOffset % rlen) + 4))) :
    ((rxRing cb rdra rlen tmp len d insize first).exec w).1.1 = .delivered := by
  rw [rxRing]
  dsimp only
  rw [exec_getRamWord_bind, exec_getRamWord_bind, exec_getRamWord_bind, exec_getRamWord_bind,
    if_neg (not_not.mpr hown)]
  simp only [DProg.exec_bind]
  rw [if_pos hroom]
  simp only [DProg.exec_bind, DProg.exec_pure]

theorem rxRing_more
    (hown : tst (w.ram.getRamWord (descOff rdra (d.rdrOffset % rlen) + 2)) RX.OWN = true)
    (hmore : insize + byteCount (w.ram.getRamWord (descOff rdra (d.rdrOffset % rlen) + 4)) < len) :
    (rxRing cb rdra rlen tmp len d insize first).exec w =
      (rxRing cb rdra rlen tmp len { d with rdrOffset := d.rdrOffset % rlen + 1 }
        (insize + byteCount (w.ram.getRamWord (descOff rdra (d.rdrOffset % rlen) + 4)))
        false).exec
          { w with
            ram := w.ram.fillNext (descOff rdra (d.rdrOffset % rlen))
              (fun i => tmp (insize + i)) first } := by
  rw [rxRing]
  dsimp only
  rw [exec_getRamWord_bind, exec_getRamWord_bind, exec_getRamWord_bind, exec_getRamWord_bind,
    if_neg (not_not.mpr hown)]
  simp only [DProg.exec_bind, exec_ramWriteBlock]
  rw [if_neg (Nat.not_le.mpr hmore)]
  rfl

end Turn

/-- The loop turns RXON off exactly when the descriptors run out. -/
theorem rxRing_overrun_iff (cb : Callback) (rdra rlen : U32) (tmp : Buf) (len : Nat) (d : Daemon)
    (insize : Nat) (first : Bool) (w : World) :
    ((rxRing cb rdra rlen tmp len d insize first).exec w).1.1 = .overrun ↔
      RunsOut rdra rlen tmp len w.ram d.rdrOffset insize first := by
  -- induction on the bytes still to store, the measure of the loop
  induction hn : len - insize using Nat.strong_induction_on generalizing d insize first w with
  | _ n ih =>
      have hpos := byteCount_pos (w.ram.getRamWord (descOff rdra (d.rdrOffset % rlen) + 4))
      by_cases hown : tst (w.ram.getRamWord (descOff rdra (d.rdrOffset % rlen) + 2)) RX.OWN = true
      · by_cases hmore : insize +
            byteCount (w.ram.getRamWord (descOff rdra (d.rdrOffset % rlen) + 4)) < len
        · rw [rxRing_more hown hmore, ih _ (by omega) _ _ _ _ rfl]
          exact (RunsOut.next_iff hown hmore).symm
        · have hroom := Nat.not_lt.mp hmore
          rw [rxRing_exit_last hown hroom]
          exact iff_of_false (by decide) (RunsOut.not_last hown hroom)
      · have hclear := Bool.eq_false_of_not_eq_true hown
        rw [rxRing_exit_refused hclear, RunsOut.refused_iff hclear]
        cases first <;> decide

/-! ## Buffers off the ring

Buffers may lie over the ring, and then filling one rewrites the descriptors
behind it. When they do not, running out is a matter of the sizes alone. -/

theorem Boardram.mem_fillNext (m : Boardram) {rdra i : U32} {x : Desc}
    (hx : descAt m.mem rdra i.toNat = x) (src : Buf) (first : Bool) (hsize : x.size ≤ 2 ^ 15) :
    (m.fillNext (descOff rdra i) src first).mem =
      storeStatus (writeBlock m.mem x.start src x.size) rdra i.toNat
        (x.fill 0 first false).md1 (x.fill 0 first false).md3 := by
  have hbytes : byteCount x.md2 = x.size := rfl
  rw [fillNext]
  simp only [load_md0, load_md1, load_md2, load_md3, hx, hbytes]
  rw [mem_store_status, mem_ramWriteBlock _ _ _ hsize, cell_descAddr]
  rfl

section Apart

variable {rdra rlen : U32} {tmp : Buf} {len p : Nat} {m : BitVec 15 → U8}

/-- The next `k` descriptors behind the first `j` are owned, the one behind
them is not or there is none, and they hold less than the rest of the frame. -/
structure ShortBy (rdra : U32) (n p len : Nat) (m : BitVec 15 → U8) (j insize k : Nat) : Prop where
  le : j + k ≤ n
  own : ∀ i < k, tst (descAt m rdra (slot n p (j + i))).md1 RX.OWN = true
  stop : j + k < n → tst (descAt m rdra (slot n p (j + k))).md1 RX.OWN = false
  size : insize + capacity (descsFrom m rdra n (p + j) k) < len

theorem shortBy_zero {n j insize : Nat} (hj : j < n)
    (hown : tst (descAt m rdra (slot n p j)).md1 RX.OWN = true) :
    ¬ ShortBy rdra n p len m j insize 0 := by
  intro h
  exact absurd (hown.symm.trans (h.stop hj)) (by decide)

theorem shortBy_succ {n j insize k : Nat} :
    ShortBy rdra n p len m j insize (k + 1) ↔
      j < n ∧ tst (descAt m rdra (slot n p j)).md1 RX.OWN = true ∧
        ShortBy rdra n p len m (j + 1) (insize + (descAt m rdra (slot n p j)).size) k := by
  have hcap : insize + capacity (descsFrom m rdra n (p + j) (k + 1)) =
      insize + (descAt m rdra (slot n p j)).size +
        capacity (descsFrom m rdra n (p + (j + 1)) k) := by
    rw [capacity_descsFrom_cons, Nat.add_assoc]
  have hshift : ∀ i, j + 1 + i = j + (i + 1) := fun i => by omega
  constructor
  · intro h
    have hle := h.le
    refine ⟨by omega, h.own 0 (by omega), by omega, ?_, ?_, hcap ▸ h.size⟩
    · intro i hi
      rw [hshift]
      exact h.own (i + 1) (by omega)
    · rw [hshift]
      exact h.stop
  · rintro ⟨hj, hown, h⟩
    have hle := h.le
    refine ⟨by omega, ?_, ?_, hcap ▸ h.size⟩
    · intro i hi
      cases i with
      | zero => exact hown
      | succ i =>
          rw [← hshift]
          exact h.own i (by omega)
    · rw [← hshift]
      exact h.stop

theorem shortBy_stop {n j insize : Nat} (hj : j ≤ n)
    (hstop : j < n → tst (descAt m rdra (slot n p j)).md1 RX.OWN = false) (hin : insize < len) :
    ShortBy rdra n p len m j insize 0 where
  le := hj
  own := fun i hi => absurd hi (Nat.not_lt_zero i)
  stop := hstop
  size := hin

/-- One descriptor more is filled. -/
theorem RingStep.fillNext (hlen : rlen.toNat ≤ 512) {S : Set (BitVec 15)} {xs : List Desc}
    {m' : Boardram} (h : RingStep rdra rlen.toNat p S m m'.mem xs) (hxs : xs.length < rlen.toNat)
    {x : Desc} (hx : descAt m'.mem rdra (slot rlen.toNat p xs.length) = x)
    (hbuf : Disjoint x.cells (ringCells rdra rlen.toNat)) (hsize : x.size ≤ 2 ^ 15) {o : U32}
    (ho : (o % rlen).toNat = slot rlen.toNat p xs.length) (src : Buf) (first : Bool) :
    RingStep rdra rlen.toNat p (S ∪ x.cells) m
      (m'.fillNext (descOff rdra (o % rlen)) src first).mem (xs ++ [x.fill 0 first false]) := by
  have hplace : slot rlen.toNat (p + xs.length) 0 = slot rlen.toNat p xs.length := by
    rw [slot_add, Nat.add_zero]
  have hstep := RingStep.fill (p := p + xs.length) hlen (by omega) ((congrArg _ hplace).trans hx)
    hbuf src 0 first false
  have hfill := m'.mem_fillNext ((congrArg _ ho).trans hx) src first hsize
  rw [ho] at hfill
  rw [hplace, ← hfill] at hstep
  exact h.append hstep (by rw [List.length_singleton]; omega)

/-- `P` is decided by following the frame through the ring: by `E` at a
descriptor that is not owned, and by `L`, from the room there is up to it, at
the last one the frame needs. -/
structure FollowsRing (rdra rlen : U32) (tmp : Buf) (len : Nat) (E : Bool → Prop) (L : Nat → Prop)
    (P : Boardram → U32 → Nat → Bool → Prop) : Prop where
  refused : ∀ {m o insize first},
    tst (m.getRamWord (descOff rdra (o % rlen) + 2)) RX.OWN = false →
      (P m o insize first ↔ E first)
  last : ∀ {m o insize first},
    tst (m.getRamWord (descOff rdra (o % rlen) + 2)) RX.OWN = true →
    len ≤ insize + byteCount (m.getRamWord (descOff rdra (o % rlen) + 4)) →
      (P m o insize first ↔ L (insize + byteCount (m.getRamWord (descOff rdra (o % rlen) + 4))))
  next : ∀ {m o insize first},
    tst (m.getRamWord (descOff rdra (o % rlen) + 2)) RX.OWN = true →
    insize + byteCount (m.getRamWord (descOff rdra (o % rlen) + 4)) < len →
      (P m o insize first ↔
        P (m.fillNext (descOff rdra (o % rlen)) (fun i => tmp (insize + i)) first) (o % rlen + 1)
          (insize + byteCount (m.getRamWord (descOff rdra (o % rlen) + 4))) false)

/-- `Q` is decided in the same way by the descriptors of `m`, from the `j`-th on
and once around at most. -/
structure FollowsDescs (rdra : U32) (n p len : Nat) (m : BitVec 15 → U8) (E : Bool → Prop)
    (L : Nat → Prop) (Q : Nat → Nat → Prop) : Prop where
  stop : ∀ {j insize}, j ≤ n → insize < len →
    (j < n → tst (descAt m rdra (slot n p j)).md1 RX.OWN = false) → (Q j insize ↔ E (j == 0))
  last : ∀ {j insize}, j < n → insize < len →
    tst (descAt m rdra (slot n p j)).md1 RX.OWN = true →
    len ≤ insize + (descAt m rdra (slot n p j)).size →
      (Q j insize ↔ L (insize + (descAt m rdra (slot n p j)).size))
  next : ∀ {j insize}, j < n → tst (descAt m rdra (slot n p j)).md1 RX.OWN = true →
    insize + (descAt m rdra (slot n p j)).size < len →
      (Q j insize ↔ Q (j + 1) (insize + (descAt m rdra (slot n p j)).size))

/-- The walk behind the first descriptors, which are released. -/
theorem FollowsRing.from_descs {E : Bool → Prop} {L : Nat → Prop}
    {P : Boardram → U32 → Nat → Bool → Prop} {Q : Nat → Nat → Prop}
    (hP : FollowsRing rdra rlen tmp len E L P)
    (hQ : FollowsDescs rdra rlen.toNat p len m E L Q) (hlen : rlen.toNat ≤ 512)
    (hmax : len ≤ 2 ^ 15)
    (hbuf : ∀ i < rlen.toNat, Disjoint (descAt m rdra i).cells (ringCells rdra rlen.toNat))
    {S : Set (BitVec 15)} {xs : List Desc} {m' : Boardram}
    (h : RingStep rdra rlen.toNat p S m m'.mem xs) (hxs : xs.length ≤ rlen.toNat)
    (hclear : ∀ x ∈ xs, tst x.md1 RX.OWN = false) (hpos : 0 < rlen.toNat) {o : U32} {insize : Nat}
    (ho : (o % rlen).toNat = slot rlen.toNat p xs.length) (hin : insize < len) :
    P m' o insize (xs.length == 0) ↔ Q xs.length insize := by
  induction hr : rlen.toNat - xs.length using Nat.strong_induction_on
    generalizing S xs m' o insize with
  | _ r ih =>
    have hmd1 : m'.getRamWord (descOff rdra (o % rlen) + 2) =
        (descAt m'.mem rdra (slot rlen.toNat p xs.length)).md1 := by rw [load_md1, ho]
    have hmd2 : byteCount (m'.getRamWord (descOff rdra (o % rlen) + 4)) =
        (descAt m'.mem rdra (slot rlen.toNat p xs.length)).size := by
      rw [load_md2, ho]
      rfl
    by_cases hj : xs.length < rlen.toNat
    case neg =>
      -- once around: the first descriptor is met again
      have hall : xs.length = rlen.toNat := by omega
      have hfull : tst (m'.getRamWord (descOff rdra (o % rlen) + 2)) RX.OWN = false := by
        rw [hmd1, hall, slot_size, h.descs.get (by omega)]
        exact hclear _ (List.getElem_mem _)
      rw [hP.refused hfull, hQ.stop hxs hin fun hlt => absurd hlt hj]
    have hx := h.others xs.length (Nat.le_refl _) hj
    rw [hx] at hmd1 hmd2
    cases hown : tst (descAt m rdra (slot rlen.toNat p xs.length)).md1 RX.OWN with
    | false => rw [hP.refused (hmd1 ▸ hown), hQ.stop hxs hin fun _ => hown]
    | true =>
      by_cases hmore : insize + (descAt m rdra (slot rlen.toNat p xs.length)).size < len
      case neg =>
        have hroom := Nat.not_lt.mp hmore
        rw [hP.last (hmd1 ▸ hown) (hmd2 ▸ hroom), hQ.last hj hin hown hroom, hmd2]
      -- the descriptor is filled, and the rest of the frame is followed from the next one
      have hstep := h.fillNext hlen hj hx (hbuf _ (slot_lt hpos p xs.length)) (by omega) ho
        (fun i => tmp (insize + i)) (xs.length == 0)
      have hcursor := toNat_cursor_next hlen hpos ho
      have hnext := ih _ (by rw [List.length_append, List.length_singleton]; omega) hstep
        (by rw [List.length_append, List.length_singleton]; omega)
        (by
          intro y hy
          rcases List.mem_append.mp hy with hy | hy
          · exact hclear y hy
          · rw [List.mem_singleton.mp hy]
            exact own_fill ..)
        (o := o % rlen + 1) (by rw [hcursor, List.length_append, List.length_singleton]) hmore rfl
      rw [List.length_append, List.length_singleton] at hnext
      rw [hP.next (hmd1 ▸ hown) (hmd2 ▸ hmore), hQ.next hj hown hmore, hmd2]
      exact hnext

/-- From the cursor on. -/
theorem FollowsRing.iff_descs {E : Bool → Prop} {L : Nat → Prop}
    {P : Boardram → U32 → Nat → Bool → Prop} {Q : Nat → Nat → Prop}
    (hP : FollowsRing rdra rlen tmp len E L P) (m : Boardram) {o : U32}
    (hQ : FollowsDescs rdra rlen.toNat o.toNat len m.mem E L Q) (hlen : rlen.toNat ≤ 512)
    (hpos : 0 < rlen.toNat) (hmax : len ≤ 2 ^ 15) (hin : 0 < len)
    (hbuf : ∀ i < rlen.toNat, Disjoint (descAt m.mem rdra i).cells (ringCells rdra rlen.toNat)) :
    P m o 0 true ↔ Q 0 0 :=
  hP.from_descs hQ hlen hmax hbuf (.refl rdra rlen.toNat o.toNat m.mem) (Nat.zero_le _) (by simp)
    hpos (BitVec.toNat_umod ..) hin

theorem RunsOut.follows : FollowsRing rdra rlen tmp len (· = false) (fun _ => False)
    (RunsOut rdra rlen tmp len) where
  refused := refused_iff
  last hown hroom := iff_of_false (not_last hown hroom) id
  next := next_iff

theorem shortBy_follows {n : Nat} : FollowsDescs rdra n p len m (· = false) (fun _ => False)
    fun j insize => ∃ k, (j = 0 → 0 < k) ∧ ShortBy rdra n p len m j insize k where
  stop {j insize} hj hin hstop := by
    rw [beq_eq_false_iff_ne]
    constructor
    · rintro ⟨k, hk, hshort⟩ hzero
      obtain ⟨l, rfl⟩ := Nat.exists_eq_succ_of_ne_zero (hk hzero).ne'
      obtain ⟨hlt, hown, -⟩ := shortBy_succ.mp hshort
      exact absurd (hown.symm.trans (hstop hlt)) (by decide)
    · exact fun hne => ⟨0, fun hzero => absurd hzero hne, shortBy_stop hj hstop hin⟩
  last hj _ hown hroom := by
    refine iff_of_false ?_ id
    rintro ⟨k, -, hshort⟩
    cases k with
    | zero => exact shortBy_zero hj hown hshort
    | succ k =>
        have hsize := (shortBy_succ.mp hshort).2.2.size
        omega
  next hj hown _ := by
    constructor
    · rintro ⟨k, -, hshort⟩
      cases k with
      | zero => exact absurd hshort (shortBy_zero hj hown)
      | succ k => exact ⟨k, by simp, (shortBy_succ.mp hshort).2.2⟩
    · rintro ⟨k, -, hshort⟩
      exact ⟨k + 1, fun _ => Nat.succ_pos k, shortBy_succ.mpr ⟨hj, hown, hshort⟩⟩

/-- A frame runs out of descriptors exactly when the owned ones from the
cursor on, up to the first that is not owned, are some but hold less. -/
theorem runsOut_iff (hlen : rlen.toNat ≤ 512) (hpos : 0 < rlen.toNat) (m : Boardram)
    (hbuf : ∀ i < rlen.toNat, Disjoint (descAt m.mem rdra i).cells (ringCells rdra rlen.toNat))
    (hmax : len ≤ 2 ^ 15) (hin : 0 < len) (o : U32) :
    RunsOut rdra rlen tmp len m o 0 true ↔
      ∃ k, 0 < k ∧ ShortBy rdra rlen.toNat o.toNat len m.mem 0 0 k := by
  have hiff : RunsOut rdra rlen tmp len m o 0 true ↔ _ :=
    RunsOut.follows.iff_descs m shortBy_follows hlen hpos hmax hin hbuf
  simpa using hiff

end Apart

/-! ## Calls that do nothing -/

theorem txScan_loads (tdra tlen start : U32) :
    (txScan tdra tlen start).Only fun e => ¬ e.IsAction := by
  have hload : ∀ off disp, (getRamWord off disp).Only fun e => ¬ e.IsAction :=
    fun off disp => .perform id
  have hfrom : ∀ n i tmd1 offset,
      (txScanFrom tdra tlen start i tmd1 offset n).Only fun e => ¬ e.IsAction := by
    intro n
    induction n with
    | zero => exact fun i tmd1 offset => .pure _
    | succ n ih =>
        intro i tmd1 offset
        refine .bind (hload _ _) fun tmd1 => ?_
        split
        · exact .pure _
        · exact ih _ _ _
  refine .bind (hload _ _) fun tmd1 => ?_
  split
  · exact .pure _
  · exact hfrom _ _ _ _

/-- A call that returns 0 stores nothing. -/
theorem doTransmit_idle {cb : Callback} {d : Daemon} {tr : List DEvent} {r : Nat × Daemon}
    (h : (doTransmit cb d).Runs tr r) (hr : r.1 = 0) : ∀ ev ∈ tr, ¬ ev.op.IsAction := by
  unfold doTransmit at h
  split at h
  · simp [h.1]
  split at h
  · simp [h.1]
  obtain ⟨scan, s, rest, rfl, hscan, h⟩ := Prog.runs_bind.mp h
  dsimp only at h
  split at h
  · rw [h.1, List.append_nil]
    exact txScan_loads _ _ _ _ _ hscan
  obtain ⟨_, t, _, _, _, hchain⟩ := Prog.runs_bind.mp h
  obtain ⟨_, d₁, _, _, _, hfinish⟩ := Prog.runs_bind.mp hchain
  obtain ⟨_, d₂, _, _, _, _, rfl⟩ := Prog.runs_bind.mp hfinish
  exact absurd hr (by simp)

theorem gotfunc_dropped {cb : Callback} {databuf : Buf} {len : Nat} {d : Daemon}
    {tr : List DEvent} {r : RxExit × Daemon} (h : (gotfunc cb databuf len d).Runs tr r)
    (hr : r.1 = .dropped) : ∀ ev ∈ tr, ¬ ev.op.IsAction := by
  unfold gotfunc at h
  split at h
  · simp [h.1]
  split at h
  · simp [h.1]
  split at h
  · simp [h.1]
  obtain ⟨stack, rest, rfl, hrest⟩ := Prog.runs_perform_bind.mp h
  dsimp only at hrest
  split at hrest
  · rw [hrest.1]
    simp [Eff.IsAction]
  · exact absurd hr (rxRing_not_dropped _ _ _ _ _ _ _ _ _ _ hrest)

/-- Nothing was stored and CSR0 is as it was. -/
theorem RingCall.not_concerns {cb : Callback} {d : Daemon} {w : World} {c : RingCall}
    (htr : ∀ ev ∈ c.trace cb d w, ¬ ev.op.IsAction)
    (hram : (c.result cb d w).2.ram = w.ram) (hcsr : (c.result cb d w).1.csr0 = d.csr0) :
    ¬ c.Concerns cb d w := by
  rintro (⟨i, -, hset, hclear⟩ | ⟨i, -, hset, hclear⟩ | ⟨ev, hev, i, v, herr⟩ | ⟨hset, hclear⟩ |
    ⟨hset, hclear⟩)
  · rw [hram] at hclear
    exact absurd (hset.symm.trans hclear) (by decide)
  · rw [hram] at hclear
    exact absurd (hset.symm.trans hclear) (by decide)
  · apply htr ev hev
    rcases herr with ⟨rfl, -⟩ | ⟨rfl, -⟩ | ⟨rfl, -⟩
    all_goals exact trivial
  · rw [hcsr] at hclear
    exact absurd (hset.symm.trans hclear) (by decide)
  · rw [hcsr] at hclear
    exact absurd (hset.symm.trans hclear) (by decide)

/-- A call without a store leaves boardram as it was. -/
theorem exec_ram_eq {α : Type} {p : DProg α} {w : World}
    (h : ∀ ev ∈ p.trace w, ¬ ev.op.IsAction) : (p.exec w).2.ram = w.ram := by
  have hframe : ∀ (e : Eff) (w : World), ¬ e.IsAction → (World.handle e w).2.ram = w.ram := by
    intro e w he
    cases e with
    | putByte off v => exact absurd trivial he
    | putWord base disp v => exact absurd trivial he
    | _ => rfl
  exact Prog.exec_frame World.handle World.ram hframe p w h

/-! ## The exits -/

/-- `rethink` keeps the causes. -/
theorem rethink_causes (c : U16) :
    tst (rethinkCsr0 c) (CSR0.RINT ||| CSR0.TINT ||| CSR0.MISS) =
      tst c (CSR0.RINT ||| CSR0.TINT ||| CSR0.MISS) := by
  simp only [tst_or_right, CSR0.tst_bits, rethinkCsr0_getLsbD]
  simp

/-- `rethink` announces them. -/
theorem rethink_announces {c : U16} (h : tst c (CSR0.RINT ||| CSR0.TINT ||| CSR0.MISS) = true) :
    tst (rethinkCsr0 c) (CSR0.RINT ||| CSR0.TINT ||| CSR0.MISS) = true ∧
      tst (rethinkCsr0 c) CSR0.INTR = true := by
  refine ⟨(rethink_causes c).trans h, ?_⟩
  simp only [tst_or_right, CSR0.tst_bits, rethinkCsr0_getLsbD, Bool.or_eq_true] at h ⊢
  rcases h with (h | h) | h <;> simp [causes, h]

namespace RingCall

/-- The frame is accepted, fills at least one descriptor, and then runs out of
owned ones. -/
def Overruns (d : Daemon) (w : World) : RingCall → Prop
  | .transmit => False
  | .receive databuf len =>
      tst d.csr0 CSR0.RXON = true ∧ 20 ≤ len ∧ ringAccepted d.amRdrRdra d.amRdrRlen = true ∧
        rxAccepts d (rxFrame d w.stack databuf len) = true ∧
        RunsOut d.amRdrRdra d.amRdrRlen (appendFcs (rxFrame d w.stack databuf len) len) (len + 4)
          w.ram d.rdrOffset 0 true

theorem gotfunc_overrun_iff (cb : Callback) (databuf : Buf) (len : Nat) (d : Daemon) (w : World) :
    ((gotfunc cb databuf len d).exec w).1.1 = .overrun ↔
      (RingCall.receive databuf len).Overruns d w := by
  by_cases hon : tst d.csr0 CSR0.RXON = true
  case neg =>
    refine iff_of_false ?_ fun h => hon h.1
    unfold gotfunc
    rw [if_pos hon]
    simp
  by_cases hlen : 20 ≤ len
  case neg =>
    refine iff_of_false ?_ fun h => hlen h.2.1
    unfold gotfunc
    rw [if_neg (not_not.mpr hon), if_pos (Nat.not_le.mp hlen)]
    simp
  by_cases hring : ringAccepted d.amRdrRdra d.amRdrRlen = true
  case neg =>
    refine iff_of_false ?_ fun h => hring h.2.2.1
    unfold gotfunc
    rw [if_neg (not_not.mpr hon), if_neg (Nat.not_lt.mpr hlen), if_pos hring]
    simp
  by_cases hacc : rxAccepts d (rxFrame d w.stack databuf len) = true
  case neg =>
    refine iff_of_false ?_ fun h => hacc h.2.2.2.1
    unfold gotfunc
    rw [if_neg (not_not.mpr hon), if_neg (Nat.not_lt.mpr hlen), if_neg (not_not.mpr hring),
      DProg.exec_bind, exec_uninit]
    dsimp only
    rw [if_pos hacc]
    simp
  rw [gotfunc_accepted cb hon hlen hring hacc, rxRing_overrun_iff]
  constructor
  · intro h
    exact ⟨hon, hlen, hring, hacc, h⟩
  · intro h
    exact h.2.2.2.2

end RingCall

/-- Turning RXON off leaves the causes alone. -/
theorem causes_clr_rxon (c : U16) :
    tst (c &&& ~~~ CSR0.RXON) (CSR0.RINT ||| CSR0.TINT ||| CSR0.MISS) =
      tst c (CSR0.RINT ||| CSR0.TINT ||| CSR0.MISS) := by
  simp only [tst_or_right, CSR0.tst_bits]
  simp [CSR0.masks]

/-- A cause that the call sets. -/
theorem causes_set (c : U16) {v : U16} (h : tst v (CSR0.RINT ||| CSR0.TINT ||| CSR0.MISS) = true) :
    tst (rethinkCsr0 (c ||| v)) (CSR0.RINT ||| CSR0.TINT ||| CSR0.MISS) = true ∧
      tst (rethinkCsr0 (c ||| v)) CSR0.INTR = true := by
  apply rethink_announces
  simp only [tst_or_right, CSR0.tst_bits, BitVec.getLsbD_or, Bool.or_eq_true] at h ⊢
  tauto

/-- Running out of descriptors turns RXON off and sets no cause. -/
theorem RingCall.silent (cb : Callback) {databuf : Buf} {len : Nat} {d : Daemon} {w : World}
    (hover : (RingCall.receive databuf len).Overruns d w)
    (hnone : tst d.csr0 (CSR0.RINT ||| CSR0.TINT ||| CSR0.MISS) = false) :
    ¬ (RingCall.receive databuf len).Announced cb d w := by
  have hcsr := (always_exec (gotfunc_effect cb databuf len d) w).csr0
  rw [(gotfunc_overrun_iff cb databuf len d w).mpr hover, RxExit.csr0] at hcsr
  have hoff : tst (rethinkCsr0 (d.csr0 &&& ~~~ CSR0.RXON)) CSR0.RXON = false := by
    simp only [CSR0.tst_bits, rethinkCsr0_getLsbD]
    simp [CSR0.masks]
  have hconcerns : (RingCall.receive databuf len).Concerns cb d w := by
    right; right; right; right
    rw [RingCall.result, hcsr]
    exact ⟨hover.1, hoff⟩
  intro h
  have hcause := (h hconcerns).1
  rw [RingCall.result, hcsr, rethink_causes, causes_clr_rxon, hnone] at hcause
  exact absurd hcause (by decide)

/-- In every register state, with any boardram contents and any frame: a call
announces what it has done, unless it is a reception that runs out of
descriptors while no cause is pending. -/
theorem no_silent_shutdown_iff (cb : Callback) (c : RingCall) (d : Daemon) (w : World) :
    c.Announced cb d w ↔
      (tst d.csr0 (CSR0.RINT ||| CSR0.TINT ||| CSR0.MISS) = true ∨ ¬ c.Overruns d w) := by
  cases c with
  | transmit =>
      refine iff_of_true (fun hconcerns => ?_) (.inr id)
      have hruns := Prog.runs_exec World.handle (doTransmit cb d) w
      rcases (always_exec (doTransmit_effect cb d) w).csr0.idle_or_tint with
        ⟨hidle, hcsr⟩ | ⟨-, b, hcsr⟩
      · have htr := doTransmit_idle hruns hidle
        exact absurd hconcerns (RingCall.not_concerns htr (exec_ram_eq htr) hcsr)
      · rw [RingCall.result, hcsr]
        exact causes_set b (by decide)
  | receive databuf len =>
      have hcsr := (always_exec (gotfunc_effect cb databuf len d) w).csr0
      have hruns := Prog.runs_exec World.handle (gotfunc cb databuf len d) w
      have hover := RingCall.gotfunc_overrun_iff cb databuf len d w
      rw [RingCall.Announced, RingCall.result]
      generalize hexit : ((gotfunc cb databuf len d).exec w).1.1 = e at hcsr hover
      cases e with
      | dropped =>
          refine iff_of_true (fun hconcerns => ?_) (.inr (mt hover.mpr (by decide)))
          have htr := gotfunc_dropped hruns hexit
          exact absurd hconcerns (RingCall.not_concerns htr (exec_ram_eq htr) hcsr)
      | missed =>
          refine iff_of_true (fun _ => ?_) (.inr (mt hover.mpr (by decide)))
          rw [hcsr]
          exact causes_set d.csr0 (by decide)
      | delivered =>
          refine iff_of_true (fun _ => ?_) (.inr (mt hover.mpr (by decide)))
          rw [hcsr]
          exact causes_set d.csr0 (by decide)
      | overrun =>
          have hruns := hover.mp rfl
          rw [← RingCall.result, ← RingCall.Announced]
          constructor
          · intro h
            by_contra hno
            rw [not_or, Bool.not_eq_true] at hno
            exact RingCall.silent cb hruns hno.1 h
          · rintro (h | h) -
            · rw [RingCall.result, hcsr]
              apply rethink_announces
              rwa [causes_clr_rxon]
            · exact absurd hruns h

/-- Two RX descriptors at 0; the cursor is on the first. -/
def shortDaemon : Daemon :=
  { (registersReset (.bootWith someFakemac someFakemac someRealmac)).csr0Set
      (CSR0.RXON ||| CSR0.INEA) with
    amRdrRlen := 2 }

/-- The first has a buffer of 16 bytes, the second is not owned. -/
def shortWorld : World := .holding [(0x00, 0x300), (0x02, 0x8000), (0x04, 0xFFF0)]

/-- A broadcast of 20 bytes: reception is off, and nobody is told. -/
theorem silent_shutdown : ¬ (RingCall.receive (fun _ => 0xFF) 20).Announced .null shortDaemon
    shortWorld := by
  have hover : (RingCall.receive (fun _ => 0xFF) 20).Overruns shortDaemon shortWorld := by
    refine ⟨by decide +kernel, by decide, by decide +kernel, by decide +kernel, ?_⟩
    refine .next (by decide +kernel) (by decide +kernel) (.ends ?_)
    decide +kernel
  exact RingCall.silent .null hover (by decide +kernel)

end A2065
