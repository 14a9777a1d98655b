import A2065.MacBytes
import A2065.Shutdown

/-!
# The frame buffer of `gotfunc`

`gotfunc` copies the frame into `tmp`, `MAX_PACKET_SIZE` bytes on its stack,
translates it there, appends four FCS bytes and scatters the result over the
receive ring. What it writes to `tmp` is the first subject of this module, how
much of `tmp` it hands to the host the second. The copy loop goes by the byte
count of the descriptor; the length of the frame only tells it when to stop.
-/

namespace A2065

open Bits CyclicMem Circular MemProg

/-- The filters look at the two addresses. -/
theorem rxAccepts_agree {d : Daemon} {a b : Buf} (h : ∀ i < 12, a i = b i) :
    rxAccepts d a = rxAccepts d b := by
  have hmac : ∀ i ≤ 6, macAt a i = macAt b i := by
    intro i hi
    exact macAt_congr fun k _ hk => h k (by omega)
  have hcrc : crc32Compute a 6 = crc32Compute b 6 :=
    crc32Compute_congr fun i hi => h i (by omega)
  simp only [rxAccepts, hmac 0 (by decide), hmac 6 (by decide), hcrc, h 0 (by decide)]

namespace Bytewise

/-- `memcpy(tmp, databuf, len)` -/
def rxCopy (databuf : Buf) (len : Nat) : FrameProg Unit := setBlock 0 databuf len

/-- Outside loopback `gotfunc` has the frame translated. -/
def rxTranslate (d : Daemon) (len : Nat) : FrameProg Unit :=
  if tst d.amMode MODE.LOOP then pure ()
  else do
    let _ ← mungepacket d.macFakemac d.macRealmac len

/-- The filters, on the bytes they look at. -/
def rxAccepts (d : Daemon) : FrameProg Bool := do
  let header ← getBlock 0 12
  pure (A2065.rxAccepts d fun i => header.getD i 0)

/-- The loop of `crc32_compute`, the bytes read from the frame. -/
def crc32Update : Nat → FrameProg U32
  | 0 => pure 0xFFFFFFFF
  | len + 1 => do
      let crc ← crc32Update len
      let data ← get len
      pure (crc32Table (((crc ^^^ data.setWidth 32) &&& 0xFF).setWidth 8) ^^^ (crc >>> 8))

/-- `crc32_compute` -/
def crc32Compute (len : Nat) : FrameProg U32 := do
  let crc ← crc32Update len
  pure (~~~ crc)

/-- The four bytes `gotfunc` stores behind the frame. -/
def appendFcs (len : Nat) : FrameProg Unit := do
  let crc ← crc32Compute len
  set len ((crc >>> 24).setWidth 8)
  set (len + 1) ((crc >>> 16).setWidth 8)
  set (len + 2) ((crc >>> 8).setWidth 8)
  set (len + 3) (crc.setWidth 8)

/-- `gotfunc` up to its ring loop, on `tmp`. The result is whether the loop is
entered. -/
def gotfunc (d : Daemon) (databuf : Buf) (len : Nat) : FrameProg Bool :=
  if ¬ tst d.csr0 CSR0.RXON then pure false
  else if len < 20 then pure false
  else if ¬ ringAccepted d.amRdrRdra d.amRdrRlen then pure false
  else do
    rxCopy databuf len
    rxTranslate d len
    let accepted ← rxAccepts d
    if ¬ accepted then pure false
    else do
      appendFcs len
      pure true

theorem run_rxCopy (databuf : Buf) (len : Nat) (m : Buf) :
    run (rxCopy databuf len) m = ((), fun i => if i < len then databuf i else m i) := by
  simp [rxCopy]

theorem run_rxTranslate (d : Daemon) (stack databuf : Buf) (len : Nat) :
    run (rxTranslate d len) (fun i => if i < len then databuf i else stack i) =
      ((), rxFrame d stack databuf len) := by
  unfold rxTranslate rxFrame
  split
  · rfl
  · rw [run_bind, run_mungepacket, run_pure]

theorem run_rxAccepts (d : Daemon) (m : Buf) :
    run (rxAccepts d) m = (A2065.rxAccepts d m, m) := by
  rw [rxAccepts, run_bind, run_getBlock, run_pure]
  have hagree : A2065.rxAccepts d (fun i => ((List.range 12).map fun k => m (0 + k)).getD i 0) =
      A2065.rxAccepts d m := rxAccepts_agree fun i hi => by simp [hi]
  rw [hagree]

theorem written_rxCopy (databuf : Buf) (len : Nat) (m : Buf) :
    written (rxCopy databuf len) m = List.range len := by
  simp [rxCopy]

theorem written_rxAccepts (d : Daemon) (m : Buf) : written (rxAccepts d) m = [] := by
  rw [rxAccepts, written_bind, written_getBlock, written_pure, List.append_nil]

@[simp] theorem run_crc32Update (len : Nat) (m : Buf) :
    run (crc32Update len) m = (A2065.crc32Update m len, m) := by
  induction len with
  | zero => rfl
  | succ len ih => rw [crc32Update, run_bind, ih, run_bind, run_get, run_pure, A2065.crc32Update]

@[simp] theorem written_crc32Update (len : Nat) (m : Buf) : written (crc32Update len) m = [] := by
  induction len with
  | zero => rfl
  | succ len ih => rw [crc32Update, written_bind, ih, written_bind, written_get, written_pure]; rfl

theorem run_appendFcs (len : Nat) (m : Buf) :
    run (appendFcs len) m = ((), A2065.appendFcs m len) := by
  simp only [appendFcs, crc32Compute, run_bind, run_crc32Update, run_pure, run_set]
  congr 1
  funext k
  rw [A2065.appendFcs, A2065.crc32Compute, bufWrite]
  by_cases hk : len ≤ k
  · obtain ⟨j, rfl⟩ := Nat.exists_eq_add_of_le hk
    rw [if_pos hk, Nat.add_sub_cancel_left]
    have hfour : j = 0 ∨ j = 1 ∨ j = 2 ∨ j = 3 ∨ 4 ≤ j := by omega
    rcases hfour with rfl | rfl | rfl | rfl | hj
    · simp
    · simp
    · simp
    · simp
    · obtain ⟨i, rfl⟩ := Nat.exists_eq_add_of_le' hj
      simp
  · rw [if_neg hk]
    have hne : ∀ j, k ≠ len + j := fun j => by omega
    simp [hne, show k ≠ len from hne 0]

theorem written_appendFcs (len : Nat) (m : Buf) :
    written (appendFcs len) m = [len, len + 1, len + 2, len + 3] := by
  simp [appendFcs, crc32Compute]

end Bytewise

/-! ## What `gotfunc` writes -/

/-- `gotfunc` has taken the frame: it is past its checks and filters. -/
def rxTakes (d : Daemon) (stack databuf : Buf) (len : Nat) : Prop :=
  tst d.csr0 CSR0.RXON = true ∧ 20 ≤ len ∧ ringAccepted d.amRdrRdra d.amRdrRlen = true ∧
    rxAccepts d (rxFrame d stack databuf len) = true

/-- The indices of `tmp` that `gotfunc` itself writes, `stack` being what
`tmp` held before. -/
def tmpWrites (d : Daemon) (stack databuf : Buf) (len : Nat) : List Nat :=
  if ¬ tst d.csr0 CSR0.RXON then []
  else if len < 20 then []
  else if ¬ ringAccepted d.amRdrRdra d.amRdrRlen then []
  else
    let tmp := rxFrame d stack databuf len
    written (Bytewise.rxCopy databuf len) stack ++
      if ¬ rxAccepts d tmp then [] else written (Bytewise.appendFcs len) tmp

theorem tmpWrites_of_past {d : Daemon} {stack databuf : Buf} {len : Nat}
    (hon : tst d.csr0 CSR0.RXON = true) (hlen : 20 ≤ len)
    (hring : ringAccepted d.amRdrRdra d.amRdrRlen = true) :
    tmpWrites d stack databuf len = List.range len ++
      if rxAccepts d (rxFrame d stack databuf len) = true
        then [len, len + 1, len + 2, len + 3] else [] := by
  rw [tmpWrites, if_neg (by simp [hon]), if_neg (by omega), if_neg (by simp [hring]),
    Bytewise.written_rxCopy]
  simp only [Bytewise.written_appendFcs, ite_not]

/-- The passes over `tmp`, byte by byte, are those of `gotfunc`: it enters the
ring loop when they say so and with the buffer they leave. -/
theorem gotfunc_bytewise (cb : Callback) (databuf : Buf) (len : Nat) (d : Daemon) (w : World) :
    (gotfunc cb databuf len d).exec w =
      let r := run (Bytewise.gotfunc d databuf len) w.stack
      if r.1 then (rxRing cb d.amRdrRdra d.amRdrRlen r.2 (len + 4) d 0 true).exec w
      else ((.dropped, d), w) := by
  unfold gotfunc Bytewise.gotfunc
  split
  · rfl
  split
  · rfl
  split
  · rfl
  rw [DProg.exec_bind, exec_uninit]
  simp only [run_bind, Bytewise.run_rxCopy, Bytewise.run_rxTranslate, Bytewise.run_rxAccepts]
  split
  · rfl
  · rw [run_bind, Bytewise.run_appendFcs]
    rfl

/-- They write the cells of `tmpWrites` and those the translation writes. -/
theorem mem_written_gotfunc {d : Daemon} {stack databuf : Buf} {len i : Nat}
    (hon : tst d.csr0 CSR0.RXON = true) (hlen : 20 ≤ len)
    (hring : ringAccepted d.amRdrRdra d.amRdrRlen = true) :
    i ∈ written (Bytewise.gotfunc d databuf len) stack ↔ i ∈ tmpWrites d stack databuf len ∨
      i ∈ written (Bytewise.rxTranslate d len)
        (fun i => if i < len then databuf i else stack i) := by
  rw [tmpWrites_of_past hon hlen hring, Bytewise.gotfunc, if_neg (by simp [hon]),
    if_neg (by omega), if_neg (by simp [hring])]
  simp only [written_bind, Bytewise.run_rxCopy, Bytewise.run_rxTranslate, Bytewise.run_rxAccepts,
    Bytewise.written_rxAccepts, Bytewise.written_rxCopy]
  by_cases hacc : rxAccepts d (rxFrame d stack databuf len) = true
  · rw [if_neg (not_not.mpr hacc), if_pos hacc]
    simp only [written_bind, Bytewise.written_appendFcs, written_pure, List.mem_append,
      List.append_nil, List.nil_append]
    tauto
  · rw [if_pos hacc, if_neg hacc]
    simp

/-- For every length a caller passes, `gotfunc` writes inside `tmp` exactly
when there is room for the FCS or the frame is not taken. -/
theorem tmp_writes_inside_iff (d : Daemon) (stack databuf : Buf) (len : Nat)
    (hlen : len ≤ MAX_PACKET_SIZE) :
    (∀ i ∈ tmpWrites d stack databuf len, i < MAX_PACKET_SIZE) ↔
      len + 4 ≤ MAX_PACKET_SIZE ∨ ¬ rxTakes d stack databuf len := by
  by_cases hpast : tst d.csr0 CSR0.RXON = true ∧ 20 ≤ len ∧
      ringAccepted d.amRdrRdra d.amRdrRlen = true
  · obtain ⟨hon, h20, hring⟩ := hpast
    rw [tmpWrites_of_past hon h20 hring]
    by_cases hacc : rxAccepts d (rxFrame d stack databuf len) = true
    · have htakes : rxTakes d stack databuf len := ⟨hon, h20, hring, hacc⟩
      rw [if_pos hacc, or_iff_left (not_not.mpr htakes)]
      constructor
      · intro h
        have := h (len + 3) (by simp)
        omega
      · intro h i hi
        rcases List.mem_append.mp hi with hi | hi
        · have := List.mem_range.mp hi
          omega
        · simp only [List.mem_cons, List.not_mem_nil, or_false] at hi
          omega
    · have hnot : ¬ rxTakes d stack databuf len := fun h => hacc h.2.2.2
      rw [if_neg hacc, List.append_nil]
      refine ⟨fun _ => .inr hnot, fun _ i hi => ?_⟩
      have := List.mem_range.mp hi
      omega
  · have hnot : ¬ rxTakes d stack databuf len := fun h => hpast ⟨h.1, h.2.1, h.2.2.1⟩
    have hnil : tmpWrites d stack databuf len = [] := by
      unfold tmpWrites
      by_cases hon : tst d.csr0 CSR0.RXON = true
      · rw [if_neg (by simp [hon])]
        by_cases h20 : len < 20
        · rw [if_pos h20]
        · rw [if_neg h20, if_pos]
          intro hring
          exact hpast ⟨hon, by omega, hring⟩
      · rw [if_pos hon]
    rw [hnil]
    exact ⟨fun _ => .inr hnot, fun _ i hi => nomatch hi⟩

/-- The receiver in loopback mode, with one receive descriptor. -/
def rxLoop : Daemon :=
  { (registersReset .boot).csr0Set CSR0.RXON with amMode := MODE.LOOP, amRdrRlen := 1 }

/-- An Ethernet frame of the usual size leaves room. -/
theorem tmp_writes_inside_usual : 1514 + 4 ≤ MAX_PACKET_SIZE ∧
    ∀ i ∈ tmpWrites rxLoop (fun _ => 0) (fun _ => 0) 1514, i < MAX_PACKET_SIZE := by
  have hroom : 1514 + 4 ≤ MAX_PACKET_SIZE := by decide
  exact ⟨hroom,
    (tmp_writes_inside_iff rxLoop (fun _ => 0) (fun _ => 0) 1514 (by decide)).mpr (.inl hroom)⟩

/-- A looped frame of the largest size does not: its FCS goes behind `tmp`. -/
theorem tmp_written_behind : ¬ ∀ (d : Daemon) (stack databuf : Buf) (len : Nat),
    len ≤ MAX_PACKET_SIZE → ∀ i ∈ tmpWrites d stack databuf len, i < MAX_PACKET_SIZE := by
  intro h
  have hfcs : 4096 ∈ tmpWrites rxLoop (fun _ => 0) (fun _ => 0) 4096 := by
    rw [tmpWrites_of_past (by decide) (by decide) (by decide), if_pos (by rfl)]
    exact List.mem_append_right _ (List.mem_cons_self ..)
  exact absurd (h rxLoop _ _ 4096 (by decide) 4096 hfcs) (by decide)

/-! ## What the host gets -/

/-- The byte a store puts into boardram. -/
def Eff.storedByte : Eff → Option U8
  | .putByte _ v => some v
  | _ => none

/-- The bytes a call stores in boardram, in order. -/
def copiedBytes (tr : List DEvent) : List U8 := tr.filterMap fun ev => ev.op.storedByte

/-- The sizes of the owned descriptors a call loads; `status` is the status
word loaded last. -/
def takenSizes : U16 → List DEvent → List Nat
  | _, [] => []
  | status, ⟨.getWord _ disp, md⟩ :: tr =>
      if disp = 2 then takenSizes md tr
      else if disp = 4 ∧ owned status = true then byteCount md :: takenSizes status tr
      else takenSizes status tr
  | status, _ :: tr => takenSizes status tr

/-- Neither a descriptor word is loaded nor the stack looked at. -/
def Eff.IsStore : Eff → Prop
  | .getWord _ _ | .uninit => False
  | _ => True

theorem takenSizes_stores {status : U16} {a tr : List DEvent} (h : ∀ ev ∈ a, ev.op.IsStore) :
    takenSizes status (a ++ tr) = takenSizes status tr := by
  induction a with
  | nil => rfl
  | cons ev a ih =>
      have hrest := ih fun ev' hev => h ev' (List.mem_cons_of_mem _ hev)
      have hev := h ev (List.mem_cons_self ..)
      obtain ⟨op, ans⟩ := ev
      cases op with
      | getWord base disp => exact hev.elim
      | _ => exact hrest

theorem takenSizes_loadDesc (status : U16) (off : U32) (w0 w1 w2 w3 : U16) (tr : List DEvent) :
    takenSizes status (loadDesc off w0 w1 w2 w3 ++ tr) =
      if owned w1 = true then byteCount w2 :: takenSizes w1 tr else takenSizes w1 tr := by
  simp [loadDesc, loadWord, takenSizes]

@[simp] theorem copiedBytes_append (a b : List DEvent) :
    copiedBytes (a ++ b) = copiedBytes a ++ copiedBytes b := List.filterMap_append ..

@[simp] theorem copiedBytes_loadDesc (off : U32) (w0 w1 w2 w3 : U16) :
    copiedBytes (loadDesc off w0 w1 w2 w3) = [] := rfl

@[simp] theorem copiedBytes_storeWord (off disp : U32) (v : U16) (tr : List DEvent) :
    copiedBytes (storeWord off disp v :: tr) = copiedBytes tr := rfl

theorem ramWriteBlock_runs {off : U32} {src : Buf} {n : Nat} {tr : List DEvent} {u : Unit}
    (h : (ramWriteBlock off src n).Runs tr u) :
    copiedBytes tr = (List.range n).map src ∧ ∀ ev ∈ tr, ev.op.IsStore := by
  induction n generalizing tr with
  | zero =>
      obtain ⟨rfl, -⟩ := h
      exact ⟨rfl, fun _ hev => nomatch hev⟩
  | succ n ih =>
      obtain ⟨tr₁, _, tr₂, rfl, h₁, h₂⟩ := Prog.runs_bind.mp h
      obtain ⟨hbytes, hstore⟩ := ih h₁
      obtain rfl : tr₂ = [⟨.putByte _ _, u⟩] := Prog.runs_perform.mp h₂
      constructor
      · rw [copiedBytes_append, hbytes, List.range_succ, List.map_append]
        rfl
      · intro ev hev
        rcases List.mem_append.mp hev with hev | hev
        · exact hstore ev hev
        · rw [List.mem_singleton.mp hev]
          trivial

theorem ramWriteBlock_congr {off : U32} {src src' : Buf} {n : Nat} (h : ∀ i < n, src' i = src i) :
    ramWriteBlock off src' n = ramWriteBlock off src n := by
  induction n with
  | zero => rfl
  | succ n ih =>
      rw [ramWriteBlock, ramWriteBlock, ih fun i hi => h i (Nat.lt_succ_of_lt hi),
        h n (Nat.lt_succ_self n)]

/-- `rethink` at the end of a call stores no byte and loads nothing. -/
theorem rethink_runs {cb : Callback} {d : Daemon} {α : Type} {f : Daemon → α}
    {tr : List DEvent} {r : α} (h : (rethink cb d >>= fun d' => pure (f d')).Runs tr r) :
    copiedBytes tr = [] ∧ ∀ ev ∈ tr, ev.op.IsStore := by
  have hsignal : ∀ ev ∈ tr, ev.op.IsSignal :=
    (Prog.Only.bind (rethink_signals cb d) fun _ => .pure _) tr r h
  constructor
  · apply List.filterMap_eq_nil_iff.mpr
    intro ev hev
    have := hsignal ev hev
    cases hop : ev.op <;> simp_all [Eff.IsSignal, Eff.storedByte]
  · intro ev hev
    have := hsignal ev hev
    cases hop : ev.op <;> simp_all [Eff.IsSignal, Eff.IsStore]

/-- An effect others can see or cause. -/
def Eff.IsShared : Eff → Prop
  | .uninit => False
  | _ => True

theorem Eff.IsStore.shared {e : Eff} (h : e.IsStore) : e.IsShared := by
  cases e <;> trivial

/-- The part of a trace that belongs to one descriptor taken. -/
def visitTaken (off : U32) (w0 w1 w2 w3 : U16) (data : List DEvent) (v v' : U16) : List DEvent :=
  loadDesc off w0 w1 w2 w3 ++ (data ++ [storeWord off 2 v, storeWord off 6 v'])

theorem visitTaken_append (off : U32) (w0 w1 w2 w3 : U16) (data : List DEvent) (v v' : U16)
    (tr : List DEvent) : loadDesc off w0 w1 w2 w3 ++
      (data ++ storeWord off 2 v :: storeWord off 6 v' :: tr) =
      visitTaken off w0 w1 w2 w3 data v v' ++ tr := by
  rw [visitTaken, List.append_assoc, List.append_assoc]
  rfl

theorem shared_loadDesc {off : U32} {w0 w1 w2 w3 : U16} {ev : DEvent}
    (h : ev ∈ loadDesc off w0 w1 w2 w3) : ev.op.IsShared := by
  simp only [loadDesc, List.mem_cons, List.not_mem_nil, or_false] at h
  rcases h with rfl | rfl | rfl | rfl
  · trivial
  · trivial
  · trivial
  · trivial

section Visit

variable {off : U32} {w0 w1 w2 w3 v v' : U16} {data : List DEvent} {src : Buf} {addr : U32}
  {u : Unit} (hdata : (ramWriteBlock addr src (byteCount w2)).Runs data u)

include hdata

theorem copiedBytes_visit (tr : List DEvent) :
    copiedBytes (visitTaken off w0 w1 w2 w3 data v v' ++ tr) =
      (List.range (byteCount w2)).map src ++ copiedBytes tr := by
  simp [visitTaken, (ramWriteBlock_runs hdata).1]

theorem stores_visit : ∀ ev ∈ data ++ [storeWord off 2 v, storeWord off 6 v'], ev.op.IsStore := by
  intro ev hev
  rcases List.mem_append.mp hev with hev | hev
  · exact (ramWriteBlock_runs hdata).2 ev hev
  · rcases List.mem_pair.mp hev with rfl | rfl
    · trivial
    · trivial

theorem takenSizes_visit (hown : owned w1 = true) (status : U16) (tr : List DEvent) :
    takenSizes status (visitTaken off w0 w1 w2 w3 data v v' ++ tr) =
      byteCount w2 :: takenSizes w1 tr := by
  rw [visitTaken, List.append_assoc, takenSizes_loadDesc, if_pos hown,
    takenSizes_stores (stores_visit hdata)]

theorem shared_visit {tr : List DEvent} (h : ∀ ev ∈ tr, ev.op.IsShared) :
    ∀ ev ∈ visitTaken off w0 w1 w2 w3 data v v' ++ tr, ev.op.IsShared := by
  intro ev hev
  rcases List.mem_append.mp hev with hev | hev
  · rcases List.mem_append.mp hev with hev | hev
    · exact shared_loadDesc hev
    · exact (stores_visit hdata ev hev).shared
  · exact h ev hev

end Visit

/-- Stores behind the last load are no descriptors taken. -/
theorem takenSizes_end {status : U16} {tl : List DEvent} (h : ∀ ev ∈ tl, ev.op.IsStore) :
    takenSizes status tl = [] := by
  have hnil : takenSizes status (tl ++ []) = takenSizes status [] := takenSizes_stores h
  rwa [List.append_nil] at hnil

/-- What the ring loop does with `tmp` from `insize` on: the bytes stored are
those of `tmp`, as many as the descriptors taken have room for, and a buffer
that agrees on these would be scattered in the same way. -/
structure Scatters (cb : Callback) (rdra rlen : U32) (tmp : Buf) (len : Nat) (d : Daemon)
    (insize : Nat) (first : Bool) (status : U16) (tr : List DEvent) (r : RxExit × Daemon) :
    Prop where
  shared : ∀ ev ∈ tr, ev.op.IsShared
  copied : copiedBytes tr =
    (List.range (takenSizes status tr).sum).map fun i => tmp (insize + i)
  transport : ∀ tmp' : Buf,
    (∀ i < (takenSizes status tr).sum, tmp' (insize + i) = tmp (insize + i)) →
      (rxRing cb rdra rlen tmp' len d insize first).Runs tr r

/-- In every run of the ring loop, whatever the loads answer. -/
theorem rxRing_scatters (cb : Callback) (rdra rlen : U32) (tmp : Buf) (len : Nat) (d : Daemon)
    (insize : Nat) (first : Bool) (status : U16) (tr : List DEvent) (r : RxExit × Daemon)
    (h : (rxRing cb rdra rlen tmp len d insize first).Runs tr r) :
    Scatters cb rdra rlen tmp len d insize first status tr r := by
  -- induction on the bytes still to store, the measure of the loop
  induction hn : len - insize using Nat.strong_induction_on
    generalizing d insize first status tr with
  | _ n ih =>
      obtain ⟨w0, w1, w2, w3, tail, rfl, hturn⟩ := rxRing_runs.mp h
      cases hturn with
      | @refused tl _ hown hend =>
          obtain ⟨hnone, hstores⟩ := rethink_runs hend
          have htail : ∀ v, ∀ ev ∈ storeWord (descOff rdra (d.rdrOffset % rlen)) 2 v :: tl,
              ev.op.IsStore := by
            intro v ev hev
            rcases List.mem_cons.mp hev with rfl | hev
            · trivial
            · exact hstores ev hev
          have hsizes : ∀ v, takenSizes status (loadDesc (descOff rdra (d.rdrOffset % rlen)) w0 w1
              w2 w3 ++ storeWord (descOff rdra (d.rdrOffset % rlen)) 2 v :: tl) = [] := by
            intro v
            have hnot : ¬ owned w1 = true := by
              intro ho
              exact absurd (hown.symm.trans ho) (by decide)
            rw [takenSizes_loadDesc, if_neg hnot, takenSizes_end (htail v)]
          constructor
          · intro ev hev
            rcases List.mem_append.mp hev with hev | hev
            · exact shared_loadDesc hev
            · exact (htail _ ev hev).shared
          · rw [hsizes, copiedBytes_append, copiedBytes_loadDesc, copiedBytes_storeWord, hnone]
            rfl
          · intro tmp' _
            exact rxRing_runs.mpr ⟨w0, w1, w2, w3, _, rfl, .refused hown hend⟩
      | @last data tl _ _ hown hdata hroom hend =>
          obtain ⟨hnone, hstores⟩ := rethink_runs hend
          rw [visitTaken_append]
          constructor
          · exact shared_visit hdata fun ev hev => (hstores ev hev).shared
          · rw [takenSizes_visit hdata hown, takenSizes_end hstores, copiedBytes_visit hdata, hnone,
              List.append_nil, List.sum_singleton]
          · intro tmp' hagree
            rw [takenSizes_visit hdata hown, takenSizes_end hstores, List.sum_singleton] at hagree
            rw [← ramWriteBlock_congr hagree] at hdata
            rw [← visitTaken_append]
            exact rxRing_runs.mpr ⟨w0, w1, w2, w3, _, rfl, .last hown hdata hroom hend⟩
      | @next data tl _ _ hown hdata hroom hnext =>
          have hpos := byteCount_pos w2
          have hrest := ih _ (by omega) _ _ _ w1 _ hnext rfl
          rw [visitTaken_append]
          constructor
          · exact shared_visit hdata hrest.shared
          · rw [takenSizes_visit hdata hown, copiedBytes_visit hdata, hrest.copied, List.sum_cons,
              List.range_add, List.map_append, List.map_map]
            simp only [Function.comp_def, Nat.add_assoc]
          · intro tmp' hagree
            rw [takenSizes_visit hdata hown, List.sum_cons] at hagree
            have hnext' := hrest.transport tmp' fun i hi => by
              rw [Nat.add_assoc]
              exact hagree _ (by omega)
            rw [← ramWriteBlock_congr fun i hi => hagree i (by omega)] at hdata
            rw [← visitTaken_append]
            exact rxRing_runs.mpr ⟨w0, w1, w2, w3, _, rfl, .next hown hdata hroom hnext'⟩

/-! ## The room the descriptors have

As in `Shutdown`, the frame is followed through the ring of a given boardram,
and where the buffers lie off the ring what comes of it is a matter of the
sizes alone. -/

/-- From the descriptor at index `o` on, with `insize` bytes stored, no buffer
that is filled is larger than the rest of the frame. -/
inductive FitsRing (rdra rlen : U32) (tmp : Buf) (len : Nat) :
    Boardram → U32 → Nat → Bool → Prop where
  | ends {m : Boardram} {o : U32} {insize : Nat} {first : Bool}
      (hown : tst (m.getRamWord (descOff rdra (o % rlen) + 2)) RX.OWN = false) :
      FitsRing rdra rlen tmp len m o insize first
  | last {m : Boardram} {o : U32} {insize : Nat} {first : Bool}
      (hown : tst (m.getRamWord (descOff rdra (o % rlen) + 2)) RX.OWN = true)
      (hroom : insize + byteCount (m.getRamWord (descOff rdra (o % rlen) + 4)) = len) :
      FitsRing rdra rlen tmp len m o insize first
  | next {m : Boardram} {o : U32} {insize : Nat} {first : Bool}
      (hown : tst (m.getRamWord (descOff rdra (o % rlen) + 2)) RX.OWN = true)
      (hmore : insize + byteCount (m.getRamWord (descOff rdra (o % rlen) + 4)) < len)
      (h : FitsRing rdra rlen tmp len
        (m.fillNext (descOff rdra (o % rlen)) (fun i => tmp (insize + i)) first) (o % rlen + 1)
        (insize + byteCount (m.getRamWord (descOff rdra (o % rlen) + 4))) false) :
      FitsRing rdra rlen tmp len m o insize first

namespace FitsRing

variable {rdra rlen o : U32} {tmp : Buf} {len insize : Nat} {first : Bool} {m : Boardram}

theorem last_iff (hown : tst (m.getRamWord (descOff rdra (o % rlen) + 2)) RX.OWN = true)
    (hroom : len ≤ insize + byteCount (m.getRamWord (descOff rdra (o % rlen) + 4))) :
    FitsRing rdra rlen tmp len m o insize first ↔
      insize + byteCount (m.getRamWord (descOff rdra (o % rlen) + 4)) = len := by
  constructor
  · intro h
    cases h with
    | ends hown' => exact absurd (hown.symm.trans hown') (by decide)
    | last _ hroom' => exact hroom'
    | next _ hmore => omega
  · exact .last hown

theorem next_iff (hown : tst (m.getRamWord (descOff rdra (o % rlen) + 2)) RX.OWN = true)
    (hmore : insize + byteCount (m.getRamWord (descOff rdra (o % rlen) + 4)) < len) :
    FitsRing rdra rlen tmp len m o insize first ↔ FitsRing rdra rlen tmp len
      (m.fillNext (descOff rdra (o % rlen)) (fun i => tmp (insize + i)) first) (o % rlen + 1)
      (insize + byteCount (m.getRamWord (descOff rdra (o % rlen) + 4))) false := by
  constructor
  · intro h
    cases h with
    | ends hown' => exact absurd (hown.symm.trans hown') (by decide)
    | last _ hroom => omega
    | next _ _ h => exact h
  · exact .next hown hmore

end FitsRing

section Turn

variable {cb : Callback} {rdra rlen : U32} {tmp : Buf} {len insize : Nat} {first : Bool}
  {d : Daemon} {w : World}

theorem trace_getRamWord_bind {α : Type} (base disp : U32) (f : U16 → DProg α) (w : World) :
    (getRamWord base disp >>= f).trace w = loadWord base disp (w.ram.getRamWord (base + disp)) ::
      (f (w.ram.getRamWord (base + disp))).trace w := rfl

theorem DProg.trace_bind {α β : Type} (p : DProg α) (f : α → DProg β) (w : World) :
    (p >>= f).trace w = p.trace w ++ (f (p.exec w).1).trace (p.exec w).2 := Prog.trace_bind ..

theorem takenSizes_refused (status : U16)
    (hown : tst (w.ram.getRamWord (descOff rdra (d.rdrOffset % rlen) + 2)) RX.OWN = false) :
    takenSizes status ((rxRing cb rdra rlen tmp len d insize first).trace w) = [] := by
  obtain ⟨v, tl, htrace, hstores⟩ : ∃ v tl,
      (rxRing cb rdra rlen tmp len d insize first).trace w =
        loadDesc (descOff rdra (d.rdrOffset % rlen)) _ _ _ _ ++
          storeWord (descOff rdra (d.rdrOffset % rlen)) 2 v :: tl ∧ ∀ ev ∈ tl, ev.op.IsStore := by
    rw [rxRing]
    dsimp only
    rw [trace_getRamWord_bind, trace_getRamWord_bind, trace_getRamWord_bind,
      trace_getRamWord_bind, if_pos (Bool.eq_false_iff.mp hown)]
    exact ⟨_, _, rfl, (rethink_runs (Prog.runs_exec World.handle _ _)).2⟩
  have hnot : ¬ owned (w.ram.getRamWord (descOff rdra (d.rdrOffset % rlen) + 2)) = true :=
    Bool.eq_false_iff.mp hown
  rw [htrace, takenSizes_loadDesc, if_neg hnot]
  exact takenSizes_end (List.forall_mem_cons.mpr ⟨trivial, hstores⟩)

/-- One turn at an owned descriptor: it is loaded, its buffer filled and two of
its words stored. Behind that the loop ends or goes on. -/
theorem rxRing_trace_taken
    (hown : tst (w.ram.getRamWord (descOff rdra (d.rdrOffset % rlen) + 2)) RX.OWN = true) :
    ∃ addr v v' tl, (rxRing cb rdra rlen tmp len d insize first).trace w =
        visitTaken (descOff rdra (d.rdrOffset % rlen))
          (w.ram.getRamWord (descOff rdra (d.rdrOffset % rlen) + 0))
          (w.ram.getRamWord (descOff rdra (d.rdrOffset % rlen) + 2))
          (w.ram.getRamWord (descOff rdra (d.rdrOffset % rlen) + 4))
          (w.ram.getRamWord (descOff rdra (d.rdrOffset % rlen) + 6))
          ((ramWriteBlock addr (fun i => tmp (insize + i))
            (byteCount (w.ram.getRamWord (descOff rdra (d.rdrOffset % rlen) + 4)))).trace w)
          v v' ++ tl ∧
      (len ≤ insize + byteCount (w.ram.getRamWord (descOff rdra (d.rdrOffset % rlen) + 4)) →
        ∀ ev ∈ tl, ev.op.IsStore) ∧
      (insize + byteCount (w.ram.getRamWord (descOff rdra (d.rdrOffset % rlen) + 4)) < len →
        tl = (rxRing cb rdra rlen tmp len { d with rdrOffset := d.rdrOffset % rlen + 1 }
          (insize + byteCount (w.ram.getRamWord (descOff rdra (d.rdrOffset % rlen) + 4)))
          false).trace { w with
            ram := w.ram.fillNext (descOff rdra (d.rdrOffset % rlen))
              (fun i => tmp (insize + i)) first }) := by
  rw [rxRing]
  dsimp only
  rw [trace_getRamWord_bind, trace_getRamWord_bind, trace_getRamWord_bind,
    trace_getRamWord_bind, if_neg (not_not.mpr hown), DProg.trace_bind, exec_ramWriteBlock]
  by_cases hroom :
      len ≤ insize + byteCount (w.ram.getRamWord (descOff rdra (d.rdrOffset % rlen) + 4))
  · rw [if_pos hroom]
    exact ⟨_, _, _, _, visitTaken_append .., fun _ => (rethink_runs (Prog.runs_exec ..)).2,
      fun hmore => absurd hroom (Nat.not_le.mpr hmore)⟩
  · rw [if_neg hroom]
    exact ⟨_, _, _, _, visitTaken_append .., fun h => absurd h hroom, fun _ => rfl⟩

theorem takenSizes_last (status : U16)
    (hown : tst (w.ram.getRamWord (descOff rdra (d.rdrOffset % rlen) + 2)) RX.OWN = true)
    (hroom : len ≤ insize + byteCount (w.ram.getRamWord (descOff rdra (d.rdrOffset % rlen) + 4))) :
    takenSizes status ((rxRing cb rdra rlen tmp len d insize first).trace w) =
      [byteCount (w.ram.getRamWord (descOff rdra (d.rdrOffset % rlen) + 4))] := by
  obtain ⟨addr, v, v', tl, htrace, hlast, -⟩ := rxRing_trace_taken hown
  rw [htrace, takenSizes_visit (Prog.runs_exec World.handle _ w) hown,
    takenSizes_end (hlast hroom)]

theorem takenSizes_more (status : U16)
    (hown : tst (w.ram.getRamWord (descOff rdra (d.rdrOffset % rlen) + 2)) RX.OWN = true)
    (hmore : insize + byteCount (w.ram.getRamWord (descOff rdra (d.rdrOffset % rlen) + 4)) < len) :
    takenSizes status ((rxRing cb rdra rlen tmp len d insize first).trace w) =
      byteCount (w.ram.getRamWord (descOff rdra (d.rdrOffset % rlen) + 4)) ::
        takenSizes (w.ram.getRamWord (descOff rdra (d.rdrOffset % rlen) + 2))
          ((rxRing cb rdra rlen tmp len { d with rdrOffset := d.rdrOffset % rlen + 1 }
            (insize + byteCount (w.ram.getRamWord (descOff rdra (d.rdrOffset % rlen) + 4)))
            false).trace { w with
              ram := w.ram.fillNext (descOff rdra (d.rdrOffset % rlen))
                (fun i => tmp (insize + i)) first }) := by
  obtain ⟨addr, v, v', tl, htrace, -, hrest⟩ := rxRing_trace_taken hown
  rw [htrace, takenSizes_visit (Prog.runs_exec World.handle _ w) hown, hrest hmore]

end Turn

/-- The sizes of the descriptors taken add up to no more than the frame exactly
if each fits. -/
theorem takenSizes_le_iff (cb : Callback) (rdra rlen : U32) (tmp : Buf) (len : Nat) (d : Daemon)
    {insize : Nat} (hin : insize < len) (first : Bool) (status : U16) (w : World) :
    insize + (takenSizes status ((rxRing cb rdra rlen tmp len d insize first).trace w)).sum ≤ len ↔
      FitsRing rdra rlen tmp len w.ram d.rdrOffset insize first := by
  -- induction on the bytes still to store, the measure of the loop
  induction hn : len - insize using Nat.strong_induction_on
    generalizing d insize first status w with
  | _ n ih =>
      have hpos := byteCount_pos (w.ram.getRamWord (descOff rdra (d.rdrOffset % rlen) + 4))
      cases hown : tst (w.ram.getRamWord (descOff rdra (d.rdrOffset % rlen) + 2)) RX.OWN with
      | false =>
          rw [takenSizes_refused status hown]
          exact iff_of_true hin.le (.ends hown)
      | true =>
          by_cases hmore : insize +
              byteCount (w.ram.getRamWord (descOff rdra (d.rdrOffset % rlen) + 4)) < len
          · rw [takenSizes_more status hown hmore, List.sum_cons, ← Nat.add_assoc,
              ih _ (by omega) _ hmore _ _ _ rfl]
            exact (FitsRing.next_iff hown hmore).symm
          · have hroom := Nat.not_lt.mp hmore
            rw [takenSizes_last status hown hroom, FitsRing.last_iff hown hroom,
              List.sum_singleton]
            omega

section Apart

variable {rdra rlen : U32} {tmp : Buf} {len p : Nat} {m : BitVec 15 → U8}

/-- Behind the first `j` descriptors, each that is reached holds no more than
the rest of the frame. -/
def NoneLarger (rdra : U32) (n p len : Nat) (m : BitVec 15 → U8) (j insize : Nat) : Prop :=
  ∀ k, j + k < n → (∀ i ≤ k, tst (descAt m rdra (slot n p (j + i))).md1 RX.OWN = true) →
    insize + capacity (descsFrom m rdra n (p + j) k) < len →
    insize + capacity (descsFrom m rdra n (p + j) (k + 1)) ≤ len

theorem noneLarger_stop {n j insize : Nat}
    (hstop : j < n → tst (descAt m rdra (slot n p j)).md1 RX.OWN = false) :
    NoneLarger rdra n p len m j insize := by
  intro k hk hown _
  exact absurd ((hown 0 (Nat.zero_le k)).symm.trans (hstop (by omega))) (by decide)

theorem noneLarger_own {n j insize : Nat} (hj : j < n)
    (hown : tst (descAt m rdra (slot n p j)).md1 RX.OWN = true) (hin : insize < len) :
    NoneLarger rdra n p len m j insize ↔
      insize + (descAt m rdra (slot n p j)).size ≤ len ∧
        NoneLarger rdra n p len m (j + 1) (insize + (descAt m rdra (slot n p j)).size) := by
  have hcap : ∀ k, insize + capacity (descsFrom m rdra n (p + j) (k + 1)) =
      insize + (descAt m rdra (slot n p j)).size +
        capacity (descsFrom m rdra n (p + (j + 1)) k) := by
    intro k
    rw [capacity_descsFrom_cons, Nat.add_assoc]
  have hshift : ∀ i, j + 1 + i = j + (i + 1) := fun i => by omega
  constructor
  · intro h
    constructor
    · have hzero := h 0 hj (fun i hi => by rwa [Nat.le_zero.mp hi]) hin
      rwa [hcap] at hzero
    · intro k hk hrest hless
      rw [← hcap] at hless ⊢
      apply h (k + 1) (by omega) _ hless
      intro i hi
      cases i with
      | zero => exact hown
      | succ i =>
          rw [← hshift]
          exact hrest i (by omega)
  · rintro ⟨hsize, h⟩ k hk hrest hless
    rw [hcap] at ⊢
    cases k with
    | zero => exact hsize
    | succ k =>
        rw [hcap] at hless
        apply h k (by omega) _ hless
        intro i hi
        rw [hshift]
        exact hrest (i + 1) (by omega)

theorem FitsRing.follows : FollowsRing rdra rlen tmp len (fun _ => True) (· = len)
    (FitsRing rdra rlen tmp len) where
  refused hown := iff_of_true (.ends hown) trivial
  last := last_iff
  next := next_iff

theorem noneLarger_follows {n : Nat} : FollowsDescs rdra n p len m (fun _ => True) (· = len)
    (NoneLarger rdra n p len m) where
  stop _ _ hstop := iff_of_true (noneLarger_stop hstop) trivial
  last hj hin hown hroom := by
    rw [noneLarger_own hj hown hin]
    constructor
    · intro h
      omega
    · intro hexact
      refine ⟨hexact.le, ?_⟩
      intro k _ _ hless
      omega
  next hj hown hmore := by
    rw [noneLarger_own hj hown (by omega)]
    exact ⟨And.right, fun h => ⟨hmore.le, h⟩⟩

end Apart

/-! ## Frames that do not depend on the stack -/

/-- The frame is not translated, or what it announces fits into it. -/
def FrameInside (d : Daemon) (databuf : Buf) (len : Nat) : Prop :=
  tst d.amMode MODE.LOOP = true ∨
    Bytewise.MungeInside d.macFakemac d.macRealmac databuf len

theorem rxFrame_agree {d : Daemon} {databuf : Buf} {len : Nat} (hlen : 20 ≤ len)
    (hin : FrameInside d databuf len) (stack stack' : Buf) :
    ∀ i < len, rxFrame d stack databuf len i = rxFrame d stack' databuf len i := by
  intro i hi
  unfold rxFrame
  by_cases hloop : tst d.amMode MODE.LOOP = true
  · rw [if_pos hloop, if_pos hloop, if_pos hi, if_pos hi]
  · rw [if_neg hloop, if_neg hloop]
    have hinside := (Bytewise.within_mungepacket hlen databuf).mpr (hin.resolve_left hloop)
    have hsame : ∀ stack : Buf, (mungepacket d.macFakemac d.macRealmac databuf len).2 i =
        (mungepacket d.macFakemac d.macRealmac
          (fun i => if i < len then databuf i else stack i) len).2 i := by
      intro stack
      rw [← Bytewise.run_mungepacket, ← Bytewise.run_mungepacket]
      exact (hinside.run_congr fun j hj => (if_pos hj).symm).2 i hi
    rw [← hsame stack, hsame stack']

theorem appendFcs_agree {a b : Buf} {len : Nat} (h : ∀ i < len, a i = b i) :
    ∀ i < len + 4, appendFcs a len i = appendFcs b len i := by
  intro i hi
  rw [appendFcs, appendFcs, crc32Compute_congr h, bufWrite, bufWrite]
  by_cases hlt : len ≤ i
  · rw [if_pos hlt, if_pos hlt, List.getElem?_eq_getElem (by simp; omega)]
    rfl
  · rw [if_neg hlt, if_neg hlt]
    exact h i (by omega)

/-! ## The host learns the frame only -/

/-- `tmp` when the ring loop starts. -/
def rxTmp (d : Daemon) (stack databuf : Buf) (len : Nat) : Buf :=
  appendFcs (rxFrame d stack databuf len) len

/-- Whatever else the stack held behind the frame, boardram ends up the same,
and the bytes copied there are the first of `tmp`, none of them behind the
FCS. -/
def Confined (cb : Callback) (databuf : Buf) (len : Nat) (d : Daemon) (w : World) : Prop :=
  (∀ stack' : Buf, (∀ i < len, stack' i = w.stack i) →
    ((gotfunc cb databuf len d).exec { w with stack := stack' }).2.ram =
      ((gotfunc cb databuf len d).exec w).2.ram) ∧
  ∃ n ≤ len + 4, copiedBytes ((gotfunc cb databuf len d).trace w) =
    bufTake (rxTmp d w.stack databuf len) n

/-- Followed through boardram as the call finds it, the frame and its FCS fill
no buffer larger than what is left of them. -/
def RoomFits (databuf : Buf) (len : Nat) (d : Daemon) (w : World) : Prop :=
  FitsRing d.amRdrRdra d.amRdrRlen (rxTmp d w.stack databuf len) (len + 4) w.ram d.rdrOffset 0 true

/-- Where the buffers lie off the ring: of the owned descriptors from the cursor
on, none that the frame and its FCS reach makes more room than they need. -/
theorem roomFits_iff {databuf : Buf} {len : Nat} {d : Daemon} {w : World}
    (hring : ringAccepted d.amRdrRdra d.amRdrRlen = true) (hmax : len + 4 ≤ 2 ^ 15)
    (hbuf : ∀ i < d.amRdrRlen.toNat, Disjoint (descAt w.ram.mem d.amRdrRdra i).cells
      (ringCells d.amRdrRdra d.amRdrRlen.toNat)) :
    RoomFits databuf len d w ↔ ∀ k < d.amRdrRlen.toNat,
      (∀ i ≤ k, tst (descAt w.ram.mem d.amRdrRdra
        (slot d.amRdrRlen.toNat d.rdrOffset.toNat i)).md1 RX.OWN = true) →
      capacity (descsFrom w.ram.mem d.amRdrRdra d.amRdrRlen.toNat d.rdrOffset.toNat k) < len + 4 →
      capacity (descsFrom w.ram.mem d.amRdrRdra d.amRdrRlen.toNat d.rdrOffset.toNat (k + 1)) ≤
        len + 4 := by
  obtain ⟨hpos, hlen, -⟩ := ringAccepted_iff.mp hring
  have hiff : RoomFits databuf len d w ↔ _ :=
    FitsRing.follows.iff_descs w.ram noneLarger_follows hlen hpos hmax (Nat.succ_pos _) hbuf
  simpa [NoneLarger] using hiff

theorem gotfunc_taken (cb : Callback) {databuf : Buf} {len : Nat} {d : Daemon} {w : World}
    (h : rxTakes d w.stack databuf len) :
    (gotfunc cb databuf len d).exec w = (rxRing cb d.amRdrRdra d.amRdrRlen
        (rxTmp d w.stack databuf len) (len + 4) d 0 true).exec w ∧
      (gotfunc cb databuf len d).trace w = ⟨.uninit, w.stack⟩ ::
        (rxRing cb d.amRdrRdra d.amRdrRlen (rxTmp d w.stack databuf len) (len + 4) d 0
          true).trace w := by
  obtain ⟨hon, hlen, hring, hacc⟩ := h
  refine ⟨gotfunc_accepted cb hon hlen hring hacc, ?_⟩
  unfold gotfunc
  rw [if_neg (by simp [hon]), if_neg (by omega), if_neg (by simp [hring]), DProg.trace,
    Prog.trace_bind]
  have hif : (if ¬ rxAccepts d (rxFrame d w.stack databuf len) then pure (.dropped, d)
      else rxRing cb d.amRdrRdra d.amRdrRlen (rxTmp d w.stack databuf len) (len + 4) d 0 true) =
      rxRing cb d.amRdrRdra d.amRdrRlen (rxTmp d w.stack databuf len) (len + 4) d 0 true :=
    if_neg (by simpa using hacc)
  exact congrArg (fun p : DProg (RxExit × Daemon) => ⟨.uninit, w.stack⟩ :: p.trace w) hif

/-- The ring loop run on a buffer and a stack that agree where it looks. -/
theorem rxRing_ram_agree (cb : Callback) (rdra rlen : U32) {tmp tmp' : Buf} (len : Nat)
    (d : Daemon) (first : Bool) {w w' : World} (hram : w'.ram = w.ram)
    (htmp : ∀ i < (takenSizes 0 ((rxRing cb rdra rlen tmp len d 0 first).trace w)).sum,
      tmp' i = tmp i) :
    ((rxRing cb rdra rlen tmp' len d 0 first).exec w').2.ram =
      ((rxRing cb rdra rlen tmp len d 0 first).exec w).2.ram := by
  have hscatters := rxRing_scatters cb rdra rlen tmp len d 0 first 0 _ _
    (Prog.runs_exec World.handle _ w)
  have hruns := hscatters.transport tmp' fun i hi => by
    rw [Nat.zero_add]
    exact htmp i hi
  have hrel : ∀ (e : Eff) (w w' : World), e.IsShared → w'.ram = w.ram →
      (World.handle e w').1 = (World.handle e w).1 ∧
        (World.handle e w').2.ram = (World.handle e w).2.ram := by
    intro e w w' he h
    cases e with
    | uninit => exact he.elim
    | _ =>
        simp only [World.handle, h]
        exact ⟨rfl, trivial⟩
  exact (Prog.exec_congr World.handle hrel hram hscatters.shared hruns).2.1

/-- For every register state, boardram and frame taken: if the frame announces
no more than it holds and the descriptors have no room for more than the frame
and its FCS, the host gets nothing else; and whenever it gets nothing else,
the descriptors had no room for it. -/
theorem received_confined (cb : Callback) (databuf : Buf) (len : Nat) (d : Daemon) (w : World)
    (htakes : rxTakes d w.stack databuf len) :
    (FrameInside d databuf len ∧ RoomFits databuf len d w → Confined cb databuf len d w) ∧
      (Confined cb databuf len d w → RoomFits databuf len d w) := by
  obtain ⟨hexec, htrace⟩ := gotfunc_taken cb htakes
  have hcopied := (rxRing_scatters cb d.amRdrRdra d.amRdrRlen (rxTmp d w.stack databuf len)
    (len + 4) d 0 true 0 _ _ (Prog.runs_exec World.handle _ w)).copied
  simp only [Nat.zero_add] at hcopied
  have hsizes : takenSizes 0 ((gotfunc cb databuf len d).trace w) = takenSizes 0 ((rxRing cb
      d.amRdrRdra d.amRdrRlen (rxTmp d w.stack databuf len) (len + 4) d 0 true).trace w) := by
    rw [htrace]
    rfl
  have hbytes : copiedBytes ((gotfunc cb databuf len d).trace w) =
      bufTake (rxTmp d w.stack databuf len)
        (takenSizes 0 ((gotfunc cb databuf len d).trace w)).sum := by
    rw [hsizes, htrace]
    exact hcopied
  have hfits : (takenSizes 0 ((gotfunc cb databuf len d).trace w)).sum ≤ len + 4 ↔
      RoomFits databuf len d w := by
    have hsum := takenSizes_le_iff cb d.amRdrRdra d.amRdrRlen (rxTmp d w.stack databuf len)
      (len + 4) d (Nat.succ_pos _) true 0 w
    rwa [Nat.zero_add, ← hsizes] at hsum
  constructor
  · rintro ⟨hin, hroom⟩
    rw [← hfits] at hroom
    refine ⟨?_, _, hroom, hbytes⟩
    intro stack' _
    have hlen : 20 ≤ len := htakes.2.1
    have hframe := rxFrame_agree hlen hin stack' w.stack
    have htakes' : rxTakes d stack' databuf len := by
      refine ⟨htakes.1, hlen, htakes.2.2.1, ?_⟩
      rw [rxAccepts_agree fun i hi => hframe i (by omega)]
      exact htakes.2.2.2
    have hexec' := (gotfunc_taken (w := { w with stack := stack' }) cb htakes').1
    rw [hexec', hexec]
    apply rxRing_ram_agree
    · rfl
    · intro i hi
      rw [← hsizes] at hi
      exact appendFcs_agree hframe i (Nat.lt_of_lt_of_le hi hroom)
  · rintro ⟨-, n, hn, hfew⟩
    have hlength := congrArg List.length (hbytes.symm.trans hfew)
    simp only [bufTake, List.length_map, List.length_range] at hlength
    rw [← hfits, hlength]
    exact hn

/-- The receiver on, one receive descriptor at offset 0. -/
def rxOne : Daemon := { (registersReset .boot).csr0Set CSR0.RXON with amRdrRlen := 1 }

/-- That descriptor owned by the chip, its buffer of `65536 - rmd2` bytes at
0x1000. -/
def rxOneWorld (rmd2 : U16) : World := .holding [(0, 0x1000), (2, 0x8000), (4, rmd2)]

/-- A buffer of 24 bytes holds the frame and its FCS. -/
theorem received_confined_exact :
    Confined .null (fun _ => 0xFF) 20 rxOne (rxOneWorld 0xFFE8) :=
  (received_confined .null _ 20 rxOne (rxOneWorld 0xFFE8)
    ⟨by decide, by decide, by decide, by decide +kernel⟩).1
    ⟨.inr (by decide), .last (by decide +kernel) (by decide +kernel)⟩

/-- In a buffer of 25 bytes the host finds a byte of the stack. -/
theorem received_stack_byte : ¬ ∀ (cb : Callback) (databuf : Buf) (len : Nat) (d : Daemon)
    (w : World), 20 ≤ len → len ≤ 4092 → rxTakes d w.stack databuf len →
    Confined cb databuf len d w := by
  intro h
  have hram := (h .null (fun _ => 0xFF) 20 rxOne (rxOneWorld 0xFFE7) (by decide) (by decide)
    ⟨by decide, by decide, by decide, by decide +kernel⟩).1
    (fun i => if i < 20 then 0 else 0xAA) (fun i hi => if_pos hi)
  have hbyte := congrArg (fun ram : Boardram => ram.getRamByte 0x1018) hram
  revert hbyte
  decide +kernel

end A2065
