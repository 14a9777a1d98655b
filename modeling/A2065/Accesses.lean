import A2065.InitBlock

/-!
# What a call accesses

The registers, the walkers and the accessors store to no slot: whatever of
this kind happens in a call is done by the callbacks. The words they access
are those of the descriptors of the two rings and of the init block. So a
property of traces that composes, holds of accesses to these words and of
every other effect, and holds of what the callbacks do, holds of every call.
-/

namespace A2065

open Bits

/-- Everything but a store to a slot, words only where `words` says. -/
def Eff.IsPlain (words : U32 → Prop) : Eff → Prop
  | .getWord base disp | .putWord base disp _ => words (base + disp)
  | .wr64 _ _ => False
  | _ => True

/-- A property of traces that composes and holds of plain effects. -/
structure Admits (words : U32 → Prop) (T : List DEvent → Prop) : Prop
    extends Prog.Composes T where
  plain : ∀ ev : DEvent, ev.op.IsPlain words → T [ev]

/-- The words of a descriptor or of the init block. -/
def BlockAt (words : U32 → Prop) (base : U32) : Prop :=
  ∀ disp : U32, disp.getLsbD 0 = false → words (base + disp)

/-- The words a daemon accesses. -/
structure Covers (words : U32 → Prop) (d : Daemon) : Prop where
  rdr : ∀ i, BlockAt words (descOff d.amRdrRdra i)
  tdr : ∀ i, BlockAt words (descOff d.amTdrTdra i)
  init : BlockAt words d.initBlock

/-- Any word at all. -/
def anyWord (_ : U32) : Prop := True

theorem covers_anyWord (d : Daemon) : Covers anyWord d :=
  ⟨fun _ _ _ => trivial, fun _ _ _ => trivial, fun _ _ => trivial⟩

theorem Covers.frame {words : U32 → Prop} {d d' : Daemon} (h : Covers words d)
    (hf : RingFrame d d') : Covers words d' where
  rdr := by rw [hf.amRdrRdra]; exact h.rdr
  tdr := by rw [hf.amTdrTdra]; exact h.tdr
  init := by
    rw [Daemon.initBlock, hf.csr 1 (by decide), hf.csr 2 (by decide)]
    exact h.init

/-- A property of effects that plain ones have. -/
theorem admits_forall {words : U32 → Prop} {ok : Eff → Prop} (h : ∀ e, e.IsPlain words → ok e) :
    Admits words fun tr => ∀ ev ∈ tr, ok ev.op where
  nil := nofun
  append ha hb ev hev := (List.mem_append.mp hev).elim (ha ev) (hb ev)
  plain ev hev := List.forall_mem_singleton.mpr (h ev.op hev)

section Calls

variable {words : U32 → Prop} {T : List DEvent → Prop} (hT : Admits words T)

include hT

theorem Admits.perform {e : Eff} (he : e.IsPlain words) :
    (Prog.perform e : DProg e.Ans).Traces T := .perform fun r => hT.plain ⟨e, r⟩ he

/-- The words of a block, read or stored. -/
theorem Admits.load {base : U32} (hb : BlockAt words base) {disp : U32}
    (hdisp : disp.getLsbD 0 = false) : (getRamWord base disp).Traces T :=
  hT.perform (e := .getWord base disp) (hb disp hdisp)

theorem Admits.store {base : U32} (hb : BlockAt words base) {disp : U32}
    (hdisp : disp.getLsbD 0 = false) (v : U16) : (putRamWord base disp v).Traces T :=
  hT.perform (e := .putWord base disp v) (hb disp hdisp)

theorem ramReadBlock_traces (off : U32) (n : Nat) : (ramReadBlock off n).Traces T := by
  induction n with
  | zero => exact hT.pure _
  | succ n ih => exact hT.bind ih fun _ => hT.bind (hT.perform trivial) fun _ => hT.pure _

theorem ramWriteBlock_traces (off : U32) (src : Buf) (n : Nat) :
    (ramWriteBlock off src n).Traces T := by
  induction n with
  | zero => exact hT.pure _
  | succ n ih => exact hT.bind ih fun _ => hT.perform trivial

theorem chipInit_traces {d : Daemon} (hd : Covers words d) : (chipInit d).Traces T := by
  unfold chipInit
  iterate 9 refine hT.bind (hT.load hd.init rfl) fun _ => ?_
  iterate 6 refine hT.bind (hT.perform trivial) fun _ => ?_
  exact hT.pure _

theorem csr0Command_traces (oreg : U16) {d : Daemon} (hd : Covers words d) :
    (csr0Command oreg d).Traces T := by
  unfold csr0Command
  split
  · exact hT.pure _
  split
  · simp only
    split
    · exact hT.bind (chipInit_traces hT (hd.frame (startEngines_frame d))) fun _ => hT.pure _
    · exact hT.pure _
  split
  · exact hT.bind (chipInit_traces hT hd) fun _ => hT.pure _
  · exact hT.pure _

variable {cb : Callback} (hcb : ∀ d, (cb.call d).Traces T)

include hcb

theorem rethink_traces (d : Daemon) : (rethink cb d).Traces T := by
  unfold rethink
  simp only
  split
  · exact hT.bind (hcb _) fun _ => hT.pure _
  · exact hT.pure _

theorem rxRing_traces {rdra : U32} (hring : ∀ i, BlockAt words (descOff rdra i)) (rlen : U32)
    (tmp : Buf) (len : Nat) (d : Daemon) (insize : Nat) (first : Bool) :
    (rxRing cb rdra rlen tmp len d insize first).Traces T := by
  -- induction on the bytes still to store, the measure of the loop
  induction hn : len - insize using Nat.strong_induction_on generalizing d insize first with
  | _ n ih =>
      rw [rxRing]
      refine hT.bind (hT.load (hring _) rfl) fun _ =>
        hT.bind (hT.load (hring _) rfl) fun _ => hT.bind (hT.load (hring _) rfl) fun rmd2 =>
          hT.bind (hT.load (hring _) rfl) fun _ => ?_
      simp only
      split
      · exact hT.bind (hT.store (hring _) rfl _) fun _ =>
          hT.bind (rethink_traces hT hcb _) fun _ => hT.pure _
      refine hT.bind (ramWriteBlock_traces hT _ _ _) fun _ => ?_
      split
      · exact hT.bind (hT.store (hring _) rfl _) fun _ =>
          hT.bind (hT.store (hring _) rfl _) fun _ =>
            hT.bind (rethink_traces hT hcb _) fun _ => hT.pure _
      · have hpos := byteCount_pos rmd2
        exact hT.bind (hT.store (hring _) rfl _) fun _ =>
          hT.bind (hT.store (hring _) rfl _) fun _ => ih _ (by omega) _ _ _ rfl

theorem gotfunc_traces (databuf : Buf) (len : Nat) {d : Daemon} (hd : Covers words d) :
    (gotfunc cb databuf len d).Traces T := by
  unfold gotfunc
  split
  · exact hT.pure _
  split
  · exact hT.pure _
  split
  · exact hT.pure _
  refine hT.bind (hT.perform trivial) fun stack => ?_
  simp only
  split
  · exact hT.pure _
  · exact rxRing_traces hT hcb hd.rdr _ _ _ d 0 true

omit hcb in
theorem txScan_traces {tdra : U32} (hring : ∀ i, BlockAt words (descOff tdra i))
    (tlen start : U32) : (txScan tdra tlen start).Traces T := by
  have hfrom : ∀ (n i : Nat) (tmd1 : U16) (offset : U32),
      (txScanFrom tdra tlen start i tmd1 offset n).Traces T := by
    intro n
    induction n with
    | zero => exact fun _ _ _ => hT.pure _
    | succ n ih =>
        intro i tmd1 offset
        rw [txScanFrom]
        refine hT.bind (hT.load (hring _) rfl) fun _ => ?_
        split
        · exact hT.pure _
        · exact ih _ _ _
  unfold txScan
  refine hT.bind (hT.load (hring _) rfl) fun _ => ?_
  split
  · exact hT.pure _
  · exact hfrom _ _ _ _

omit hcb in
/-- The walk ends at a descriptor of the ring. -/
theorem txChain_traces {tdra : U32} (hring : ∀ i, BlockAt words (descOff tdra i)) (tlen : U32)
    (d : Daemon) (outsize : Nat) : (txChain tdra tlen d outsize).Traces T ∧
      (txChain tdra tlen d outsize).Always fun r => BlockAt words r.1.off := by
  -- induction on the room left in `transmitbuffer`, the measure of the loop
  induction hn : MAX_PACKET_SIZE + 1 - outsize using Nat.strong_induction_on
    generalizing d outsize with
  | _ n ih =>
      rw [txChain]
      have hnext : ∀ (tmd1 : U16) (tmd2 : U16) (bytes : List U8),
          ¬ outsize + min (byteCount tmd2) MAX_PACKET_SIZE > MAX_PACKET_SIZE →
          MAX_PACKET_SIZE + 1 - (txPad { d with
            tdrOffset := d.tdrOffset % tlen
            transmitbuffer := bufWrite d.transmitbuffer outsize bytes } tmd1
            (outsize + min (byteCount tmd2) MAX_PACKET_SIZE)).2 < n := by
        intro tmd1 tmd2 bytes hroom
        have hpad := le_txPad { d with
          tdrOffset := d.tdrOffset % tlen
          transmitbuffer := bufWrite d.transmitbuffer outsize bytes } tmd1
          (outsize + min (byteCount tmd2) MAX_PACKET_SIZE)
        have hpos := byteCount_pos tmd2
        have hmax : 0 < MAX_PACKET_SIZE := by decide
        omega
      constructor
      · refine hT.bind (hT.load (hring _) rfl) fun _ =>
          hT.bind (hT.load (hring _) rfl) fun tmd1 => hT.bind (hT.load (hring _) rfl) fun tmd2 =>
            hT.bind (hT.load (hring _) rfl) fun _ => ?_
        simp only
        split
        · exact hT.bind (hT.store (hring _) rfl _) fun _ =>
            hT.bind (hT.store (hring _) rfl _) fun _ => hT.pure _
        split
        · exact hT.bind (hT.store (hring _) rfl _) fun _ =>
            hT.bind (hT.store (hring _) rfl _) fun _ => hT.pure _
        rename_i hroom
        refine hT.bind (ramReadBlock_traces hT _ _) fun bytes => ?_
        split
        · exact hT.pure _
        · exact hT.bind (hT.store (hring _) rfl _) fun _ =>
            hT.bind (hT.store (hring _) rfl _) fun _ => (ih _ (hnext _ _ _ hroom) _ _ rfl).1
      · refine .bind_any fun _ => .bind_any fun tmd1 => .bind_any fun tmd2 => .bind_any fun _ => ?_
        simp only
        split
        · exact .bind_any fun _ => .bind_any fun _ => .pure (hring _)
        split
        · exact .bind_any fun _ => .bind_any fun _ => .pure (hring _)
        rename_i hroom
        refine .bind_any fun bytes => ?_
        split
        · exact .pure (hring _)
        · exact .bind_any fun _ => .bind_any fun _ => (ih _ (hnext _ _ _ hroom) _ _ rfl).2

theorem txFinish_traces (addFcs : Bool) {t : TxWalk} (ht : BlockAt words t.off) {d : Daemon}
    (hd : Covers words d) : (txFinish cb addFcs t d).Traces T := by
  have hmark : ∀ (disp disp' : U32) (v v' : U16) (a : Daemon), disp.getLsbD 0 = false →
      disp'.getLsbD 0 = false → (do
        putRamWord t.off disp v
        putRamWord t.off disp' v'
        pure a : DProg Daemon).Traces T :=
    fun _ _ _ _ _ h h' => hT.bind (hT.store ht h _) fun _ => hT.bind (hT.store ht h' _) fun _ =>
      hT.pure _
  unfold txFinish
  split
  · exact hT.pure _
  split
  · exact hmark _ _ _ _ _ rfl rfl
  split
  · unfold txLoop
    split
    · exact hmark _ _ _ _ _ rfl rfl
    · exact hT.bind (hT.store ht rfl _) fun _ => hT.bind (hT.store ht rfl _) fun _ =>
        hT.bind (gotfunc_traces hT hcb _ _ hd) fun _ => hT.pure _
  · unfold txWire
    simp only
    split
    · exact hmark _ _ _ _ _ rfl rfl
    · exact hT.bind (hT.store ht rfl _) fun _ => hT.bind (hT.store ht rfl _) fun _ =>
        hT.bind (hT.perform trivial) fun _ => hT.pure _

theorem doTransmit_traces {d : Daemon} (hd : Covers words d) : (doTransmit cb d).Traces T := by
  unfold doTransmit
  split
  · exact hT.pure _
  split
  · exact hT.pure _
  refine hT.bind (txScan_traces hT hd.tdr _ _) fun s => ?_
  simp only
  split
  · exact hT.pure _
  obtain ⟨htraces, hoff⟩ := txChain_traces hT hd.tdr d.amTdrTlen { d with tdrOffset := s.2 } 0
  have hframe := txChain_effect d.amTdrTdra d.amTdrTlen d { d with tdrOffset := s.2 } 0
    ((RingFrame.refl d).cursors _ _ _) rfl
  refine hT.bind_of htraces (hoff.and hframe) fun r hr => ?_
  exact hT.bind (txFinish_traces hT hcb _ hr.1 (hd.frame hr.2.1)) fun _ =>
    hT.bind (rethink_traces hT hcb _) fun _ => hT.pure _

/-- A register write may change the configuration before it transmits. -/
theorem chipWput_traces {onTransmit : Daemon → DProg Daemon}
    (ht : ∀ d, Covers words d → (onTransmit d).Traces T) (regOffset : U8) (v : U16) {d : Daemon}
    (hd : Covers words d)
    (hinit : ∀ oreg c, (csr0Command oreg (d.setCsr 0 c)).Always (Covers words)) :
    (chipWput cb onTransmit regOffset v d).Traces T := by
  unfold chipWput
  split
  · exact hT.pure _
  split
  · exact hT.pure _
  split
  · have hmerged := hd.frame ((RingFrame.refl d).setCsr0 (csr0Merge d.csr0 v))
    refine hT.bind_of (csr0Command_traces hT _ hmerged) (hinit _ _) fun d₁ hd₁ =>
      hT.bind ?_ fun d => rethink_traces hT hcb d
    unfold csr0Demand
    split
    · split
      · refine hT.bind (ht _ ?_) fun _ => hT.pure _
        split
        · exact hd₁
        · exact hd₁.frame (startEngines_frame d₁)
      · exact hT.pure _
    · exact hT.pure _
  · exact hT.pure _

/-- Every operation of a daemon. -/
theorem Op.traces (o : Op) {W : Wiring} (hW : W.onInterrupt = cb)
    (hafter : ∀ n d, ((W.afterTransmit n).call d).Traces T) {d : Daemon} (hd : Covers words d)
    (hinit : ∀ oreg c, (csr0Command oreg (d.setCsr 0 c)).Always (Covers words)) :
    (o.prog W d).Traces T := by
  subst hW
  cases o with
  | wput regOffset v =>
      refine chipWput_traces hT hcb (fun d hd => ?_) regOffset v hd hinit
      exact hT.bind (doTransmit_traces hT hcb hd) fun r => hT.bind (hafter _ _) fun _ => hT.pure _
  | transmit => exact hT.bind (doTransmit_traces hT hcb hd) fun _ => hT.pure _
  | recv databuf len => exact hT.bind (gotfunc_traces hT hcb databuf len hd) fun _ => hT.pure _

end Calls

/-! ## Whole calls of the callbacks -/

/-- What an event stores. -/
def storeSlot (m : Nat → U64) (ev : DEvent) : Nat → U64 :=
  match ev.op with
  | .wr64 off v => Function.update m off v
  | _ => m

theorem slots_exec {α : Type} (p : DProg α) (w : World) :
    (p.exec w).2.slots = (p.trace w).foldl storeSlot w.slots := by
  induction p generalizing w with
  | pure a => rfl
  | op e k ih =>
      have hstore : (World.handle e w).2.slots =
          storeSlot w.slots ⟨e, (World.handle e w).1⟩ := by
        cases e <;> rfl
      refine (ih _ _).trans ?_
      rw [hstore]
      rfl

/-- The stores to slots are those of the calls `bs`, each made as a whole. -/
inductive Calls (bs : List (List DEvent)) : List DEvent → Prop where
  | nil : Calls bs []
  | plain {ev : DEvent} {tr : List DEvent} (h : ev.op.IsPlain anyWord) (ht : Calls bs tr) :
      Calls bs (ev :: tr)
  | call {b tr : List DEvent} (h : b ∈ bs) (ht : Calls bs tr) : Calls bs (b ++ tr)

theorem admits_calls (bs : List (List DEvent)) : Admits anyWord (Calls bs) where
  nil := .nil
  append ha hb := by
    induction ha with
    | nil => exact hb
    | plain h _ ih => exact .plain h ih
    | call h _ ih =>
        rw [List.append_assoc]
        exact .call h ih
  plain _ h := .plain h .nil

variable {bs : List (List DEvent)} {P : (Nat → U64) → Prop}
  (hb : ∀ b ∈ bs, ∀ m, P m → P (b.foldl storeSlot m))

include hb

theorem Calls.foldl {tr : List DEvent} (h : Calls bs tr) {m : Nat → U64} (hm : P m) :
    P (tr.foldl storeSlot m) := by
  induction h generalizing m with
  | nil => exact hm
  | @plain ev tr h _ ih =>
      obtain ⟨op, ans⟩ := ev
      have hsame : storeSlot m ⟨op, ans⟩ = m := by
        cases op with
        | wr64 off v => exact h.elim
        | _ => rfl
      rw [List.foldl_cons, hsame]
      exact ih hm
  | call h _ ih =>
      rw [List.foldl_append]
      exact ih (hb _ h m hm)

/-- What every call keeps of the slots, the program keeps. -/
theorem Calls.keep {α : Type} {p : DProg α} (hp : p.Traces (Calls bs)) {w : World}
    (hw : P w.slots) : P (p.exec w).2.slots := by
  rw [slots_exec]
  exact Calls.foldl hb (hp _ _ (Prog.runs_exec World.handle p w)) hw

end A2065
