import A2065.Accesses
import A2065.BoardramRemote
import A2065.CsrInvariant
import A2065.MacBytes

/-!
# The two builds of the daemon

`registers.cpp` and `rings.cpp` are compiled with and without
`BOARDRAM_REMOTE`. The accessors of the two builds agree as long as words are
at even offsets. Whether they are is for the registers to say: CSR1 cannot be
made odd and `chip_init` aligns the ring pointers, but CSR24 and CSR30 take
what is written. Without odd values there, the same operations lead to the
same registers, boardram, slots and frames in both builds, in every run.

The transfers of the remote build all complete here.
-/

namespace A2065

open Bits CyclicMem

/-! ## Words at even offsets -/

/-- The word does not straddle two words of the adapter. -/
def evenWord (off : U32) : Prop := off.getLsbD 0 = false

theorem getLsbD_zero_iff {w : Nat} (a : BitVec w) : a.getLsbD 0 = false ↔ a.toNat % 2 = 0 := by
  rw [← BitVec.testBit_toNat, Nat.testBit_zero, decide_eq_false_iff_not]
  omega

theorem evenWord_add {a b : U32} (ha : evenWord a) (hb : evenWord b) : evenWord (a + b) := by
  rw [evenWord, getLsbD_zero_iff] at ha hb ⊢
  rw [BitVec.toNat_add]
  omega

theorem evenWord_descOff {base : U32} (h : evenWord base) (i : U32) :
    evenWord (descOff base i) := by
  refine evenWord_add h ?_
  rw [evenWord, getLsbD_zero_iff, BitVec.toNat_mul]
  have height : (8 : U32).toNat = 8 := rfl
  rw [height]
  omega

/-- The pointers of a daemon are even. -/
structure EvenPointers (d : Daemon) : Prop where
  csr1 : (d.csr 1).getLsbD 0 = false
  rdra : evenWord d.amRdrRdra
  tdra : evenWord d.amTdrTdra

namespace EvenPointers

variable {d : Daemon}

theorem covers (h : EvenPointers d) : Covers evenWord d where
  rdr i _ hdisp := evenWord_add (evenWord_descOff h.rdra i) hdisp
  tdr i _ hdisp := evenWord_add (evenWord_descOff h.tdra i) hdisp
  init _ hdisp := by
    refine evenWord_add ?_ hdisp
    simp only [evenWord, Daemon.initBlock, BitVec.getLsbD_and, BitVec.getLsbD_or,
      BitVec.getLsbD_shiftLeft, BitVec.getLsbD_setWidth, h.csr1]
    simp

theorem frame {d' : Daemon} (h : EvenPointers d) (hf : RingFrame d d') : EvenPointers d' where
  csr1 := by rw [hf.csr 1 (by decide)]; exact h.csr1
  rdra := by rw [hf.amRdrRdra]; exact h.rdra
  tdra := by rw [hf.amTdrTdra]; exact h.tdra

theorem setCsr0 (h : EvenPointers d) (c : U16) : EvenPointers (d.setCsr 0 c) :=
  h.frame ((RingFrame.refl d).setCsr0 c)

/-- `chip_init_mask` keeps the last bit. -/
theorem mask {rdra tdra : U32} (h : EvenPointers d) (hr : evenWord rdra) (ht : evenWord tdra) :
    EvenPointers (chipInitMask { d with amRdrRdra := rdra, amTdrTdra := tdra }) := by
  refine ⟨h.csr1, ?_, ?_⟩
  · simp only [evenWord, chipInitMask, BitVec.getLsbD_and] at hr ⊢
    rw [hr, Bool.false_and]
  · simp only [evenWord, chipInitMask, BitVec.getLsbD_and] at ht ⊢
    rw [ht, Bool.false_and]

/-- `chip_init` aligns what it loads. -/
theorem chipInit (h : EvenPointers d) : (chipInit d).Always EvenPointers := by
  have haligned : ∀ a : U32, evenWord (a &&& 0x00fffff8) := by
    intro a
    simp only [evenWord, BitVec.getLsbD_and]
    exact Bool.and_false _
  unfold A2065.chipInit
  refine .bind_any fun _ => .bind_any fun _ => .bind_any fun _ => .bind_any fun _ =>
    .bind_any fun _ => .bind_any fun _ => .bind_any fun _ => .bind_any fun _ =>
    .bind_any fun _ => .bind_any fun _ => .bind_any fun _ => .bind_any fun _ =>
    .bind_any fun _ => .bind_any fun _ => .bind_any fun _ => .pure ?_
  obtain ⟨-, hr, ht⟩ := h.mask (haligned _) (haligned _)
  exact ⟨h.csr1, hr, ht⟩

theorem csr0Command (oreg : U16) (h : EvenPointers d) :
    (csr0Command oreg d).Always EvenPointers := by
  have hstop : ∀ {d : Daemon}, EvenPointers d → EvenPointers (d.setCsr 3 0) := fun h =>
    ⟨h.csr1, h.rdra, h.tdra⟩
  have hinit : ∀ {d : Daemon}, EvenPointers d → EvenPointers { d with amInitialized := true } :=
    fun h => ⟨h.csr1, h.rdra, h.tdra⟩
  unfold A2065.csr0Command
  split
  · exact .pure (hstop (h.setCsr0 _))
  split
  · simp only
    split
    · exact .bind (h.frame (startEngines_frame d)).chipInit fun d₁ h₁ =>
        .pure (hinit (h₁.setCsr0 _))
    · exact .pure (h.frame (startEngines_frame d))
  split
  · exact .bind h.chipInit fun d₁ h₁ => .pure (hstop (hinit ((h₁.setCsr0 _).setCsr0 _)))
  · exact .pure h

/-- The other registers, CSR24 and CSR30 with even values. -/
theorem wputOther {v : U16} (h : EvenPointers d)
    (hv : d.rap = 24 ∨ d.rap = 30 → v.getLsbD 0 = false) : EvenPointers (wputOther v d) := by
  have hlow : ∀ {a : U32}, v.getLsbD 0 = false →
      evenWord (a &&& 0xffff0000#32 ||| v.setWidth 32) := by
    intro a hv
    simp only [evenWord, BitVec.getLsbD_or, BitVec.getLsbD_and, BitVec.getLsbD_setWidth, hv]
    simp
  have hhigh : ∀ {a : U32}, evenWord a →
      evenWord (a &&& 0x0000ffff#32 ||| v.setWidth 32 <<< 16) := by
    intro a ha
    simp only [evenWord, BitVec.getLsbD_or, BitVec.getLsbD_and, BitVec.getLsbD_shiftLeft] at ha ⊢
    rw [ha]
    simp
  have hrap : ∀ {n : Nat} (r : U8), r.toNat = n → d.rap.toNat = n → d.rap = r :=
    fun r hr hn => BitVec.eq_of_toNat_eq (hn.trans hr.symm)
  unfold A2065.wputOther
  split
  case h_1 =>
    split
    · refine ⟨?_, h.rdra, h.tdra⟩
      show (v &&& ~~~ 1).getLsbD 0 = false
      simp
    · exact h
  case h_2 | h_3 => split <;> exact ⟨h.csr1, h.rdra, h.tdra⟩
  case h_12 heq => exact h.mask (hlow (hv (.inl (hrap 24 rfl heq)))) h.tdra
  case h_13 => exact h.mask (hhigh h.rdra) h.tdra
  case h_14 heq => exact h.mask h.rdra (hlow (hv (.inr (hrap 30 rfl heq))))
  case h_15 => exact h.mask h.rdra (hhigh h.tdra)
  case h_18 =>
    split
    · rename_i hn
      have hcsr1 : (d.setCsr d.rap.toNat v).csr 1 = d.csr 1 :=
        Function.update_of_ne (by omega) _ _
      refine ⟨?_, h.rdra, h.tdra⟩
      rw [hcsr1]
      exact h.csr1
    · exact h
  all_goals exact ⟨h.csr1, h.rdra, h.tdra⟩

theorem wputCsr0 (W : Wiring) (v : U16) (h : EvenPointers d) :
    (wputCsr0 W.onInterrupt W.onTransmit v d).Always EvenPointers := by
  refine .bind ((h.setCsr0 _).csr0Command _) fun d₁ h₁ =>
    .bind (csr0Demand_step W d₁) fun d₂ h₂ => (rethink_always _ d₂).mono fun d₃ h₃ => ?_
  subst h₃
  refine setCsr0 ?_ _
  cases h₂ with
  | none => exact h₁
  | ignored => exact h₁.setCsr0 _
  | sent ht =>
      refine (EvenPointers.frame ?_ ht.frame).setCsr0 _
      split
      · exact h₁
      · exact h₁.frame (startEngines_frame d₁)

end EvenPointers

/-- No odd value goes to CSR24 or CSR30. -/
def Move.SparesOdd (m : Move) (s : Sys) : Prop :=
  ∀ v ∈ m.rdpWrite, s.1.rap = 24 ∨ s.1.rap = 30 → v.getLsbD 0 = false

theorem EvenPointers.op (W : Wiring) {o : Op} {d : Daemon} {w : World} (h : EvenPointers d)
    (hspares : (Move.op o).SparesOdd (d, w)) : (o.prog W d).Always EvenPointers := by
  cases o with
  | wput regOffset v =>
      show (chipWput W.onInterrupt W.onTransmit regOffset v d).Always EvenPointers
      unfold chipWput
      split
      · exact .pure ⟨h.csr1, h.rdra, h.tdra⟩
      rename_i hrdp
      split
      · exact .pure h
      split
      · exact h.wputCsr0 W v
      · refine .pure (h.wputOther (hspares v ?_))
        simp [Move.rdpWrite, hrdp]
  | transmit => exact .bind (doTransmit_effect _ d) fun r hr => .pure (h.frame hr.frame)
  | recv databuf len =>
      exact .bind (gotfunc_effect _ databuf len d) fun r hr => .pure (h.frame hr.frame)

/-! ## A daemon over other accessors -/

/-- What the daemon shares, boardram being reached in another way. -/
structure WorldOver (σ : Type) where
  ram : σ
  slots : Nat → U64
  wire : List (List U8)
  stack : Buf

section Builds

variable {σ : Type} (A : Accessors σ)

/-- The effect of one access with the accessors `A`. -/
def WorldOver.handle : (e : Eff) → WorldOver σ → e.Ans × WorldOver σ
  | .getByte off, w => ((A.getRamByte off w.ram).1, { w with ram := (A.getRamByte off w.ram).2 })
  | .getWord base disp, w =>
      ((A.getRamWord (base + disp) w.ram).1, { w with ram := (A.getRamWord (base + disp) w.ram).2 })
  | .putByte off v, w => ((), { w with ram := A.putRamByte off v w.ram })
  | .putWord base disp v, w => ((), { w with ram := A.putRamWord (base + disp) v w.ram })
  | .wr64 off v, w => ((), { w with slots := Function.update w.slots off v })
  | .ethernetSend frame, w => ((), { w with wire := w.wire ++ [frame] })
  | .uninit, w => (w.stack, w)

/-- A move of the other build. The host stores the same bytes, `load` is how
they are kept there. -/
def Move.applyOver (load : PlainRam → σ) (W : Wiring) (s : Daemon × WorldOver σ) :
    Move → Daemon × WorldOver σ
  | .op o => Prog.exec (WorldOver.handle A) (o.prog W s.1) s.2
  | .host ram stack => (s.1, { s.2 with ram := load ram.mem, stack := stack })

/-- The moves in turn, over accessors `A`. -/
def runOver (load : PlainRam → σ) (W : Wiring) (moves : List Move) (s : Daemon × WorldOver σ) :
    Daemon × WorldOver σ := moves.foldl (Move.applyOver A load W) s

/-- Seen through `view`, boardram is the same, and so is everything else. -/
structure SameWorld (view : σ → PlainRam) (w : World) (t : WorldOver σ) : Prop where
  ram : view t.ram = w.ram.mem
  slots : t.slots = w.slots
  wire : t.wire = w.wire
  stack : t.stack = w.stack

/-- Words at even offsets. -/
def Eff.Aligned : Eff → Prop
  | .getWord base disp | .putWord base disp _ => evenWord (base + disp)
  | _ => True

variable {A} {view : σ → PlainRam}

theorem Refines.sameWorld_handle (hA : Refines A view) (e : Eff) (w : World) (t : WorldOver σ)
    (he : e.Aligned) (h : SameWorld view w t) :
    (WorldOver.handle A e t).1 = (World.handle e w).1 ∧
      SameWorld view (World.handle e w).2 (WorldOver.handle A e t).2 := by
  obtain ⟨hram, hslots, hwire, hstack⟩ := h
  cases e with
  | getByte off =>
      obtain ⟨hans, hkept⟩ := hA.getByte off t.ram
      refine ⟨?_, hkept.trans hram, hslots, hwire, hstack⟩
      exact hans.trans ((congrFun hram _).trans (w.ram.getRamByte_eq off).symm)
  | getWord base disp =>
      obtain ⟨hans, hkept⟩ := hA.getWord (base + disp) t.ram he
      refine ⟨?_, hkept.trans hram, hslots, hwire, hstack⟩
      refine hans.trans (Eq.trans ?_ (w.ram.getRamWord_eq (base + disp)).symm)
      rw [hram]
  | putByte off v =>
      refine ⟨rfl, ?_, hslots, hwire, hstack⟩
      refine (hA.putByte off v t.ram).trans (Eq.trans ?_ (w.ram.mem_putRamByte off v).symm)
      rw [hram]
  | putWord base disp v =>
      refine ⟨rfl, ?_, hslots, hwire, hstack⟩
      refine (hA.putWord (base + disp) v t.ram he).trans
        (Eq.trans ?_ (w.ram.mem_putRamWord (base + disp) v).symm)
      rw [hram]
  | wr64 off v =>
      have hstore := congrArg (fun m : Nat → U64 => Function.update m off v) hslots
      exact ⟨rfl, hram, hstore, hwire, hstack⟩
  | ethernetSend frame => exact ⟨rfl, hram, hslots, congrArg (· ++ [frame]) hwire, hstack⟩
  | uninit => exact ⟨hstack, hram, hslots, hwire, hstack⟩

/-- An operation of a daemon with even pointers accesses words at even offsets. -/
theorem EvenPointers.aligned (W : Wiring) (o : Op) {d : Daemon} (h : EvenPointers d) :
    (o.prog W d).Only Eff.Aligned := by
  have hT : Admits evenWord fun tr => ∀ ev ∈ tr, ev.op.Aligned := by
    refine admits_forall fun e he => ?_
    cases e with
    | getWord base disp => exact he
    | putWord base disp v => exact he
    | _ => trivial
  have hcb : ∀ (cb : Callback) (d : Daemon), (cb.call d).Only Eff.Aligned := by
    intro cb d tr r hr ev hev
    have hsignal := cb.signals d tr r hr ev hev
    cases hop : ev.op with
    | wr64 off v => trivial
    | _ =>
        rw [hop] at hsignal
        exact hsignal.elim
  exact o.traces hT (hcb W.onInterrupt) rfl (fun n d => hcb (W.afterTransmit n) d) h.covers
    fun oreg c => ((h.setCsr0 c).csr0Command oreg).mono fun _ h₁ => h₁.covers

/-- One move. -/
theorem Refines.sameWorld_move (hA : Refines A view) {load : PlainRam → σ}
    (hload : ∀ p, view (load p) = p) (W : Wiring) (m : Move) {s : Sys}
    {t : Daemon × WorldOver σ} (heven : EvenPointers s.1) (hd : t.1 = s.1)
    (hw : SameWorld view s.2 t.2) :
    (m.applyOver A load W t).1 = (m.apply W s).1 ∧
      SameWorld view (m.apply W s).2 (m.applyOver A load W t).2 := by
  obtain ⟨d, w⟩ := s
  obtain ⟨d', t⟩ := t
  obtain rfl : d' = d := hd
  cases m with
  | op o => exact Prog.exec_simulates World.handle hA.sameWorld_handle (heven.aligned W o) hw
  | host ram stack => exact ⟨rfl, hload ram.mem, hw.slots, hw.wire, rfl⟩

/-- Whole runs. -/
theorem Refines.sameWorld_run (hA : Refines A view) {load : PlainRam → σ}
    (hload : ∀ p, view (load p) = p) (W : Wiring) (moves : List Move) {s : Sys}
    {t : Daemon × WorldOver σ} (heven : EvenPointers s.1) (hd : t.1 = s.1)
    (hw : SameWorld view s.2 t.2) (hspares : Along W Move.SparesOdd moves s) :
    (runOver A load W moves t).1 = (runMoves W moves s).1 ∧
      SameWorld view (runMoves W moves s).2 (runOver A load W moves t).2 := by
  induction moves generalizing s t with
  | nil => exact ⟨hd, hw⟩
  | cons m moves ih =>
      obtain ⟨hd', hw'⟩ := hA.sameWorld_move hload W m heven hd hw
      refine ih ?_ hd' hw' hspares.2
      cases m with
      | op o => exact (heven.op W hspares.1).exec _ s.2
      | host ram stack => exact heven

end Builds

/-! ## The remote build -/

/-- The words of an array. -/
def WordRam.ofImage (p : PlainRam) : WordRam := fun i => wordAt p (i.setWidth 15 <<< 1)

theorem WordRam.image_ofImage (p : PlainRam) : (WordRam.ofImage p).image = p := by
  funext c
  set e : BitVec 15 := (c.extractLsb' 1 14).setWidth 15 <<< 1 with he
  have hbit : e.getLsbD 0 = false := by
    rw [he, BitVec.getLsbD_shiftLeft]
    simp
  have hword : e.extractLsb' 1 14 = c.extractLsb' 1 14 := by
    apply BitVec.eq_of_getLsbD_eq
    intro i hi
    rw [he, BitVec.getLsbD_extractLsb', BitVec.getLsbD_shiftLeft, BitVec.getLsbD_setWidth]
    simp [hi, show 1 + i < 15 by omega, show i < 15 by omega]
  rw [image_apply, ofImage, ← he, wordAt_hi, wordAt_lo]
  cases hc : c.getLsbD 0 with
  | false =>
      rw [if_neg Bool.false_ne_true]
      exact congrArg p (eq_of_word hword (hbit.trans hc.symm))
  | true =>
      obtain ⟨hnext, hodd⟩ := word_succ hbit
      rw [if_pos rfl]
      exact congrArg p (eq_of_word (hnext.trans hword) (hodd.trans hc.symm))

/-- Every run of the remote build, all transfers completing, is a run of the
flat one: the same registers, bytes of boardram, stores to the slots and
frames on the wire, as long as no odd value is written to CSR24 or CSR30. -/
theorem remote_build_agrees (W : Wiring) (fakemac macFakemac macRealmac : Mac) (w : World)
    (moves : List Move)
    (hspares : Along W Move.SparesOdd moves
      (registersReset (.bootWith fakemac macFakemac macRealmac), w)) :
    let d := registersReset (.bootWith fakemac macFakemac macRealmac)
    let s := runMoves W moves (d, w)
    let t := runOver (remote WordRam.xfer) .ofImage W moves
      (d, ⟨.ofImage w.ram.mem, w.slots, w.wire, w.stack⟩)
    t.1 = s.1 ∧ t.2.ram.image = s.2.ram.mem ∧ t.2.slots = s.2.slots ∧ t.2.wire = s.2.wire := by
  intro d s t
  have hzero : (0#16).getLsbD 0 = false ∧ evenWord 0#32 := ⟨rfl, rfl⟩
  have heven : EvenPointers d := ⟨hzero.1, hzero.2, hzero.2⟩
  obtain ⟨hd, hw⟩ := remote_refines.sameWorld_run WordRam.image_ofImage W moves
    (s := (d, w)) (t := (d, ⟨.ofImage w.ram.mem, w.slots, w.wire, w.stack⟩)) heven rfl
    ⟨WordRam.image_ofImage _, rfl, rfl, rfl⟩ hspares
  exact ⟨hd, hw.ram, hw.slots, hw.wire⟩

/-- The chip initialized, a ring placed through CSR30, a frame received. -/
def placedRing : List Move :=
  [.op (.wput A2065_RDP_OFF (CSR0.INIT ||| CSR0.STRT)), .op (.wput A2065_RAP_OFF 30),
    .op (.wput A2065_RDP_OFF 0x40), .op (.recv (fun _ => 0xFF) 60)]

theorem placedRing_spares : Along .null Move.SparesOdd placedRing
    (registersReset (.bootWith someFakemac someFakemac someRealmac), .blank) := by
  have hrap : ¬ (registersReset (.bootWith someFakemac someFakemac someRealmac)).rap = 24 ∧
      ¬ (registersReset (.bootWith someFakemac someFakemac someRealmac)).rap = 30 := by decide
  -- two of the moves write RDP: one with CSR0 selected, one an even value
  refine ⟨fun v _ hpointer => ?_, fun v hv => ?_, fun v hv _ => ?_, fun v hv => ?_, trivial⟩
  · exact absurd hpointer (not_or.mpr hrap)
  · cases hv
  · cases hv
    decide
  · cases hv

theorem remote_build_agrees_placed :
    let d := registersReset (.bootWith someFakemac someFakemac someRealmac)
    let s := runMoves .null placedRing (d, .blank)
    let t := runOver (remote WordRam.xfer) .ofImage .null placedRing
      (d, ⟨.ofImage World.blank.ram.mem, World.blank.slots, World.blank.wire, World.blank.stack⟩)
    t.1 = s.1 ∧ t.2.ram.image = s.2.ram.mem ∧ t.2.slots = s.2.slots ∧ t.2.wire = s.2.wire :=
  remote_build_agrees .null someFakemac someFakemac someRealmac .blank placedRing
    placedRing_spares

end A2065
