import A2065.FullDuplex
import A2065.Lib.Lossy
import A2065.Translation

/-!
# Two cards on one segment

Each card's driver and daemon work on their rings as in `FullDuplex`; what one
card sends reaches the other one frame at a time, after any delay. The frames
a driver reads are then those the other driver queued: in order, each at most
once and byte for byte, but for the translation of addresses at both ends,
padded and with an FCS behind them. What is missing was refused by the address
filter or found the RX ring full.

On the segment each card goes by the address its daemon has chosen, whatever
address its driver uses; so two drivers with the same station address do not
get in each other's way.
-/

namespace A2065

open Bits CyclicMem Circular

/-! ## Frames -/

/-- The bytes `do_transmit` hands to `mungepacket`. -/
def TxFrame.image (d : Daemon) (f : TxFrame) : List U8 :=
  f.padded.take (transmitlen d f.addFcs f.padded.length)

/-- What a frame of the driver is on the segment: nothing if it is for the
station itself. -/
def TxFrame.onSegment (d : Daemon) (f : TxFrame) : Option (List U8) :=
  if f.padded.take 6 = d.fakemac.toList then none
  else some (translated d.macFakemac d.macRealmac (f.image d))

/-- What a frame of the segment is in the ring. -/
def received (d : Daemon) (frame : List U8) : List U8 :=
  withFcs (translated d.macFakemac d.macRealmac frame)

/-- The address filter takes a frame of the segment. -/
def wants (d : Daemon) (frame : List U8) : Bool :=
  rxAccepts d (frameBuf (translated d.macFakemac d.macRealmac frame))

theorem RingFrame.wants_eq {d d' : Daemon} (h : RingFrame d d') (frame : List U8) :
    wants d' frame = wants d frame := by
  simp only [wants, rxAccepts, h.amMode, h.amLadrf, h.fakemac, h.macFakemac, h.macRealmac]

/-- The filter does not look at what is behind the frame. -/
theorem rxAccepts_rxFrame {d : Daemon} (hloop : tst d.amMode MODE.LOOP = false) (stack : Buf)
    {frame : List U8} (hlen : 20 ≤ frame.length) :
    rxAccepts d (rxFrame d stack (frameBuf frame) frame.length) = wants d frame := by
  have hmac : ∀ i, i = 0 ∨ i = 6 → macAt (rxFrame d stack (frameBuf frame) frame.length) i =
      macAt (frameBuf (translated d.macFakemac d.macRealmac frame)) i := by
    intro i hi
    have hcopy : macAt (fun k => if k < frame.length then frameBuf frame k else stack k) i =
        macAt (frameBuf frame) i := macAt_congr fun k _ hk => if_pos (by omega)
    rw [rxFrame, if_neg (by simp [hloop]), munge_header hlen hi, hcopy, translated,
      macAt_frameBuf_bufTake (by omega), munge_header hlen hi]
  rw [wants, Bool.eq_iff_iff, rxAccepts_eq d _ hloop, rxAccepts_eq d _ hloop, hmac 0 (.inl rfl),
    hmac 6 (.inr rfl)]

theorem TxFrame.length_image (d : Daemon) (f : TxFrame) :
    (f.image d).length = transmitlen d f.addFcs f.padded.length := by
  rw [image, List.length_take, Nat.min_eq_left (transmitlen_le ..)]

theorem TxFrame.le_length_image (d : Daemon) (f : TxFrame) : 56 ≤ (f.image d).length := by
  have hpadded := f.le_length_padded
  have hle := le_transmitlen d f.addFcs f.padded.length
  rw [length_image]
  omega

theorem TxFrame.bufTake_image (d : Daemon) {f : TxFrame} {tb : Buf}
    (h : bufTake tb f.padded.length = f.padded) :
    bufTake tb (f.image d).length = f.image d := by
  rw [length_image, image]
  conv_rhs => rw [← h]
  rw [length_bufTake, bufTake, bufTake, ← List.map_take, List.take_range,
    Nat.min_eq_left (transmitlen_le ..)]

theorem TxFrame.onSegment_eq {d : Daemon} {f : TxFrame} {frame : List U8}
    (h : frame ∈ f.onSegment d) : frame = translated d.macFakemac d.macRealmac (f.image d) := by
  unfold onSegment at h
  split at h
  · cases h
  · exact (Option.some.inj h).symm

theorem TxFrame.le_length_onSegment {d : Daemon} {f : TxFrame} {frame : List U8}
    (h : frame ∈ f.onSegment d) : 20 ≤ frame.length := by
  have hle := f.le_length_image d
  rw [onSegment_eq h, length_translated]
  omega

/-- A frame that was taken is on the segment. -/
theorem Processed.sent_eq {d : Daemon} {f : TxFrame} {o : TxOutcome} (h : Processed d f o)
    (hself : SelfContained d.macFakemac d.macRealmac (f.image d)) :
    o.sent = (f.onSegment d).toList := by
  obtain ⟨-, tb, htb, hfate⟩ := h
  have hlen := f.le_length_padded
  have hdst : macAt tb 0 = d.fakemac ↔ f.padded.take 6 = d.fakemac.toList := by
    rw [← htb, ← macAt_bufTake tb (by omega), Vector.toList_inj]
  have hwire : onWire d tb (transmitlen d f.addFcs f.padded.length) =
      translated d.macFakemac d.macRealmac (f.image d) := by
    rw [← f.length_image d]
    exact hself.onWire (f.bufTake_image d htb)
  unfold TxFrame.onSegment
  by_cases hown : macAt tb 0 = d.fakemac
  · rw [if_pos hown] at hfate
    rw [if_pos (hdst.mp hown), hfate.1]
    rfl
  · rw [if_neg hown, hwire] at hfate
    rw [if_neg fun h => hown (hdst.mpr h), hfate]
    rfl

theorem sent_processed {d : Daemon} {fs : List TxFrame} {log : List TxOutcome}
    (h : List.Forall₂ (Processed d) fs log)
    (hself : ∀ f ∈ fs, SelfContained d.macFakemac d.macRealmac (f.image d)) :
    log.flatMap TxOutcome.sent = fs.filterMap (TxFrame.onSegment d) := by
  induction h with
  | nil => rfl
  | @cons f o fs log hf _ ih =>
      have hrest := ih fun g hg => hself g (List.mem_cons_of_mem f hg)
      rw [List.flatMap_cons, hf.sent_eq (hself f List.mem_cons_self), hrest, List.filterMap_cons]
      cases f.onSegment d <;> rfl

/-! ## One card -/

/-- Nothing is ever taken off the wire. -/
theorem wire_exec {α : Type} (p : DProg α) (w : World) :
    ∃ more, (p.exec w).2.wire = w.wire ++ more := by
  induction p generalizing w with
  | pure a => exact ⟨[], (List.append_nil _).symm⟩
  | op e k ih =>
      obtain ⟨more, hmore⟩ := ih (World.handle e w).1 (World.handle e w).2
      have hhead : ∃ fs, (World.handle e w).2.wire = w.wire ++ fs := by
        cases e with
        | ethernetSend frame => exact ⟨[frame], rfl⟩
        | _ => exact ⟨[], (List.append_nil _).symm⟩
      obtain ⟨fs, hfs⟩ := hhead
      exact ⟨fs ++ more, by rw [← List.append_assoc, ← hfs]; exact hmore⟩

/-- The step is the arrival of a frame. -/
def DuplexStep.isArrival : DuplexStep → Bool
  | .rx (.recv _ _ _) | .noise _ _ _ => true
  | .rx .take | .tx _ | .csr0 _ => false

namespace Duplex

theorem wire_step (W : Wiring) (s : Duplex) (a : DuplexStep) :
    ∃ more, (s.step W a).w.wire = s.w.wire ++ more := by
  cases a with
  | rx a =>
      cases a with
      | recv databuf len stack => exact wire_exec (gotfunc W.onInterrupt databuf len s.d) _
      | take =>
          refine ⟨[], ?_⟩
          simp only [Duplex.step, putRx, RxLink.step, List.append_nil]
          split <;> rfl
  | tx a =>
      cases a with
      | transmit => exact wire_exec (doTransmit W.onInterrupt s.d) s.w
      | reap =>
          refine ⟨[], ?_⟩
          simp only [Duplex.step, putTx, TxLink.step, List.append_nil]
          split <;> rfl
      | _ => exact ⟨[], (List.append_nil _).symm⟩
  | noise databuf len stack => exact wire_exec (gotfunc W.onInterrupt databuf len s.d) _
  | csr0 v => exact wire_exec (chipWput W.onInterrupt W.onTransmit A2065_RDP_OFF v s.d) s.w

theorem kept_step (W : Wiring) (s : Duplex) {a : DuplexStep} (ha : a.isArrival = false) :
    (s.step W a).kept = s.kept := by
  cases a with
  | rx a =>
      cases a with
      | recv databuf len stack => cases ha
      | take =>
          simp only [Duplex.step, putRx, RxLink.step]
          split <;> rfl
  | tx a => rfl
  | noise databuf len stack => cases ha
  | csr0 v => rfl

/-- The call of `gotfunc` for a frame from the segment, as the step it is. -/
def arrival (s : Duplex) (frame : List U8) (stack : Buf) : DuplexStep :=
  if 20 ≤ frame.length ∧ rxAccepts s.d (rxFrame s.d stack (frameBuf frame) frame.length) then
    .rx (.recv (frameBuf frame) frame.length stack)
  else .noise (frameBuf frame) frame.length stack

/-- The call delivers the frame. -/
def delivers (W : Wiring) (s : Duplex) (frame : List U8) (stack : Buf) : Bool :=
  (s.rx.call W.onInterrupt (frameBuf frame) frame.length stack).1.1 = .delivered

/-- The frame holds what it announces. -/
def Holds (s : Duplex) (frame : List U8) : Prop :=
  SelfContained s.d.macFakemac s.d.macRealmac frame

section Arrival

variable {R : Set (BitVec 15)} {d : Daemon} {w : World} {s : Duplex} {frame : List U8}

theorem Inv.arrival_legal (h : s.Inv R d w)
    (hfit : ∀ k < s.rx.rlen, frame.length + 4 ≤ (s.rx.desc k).size) (stack : Buf) :
    s.Legal R (s.arrival frame stack) := by
  obtain ⟨q, hrx⟩ := h.rx
  have hpos := hrx.rlen_bounds.1
  unfold arrival
  split
  · rename_i hacc
    have hsize : (s.rx.desc 0).size ≤ 4096 := hrx.mem.size 0 hpos
    have hroom := hfit 0 hpos
    exact ⟨hacc.1, by omega, hacc.2, hfit⟩
  · rename_i hrefused
    by_cases hlen : frame.length < 20
    · exact .inl hlen
    · exact .inr (by simpa using fun hacc => hrefused ⟨by omega, hacc⟩)

/-- A frame is delivered if the filter takes it and the ring has room, and only
then. -/
theorem Inv.delivers_iff (h : s.Inv R d w) (W : Wiring) (hlen : 20 ≤ frame.length)
    (hfit : ∀ k < s.rx.rlen, frame.length + 4 ≤ (s.rx.desc k).size) (stack : Buf) :
    s.delivers W frame stack = true ↔ wants d frame = true ∧ ¬ s.rx.Full := by
  obtain ⟨q, hrx⟩ := h.rx
  obtain ⟨done, past, queued, htx⟩ := h.tx
  have hframe : RingFrame d s.d := htx.frame
  have hwants : rxAccepts s.d (rxFrame s.d stack (frameBuf frame) frame.length) = wants d frame :=
    (rxAccepts_rxFrame htx.conf.loop stack hlen).trans (hframe.wants_eq frame)
  rw [delivers, decide_eq_true_eq]
  cases hacc : wants d frame with
  | false =>
      have hcall : s.rx.call W.onInterrupt (frameBuf frame) frame.length stack =
          ((.dropped, s.d), { s.w with stack := stack }) :=
        h.noise_exec W.onInterrupt (.inr (hwants.trans hacc))
      simp [hcall]
  | true =>
      have hpos := hrx.rlen_bounds.1
      have hsize : (s.rx.desc 0).size ≤ 4096 := hrx.mem.size 0 hpos
      have hroom := hfit 0 hpos
      have hfits : s.rx.Fits (.recv (frameBuf frame) frame.length stack) :=
        ⟨hlen, by omega, hwants.trans hacc, hfit⟩
      rcases hrx.exit_cases W.onInterrupt hfits with ⟨hexit, hfull⟩ | ⟨hexit, hfull⟩ <;>
        simp [hexit, hfull]

/-- The card keeps the frame exactly if the call delivers it. -/
theorem Inv.arrival_kept (h : s.Inv R d w) (hself : s.Holds frame) (W : Wiring)
    (hfit : ∀ k < s.rx.rlen, frame.length + 4 ≤ (s.rx.desc k).size) (stack : Buf) :
    (s.step W (s.arrival frame stack)).kept =
      s.kept ++ if s.delivers W frame stack then [received d frame] else [] := by
  obtain ⟨q, hrx⟩ := h.rx
  obtain ⟨done, past, queued, htx⟩ := h.tx
  have hlegal := h.arrival_legal hfit stack
  unfold arrival at hlegal ⊢
  split at hlegal
  · rename_i hacc
    have hframe : RingFrame d s.d := htx.frame
    have himage : rxImage s.d stack (frameBuf frame) frame.length = received d frame := by
      rw [hself.rxImage htx.conf.loop stack, received, hframe.macFakemac, hframe.macRealmac]
    have hkept : (s.step W (.rx (.recv (frameBuf frame) frame.length stack))).kept =
        if (s.rx.call W.onInterrupt (frameBuf frame) frame.length stack).1.1 = .missed then s.kept
        else s.kept ++ [rxImage s.d stack (frameBuf frame) frame.length] := rfl
    rw [if_pos hacc, hkept, himage, delivers]
    rcases hrx.exit_cases W.onInterrupt hlegal with ⟨hexit, -⟩ | ⟨hexit, -⟩
    · rw [hexit]
      rfl
    · rw [hexit]
      exact (List.append_nil _).symm
  · rename_i hrefused
    have hexit : s.delivers W frame stack = false := by
      have hcall : s.rx.call W.onInterrupt (frameBuf frame) frame.length stack =
          ((.dropped, s.d), { s.w with stack := stack }) := h.noise_exec W.onInterrupt hlegal
      rw [delivers, hcall]
      rfl
    rw [if_neg hrefused, hexit]
    exact (List.append_nil _).symm

end Arrival

end Duplex

/-! ## The segment -/

/-- Two cards, the number of frames each had sent before, and the fates of
those that have passed to the other card since. -/
structure Lan where
  card : Bool → Duplex
  before : Bool → Nat
  fates : Bool → List Bool

/-- What can happen next on the segment. -/
inductive LanStep where
  /-- a step of one card or of its driver -/
  | card (i : Bool) (a : DuplexStep)
  /-- the next frame of card `i` reaches the other one -/
  | carry (i : Bool) (stack : Buf)

namespace Lan

/-- The frame of card `i` that is to pass next. -/
def next (l : Lan) (i : Bool) : Option (List U8) :=
  (l.card i).w.wire[l.before i + (l.fates i).length]?

/-- It reaches the other card. -/
def carried (W : Bool → Wiring) (l : Lan) (i : Bool) (stack : Buf) (frame : List U8) : Lan :=
  let s := l.card (!i)
  { l with
    card := Function.update l.card (!i) (s.step (W !i) (s.arrival frame stack))
    fates := Function.update l.fates i (l.fates i ++ [s.delivers (W !i) frame stack]) }

/-- One step. With nothing to carry, `carry` does nothing. -/
def step (W : Bool → Wiring) (l : Lan) : LanStep → Lan
  | .card i a => { l with card := Function.update l.card i ((l.card i).step (W i) a) }
  | .carry i stack => (l.next i).elim l (l.carried W i stack)

/-- The steps in turn. -/
def run (W : Bool → Wiring) (steps : List LanStep) (l : Lan) : Lan := steps.foldl (step W) l

/-- Both cards set up, nothing carried yet. What is on a wire already is not
looked at again. -/
def start (d : Bool → Daemon) (w : Bool → World) : Lan where
  card i := .start (d i) (w i)
  before i := (w i).wire.length
  fates _ := []

/-- The drivers keep to their rules, and the frames hold what they announce
and fit into the RX buffers. -/
def Legal (R : Bool → Set (BitVec 15)) (l : Lan) : LanStep → Prop
  | .card i a => a.isArrival = false ∧ (l.card i).Legal (R i) a
  | .carry i _ => ∀ frame ∈ l.next i, (l.card !i).Holds frame ∧
      ∀ k < (l.card !i).rx.rlen, frame.length + 4 ≤ ((l.card !i).rx.desc k).size

/-- The frames card `i` has sent since the start. -/
def sent (l : Lan) (i : Bool) : List (List U8) := (l.card i).w.wire.drop (l.before i)

/-- Each card is in order, and has kept what the other one sent and the fates
say. -/
structure Inv (R : Bool → Set (BitVec 15)) (d : Bool → Daemon) (w : Bool → World) (l : Lan) :
    Prop where
  card : ∀ i, (l.card i).Inv (R i) (d i) (w i)
  before : ∀ i, l.before i = (w i).wire.length
  passed : ∀ i, l.before i + (l.fates i).length ≤ (l.card i).w.wire.length
  kept : ∀ i, (l.card !i).kept = (select (l.fates i) (l.sent i)).map (received (d !i))

section Steps

variable {W : Bool → Wiring} {R : Bool → Set (BitVec 15)} {d : Bool → Daemon} {w : Bool → World}
  {l : Lan}

theorem Inv.passed_sent (h : Inv R d w l) (i : Bool) : (l.fates i).length ≤ (l.sent i).length := by
  have := h.passed i
  rw [sent, List.length_drop]
  omega

/-- More frames on the wire of card `i`. -/
theorem Inv.select_more (h : Inv R d w l) (i : Bool) (more : List (List U8)) :
    select (l.fates i) (((l.card i).w.wire ++ more).drop (l.before i)) =
      select (l.fates i) (l.sent i) := by
  have hle : l.before i ≤ (l.card i).w.wire.length := by
    have := h.passed i
    omega
  rw [List.drop_append_of_le_length hle]
  exact select_append (h.passed_sent i) more

theorem Inv.step_card (h : Inv R d w l) {j : Bool} {a : DuplexStep} (ha : a.isArrival = false)
    (hl : (l.card j).Legal (R j) a) : Inv R d w (l.step W (.card j a)) := by
  obtain ⟨more, hmore⟩ := (l.card j).wire_step (W j) a
  have hcard := (h.card j).step (W := W j) hl
  have hkept := (l.card j).kept_step (W j) ha
  refine ⟨fun i => ?_, h.before, fun i => ?_, fun i => ?_⟩
  · by_cases hij : i = j
    · subst hij
      simpa [Lan.step] using hcard
    · simpa [Lan.step, hij] using h.card i
  · by_cases hij : i = j
    · subst hij
      have := h.passed i
      simp only [Lan.step, Function.update_self, hmore, List.length_append]
      omega
    · simpa [Lan.step, hij] using h.passed i
  · have hsent : select (l.fates i) ((l.step W (.card j a)).sent i) =
        select (l.fates i) (l.sent i) := by
      by_cases hij : i = j
      · subst hij
        simp only [sent, Lan.step, Function.update_self, hmore]
        exact h.select_more i more
      · simp only [sent, Lan.step, Function.update_of_ne hij]
    have hother : ((l.step W (.card j a)).card !i).kept = (l.card !i).kept := by
      by_cases hij : (!i) = j
      · subst hij
        simpa [Lan.step] using hkept
      · simp only [Lan.step, Function.update_of_ne hij]
    rw [hother]
    exact (h.kept i).trans (congrArg (List.map (received (d !i))) hsent.symm)

theorem Inv.carried (h : Inv R d w l) {j : Bool} {frame : List U8}
    (hnext : l.next j = some frame) (hself : (l.card !j).Holds frame)
    (hfit : ∀ k < (l.card !j).rx.rlen, frame.length + 4 ≤ ((l.card !j).rx.desc k).size)
    (stack : Buf) : Inv R d w (l.carried W j stack frame) := by
  have hcard := (h.card !j).step (W := W !j) ((h.card !j).arrival_legal hfit stack)
  have hkept := (h.card !j).arrival_kept hself (W !j) hfit stack
  obtain ⟨more, hmore⟩ := (l.card !j).wire_step (W !j) ((l.card !j).arrival frame stack)
  have hne : j ≠ !j := by cases j <;> decide
  have hjust : ((l.card j).w.wire.drop (l.before j))[(l.fates j).length]? = some frame := by
    rw [List.getElem?_drop]
    exact hnext
  -- one direction gains a fate, the other one perhaps frames on the wire
  have hdir : ∀ i, i = j ∨ i = !j := by
    intro i
    cases i <;> cases j <;> decide
  refine ⟨fun i => ?_, h.before, fun i => ?_, fun i => ?_⟩
  · by_cases hij : i = !j
    · subst hij
      simpa [Lan.carried] using hcard
    · simpa [Lan.carried, hij] using h.card i
  · rcases hdir i with rfl | rfl
    · have hlt := (List.getElem?_eq_some_iff.mp hnext).1
      simp only [Lan.carried, Function.update_self, Function.update_of_ne hne,
        List.length_append, List.length_singleton]
      omega
    · have := h.passed !j
      simp only [Lan.carried, Function.update_self, Function.update_of_ne hne.symm, hmore,
        List.length_append]
      omega
  · rcases hdir i with rfl | rfl
    · simp only [Lan.carried, sent, Function.update_self, Function.update_of_ne hne]
      rw [select_snoc hjust, List.map_append, hkept, h.kept]
      cases (l.card !i).delivers (W !i) frame stack <;> rfl
    · simp only [Lan.carried, sent, Bool.not_not, Function.update_self,
        Function.update_of_ne hne, Function.update_of_ne hne.symm, hmore]
      rw [h.select_more]
      have hother := h.kept !j
      rwa [Bool.not_not] at hother

theorem Inv.step (h : Inv R d w l) {a : LanStep} (hl : l.Legal R a) :
    Inv R d w (l.step W a) := by
  cases a with
  | card i a => exact h.step_card hl.1 hl.2
  | carry i stack =>
      cases hnext : l.next i with
      | none => simpa [Lan.step, hnext] using h
      | some frame =>
          obtain ⟨hself, hfit⟩ := hl frame hnext
          simpa [Lan.step, hnext] using h.carried hnext hself hfit stack

theorem inv_start (h : ∀ i, Duplex.Ready (R i) (d i) (w i)) : Inv R d w (start d w) where
  card i := (h i).inv
  before _ := rfl
  passed _ := Nat.le_refl _
  kept i := by
    rw [show (start d w).fates i = [] from rfl, select_nil]
    rfl

/-- The frames a driver has queued hold what they announce. -/
def Queued (d : Bool → Daemon) (l : Lan) (i : Bool) : Prop :=
  ∀ f ∈ (l.card i).enqueued,
    SelfContained (d i).macFakemac (d i).macRealmac (f.image (d i))

/-- What a card has sent are the frames its driver queued, as far as they are
taken from the ring. -/
theorem Inv.sent_eq (h : Inv R d w l) {i : Bool} (hself : l.Queued d i) :
    l.sent i = ((l.card i).enqueued.take (l.card i).log.length).filterMap
      (TxFrame.onSegment (d i)) := by
  obtain ⟨done, past, queued, htx⟩ := (h.card i).tx
  have horder := htx.inOrder Callback.null
  have hwire : (l.card i).w.wire = (w i).wire ++ (l.card i).log.flatMap TxOutcome.sent :=
    horder.wire
  rw [sent, hwire, h.before, List.drop_left]
  exact sent_processed horder.processed fun f hf => hself f (List.mem_of_mem_take hf)

/-- The frames of a ring are those the other card has sent and the fates say. -/
theorem Inv.delivered_eq (h : Inv R d w l) (i : Bool) :
    (l.card !i).read ++ (l.card !i).rx.unread =
      (select (l.fates i) (l.sent i)).map (received (d !i)) := by
  obtain ⟨q, hrx⟩ := (h.card !i).rx
  have hfifo : (l.card !i).rx.IsFifo .null := hrx.isFifo
  exact hfifo.frames.trans (h.kept i)

end Steps

/-! ### Fates -/

section Fates

variable (W : Bool → Wiring) (l : Lan) (a : LanStep) (i : Bool)

/-- A step leaves the fates alone, or adds that of the frame it carries. -/
theorem fates_step : (l.step W a).fates i = l.fates i ∨ ∃ stack frame, a = .carry i stack ∧
    l.next i = some frame ∧
      (l.step W a).fates i = l.fates i ++ [(l.card !i).delivers (W !i) frame stack] := by
  cases a with
  | card j a => exact .inl rfl
  | carry j stack =>
      cases hnext : l.next j with
      | none => exact .inl (by simp [Lan.step, hnext])
      | some frame =>
          by_cases hij : i = j
          · subst hij
            exact .inr ⟨stack, frame, rfl, hnext, by simp [Lan.step, hnext, Lan.carried]⟩
          · exact .inl (by simp [Lan.step, hnext, Lan.carried, hij])

theorem before_step : (l.step W a).before = l.before := by
  cases a with
  | card j a => rfl
  | carry j stack => cases hnext : l.next j <;> simp [Lan.step, hnext, Lan.carried]

/-- A step changes one card at most, and a wire only grows. -/
theorem wire_step : ∃ more, ((l.step W a).card i).w.wire = (l.card i).w.wire ++ more := by
  cases a with
  | card j a =>
      by_cases hij : i = j
      · subst hij
        simpa [Lan.step] using (l.card i).wire_step (W i) a
      · exact ⟨[], by simp [Lan.step, hij]⟩
  | carry j stack =>
      cases hnext : l.next j with
      | none => exact ⟨[], by simp [Lan.step, hnext]⟩
      | some frame =>
          by_cases hij : i = !j
          · subst hij
            simpa [Lan.step, hnext, Lan.carried] using
              (l.card !j).wire_step (W !j) ((l.card !j).arrival frame stack)
          · exact ⟨[], by simp [Lan.step, hnext, Lan.carried, hij]⟩

/-- What was sent stays sent. -/
theorem sent_step {k : Nat} {frame : List U8} (h : (l.sent i)[k]? = some frame) :
    ((l.step W a).sent i)[k]? = some frame := by
  obtain ⟨more, hmore⟩ := wire_step W l a i
  rw [sent, List.getElem?_drop] at h ⊢
  rw [before_step, hmore, List.getElem?_append_left (List.getElem?_eq_some_iff.mp h).1, h]

end Fates

/-- Each fate was decided by the step that carried its frame. -/
theorem fates_decided (W : Bool → Wiring) (d : Bool → Daemon) (w : Bool → World) (i : Bool)
    (steps : List LanStep) {k : Nat} (hk : k < ((run W steps (.start d w)).fates i).length) :
    ∃ pre stack post frame, steps = pre ++ .carry i stack :: post ∧
      ((run W pre (.start d w)).fates i).length = k ∧
      (run W pre (.start d w)).next i = some frame ∧
      ((run W steps (.start d w)).sent i)[k]? = some frame ∧
      ((run W steps (.start d w)).fates i)[k]? =
        some (((run W pre (.start d w)).card !i).delivers (W !i) frame stack) := by
  induction steps using List.reverseRecOn with
  | nil => cases hk
  | append_singleton steps a ih =>
      have hrun : run W (steps ++ [a]) (.start d w) = (run W steps (.start d w)).step W a :=
        List.foldl_append
      rw [hrun] at hk ⊢
      generalize hl : run W steps (.start d w) = l at ih hk ⊢
      have hold : k < (l.fates i).length →
          ((l.step W a).fates i)[k]? = (l.fates i)[k]? := by
        intro hlt
        rcases fates_step W l a i with hsame | ⟨_, _, -, -, hmore⟩
        · rw [hsame]
        · rw [hmore, List.getElem?_append_left hlt]
      by_cases hlt : k < (l.fates i).length
      · obtain ⟨pre, stack, post, frame, rfl, hlen, hnext, hsent, hfate⟩ := ih hlt
        exact ⟨pre, stack, post ++ [a], frame, by simp, hlen, hnext, sent_step W l a i hsent,
          (hold hlt).trans hfate⟩
      · rcases fates_step W l a i with hsame | ⟨stack, frame, rfl, hnext, hmore⟩
        · exact absurd (hsame ▸ hk) hlt
        · have hlen : (l.fates i).length = k := by
            rw [hmore, List.length_append, List.length_singleton] at hk
            omega
          have hsent : (l.sent i)[k]? = some frame := by
            rw [sent, List.getElem?_drop, ← hlen]
            exact hnext
          refine ⟨steps, stack, [], frame, rfl, ?_⟩
          rw [hl, hmore]
          exact ⟨hlen, hnext, sent_step W l _ i hsent, by rw [← hlen]; simp⟩

theorem inv_run {W : Bool → Wiring} {R : Bool → Set (BitVec 15)} {d : Bool → Daemon}
    {w : Bool → World} {steps : List LanStep} (hready : ∀ i, Duplex.Ready (R i) (d i) (w i))
    (hs : Watch (Lan.step W) (Lan.Legal R) (.start d w) steps) :
    Inv R d w (run W steps (.start d w)) := by
  have hstep : ∀ (l : Lan) (a : LanStep), Inv R d w l → l.Legal R a → Inv R d w (l.step W a) :=
    fun l a hi hl => hi.step hl
  exact Watch.preserves hstep (inv_start hready) hs

end Lan

/-- What a driver has read and what waits in its ring are, in order and up to
the translation of addresses byte for byte, the frames the other driver queued
and its card has sent, without those that were lost on arrival. A frame is lost
if its receiver's address filter refuses it or finds the RX ring full, and only
then. Without losses, and when all is sent and carried, the frames are all those
queued but those for the sender itself. -/
theorem segment_delivers (W : Bool → Wiring) (R : Bool → Set (BitVec 15)) (d : Bool → Daemon)
    (w : Bool → World) (hready : ∀ i, Duplex.Ready (R i) (d i) (w i)) (steps : List LanStep)
    (hs : Watch (Lan.step W) (Lan.Legal R) (.start d w) steps) (i : Bool)
    (hself : (Lan.run W steps (.start d w)).Queued d i) :
    let l := Lan.run W steps (.start d w)
    let frames := ((l.card i).enqueued.take (l.card i).log.length).filterMap
      (TxFrame.onSegment (d i))
    (l.card !i).read ++ (l.card !i).rx.unread =
        (select (l.fates i) frames).map (received (d !i)) ∧
      (∀ k frame, k < (l.fates i).length → frames[k]? = some frame →
        ∃ pre stack post, steps = pre ++ .carry i stack :: post ∧
          let l' := Lan.run W pre (.start d w)
          (l'.fates i).length = k ∧ ((l.fates i)[k]? = some false ↔
            wants (d !i) frame = false ∨ (l'.card !i).rx.Full)) ∧
      ((∀ fate ∈ l.fates i, fate = true) → (l.fates i).length = frames.length →
        (l.card i).log.length = (l.card i).enqueued.length →
        (l.card !i).read ++ (l.card !i).rx.unread =
          ((l.card i).enqueued.filterMap (TxFrame.onSegment (d i))).map (received (d !i))) := by
  have hend := Lan.inv_run hready hs
  have hsent := hend.sent_eq hself
  have hselect := hend.delivered_eq i
  rw [hsent] at hselect
  refine ⟨hselect, ?_, fun hall hcarried htaken => hselect.trans ?_⟩
  · intro k frame hk hframe
    obtain ⟨pre, stack, post, frame', hsteps, hlen, hnext, hat, hfate⟩ :=
      Lan.fates_decided W d w i steps hk
    obtain rfl : frame' = frame := by
      rw [hsent, hframe] at hat
      exact (Option.some.inj hat).symm
    refine ⟨pre, stack, post, hsteps, hlen, ?_⟩
    -- the state in which the frame arrives
    have hlegal := (Watch.iff_split _ _).mp hs pre _ post hsteps frame' hnext
    rw [hsteps, Watch.append] at hs
    obtain ⟨f, -, hon⟩ := List.mem_filterMap.mp (List.mem_of_getElem? hframe)
    have hdelivers := ((Lan.inv_run hready hs.1).card !i).delivers_iff (W !i)
      (f.le_length_onSegment hon) hlegal.2 stack
    rw [hfate, Option.some_inj, ← Bool.not_eq_true, hdelivers]
    simp [Decidable.imp_iff_not_or]
  · rw [select_all hall hcarried, htaken, List.take_length]

/-! ### Two small stations -/

/-- The address a driver makes of a serial number that is zero. -/
def zeroMac : Mac := #v[0x00#8, 0x80#8, 0x10#8, 0x00#8, 0x00#8, 0x00#8]

/-- Two stations as `smallStation` that use one address. -/
def zeroStation (i : Bool) : Daemon :=
  { smallStation with
    fakemac := zeroMac, macFakemac := zeroMac
    macRealmac := #v[0x00#8, 0x80#8, 0x10#8, 0x00#8, 0x00#8, if i then 0x2B#8 else 0x2A#8] }

/-- As `smallStationRam`, with a broadcast of 60 bytes to send. -/
def broadcastRam : World :=
  .holding [(0x00, 0x80), (0x02, RX.OWN), (0x04, 0xFFC0), (0x08, 0xC0), (0x0A, RX.OWN),
    (0x0C, 0xFFC0), (0x100, 0x200), (0x104, 0xFFC4), (0x108, 0x240), (0x10C, 0xFFC4),
    (0x200, 0xFFFF), (0x202, 0xFFFF), (0x204, 0xFFFF), (0x206, 0x0080), (0x208, 0x1000),
    (0x20C, 0x1234)]

theorem zeroStation_ready (i : Bool) :
    Duplex.Ready (block 0 0x100) (zeroStation i) broadcastRam where
  armed := ⟨by cases i <;> decide +kernel, by cases i <;> decide +kernel,
    ⟨by cases i <;> decide +kernel, by cases i <;> decide +kernel, by cases i <;> decide +kernel⟩,
    by cases i <;> decide +kernel⟩
  conf := ⟨by cases i <;> decide +kernel, by cases i <;> decide +kernel,
    by cases i <;> decide +kernel, by cases i <;> decide +kernel⟩
  free := by cases i <;> decide +kernel
  inside := by
    have hall : ∀ i, ∀ k < (zeroStation i).amRdrRlen.toNat,
        ((descAt broadcastRam.ram.mem (zeroStation i).amRdrRdra k).start - 0#15).toNat +
          (descAt broadcastRam.ram.mem (zeroStation i).amRdrRdra k).size ≤ 0x100 := by
      decide +kernel
    refine ⟨block_subset ?_, fun k hk => block_subset (hall i k hk)⟩
    cases i <;> decide +kernel
  apart := disjoint_block_iff.mpr (by cases i <;> decide +kernel)

instance (b : Bool → BitVec 15) (n : Bool → Nat) (l : Lan) :
    (a : LanStep) → Decidable (l.Legal (fun i => block (b i) (n i)) a)
  | .card _ _ => inferInstanceAs (Decidable (_ ∧ _))
  | .carry i _ => inferInstanceAs (Decidable (∀ frame ∈ l.next i,
      SelfContained (l.card !i).d.macFakemac (l.card !i).d.macRealmac frame ∧
        ∀ k < (l.card !i).rx.rlen, frame.length + 4 ≤ ((l.card !i).rx.desc k).size))

instance (d : Bool → Daemon) (l : Lan) (i : Bool) : Decidable (l.Queued d i) :=
  inferInstanceAs (Decidable (∀ f ∈ (l.card i).enqueued, SelfContained _ _ _))

/-- The first station sends its broadcast on demand, the second one reads it. -/
def broadcastSteps : List LanStep :=
  [.card false (.tx (.commit 0x8300 0)), .card false (.csr0 (CSR0.TDMD ||| CSR0.INEA)),
    .carry false fun _ => 0x00#8, .card true (.rx .take)]

theorem segment_delivers_broadcast :
    let l := Lan.run (fun _ => .null) broadcastSteps (.start zeroStation fun _ => broadcastRam)
    (l.card true).read ++ (l.card true).rx.unread =
      ((l.card false).enqueued.filterMap (TxFrame.onSegment (zeroStation false))).map
        (received (zeroStation true)) :=
  (segment_delivers (fun _ => .null) (fun _ => block 0 0x100) zeroStation
    (fun _ => broadcastRam) zeroStation_ready broadcastSteps (by decide +kernel) false
    (by decide +kernel)).2.2 (by decide +kernel) (by decide +kernel) (by decide +kernel)

/-! ## Who is who on the segment -/

section Addresses

variable {fakemac realmac mac : Mac} {d : Daemon} {f : TxFrame} {frame : List U8}

theorem swapMac_eq_other {other : Mac} (hfake : other ≠ fakemac) (hreal : other ≠ realmac) :
    swapMac fakemac realmac mac = other ↔ mac = other := by
  unfold swapMac
  split
  · rename_i h
    subst h
    exact ⟨fun h => absurd h.symm hreal, fun h => absurd h.symm hfake⟩
  · split
    · rename_i h
      subst h
      exact ⟨fun h => absurd h.symm hfake, fun h => absurd h.symm hreal⟩
    · exact Iff.rfl

theorem swapMac_fakemac : swapMac fakemac realmac fakemac = realmac := if_pos rfl

/-- The station's own address does not leave the card. -/
theorem TxFrame.source_onSegment (h : frame ∈ f.onSegment d)
    (hsource : source (f.image d) = d.macFakemac) : source frame = d.macRealmac := by
  have hlen := f.le_length_image d
  rw [onSegment_eq h, source_translated (by omega), hsource, swapMac_fakemac]

theorem source_received (hlen : 20 ≤ frame.length) :
    source (received d frame) = swapMac d.macFakemac d.macRealmac (source frame) := by
  rw [received, source_withFcs (by simpa using hlen), source_translated hlen]

theorem destination_received (hlen : 20 ≤ frame.length) :
    destination (received d frame) = swapMac d.macFakemac d.macRealmac (destination frame) := by
  rw [received, destination_withFcs (by simpa using hlen), destination_translated hlen]

end Addresses

/-- Two cards whose real addresses are not in use by the other one, drivers
that send from their station addresses, be these the same or not. -/
theorem segment_addresses (W : Bool → Wiring) (R : Bool → Set (BitVec 15)) (d : Bool → Daemon)
    (w : Bool → World) (hready : ∀ i, Duplex.Ready (R i) (d i) (w i))
    (hreal : ∀ i, (d i).macRealmac ≠ (d !i).macFakemac ∧ (d i).macRealmac ≠ (d !i).macRealmac)
    (steps : List LanStep) (hs : Watch (Lan.step W) (Lan.Legal R) (.start d w) steps) (i : Bool)
    (hself : (Lan.run W steps (.start d w)).Queued d i)
    (hsource : ∀ f ∈ ((Lan.run W steps (.start d w)).card i).enqueued,
      source (f.image (d i)) = (d i).macFakemac) :
    let l := Lan.run W steps (.start d w)
    (∀ frame ∈ l.sent i, source frame = (d i).macRealmac) ∧
      ∀ frame ∈ (l.card !i).read ++ (l.card !i).rx.unread,
        source frame = (d i).macRealmac ∧
        ∃ f ∈ (l.card i).enqueued, (f.onSegment (d i)).map (received (d !i)) = some frame ∧
          (destination frame = (d !i).macFakemac ↔
            destination (f.image (d i)) = (d !i).macRealmac) := by
  intro l
  have hend : Lan.Inv R d w l := Lan.inv_run hready hs
  have hsent : ∀ frame ∈ l.sent i, ∃ f ∈ (l.card i).enqueued, frame ∈ f.onSegment (d i) := by
    intro frame hframe
    rw [hend.sent_eq hself, List.mem_filterMap] at hframe
    obtain ⟨f, hf, hon⟩ := hframe
    exact ⟨f, List.mem_of_mem_take hf, hon⟩
  constructor
  · intro frame hframe
    obtain ⟨f, hf, hon⟩ := hsent frame hframe
    exact f.source_onSegment hon (hsource f hf)
  · intro frame hframe
    rw [hend.delivered_eq i, List.mem_map] at hframe
    obtain ⟨carried, hcarried, rfl⟩ := hframe
    obtain ⟨f, hf, hon⟩ := hsent carried (mem_of_mem_select hcarried)
    have hlen := f.le_length_onSegment hon
    have hdst : destination carried =
        swapMac (d i).macFakemac (d i).macRealmac (destination (f.image (d i))) := by
      have := f.le_length_image (d i)
      rw [f.onSegment_eq hon, destination_translated (by omega)]
    refine ⟨?_, f, hf, by rw [Option.mem_def.mp hon]; rfl, ?_⟩
    · rw [source_received hlen, swapMac_eq_other (hreal i).1 (hreal i).2]
      exact f.source_onSegment hon (hsource f hf)
    · have hother := hreal !i
      rw [Bool.not_not] at hother
      rw [destination_received hlen, swapMac_eq_fakemac, hdst,
        swapMac_eq_other hother.1 hother.2]

theorem segment_addresses_broadcast :
    let l := Lan.run (fun _ => .null) broadcastSteps (.start zeroStation fun _ => broadcastRam)
    (l.card true).read ≠ [] ∧
      ∀ frame ∈ (l.card true).read, source frame = (zeroStation false).macRealmac := by
  refine ⟨by decide +kernel, fun frame hframe => ?_⟩
  exact ((segment_addresses (fun _ => .null) (fun _ => block 0 0x100) zeroStation
    (fun _ => broadcastRam) zeroStation_ready (by decide +kernel) broadcastSteps
    (by decide +kernel) false (by decide +kernel) (by decide +kernel)).2 frame
    (List.mem_append_left _ hframe)).1

end A2065
