import A2065.BehindFrame
import A2065.Quiesce

/-!
# `transmitbuffer` from call to call

`transmitbuffer` is static: a call of `do_transmit` finds in it what the calls
before have left. The chain loop is careful with it. It writes the bytes it
counts in `outsize` and no others, and never more than the buffer has
(`txChain_gathers`), so the frame it has gathered is one of this call. What the
call then sends is not always: `mungepacket` gets the buffer and goes by what
the frame announces (`BehindFrame`).
-/

namespace A2065

open Bits Circular

/-! ## The chain loop -/

/-- The `n` bytes of `frame`, and `behind` behind them. -/
def bufJoin (frame : Buf) (n : Nat) (behind : Buf) : Buf := fun i =>
  if i < n then frame i else behind i

section BufJoin

variable {b tb : Buf} {i n : Nat}

theorem bufJoin_of_lt (frame behind : Buf) (h : i < n) : bufJoin frame n behind i = frame i :=
  if_pos h

theorem bufJoin_agree (frame : Buf) (n : Nat) (behind : Buf) :
    ∀ k < n, bufJoin frame n behind k = frame k :=
  fun _ hk => bufJoin_of_lt frame behind hk

theorem bufJoin_of_le (frame behind : Buf) (h : n ≤ i) : bufJoin frame n behind i = behind i :=
  if_neg (Nat.not_lt.mpr h)

theorem bufJoin_eq (h : ∀ k < n, tb k = b k) : bufJoin b n tb = tb := by
  funext k
  by_cases hk : k < n
  · rw [bufJoin_of_lt _ _ hk, h k hk]
  · rw [bufJoin_of_le _ _ (Nat.le_of_not_lt hk)]

theorem bufJoin_congr (frame : Buf) (h : ∀ k, n ≤ k → tb k = b k) :
    bufJoin frame n tb = bufJoin frame n b := by
  funext k
  by_cases hk : k < n
  · rw [bufJoin_of_lt _ _ hk, bufJoin_of_lt _ _ hk]
  · rw [bufJoin_of_le _ _ (by omega), bufJoin_of_le _ _ (by omega), h k (by omega)]

theorem bufWrite_behind (b : Buf) {bytes : List U8} (h : i + bytes.length ≤ n) :
    bufWrite b i bytes n = b n := by
  rw [bufWrite, if_pos (by omega), List.getElem?_eq_none (by omega), Option.getD_none]

/-- Buffers that agree up to `i` agree up to the end of what is copied there. -/
theorem bufWrite_agree (h : ∀ k < i, tb k = b k) (bytes : List U8) :
    ∀ k < i + bytes.length, bufWrite tb i bytes k = bufWrite b i bytes k := by
  intro k hk
  unfold bufWrite
  by_cases hik : i ≤ k
  · rw [if_pos hik, if_pos hik, List.getElem?_eq_getElem (by omega)]
    rfl
  · rw [if_neg hik, if_neg hik, h k (by omega)]

theorem bufJoin_bufWrite (h : ∀ k < i, tb k = b k) {bytes : List U8}
    (hn : i + bytes.length = n) : bufJoin (bufWrite b i bytes) n tb = bufWrite tb i bytes := by
  subst hn
  rw [← bufJoin_eq (bufWrite_agree h bytes)]
  apply bufJoin_congr
  intro k hk
  rw [bufWrite_behind tb hk]

end BufJoin

theorem paddedSize_le (d : Daemon) {n : Nat} (h : n ≤ MAX_PACKET_SIZE) :
    paddedSize d n ≤ MAX_PACKET_SIZE := by
  unfold paddedSize
  split
  · decide
  · exact h

/-- What the chain loop leaves, `r`, does not depend on what `transmitbuffer`
held from `outsize` on: that is still there behind the frame. -/
structure Gathers (tdra tlen : U32) (d : Daemon) (outsize : Nat) (w : World)
    (r : (TxWalk × Daemon) × World) : Prop where
  le : outsize ≤ r.1.1.outsize
  room : r.1.1.outsize ≤ MAX_PACKET_SIZE
  join : ∀ tb : Buf, (∀ i < outsize, tb i = d.transmitbuffer i) →
    (txChain tdra tlen { d with transmitbuffer := tb } outsize).exec w =
      ((r.1.1, { r.1.2 with
        transmitbuffer := bufJoin r.1.2.transmitbuffer r.1.1.outsize tb }), r.2)

theorem txChain_gathers (tdra tlen : U32) (d : Daemon) {outsize : Nat}
    (hout : outsize ≤ MAX_PACKET_SIZE) (w : World) :
    Gathers tdra tlen d outsize w ((txChain tdra tlen d outsize).exec w) := by
  induction d, outsize, w using txChain_run_induction tdra tlen with
  | refused d outsize w x hx hown =>
      rw [txChain_refused_exec hx hown]
      refine ⟨Nat.le_refl _, hout, ?_⟩
      intro tb htb
      rw [txChain_refused_exec (d := { d with transmitbuffer := tb }) hx hown]
      dsimp only [Daemon.csr0Clr, Daemon.setCsr]
      rw [bufJoin_eq htb]
      rfl
  | full d outsize w x hx hown hfull =>
      rw [txChain_full_exec hx hown hfull]
      refine ⟨Nat.le_refl _, hout, ?_⟩
      intro tb htb
      rw [txChain_full_exec (d := { d with transmitbuffer := tb }) hx hown hfull]
      dsimp only
      rw [bufJoin_eq htb]
  | last d outsize w x hx hown henp hfits =>
      have hpad := le_paddedSize d (outsize + min x.size MAX_PACKET_SIZE)
      rw [txChain_lastPart hx hown henp hfits rfl]
      refine ⟨by dsimp only; omega, paddedSize_le d hfits, ?_⟩
      intro tb htb
      rw [txChain_lastPart (d := { d with transmitbuffer := tb }) hx hown henp hfits rfl]
      dsimp only
      rw [bufJoin_bufWrite htb]
      · rfl
      · rw [List.length_append, x.length_part, List.length_replicate]
        omega
  | part d outsize w x hx hown henp hfits ih =>
      have hrest := ih hfits
      rw [← txChain_part_exec hx hown henp hfits] at hrest
      have hle := hrest.le
      refine ⟨by omega, hrest.room, ?_⟩
      intro tb htb
      have hjoin := hrest.join (bufWrite tb outsize (x.part w.ram.mem)) (by
        rw [← x.length_part w.ram.mem]
        exact bufWrite_agree htb _)
      rw [txChain_part_exec (d := { d with transmitbuffer := tb }) hx hown henp hfits]
      rw [bufJoin_congr] at hjoin
      · exact hjoin
      · intro k hk
        exact bufWrite_behind tb (by rw [x.length_part]; omega)

/-! ## The end of the call -/

/-- Nothing goes out. -/
def Eff.IsSilent : Eff → Prop
  | .ethernetSend _ => False
  | _ => True

theorem Eff.IsSignal.silent {e : Eff} (h : e.IsSignal) : e.IsSilent := by
  cases e <;> trivial

theorem silent_wire {α : Type} {prog : DProg α} (h : prog.Only Eff.IsSilent) (w : World) :
    (prog.exec w).2.wire = w.wire :=
  h.exec_frame World.handle (fun w => w.wire)
    (fun e w he => by cases e <;> first | rfl | exact he.elim) w

theorem rethink_silent (cb : Callback) (d : Daemon) : (rethink cb d).Only Eff.IsSilent :=
  fun tr r h ev hev => (rethink_signals cb d tr r h ev hev).silent

theorem ramWriteBlock_silent (off : U32) (src : Buf) (n : Nat) :
    (ramWriteBlock off src n).Only Eff.IsSilent := by
  induction n with
  | zero => exact .pure _
  | succ n ih => exact .bind ih fun _ => .perform trivial

theorem rxRing_silent (cb : Callback) (rdra rlen : U32) (tmp : Buf) (len : Nat) (d : Daemon)
    (insize : Nat) (first : Bool) :
    (rxRing cb rdra rlen tmp len d insize first).Only Eff.IsSilent := by
  -- induction on the bytes still to store, the measure of the loop
  induction hn : len - insize using Nat.strong_induction_on generalizing d insize first with
  | _ n ih =>
      rw [rxRing]
      refine .bind (.perform trivial) fun rmd0 => .bind (.perform trivial) fun rmd1 =>
        .bind (.perform trivial) fun rmd2 => .bind (.perform trivial) fun rmd3 => ?_
      dsimp only
      split
      · exact .bind (.perform trivial) fun _ => .bind (rethink_silent cb _) fun _ => .pure _
      refine .bind (ramWriteBlock_silent _ _ _) fun _ => ?_
      split
      · exact .bind (.perform trivial) fun _ => .bind (.perform trivial) fun _ =>
          .bind (rethink_silent cb _) fun _ => .pure _
      · have hpos := byteCount_pos rmd2
        exact .bind (.perform trivial) fun _ => .bind (.perform trivial) fun _ =>
          ih _ (by omega) _ _ _ rfl

theorem gotfunc_silent (cb : Callback) (databuf : Buf) (len : Nat) (d : Daemon) :
    (gotfunc cb databuf len d).Only Eff.IsSilent := by
  unfold gotfunc
  split
  · exact .pure _
  split
  · exact .pure _
  split
  · exact .pure _
  refine .bind (.perform trivial) fun stack => ?_
  dsimp only
  split
  · exact .pure _
  · exact rxRing_silent cb _ _ _ _ d 0 true

/-- What the call leaves in `transmitbuffer` and on the wire. -/
structure EndsWith (r : (Nat × Daemon) × World) (tb : Buf) (wire : List (List U8)) : Prop where
  transmitbuffer : r.1.2.transmitbuffer = tb
  wire : r.2.wire = wire

section Tail

variable (cb : Callback) (addFcs : Bool) {t : TxWalk} {d : Daemon} (w : World)

theorem txTail_endsWith : EndsWith ((txTail cb addFcs t d).exec w)
    ((txFinish cb addFcs t d).exec w).1.transmitbuffer
    ((txFinish cb addFcs t d).exec w).2.wire := by
  obtain ⟨hres, hmem⟩ := txTail_exec cb addFcs t (d := d) (w := w) rfl
  refine ⟨?_, hmem.wire⟩
  rw [hres]
  rfl

/-- Outside loopback a frame that is handed over is translated in place and
sent. -/
theorem txTail_sends (hands : t.Hands d) (hloop : tst d.amMode MODE.LOOP = false) :
    EndsWith ((txTail cb addFcs t d).exec w)
      (mungepacket d.macFakemac d.macRealmac d.transmitbuffer
        (transmitlen d addFcs t.outsize)).2
      (w.wire ++ [onWire d d.transmitbuffer (transmitlen d addFcs t.outsize)]) := by
  have hend : EndsWith ((txTail cb addFcs t d).exec w) _ _ := txTail_endsWith cb addFcs w
  rw [txFinish_eq, if_pos hands, handOver, if_neg (by simp [hloop])] at hend
  exact hend

/-- Otherwise neither changes. -/
theorem txTail_keeps (h : ¬ (t.Hands d ∧ tst d.amMode MODE.LOOP = false)) :
    EndsWith ((txTail cb addFcs t d).exec w) d.transmitbuffer w.wire := by
  obtain ⟨htb, hwire⟩ : EndsWith ((txTail cb addFcs t d).exec w) _ _ := txTail_endsWith cb addFcs w
  rw [txFinish_eq] at htb hwire
  by_cases hands : t.Hands d
  · have hloop : tst d.amMode MODE.LOOP = true := by
      simpa using fun hl => h ⟨hands, hl⟩
    rw [if_pos hands, handOver, if_pos hloop] at htb hwire
    simp only [DProg.exec_bind, exec_putRamWord, DProg.exec_pure] at htb hwire
    constructor
    · rw [htb]
      exact (always_exec (gotfunc_effect cb _ _ d) _).transmitbuffer
    · rw [hwire]
      exact silent_wire (gotfunc_silent cb _ _ d) _
  · rw [if_neg hands, markRefused] at htb hwire
    constructor
    · rw [htb]
      split_ifs <;> rfl
    · rw [hwire]
      split_ifs <;> rfl

end Tail

/-! ## The call -/

/-- A call that takes a frame, for whatever `transmitbuffer` held before. -/
structure TakesFrame (cb : Callback) (d : Daemon) (w : World) (addFcs : Bool)
    (r : (TxWalk × Daemon) × World) : Prop where
  room : r.1.1.outsize ≤ MAX_PACKET_SIZE
  frame : RingFrame d r.1.2
  /-- the last contents are those `r` was gathered over -/
  behind : ∀ i, r.1.1.outsize ≤ i → r.1.2.transmitbuffer i = d.transmitbuffer i
  handed : ∀ tb : Buf, handedOver { d with transmitbuffer := tb } w =
    if r.1.1.Hands r.1.2 then some ((r.1.1, { r.1.2 with
      transmitbuffer := bufJoin r.1.2.transmitbuffer r.1.1.outsize tb }), r.2) else none
  exec : ∀ tb : Buf, (doTransmit cb { d with transmitbuffer := tb }).exec w =
    (txTail cb addFcs r.1.1 { r.1.2 with
      transmitbuffer := bufJoin r.1.2.transmitbuffer r.1.1.outsize tb }).exec r.2

theorem hands_join {t : TxWalk} {d : Daemon} (tb : Buf) :
    t.Hands { d with transmitbuffer := bufJoin d.transmitbuffer t.outsize tb } ↔ t.Hands d := by
  unfold TxWalk.Hands
  apply and_congr_right
  intro _
  apply and_congr_right
  intro _
  apply or_congr_right
  apply and_congr_right
  intro hsize
  have hmac : macAt (bufJoin d.transmitbuffer t.outsize tb) 0 = macAt d.transmitbuffer 0 :=
    macAt_congr fun k _ hk => bufJoin_of_lt _ _ (by omega)
  dsimp only
  rw [hmac]

theorem TakesAt.takes (cb : Callback) {d : Daemon} {w : World} {k : Nat}
    (h : TakesAt d w.ram.mem k) : ∃ addFcs r, TakesFrame cb d w addFcs r := by
  obtain ⟨md1, offset, -, hscan, hready⟩ := h.scan
  obtain ⟨r, hr⟩ : ∃ r, (txChain d.amTdrTdra d.amTdrTlen
    { d with tdrOffset := offset } 0).exec w = r := ⟨_, rfl⟩
  have hgathers := txChain_gathers d.amTdrTdra d.amTdrTlen { d with tdrOffset := offset }
    (Nat.zero_le _) w
  rw [hr] at hgathers
  have hjoin : ∀ tb : Buf, (txChain d.amTdrTdra d.amTdrTlen
      { d with tdrOffset := offset, transmitbuffer := tb } 0).exec w = _ :=
    fun tb => hgathers.join tb fun i hi => absurd hi (Nat.not_lt_zero i)
  refine ⟨tst md1 TX.ADD_FCS, r, ⟨hgathers.room, ?_, ?_, ?_, ?_⟩⟩
  · rw [← hr]
    exact (always_exec (txChain_effect _ _ d { d with tdrOffset := offset } 0
      ((RingFrame.refl d).cursors _ _ _) rfl) w).1
  · intro i hi
    have hown := hr.symm.trans (hjoin d.transmitbuffer)
    have hbuffer := congrArg (fun r : (TxWalk × Daemon) × World => r.1.2.transmitbuffer i) hown
    rw [hbuffer]
    exact bufJoin_of_le _ _ hi
  · intro tb
    rw [handedOver_scanned (d := { d with transmitbuffer := tb }) h.txon h.ring hscan hready
      (hjoin tb)]
    simp only [hands_join]
  · intro tb
    rw [doTransmit_scanned cb (d := { d with transmitbuffer := tb }) h.txon h.ring hscan hready,
      DProg.exec_bind, hjoin tb]

namespace TakesFrame

variable {cb : Callback} {d : Daemon} {w : World} {addFcs : Bool} {r : (TxWalk × Daemon) × World}

theorem join_self (h : TakesFrame cb d w addFcs r) :
    bufJoin r.1.2.transmitbuffer r.1.1.outsize d.transmitbuffer = r.1.2.transmitbuffer := by
  rw [bufJoin_congr _ fun k hk => (h.behind k hk).symm]
  exact bufJoin_eq fun _ _ => rfl

theorem handedOver_eq (h : TakesFrame cb d w addFcs r) :
    handedOver d w = if r.1.1.Hands r.1.2 then some r else none := by
  have hself := h.handed d.transmitbuffer
  rw [h.join_self] at hself
  exact hself

/-- What is handed over is what the loop has gathered. -/
theorem eq_of_handedOver (h : TakesFrame cb d w addFcs r) {r' : (TxWalk × Daemon) × World}
    (hr : handedOver d w = some r') : r.1.1.Hands r.1.2 ∧ r' = r := by
  rw [h.handedOver_eq] at hr
  by_cases hands : r.1.1.Hands r.1.2
  · rw [if_pos hands] at hr
    exact ⟨hands, (Option.some.inj hr).symm⟩
  · rw [if_neg hands] at hr
    cases hr

theorem sends (h : TakesFrame cb d w addFcs r) (hands : r.1.1.Hands r.1.2)
    (hloop : tst d.amMode MODE.LOOP = false) (tb : Buf) :
    EndsWith ((doTransmit cb { d with transmitbuffer := tb }).exec w)
      (mungepacket d.macFakemac d.macRealmac
        (bufJoin r.1.2.transmitbuffer r.1.1.outsize tb)
        (transmitlen d addFcs r.1.1.outsize)).2
      (r.2.wire ++ [onWire d (bufJoin r.1.2.transmitbuffer r.1.1.outsize tb)
        (transmitlen d addFcs r.1.1.outsize)]) := by
  have hmode := h.frame.amMode
  have hsends := txTail_sends cb addFcs r.2 ((hands_join tb).mpr hands) (by rw [hmode, hloop])
  rw [← h.exec tb] at hsends
  unfold onWire transmitlen at hsends ⊢
  rw [h.frame.macFakemac, h.frame.macRealmac, hmode] at hsends
  exact hsends

theorem keeps (h : TakesFrame cb d w addFcs r)
    (hno : ¬ (r.1.1.Hands r.1.2 ∧ tst d.amMode MODE.LOOP = false)) (tb : Buf) :
    EndsWith ((doTransmit cb { d with transmitbuffer := tb }).exec w)
      (bufJoin r.1.2.transmitbuffer r.1.1.outsize tb) r.2.wire := by
  have hkeeps := txTail_keeps cb addFcs (t := r.1.1) (d := { r.1.2 with
    transmitbuffer := bufJoin r.1.2.transmitbuffer r.1.1.outsize tb }) r.2 (by
      rw [hands_join, h.frame.amMode]
      exact hno)
  rw [← h.exec tb] at hkeeps
  exact hkeeps

end TakesFrame

/-! ## What is sent -/

/-- What `mungepacket` and `ethernet_send`, or `gotfunc`, get. -/
def handedFrame (r : (TxWalk × Daemon) × World) : List U8 :=
  bufTake r.1.2.transmitbuffer r.1.1.outsize

/-- A call stays inside `transmitbuffer` and sends this call's frame only. -/
structure BufferConfined (cb : Callback) (d : Daemon) (w : World) : Prop where
  /-- whatever lies behind the buffer, the call leaves it alone -/
  inside : ∀ tb : Buf, (∀ i < MAX_PACKET_SIZE, tb i = d.transmitbuffer i) →
    ∀ i, MAX_PACKET_SIZE ≤ i →
      ((doTransmit cb { d with transmitbuffer := tb }).exec w).1.2.transmitbuffer i = tb i
  /-- a frame that is handed over fits, and its bytes are those of the buffers
  in boardram and padding -/
  gathered : ∀ r, handedOver d w = some r → r.1.1.outsize ≤ MAX_PACKET_SIZE ∧
    ∃ i k n, TakesAt d w.ram.mem i ∧
      handedFrame r = partsFrom w.ram.mem d.amTdrTdra d.amTdrTlen.toNat
        (d.tdrOffset.toNat + i) k ++ List.replicate n 0
  /-- whatever the buffer held before, it is the same frame -/
  handed : ∀ tb : Buf, (handedOver { d with transmitbuffer := tb } w).map handedFrame =
    (handedOver d w).map handedFrame
  /-- and the same bytes are sent -/
  sent : ∀ tb : Buf, ((doTransmit cb { d with transmitbuffer := tb }).exec w).2.wire =
    ((doTransmit cb d).exec w).2.wire

/-- The call hands this frame to the network, by boardram as the call finds
it. -/
def SendsFrame (d : Daemon) (m : BitVec 15 → U8) (frame : List U8) : Prop :=
  tst d.amMode MODE.LOOP = false ∧ ∃ i, TakesAt d m i ∧
    GathersFrom m d.amTdrTdra d.amTdrTlen.toNat (d.tdrOffset.toNat + i) (paddedSize d) frame ∧
    Passes d frame

/-- A frame as `ethernet_recv` stores it. -/
def frameBuf (frame : List U8) : Buf := fun i => (frame[i]?).getD 0x00#8

/-- The headers `mungepacket` goes by are in the frame. -/
def HeadersHeld (d : Daemon) (w : World) : Prop :=
  ∀ frame, SendsFrame d w.ram.mem frame → d.macFakemac ≠ d.macRealmac →
    HeadersInside (frameBuf frame) frame.length

/-- A datagram that gets a new checksum is in the frame, and ends before the
buffer does. -/
def DatagramHeld (d : Daemon) (w : World) : Prop :=
  ∀ frame, SendsFrame d w.ram.mem frame → Resummed d.macFakemac d.macRealmac (frameBuf frame) →
    udpStart (frameBuf frame) + udpLength (frameBuf frame) ≤ frame.length ∧
      udpStart (frameBuf frame) + udpLength (frameBuf frame) < MAX_PACKET_SIZE

section Handed

variable {d : Daemon} {w : World} {r : (TxWalk × Daemon) × World}

@[simp] theorem length_handedFrame : (handedFrame r).length = r.1.1.outsize := length_bufTake ..

/-- Up to its end the frame is what is in the buffer. -/
theorem frameBuf_handedFrame :
    ∀ i < r.1.1.outsize, frameBuf (handedFrame r) i = r.1.2.transmitbuffer i := by
  intro i hi
  simp [frameBuf, handedFrame, bufTake, hi]

theorem gathers_of_handedOver (hr : handedOver d w = some r) :
    ∃ i, TakesAt d w.ram.mem i ∧ GathersFrom w.ram.mem d.amTdrTdra d.amTdrTlen.toNat
      (d.tdrOffset.toNat + i) (paddedSize d) (handedFrame r) ∧ Passes d (handedFrame r) := by
  obtain ⟨i, htakes⟩ := exists_takesAt hr
  obtain ⟨-, r', hend, hframe, hhanded, -⟩ := htakes.loopEnd .null
  by_cases hands : r'.1.1.Hands r'.1.2
  case neg =>
    rw [hhanded, if_neg hands] at hr
    cases hr
  rw [hhanded, if_pos hands] at hr
  obtain rfl := Option.some.inj hr
  exact ⟨i, htakes, hend.gathers hands.1, (hands_iff hframe hands.1 rfl).mp hands⟩

theorem sendsFrame_of_handedOver (hr : handedOver d w = some r)
    (hloop : tst d.amMode MODE.LOOP = false) : SendsFrame d w.ram.mem (handedFrame r) :=
  ⟨hloop, gathers_of_handedOver hr⟩

theorem SendsFrame.exists_handedOver {frame : List U8} (h : SendsFrame d w.ram.mem frame) :
    ∃ r, handedOver d w = some r ∧ handedFrame r = frame := by
  obtain ⟨-, i, htakes, hgathers, hpasses⟩ := h
  obtain ⟨-, r, hend, hframe, hhanded, -⟩ := htakes.loopEnd .null
  obtain ⟨herr, hbytes⟩ := hgathers.of_loopEnd hend
  rw [if_pos ((hands_iff hframe herr hbytes).mpr hpasses)] at hhanded
  exact ⟨r, hhanded, hbytes⟩

theorem gathered_of_handedOver (hr : handedOver d w = some r) :
    ∃ i k n, TakesAt d w.ram.mem i ∧
      handedFrame r = partsFrom w.ram.mem d.amTdrTdra d.amTdrTlen.toNat
        (d.tdrOffset.toNat + i) k ++ List.replicate n 0 := by
  obtain ⟨i, htakes, hgathers, -⟩ := gathers_of_handedOver hr
  generalize handedFrame r = frame at hgathers
  cases hgathers with
  | full k => exact ⟨i, k, 0, htakes, (List.append_nil _).symm⟩
  | last k => exact ⟨i, k + 1, _, htakes, rfl⟩

/-- The conditions, on the buffer the frame is in. -/
theorem HeadersHeld.inside (h : HeadersHeld d w) (hr : handedOver d w = some r)
    (hloop : tst d.amMode MODE.LOOP = false) (hsize : 60 ≤ r.1.1.outsize)
    (hne : d.macFakemac ≠ d.macRealmac) : HeadersInside r.1.2.transmitbuffer r.1.1.outsize := by
  have hin := h _ (sendsFrame_of_handedOver hr hloop) hne
  rw [length_handedFrame] at hin
  exact hin.agree (fun i hi => (frameBuf_handedFrame i hi).symm) (by omega)

end Handed

theorem transmitlen_le (d : Daemon) (addFcs : Bool) (n : Nat) : transmitlen d addFcs n ≤ n := by
  unfold transmitlen
  split
  · exact Nat.sub_le n 4
  · exact Nat.le_refl n

theorem le_transmitlen (d : Daemon) (addFcs : Bool) (n : Nat) :
    n ≤ transmitlen d addFcs n + 4 := by
  unfold transmitlen
  split <;> omega

/-- Outside loopback `outsize` is at least 60. -/
theorem TxWalk.Hands.outsize {t : TxWalk} {d : Daemon} (h : t.Hands d)
    (hloop : tst d.amMode MODE.LOOP = false) : 60 ≤ t.outsize := by
  rcases h.2.2 with hl | hsize
  · exact absurd (hloop.symm.trans hl) (by decide)
  · exact hsize.1

section Confined

variable {cb : Callback} {d : Daemon} {w : World} {addFcs : Bool} {r : (TxWalk × Daemon) × World}

theorem TakesFrame.outsize (h : TakesFrame cb d w addFcs r) (hands : r.1.1.Hands r.1.2)
    (hloop : tst d.amMode MODE.LOOP = false) : 60 ≤ r.1.1.outsize :=
  hands.outsize (by rw [h.frame.amMode, hloop])

/-- What is sent, whatever lies behind the frame. -/
theorem TakesFrame.onWire_join (h : TakesFrame cb d w addFcs r) (hands : r.1.1.Hands r.1.2)
    (hloop : tst d.amMode MODE.LOOP = false)
    (hin : d.macFakemac ≠ d.macRealmac →
      HeadersInside r.1.2.transmitbuffer r.1.1.outsize)
    (hfits : Resummed d.macFakemac d.macRealmac r.1.2.transmitbuffer →
      udpStart r.1.2.transmitbuffer + udpLength r.1.2.transmitbuffer ≤ r.1.1.outsize)
    (tb : Buf) : onWire d (bufJoin r.1.2.transmitbuffer r.1.1.outsize tb)
        (transmitlen d addFcs r.1.1.outsize) =
      onWire d r.1.2.transmitbuffer (transmitlen d addFcs r.1.1.outsize) := by
  have hsize := h.outsize hands hloop
  have hlen := le_transmitlen d addFcs r.1.1.outsize
  have hle := transmitlen_le d addFcs r.1.1.outsize
  apply List.map_congr_left
  intro i hi
  rw [List.mem_range] at hi
  exact mungepacket_agree (bufJoin_agree _ _ _) (by omega) (by omega) hin hfits i (by omega)

/-- Behind the frame only the pad byte of the checksum is written. -/
theorem munge_behind {fakemac realmac : Mac} {packet : Buf} {n len : Nat} (hlen : 20 ≤ len)
    (hn : 38 ≤ n) (hin : fakemac ≠ realmac → HeadersInside packet n) {i : Nat} (hi : n ≤ i)
    (hpad : Resummed fakemac realmac packet → i ≠ udpStart packet + udpLength packet) :
    (mungepacket fakemac realmac packet len).2 i = packet i := by
  by_cases heq : fakemac = realmac
  · rw [mungepacket_eq hlen, if_neg fun hsum => hsum.2.1 heq, heq, translate_same]
  have hinside := hin heq
  apply munge_others hlen
  · intro j hj
    have := addressFields_inside hn hinside j hj
    omega
  · intro hsum
    have := hinside.chaddr hsum.1
    exact ⟨by omega, by omega, hpad hsum⟩

/-- Whatever the buffer held before, it is the same frame. -/
theorem TakesFrame.handedFrame_eq (h : TakesFrame cb d w addFcs r) (tb : Buf) :
    (handedOver { d with transmitbuffer := tb } w).map handedFrame =
      (handedOver d w).map handedFrame := by
  rw [h.handed tb, h.handedOver_eq]
  by_cases hands : r.1.1.Hands r.1.2
  · rw [if_pos hands, if_pos hands, Option.map_some, Option.map_some, handedFrame, handedFrame]
    congr 1
    apply List.map_congr_left
    intro i hi
    exact bufJoin_of_lt _ _ (List.mem_range.mp hi)
  · rw [if_neg hands, if_neg hands]

/-- What lies behind `transmitbuffer` is left alone by a call that sends, if a
new checksum is for a datagram that ends before the buffer does. -/
theorem TakesFrame.sends_inside (h : TakesFrame cb d w addFcs r) (hands : r.1.1.Hands r.1.2)
    (hloop : tst d.amMode MODE.LOOP = false)
    (hin : d.macFakemac ≠ d.macRealmac →
      HeadersInside r.1.2.transmitbuffer r.1.1.outsize)
    (hends : Resummed d.macFakemac d.macRealmac r.1.2.transmitbuffer →
      udpStart r.1.2.transmitbuffer + udpLength r.1.2.transmitbuffer < MAX_PACKET_SIZE)
    (tb : Buf) {i : Nat} (hi : MAX_PACKET_SIZE ≤ i) :
    ((doTransmit cb { d with transmitbuffer := tb }).exec w).1.2.transmitbuffer i = tb i := by
  have hroom := h.room
  have hsize := h.outsize hands hloop
  have hlen := le_transmitlen d addFcs r.1.1.outsize
  have hagree := bufJoin_agree r.1.2.transmitbuffer r.1.1.outsize tb
  have hin' : d.macFakemac ≠ d.macRealmac →
      HeadersInside (bufJoin r.1.2.transmitbuffer r.1.1.outsize tb) r.1.1.outsize :=
    fun hne => (hin hne).agree hagree (by omega)
  have hbehind : r.1.1.outsize ≤ i := by omega
  rw [(h.sends hands hloop tb).transmitbuffer, munge_behind (by omega) (by omega) hin' hbehind]
  · exact bufJoin_of_le _ _ hbehind
  · intro hsum
    have hinside := hin hsum.2.1
    have hsum' := (resummed_agree hagree _ _ (by omega) hinside).mp hsum
    have hpad := hends hsum'
    rw [udpStart_agree hagree (by omega), udpLength_agree hagree (by omega) hinside hsum'.1]
    omega

theorem TakesFrame.confined (h : TakesFrame cb d w addFcs r) (hheaders : HeadersHeld d w)
    (hdatagram : DatagramHeld d w) : BufferConfined cb d w := by
  have hgathered : ∀ r', handedOver d w = some r' → r'.1.1.outsize ≤ MAX_PACKET_SIZE ∧
      ∃ i k n, TakesAt d w.ram.mem i ∧ handedFrame r' = partsFrom w.ram.mem d.amTdrTdra
        d.amTdrTlen.toNat (d.tdrOffset.toNat + i) k ++ List.replicate n 0 := by
    intro r' hr'
    refine ⟨?_, gathered_of_handedOver hr'⟩
    rw [(h.eq_of_handedOver hr').2]
    exact h.room
  have hroom := h.room
  by_cases hwire : r.1.1.Hands r.1.2 ∧ tst d.amMode MODE.LOOP = false
  case neg =>
    refine ⟨?_, hgathered, h.handedFrame_eq, ?_⟩
    · intro tb _ i hi
      rw [(h.keeps hwire tb).transmitbuffer]
      exact bufJoin_of_le _ _ (by omega)
    · intro tb
      rw [(h.keeps hwire tb).wire]
      exact (h.keeps hwire d.transmitbuffer).wire.symm
  obtain ⟨hands, hloop⟩ := hwire
  have hself := h.handedOver_eq
  rw [if_pos hands] at hself
  have hsize := h.outsize hands hloop
  have hin := hheaders.inside hself hloop hsize
  have hfits : Resummed d.macFakemac d.macRealmac r.1.2.transmitbuffer →
      udpStart r.1.2.transmitbuffer + udpLength r.1.2.transmitbuffer ≤ r.1.1.outsize ∧
        udpStart r.1.2.transmitbuffer + udpLength r.1.2.transmitbuffer < MAX_PACKET_SIZE := by
    intro hsum
    have hinside := hin hsum.2.1
    have hheld := hdatagram _ (sendsFrame_of_handedOver hself hloop)
      ((resummed_agree frameBuf_handedFrame _ _ (by omega) hinside).mpr hsum)
    rwa [udpStart_agree frameBuf_handedFrame (by omega),
      udpLength_agree frameBuf_handedFrame (by omega) hinside hsum.1, length_handedFrame] at hheld
  refine ⟨?_, hgathered, h.handedFrame_eq, ?_⟩
  · intro tb _ i hi
    exact h.sends_inside hands hloop hin (fun hsum => (hfits hsum).2) tb hi
  · intro tb
    have hown : ((doTransmit cb d).exec w).2.wire = _ :=
      (h.sends hands hloop d.transmitbuffer).wire
    rw [h.join_self] at hown
    rw [(h.sends hands hloop tb).wire, hown,
      h.onWire_join hands hloop hin (fun hsum => (hfits hsum).1) tb]

/-- A datagram that goes on behind the frame is sent with a checksum over the
byte there. -/
theorem onWire_differs {q : Buf} {n len : Nat} (hn : 60 ≤ n) (hlen : n ≤ len + 4)
    (hin : HeadersInside q n) (hsum : Resummed d.macFakemac d.macRealmac q)
    (hlong : n < udpStart q + udpLength q) :
    onWire d (Function.update q n (q n + 1)) len ≠ onWire d q len := by
  intro hwire
  have hchaddr := hin.chaddr hsum.1
  have hbytes := List.map_inj_left.mp hwire
  have hdiffers : be16 (mungepacket d.macFakemac d.macRealmac (Function.update q n (q n + 1)) len).2
      (udpStart q + 6) ≠ be16 (mungepacket d.macFakemac d.macRealmac q len).2 (udpStart q + 6) :=
    mungepacket_differs (by omega) (by omega) hin hsum hlong (by simp)
  apply hdiffers
  rw [be16, be16, hbytes _ (List.mem_range.mpr (by omega)),
    hbytes _ (List.mem_range.mpr (by omega))]

section Necessary

variable (h : TakesFrame cb d w addFcs r) (hands : r.1.1.Hands r.1.2)
  (hloop : tst d.amMode MODE.LOOP = false)
  (hin : HeadersInside r.1.2.transmitbuffer r.1.1.outsize)
  (hsum : Resummed d.macFakemac d.macRealmac r.1.2.transmitbuffer)
  (hconfined : BufferConfined cb d w)

include h hands hloop hin hsum hconfined

/-- The first byte behind the frame must not show in what is sent. -/
theorem TakesFrame.datagram_le :
    udpStart r.1.2.transmitbuffer + udpLength r.1.2.transmitbuffer ≤ r.1.1.outsize := by
  by_contra hlong
  apply onWire_differs (h.outsize hands hloop) (le_transmitlen d addFcs r.1.1.outsize) hin hsum
    (Nat.lt_of_not_le hlong)
  obtain ⟨tb, htb⟩ : ∃ tb, Function.update r.1.2.transmitbuffer r.1.1.outsize
    (r.1.2.transmitbuffer r.1.1.outsize + 1) = tb := ⟨_, rfl⟩
  have hjoin : bufJoin r.1.2.transmitbuffer r.1.1.outsize tb = tb := by
    apply bufJoin_eq
    intro k hk
    rw [← htb]
    exact Function.update_of_ne (Nat.ne_of_lt hk) ..
  have hown : ((doTransmit cb d).exec w).2.wire = _ :=
    (h.sends hands hloop d.transmitbuffer).wire
  have hwire := hconfined.sent tb
  rw [(h.sends hands hloop tb).wire, hown, h.join_self, hjoin] at hwire
  rw [htb]
  exact List.singleton_inj.mp (List.append_cancel_left hwire)

/-- The byte behind the buffer must not be cleared. -/
theorem TakesFrame.datagram_lt :
    udpStart r.1.2.transmitbuffer + udpLength r.1.2.transmitbuffer < MAX_PACKET_SIZE := by
  have hle := h.datagram_le hands hloop hin hsum hconfined
  have hsize := h.outsize hands hloop
  have hroom := h.room
  have hlen := le_transmitlen d addFcs r.1.1.outsize
  by_contra hpad
  -- frame and datagram end with the buffer, and the pad byte goes behind it
  have hend : udpStart r.1.2.transmitbuffer + udpLength r.1.2.transmitbuffer =
      MAX_PACKET_SIZE := by omega
  obtain ⟨tb, htb⟩ : ∃ tb : Buf, bufJoin d.transmitbuffer MAX_PACKET_SIZE (fun _ => 1) = tb :=
    ⟨_, rfl⟩
  have hagree := bufJoin_agree r.1.2.transmitbuffer r.1.1.outsize tb
  have hsum' := (resummed_agree hagree _ _ (by omega) hin).mpr hsum
  have hstart := udpStart_agree hagree (by omega)
  have hlength := udpLength_agree hagree (by omega) hin hsum.1
  have hstart' : udpStart r.1.2.transmitbuffer ≤ 74 := udpStart_le _
  have hlong : 8 ≤ udpLength (bufJoin r.1.2.transmitbuffer r.1.1.outsize tb) := by
    rw [hlength]
    unfold MAX_PACKET_SIZE at hend
    omega
  have hclear : (mungepacket d.macFakemac d.macRealmac
      (bufJoin r.1.2.transmitbuffer r.1.1.outsize tb)
      (transmitlen d addFcs r.1.1.outsize)).2 _ = 0 := munge_pad (by omega) hsum' hlong
  have hkept := hconfined.inside tb (fun i hi => by rw [← htb]; exact bufJoin_of_lt _ _ hi)
    MAX_PACKET_SIZE (Nat.le_refl _)
  rw [(h.sends hands hloop tb).transmitbuffer] at hkept
  rw [hstart, hlength, hend, hkept, ← htb, bufJoin_of_le _ _ (Nat.le_refl _)] at hclear
  exact absurd hclear (by decide)

end Necessary

theorem TakesFrame.datagramHeld (h : TakesFrame cb d w addFcs r) (hheaders : HeadersHeld d w)
    (hconfined : BufferConfined cb d w) : DatagramHeld d w := by
  intro frame hsends hresummed
  have hloop := hsends.1
  obtain ⟨r', hr', rfl⟩ := hsends.exists_handedOver
  obtain ⟨hands, rfl⟩ := h.eq_of_handedOver hr'
  have hsize := h.outsize hands hloop
  have hin := hheaders.inside hr' hloop hsize hresummed.2.1
  have hsum := (resummed_agree frameBuf_handedFrame _ _ (by omega) hin).mp hresummed
  rw [udpStart_agree frameBuf_handedFrame (by omega),
    udpLength_agree frameBuf_handedFrame (by omega) hin hsum.1, length_handedFrame]
  exact ⟨h.datagram_le hands hloop hin hsum hconfined,
    h.datagram_lt hands hloop hin hsum hconfined⟩

/-- A call that takes no frame does nothing. -/
theorem confined_of_rest (hno : ¬ ∃ i, TakesAt d w.ram.mem i) : BufferConfined cb d w := by
  have hrest : ∀ tb : Buf, ¬ ∃ i, TakesAt { d with transmitbuffer := tb } w.ram.mem i := by
    intro tb ⟨i, h⟩
    exact hno ⟨i, h.txon, h.ring, h.lt, h.first, h.ready⟩
  have hnone : ∀ tb : Buf, handedOver { d with transmitbuffer := tb } w = none := by
    intro tb
    by_contra hsome
    obtain ⟨r, hr⟩ := Option.ne_none_iff_exists'.mp hsome
    exact hrest tb (exists_takesAt hr)
  have hend : ∀ tb : Buf, EndsWith ((doTransmit cb { d with transmitbuffer := tb }).exec w)
      tb w.wire := by
    intro tb
    obtain ⟨o, hexec⟩ := doTransmit_rest cb (d := { d with transmitbuffer := tb }) (w := w) (by
      rintro ⟨-, k, hk, -⟩
      exact hrest tb ⟨k, hk⟩)
    rw [hexec]
    exact ⟨rfl, rfl⟩
  have hself : handedOver d w = none := hnone d.transmitbuffer
  constructor
  · intro tb _ i _
    rw [(hend tb).transmitbuffer]
  · intro r hr
    rw [hself] at hr
    cases hr
  · intro tb
    rw [hnone tb, hself]
  · intro tb
    rw [(hend tb).wire]
    exact (hend d.transmitbuffer).wire.symm

end Confined

/-- For every register state and boardram: if a frame that goes to the network
has in it what its headers announce, the call stays inside `transmitbuffer` and
sends this call's frame only; and unless already the headers are cut off, it
does so in no other case. -/
theorem transmit_confined (cb : Callback) (d : Daemon) (w : World) :
    (HeadersHeld d w ∧ DatagramHeld d w → BufferConfined cb d w) ∧
      (BufferConfined cb d w → HeadersHeld d w → DatagramHeld d w) := by
  by_cases htakes : ∃ i, TakesAt d w.ram.mem i
  · obtain ⟨i, hi⟩ := htakes
    obtain ⟨addFcs, r, h⟩ := hi.takes cb
    constructor
    · intro hheld
      exact h.confined hheld.1 hheld.2
    · intro hconfined hheaders
      exact h.datagramHeld hheaders hconfined
  · constructor
    · intro _
      exact confined_of_rest htakes
    · rintro _ _ frame ⟨-, i, hi, -⟩
      exact absurd ⟨i, hi⟩ htakes

/-! ## A DHCP request -/

/-- The transmitter on, one transmit descriptor at 0x40. -/
def requestDaemon : Daemon :=
  { (registersReset (.bootWith someFakemac someFakemac someRealmac)).csr0Set CSR0.TXON with
    amTdrTdra := 0x40
    amTdrTlen := 1 }

/-- A DHCP request of 80 bytes from the station address, with a checksum and
the UDP length `udplen`; 46 of its bytes are in the frame. -/
def requestWorld (udplen : U16) : World :=
  .holding [(0x40, 0x100), (0x42, 0x8300), (0x44, 0xFFB0),
    (0x100, 0xFFFF), (0x102, 0xFFFF), (0x104, 0xFFFF), (0x106, 0x0080), (0x108, 0x1001),
    (0x10A, 0x0203), (0x10C, 0x0800), (0x10E, 0x4500), (0x116, 0x4011), (0x122, 68), (0x124, 67),
    (0x126, udplen), (0x128, 0x1234), (0x146, 0x0080), (0x148, 0x1001), (0x14A, 0x0203)]

/-- What `mungepacket` goes by in a frame. -/
def announced (frame : List U8) : Nat × Nat × Nat :=
  (frame.length, udpStart (frameBuf frame), udpLength (frameBuf frame))

theorem SendsFrame.announced_eq {udplen : U16} {frame : List U8} {a : Nat × Nat × Nat}
    (h : (handedOver requestDaemon (requestWorld udplen)).map (announced ∘ handedFrame) = some a)
    (hsends : SendsFrame requestDaemon (requestWorld udplen).ram.mem frame) :
    announced frame = a := by
  obtain ⟨r, hr, rfl⟩ := hsends.exists_handedOver
  rw [hr] at h
  exact Option.some.inj h

theorem requestWorld_headersHeld {udplen : U16} {n : Nat}
    (h : (handedOver requestDaemon (requestWorld udplen)).map (announced ∘ handedFrame) =
      some (80, 34, n)) : HeadersHeld requestDaemon (requestWorld udplen) := by
  intro frame hsends _ _ _
  have hframe := hsends.announced_eq h
  rw [announced, Prod.mk.injEq, Prod.mk.injEq] at hframe
  rw [hframe.1, hframe.2.1]
  exact ⟨by decide, fun _ => by decide⟩

/-- With the length right, the frame is sent as it is. -/
theorem transmit_confined_request : BufferConfined .null requestDaemon (requestWorld 46) := by
  have hframe : (handedOver requestDaemon (requestWorld 46)).map (announced ∘ handedFrame) =
      some (80, 34, 46) := by decide +kernel
  refine (transmit_confined .null requestDaemon (requestWorld 46)).1
    ⟨requestWorld_headersHeld hframe, ?_⟩
  intro frame hsends _
  have hannounced := hsends.announced_eq hframe
  rw [announced, Prod.mk.injEq, Prod.mk.injEq] at hannounced
  rw [hannounced.1, hannounced.2.1, hannounced.2.2]
  decide

/-- With a length of 300 the checksum is taken over 254 bytes that earlier
calls have left. -/
theorem stale_checksum_sent :
    ¬ ∀ (cb : Callback) (d : Daemon) (w : World), BufferConfined cb d w := by
  intro h
  have hframe : (handedOver requestDaemon (requestWorld 300)).map (announced ∘ handedFrame) =
      some (80, 34, 300) := by decide +kernel
  have hsum : (handedOver requestDaemon (requestWorld 300)).map (fun r =>
      decide (Resummed someFakemac someRealmac (frameBuf (handedFrame r)))) = some true := by
    decide +kernel
  obtain ⟨r, hr, -⟩ := Option.map_eq_some_iff.mp hframe
  obtain ⟨i, hi⟩ := exists_takesAt hr
  obtain ⟨addFcs, r', htakes⟩ := hi.takes .null
  have hsends := sendsFrame_of_handedOver hr (by decide)
  have hannounced := hsends.announced_eq hframe
  rw [hr, Option.map_some, Option.some_inj] at hsum
  have hfits := (htakes.datagramHeld (requestWorld_headersHeld hframe) (h .null _ _) _ hsends
    (of_decide_eq_true hsum)).1
  rw [announced, Prod.mk.injEq, Prod.mk.injEq] at hannounced
  rw [hannounced.1, hannounced.2.1, hannounced.2.2] at hfits
  exact absurd hfits (by decide)

end A2065
