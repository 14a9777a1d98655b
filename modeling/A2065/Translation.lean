import A2065.BehindFrame
import A2065.ReceiveQueue
import A2065.TransmitBuffer
import A2065.TransmitCall

/-!
# Frames on both sides of the translation

The driver knows its station by one address and the segment by another.
`mungepacket` stands between them on the way out and on the way in. Here its
effect is put in terms of the bytes of the frame alone, which is possible as
long as the frame holds what it announces (`SelfContained`): the buffers
behind it are never the same twice.
-/

namespace A2065

open Bits

/-- A frame as `gotfunc` hands it on. -/
def withFcs (frame : List U8) : List U8 := frame ++ fcs frame

/-- The destination address. -/
def destination (frame : List U8) : Mac := macAt (frameBuf frame) 0

/-- The source address. -/
def source (frame : List U8) : Mac := macAt (frameBuf frame) 6

/-- What `mungepacket` makes of the frame. -/
def translated (fakemac realmac : Mac) (frame : List U8) : List U8 :=
  bufTake (mungepacket fakemac realmac (frameBuf frame) frame.length).2 frame.length

/-- The headers the frame announces are in it, and so is a datagram whose
checksum is to be computed. Without a translation nothing is looked at. -/
def SelfContained (fakemac realmac : Mac) (frame : List U8) : Prop :=
  fakemac ≠ realmac → 38 ≤ frame.length ∧ HeadersInside (frameBuf frame) frame.length ∧
    (Resummed fakemac realmac (frameBuf frame) →
      udpStart (frameBuf frame) + udpLength (frameBuf frame) ≤ frame.length)

instance decidableSelfContained (fakemac realmac : Mac) (frame : List U8) :
    Decidable (SelfContained fakemac realmac frame) :=
  inferInstanceAs (Decidable (_ → _ ∧ _ ∧ (_ → _)))

section Frames

variable {fakemac realmac : Mac} {frame : List U8} {p : Buf}

theorem mungepacket_same (h : fakemac = realmac) (packet : Buf) (len : Nat) :
    (mungepacket fakemac realmac packet len).2 = packet := by
  rw [mungepacket, if_pos h]
  split <;> rfl

theorem getElem_of_bufTake {i : Nat} (h : bufTake p frame.length = frame) (hi : i < frame.length) :
    p i = frameBuf frame i := by
  have hat : (bufTake p frame.length)[i]? = frame[i]? := congrArg (·[i]?) h
  rw [bufTake, List.getElem?_map, List.getElem?_range hi, List.getElem?_eq_getElem hi] at hat
  rw [frameBuf, List.getElem?_eq_getElem hi]
  exact Option.some.inj hat

theorem bufTake_frameBuf (frame : List U8) : bufTake (frameBuf frame) frame.length = frame := by
  refine List.ext_getElem (length_bufTake ..) fun i h₁ h₂ => ?_
  simp [bufTake, frameBuf, h₂]

theorem bufTake_congr {q : Buf} {n : Nat} (h : ∀ i < n, p i = q i) : bufTake p n = bufTake q n :=
  List.map_congr_left fun i hi => h i (List.mem_range.mp hi)

@[simp] theorem length_translated (fakemac realmac : Mac) (frame : List U8) :
    (translated fakemac realmac frame).length = frame.length := length_bufTake ..

/-- In whatever buffer the frame is, the same comes out. -/
theorem SelfContained.bufTake_munge (h : SelfContained fakemac realmac frame)
    (hp : bufTake p frame.length = frame) :
    bufTake (mungepacket fakemac realmac p frame.length).2 frame.length =
      translated fakemac realmac frame := by
  have hagree : ∀ i < frame.length, p i = frameBuf frame i := fun i hi => getElem_of_bufTake hp hi
  by_cases heq : fakemac = realmac
  · rw [translated, mungepacket_same heq, mungepacket_same heq, hp, bufTake_frameBuf]
  · obtain ⟨hlen, hheaders, hfits⟩ := h heq
    exact bufTake_congr (mungepacket_agree hagree hlen (by omega) (fun _ => hheaders) hfits)

/-- The stored frame is the translated one and its FCS. -/
theorem SelfContained.rxImage {d : Daemon} (h : SelfContained d.macFakemac d.macRealmac frame)
    (hloop : tst d.amMode MODE.LOOP = false) (stack : Buf) :
    rxImage d stack (frameBuf frame) frame.length =
      withFcs (translated d.macFakemac d.macRealmac frame) := by
  have hbuf : bufTake (fun i => if i < frame.length then frameBuf frame i else stack i)
      frame.length = frame :=
    (bufTake_congr fun i hi => if_pos hi).trans (bufTake_frameBuf frame)
  rw [A2065.rxImage, bufTake_appendFcs, rxFrame, if_neg (by simp [hloop]), h.bufTake_munge hbuf,
    withFcs]

theorem SelfContained.onWire {d : Daemon} (h : SelfContained d.macFakemac d.macRealmac frame)
    (hp : bufTake p frame.length = frame) :
    onWire d p frame.length = translated d.macFakemac d.macRealmac frame := h.bufTake_munge hp

/-! ## Destination and source -/

theorem macAt_frameBuf_bufTake {i n : Nat} (hi : i + 6 ≤ n) :
    macAt (frameBuf (bufTake p n)) i = macAt p i := by
  apply macAt_congr
  intro k _ hk
  have hkn : k < n := by omega
  simp [frameBuf, bufTake, hkn]

/-- Both header addresses are swapped, whatever the frame is. -/
theorem munge_header {packet : Buf} {len i : Nat} (hlen : 20 ≤ len) (hi : i = 0 ∨ i = 6) :
    macAt (mungepacket fakemac realmac packet len).2 i =
      swapMac fakemac realmac (macAt packet i) := by
  have hmem : i ∈ addressFields packet := by
    apply List.mem_append_left
    simpa using hi
  rw [mungepacket_eq hlen, ← macAt_translate (addressFields_apart packet) hmem]
  by_cases hsum : Resummed fakemac realmac packet
  · -- the checksum and the pad byte are behind the header
    have hstart := le_udpStart packet
    rw [if_pos hsum]
    apply macAt_congr
    intro k _ hk
    exact udpChecksum_outside _ _ (by omega) (by omega) (by omega)
  · rw [if_neg hsum]

theorem destination_translated (hlen : 20 ≤ frame.length) :
    destination (translated fakemac realmac frame) =
      swapMac fakemac realmac (destination frame) := by
  rw [destination, translated, macAt_frameBuf_bufTake (by omega), munge_header hlen (.inl rfl),
    destination]

theorem source_translated (hlen : 20 ≤ frame.length) :
    source (translated fakemac realmac frame) = swapMac fakemac realmac (source frame) := by
  rw [source, translated, macAt_frameBuf_bufTake (by omega), munge_header hlen (.inr rfl), source]

theorem macAt_append {i : Nat} (hi : i + 6 ≤ frame.length) (more : List U8) :
    macAt (frameBuf (frame ++ more)) i = macAt (frameBuf frame) i := by
  apply macAt_congr
  intro k _ hk
  rw [frameBuf, frameBuf, List.getElem?_append_left (by omega)]

theorem destination_withFcs (hlen : 20 ≤ frame.length) :
    destination (withFcs frame) = destination frame := macAt_append (by omega) _

theorem source_withFcs (hlen : 20 ≤ frame.length) : source (withFcs frame) = source frame :=
  macAt_append (by omega) _

end Frames

end A2065
