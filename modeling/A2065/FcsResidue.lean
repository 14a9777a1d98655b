import A2065.ReceiveCall

/-!
# The FCS behind a received frame

A receiver checks a frame by running the CRC over the frame and the four
bytes behind it: with the CRC sent low byte first the register ends in a
constant, whatever the frame was (`crc32Serial_wire`), and with any other four
bytes it does not (`fcsChecks_word`). `gotfunc` appends the high byte first,
so its frames pass exactly when the four bytes read the same both ways.
-/

namespace A2065

open Bits

/-- What a receiver computes over the frame and the four bytes behind it. -/
def FcsChecks (stored : List U8) : Prop :=
  crc32Compute (fun i => (stored[i]?).getD 0) stored.length = 0x2144DF1C

instance decidableFcsChecks (stored : List U8) : Decidable (FcsChecks stored) :=
  inferInstanceAs (Decidable (_ = _))

theorem crc32Compute_list (l : List U8) :
    crc32Compute (fun i => (l[i]?).getD 0) l.length = ~~~ crc32Serial l := by
  have hbytes : (List.range l.length).map (fun i => (l[i]?).getD 0) = l := by
    apply List.ext_getElem
    · simp
    · intro i h₁ h₂
      simp [h₂]
  rw [crc32Compute, crc32Update_eq_serial, hbytes]

/-- The CRC in wire order leads to the residue. -/
theorem crc32Serial_wire (frame : List U8) :
    crc32Serial (frame ++ Crc.leBytes (~~~ crc32Serial frame) 4) = ~~~ 0x2144DF1C := by
  have hhigh : ∀ i, 8 * 4 ≤ i → (~~~ crc32Serial frame).getLsbD i = false := by
    intro i hi
    exact BitVec.getLsbD_of_ge _ i hi
  have hsum : crc32Serial frame ^^^ ~~~ crc32Serial frame = BitVec.allOnes 32 := by
    apply BitVec.eq_of_getLsbD_eq
    intro i hi
    rw [BitVec.getLsbD_xor, BitVec.getLsbD_not, BitVec.getLsbD_allOnes, decide_eq_true hi,
      Bool.true_and, Bool.xor_not_self]
  rw [crc32Serial, Crc.serial_append, ← crc32Serial, Crc.serial_leBytes _ (by decide) 4 _ _ hhigh,
    hsum]
  decide +kernel

/-- Of all words behind a frame only its CRC is accepted. -/
theorem fcsChecks_word (frame : List U8) (x : U32) :
    FcsChecks (frame ++ Crc.leBytes x 4) ↔ x = ~~~ crc32Serial frame := by
  have hinj := Crc.serial_leBytes_inj 0xEDB88320 (by decide) (by decide) (k := 4) rfl
    (crc32Serial frame) x (~~~ crc32Serial frame)
  rw [FcsChecks, crc32Compute_list, ← hinj]
  have hwire := crc32Serial_wire frame
  simp only [crc32Serial, Crc.serial_append] at hwire ⊢
  rw [hwire]
  constructor
  · intro h
    rw [← h, BitVec.not_not]
  · intro h
    rw [h, BitVec.not_not]

/-- The four bytes of a word in the other order. -/
def swapBytes (x : U32) : U32 :=
  ((x.setWidth 8).setWidth 32 <<< 24) ||| (((x >>> 8).setWidth 8).setWidth 32 <<< 16) |||
    (((x >>> 16).setWidth 8).setWidth 32 <<< 8) ||| ((x >>> 24).setWidth 8).setWidth 32

theorem getLsbD_swapBytes (x : U32) {i : Nat} (hi : i < 32) :
    (swapBytes x).getLsbD i = x.getLsbD (i % 8 + 8 * (3 - i / 8)) := by
  interval_cases i <;> simp [swapBytes]

theorem swapBytes_not (x : U32) : swapBytes (~~~ x) = ~~~ swapBytes x := by
  apply BitVec.eq_of_getLsbD_eq
  intro i hi
  have hlt : i % 8 + 8 * (3 - i / 8) < 32 := by omega
  rw [BitVec.getLsbD_not, getLsbD_swapBytes _ hi, getLsbD_swapBytes _ hi, BitVec.getLsbD_not,
    decide_eq_true hi, decide_eq_true hlt]

/-- The bytes `gotfunc` appends are those of the CRC with its bytes swapped. -/
theorem fcs_eq_leBytes (frame : List U8) :
    fcs frame = Crc.leBytes (swapBytes (~~~ crc32Serial frame)) 4 := by
  have hbytes : ∀ x : U32, [(x >>> 24).setWidth 8, (x >>> 16).setWidth 8, (x >>> 8).setWidth 8,
      x.setWidth 8] = Crc.leBytes (swapBytes x) 4 := by
    intro x
    have hbyte : ∀ k < 4, (x >>> (24 - 8 * k)).setWidth 8 =
        (swapBytes x >>> (8 * k)).setWidth 8 := by
      intro k hk
      apply BitVec.eq_of_getLsbD_eq
      intro i hi
      have hfrom : (8 * k + i) % 8 + 8 * (3 - (8 * k + i) / 8) = 24 - 8 * k + i := by omega
      simp only [BitVec.getLsbD_setWidth, BitVec.getLsbD_ushiftRight]
      rw [getLsbD_swapBytes _ (by omega), hfrom]
    simp only [Crc.leBytes, ← BitVec.shiftRight_add]
    rw [← hbyte 1 (by decide), ← hbyte 2 (by decide), ← hbyte 3 (by decide)]
    exact congrArg (· :: _) (hbyte 0 (by decide))
  rw [← hbytes, ← crc32Compute_list]
  rfl

theorem fcsChecks_fcs (frame : List U8) :
    FcsChecks (frame ++ fcs frame) ↔ swapBytes (crc32Serial frame) = crc32Serial frame := by
  rw [fcs_eq_leBytes, fcsChecks_word, swapBytes_not]
  constructor
  · intro h
    exact BitVec.not_inj.mp h
  · intro h
    rw [h]

/-- The bytes in the buffers of the run after the call. -/
theorem stored_with_fcs (cb : Callback) {d : Daemon} {w : World} (databuf : Buf) {n : Nat}
    {init : List Desc} {last : Desc} (hon : tst d.csr0 CSR0.RXON = true)
    (hring : ringAccepted d.amRdrRdra d.amRdrRlen = true) (hmin : 20 ≤ n)
    (hacc : rxAccepts d (rxFrame d w.stack databuf n) = true)
    (hrun : RxRun w.ram.mem d.amRdrRdra d.amRdrRlen.toNat d.rdrOffset.toNat (init ++ [last]))
    (hneed : capacity init < n + 4) (hroom : n + 4 ≤ capacity (init ++ [last])) :
    (gathered ((gotfunc cb databuf n d).exec w).2.ram.mem (init ++ [last])).take (n + 4) =
      bufTake (rxFrame d w.stack databuf n) n ++ fcs (bufTake (rxFrame d w.stack databuf n) n) := by
  obtain ⟨o, ram, -, hdata, -, hexec⟩ :=
    gotfunc_stores cb databuf hon hring hmin hacc hrun hneed hroom
  have hsame := (rxLeave_eq cb .delivered
    ({ d with rdrOffset := o + 1 }.csr0Set CSR0.RINT) { w with ram := ram }).2
  rw [hexec, hsame.ram]
  exact hdata

/-- An accepted frame passes the check, in `tmp` and in the buffers it is stored
to, exactly when its CRC has the same bytes in both orders. -/
theorem fcs_residue_iff (cb : Callback) (d : Daemon) (w : World) (databuf : Buf) (n : Nat)
    (hon : tst d.csr0 CSR0.RXON = true) (hring : ringAccepted d.amRdrRdra d.amRdrRlen = true)
    (hmin : 20 ≤ n) (hacc : rxAccepts d (rxFrame d w.stack databuf n) = true) :
    (gotfunc cb databuf n d).exec w = (rxRing cb d.amRdrRdra d.amRdrRlen
        (appendFcs (rxFrame d w.stack databuf n) n) (n + 4) d 0 true).exec w ∧
      (FcsChecks (bufTake (appendFcs (rxFrame d w.stack databuf n) n) (n + 4)) ↔
        swapBytes (crc32Serial (bufTake (rxFrame d w.stack databuf n) n)) =
          crc32Serial (bufTake (rxFrame d w.stack databuf n) n)) ∧
      ∀ (init : List Desc) (last : Desc),
        RxRun w.ram.mem d.amRdrRdra d.amRdrRlen.toNat d.rdrOffset.toNat (init ++ [last]) →
        capacity init < n + 4 → n + 4 ≤ capacity (init ++ [last]) →
        (FcsChecks ((gathered ((gotfunc cb databuf n d).exec w).2.ram.mem (init ++ [last])).take
            (n + 4)) ↔
          swapBytes (crc32Serial (bufTake (rxFrame d w.stack databuf n) n)) =
            crc32Serial (bufTake (rxFrame d w.stack databuf n) n)) := by
  refine ⟨gotfunc_accepted cb hon hmin hring hacc, ?_, ?_⟩
  · rw [bufTake_appendFcs]
    exact fcsChecks_fcs _
  · intro init last hrun hneed hroom
    rw [stored_with_fcs cb databuf hon hring hmin hacc hrun hneed hroom]
    exact fcsChecks_fcs _

/-- A frame of 60 bytes for the real address, the last two of them given. -/
def frameEnding (hi lo : U8) : Buf := fun i => List.getD
  (someRealmac.toList ++ [0x52, 0x54, 0x00, 0x12, 0x34, 0x56, 0x08, 0x00] ++
    List.replicate 44 0 ++ [hi, lo]) i 0

/-- One RX descriptor at 0, with a buffer of 64 bytes at 0x300. -/
def oneBufferDaemon : Daemon :=
  { (registersReset (.bootWith someFakemac someFakemac someRealmac)).csr0Set CSR0.RXON with
    amRdrRlen := 1 }

/-- A ring of one buffer of 64 bytes, which the daemon owns. -/
def oneBufferWorld : World := .holding [(0x00, 0x300), (0x02, 0x8000), (0x04, 0xFFC0)]

/-- Its descriptor. -/
def oneBufferDesc : Desc := ⟨0x300, 0x8000, 0xFFC0, 0⟩

theorem oneBufferRun : RxRun oneBufferWorld.ram.mem 0 1 0 ([] ++ [oneBufferDesc]) where
  descs := ⟨by decide +kernel, trivial⟩
  length_le := by decide
  own := by decide +kernel
  size := by decide +kernel
  buffers := by decide +kernel
  apart := by decide +kernel

/-- The register after the translated frame, from its value before the last two
bytes. -/
theorem crc32Serial_ending {frame : List U8} (hi lo : U8)
    (h : frame = someFakemac.toList ++ [0x52, 0x54, 0x00, 0x12, 0x34, 0x56, 0x08, 0x00] ++
      List.replicate 44 0 ++ [hi, lo]) :
    crc32Serial frame = Crc.serial 0xEDB88320 0xAAA1954C [hi, lo] := by
  have hheader : crc32Serial (someFakemac.toList ++
      [0x52, 0x54, 0x00, 0x12, 0x34, 0x56, 0x08, 0x00]) = 0x7BD837EA := by decide +kernel
  have hzeros : Crc.serial (0xEDB88320 : U32) 0x7BD837EA (List.replicate 44 0) = 0xAAA1954C := by
    decide +kernel
  rw [h, crc32Serial, Crc.serial_append, Crc.serial_append, ← crc32Serial, hheader, hzeros]

/-- A frame with the CRC 0xE6BABAE6. -/
theorem fcs_residue_palindrome :
    rxAccepts oneBufferDaemon (rxFrame oneBufferDaemon oneBufferWorld.stack
        (frameEnding 0x35 0x9B) 60) = true ∧
      FcsChecks ((gathered ((gotfunc .null (frameEnding 0x35 0x9B) 60 oneBufferDaemon).exec
        oneBufferWorld).2.ram.mem [oneBufferDesc]).take 64) := by
  have hacc : rxAccepts oneBufferDaemon (rxFrame oneBufferDaemon oneBufferWorld.stack
      (frameEnding 0x35 0x9B) 60) = true := by decide +kernel
  refine ⟨hacc, ?_⟩
  have hstored := (fcs_residue_iff .null oneBufferDaemon oneBufferWorld (frameEnding 0x35 0x9B) 60
    (by decide +kernel) (by decide +kernel) (by decide) hacc).2.2 [] oneBufferDesc oneBufferRun
    (by decide +kernel) (by decide +kernel)
  rw [crc32Serial_ending 0x35 0x9B (by decide +kernel)] at hstored
  exact hstored.mpr (by decide +kernel)

/-- A frame with the CRC 0x2356329C, stored with the bytes 23 56 32 9C. -/
theorem fcs_not_in_wire_order : ¬ ∀ (cb : Callback) (d : Daemon) (w : World) (databuf : Buf)
    (n : Nat) (init : List Desc) (last : Desc), tst d.csr0 CSR0.RXON = true →
    ringAccepted d.amRdrRdra d.amRdrRlen = true → 20 ≤ n →
    rxAccepts d (rxFrame d w.stack databuf n) = true →
    RxRun w.ram.mem d.amRdrRdra d.amRdrRlen.toNat d.rdrOffset.toNat (init ++ [last]) →
    capacity init < n + 4 → n + 4 ≤ capacity (init ++ [last]) →
    FcsChecks ((gathered ((gotfunc cb databuf n d).exec w).2.ram.mem (init ++ [last])).take
      (n + 4)) := by
  intro h
  have hon : tst oneBufferDaemon.csr0 CSR0.RXON = true := by decide +kernel
  have hring : ringAccepted oneBufferDaemon.amRdrRdra oneBufferDaemon.amRdrRlen = true := by
    decide +kernel
  have hacc : rxAccepts oneBufferDaemon (rxFrame oneBufferDaemon oneBufferWorld.stack
      (frameEnding 0 0) 60) = true := by decide +kernel
  have hchecks := h .null oneBufferDaemon oneBufferWorld (frameEnding 0 0) 60 [] oneBufferDesc hon
    hring (by decide) hacc oneBufferRun (by decide +kernel) (by decide +kernel)
  rw [stored_with_fcs .null (frameEnding 0 0) hon hring (by decide) hacc oneBufferRun
    (by decide +kernel) (by decide +kernel), fcsChecks_fcs,
    crc32Serial_ending 0 0 (by decide +kernel)] at hchecks
  exact absurd hchecks (by decide +kernel)

end A2065
