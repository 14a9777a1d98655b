import A2065.Autoconfig
import A2065.CsrInvariant
import A2065.MainDoorbell
import Mathlib.Tactic.IntervalCases

/-!
# The address of the station

At start-up `daemon_set_default_mac` chooses the address by which the station
is known on the segment, and `write_mbx_mac` tells it the FPGA. The card shows
it as its serial number, from which a driver makes its station address. So the
driver's address, the one the daemon compares with and the one on the segment
are the same, and no operation of the daemon ever changes the last of them.

How the word of `write_mbx_mac` gets to the inputs of `a2065_autoconfig.v` is
not in the source; that the inputs show its bytes is an assumption.
-/

namespace A2065

/-! ## Choosing the address -/

/-- `mac_low_is_zero` -/
def macLowIsZero (m : Mac) : Bool := (m[3]! ||| m[4]! ||| m[5]!) == 0x00#8

/-- What the host has to offer when the daemon starts. -/
structure Host where
  /-- the address of the selected interface, zero if it has none -/
  hostMac : Mac
  /-- what `SIOCGIFHWADDR` says of `eth0` -/
  eth0 : Option Mac
  hostname : List U8
  pid : U32
  time : U32

/-- FNV-1a over the bytes of the host name. -/
def fnv1a (host : List U8) : U32 :=
  host.foldl (fun h c => (h ^^^ c.setWidth 32) * 16777619#32) 2166136261#32

/-- `derive_unique_low`: three bytes from a hash, never all zero. -/
def deriveUniqueLow (host : Host) (m : Mac) : Mac :=
  let h := fnv1a host.hostname ^^^ host.pid ^^^ host.time
  let m : Mac := #v[m[0]!, m[1]!, m[2]!, (h >>> 16).setWidth 8, (h >>> 8).setWidth 8, h.setWidth 8]
  if macLowIsZero m then #v[m[0]!, m[1]!, m[2]!, m[3]!, m[4]!, 0x01#8] else m

/-- `ethernet_read_iface_mac`, which fails if the low half is zero. -/
def ethernetReadIfaceMac (hw : Option Mac) : Option Mac := hw.filter fun m => !macLowIsZero m

/-- What `daemon_set_default_mac` goes on with: the selected interface, else
`eth0`, else something derived from the host name. -/
def Host.realmac (host : Host) : Mac :=
  if macLowIsZero host.hostMac then
    (ethernetReadIfaceMac host.eth0).getD (deriveUniqueLow host host.hostMac)
  else host.hostMac

/-- `daemon_set_default_mac` -/
def daemonSetDefaultMac (host : Host) (d : Daemon) : Daemon :=
  Doorbell.setDefaultMac host.realmac d

/-- The word for `DDR3_MAC_OFF`. -/
def writeMbxMac (fakemac : Mac) : U64 :=
  1#64 ||| (fakemac[2]!).setWidth 64 <<< 32 ||| (fakemac[3]!).setWidth 64 <<< 40 |||
    (fakemac[4]!).setWidth 64 <<< 48 ||| (fakemac[5]!).setWidth 64 <<< 56

/-- Where the header says the address starts in the word. -/
def DDR3_MAC_DATA_SHIFT : Nat := 16

/-- Byte `k` of the address in that word. -/
def macData (val : U64) (k : Nat) : U8 := val.extractLsb' (DDR3_MAC_DATA_SHIFT + 8 * k) 8

theorem macLowIsZero_deriveUniqueLow (host : Host) (m : Mac) :
    macLowIsZero (deriveUniqueLow host m) = false := by
  unfold deriveUniqueLow
  dsimp only
  split
  · -- the last byte is one
    simp [macLowIsZero]
  · rename_i h
    simpa using h

/-- The address chosen is never one with an empty low half. -/
theorem macLowIsZero_realmac (host : Host) : macLowIsZero host.realmac = false := by
  unfold Host.realmac
  split
  · cases heth : ethernetReadIfaceMac host.eth0 with
    | none => exact macLowIsZero_deriveUniqueLow host _
    | some m =>
        have hm := (Option.filter_eq_some_iff.mp heth).2
        simpa using hm
  · rename_i h
    simpa using h

theorem macData_writeMbxMac (mac : Mac) {k : Nat} (h2 : 2 ≤ k) (h6 : k < 6) :
    macData (writeMbxMac mac) k = mac[k]! := by
  apply BitVec.eq_of_getLsbD_eq
  intro j hj
  have hout : ∀ (x : U8) (k : Nat), 8 ≤ k → x.getLsbD k = false := fun x k h =>
    x.getLsbD_of_ge k h
  have hone : ∀ k, 0 < k → (1#64).getLsbD k = false := by
    intro k hk
    simp [BitVec.getLsbD_one]
    omega
  simp only [macData, writeMbxMac, DDR3_MAC_DATA_SHIFT, BitVec.getLsbD_extractLsb', hj,
    decide_true, Bool.true_and, BitVec.getLsbD_or, BitVec.getLsbD_shiftLeft,
    BitVec.getLsbD_setWidth]
  rw [hone _ (by omega)]
  interval_cases k <;> grind

/-! ## Reading the serial number -/

namespace Autoconfig

/-- The nibble a read has shown. -/
def nibbleOf (out : U16) : BitVec 4 := ~~~ out.extractLsb' 12 4

/-- The address a driver makes of what its eight reads of the serial number
have shown. -/
def driverAddress (out : Nat → U16) : Mac :=
  #v[0x00#8, 0x80#8, nibbleOf (out 0) ++ nibbleOf (out 1), nibbleOf (out 2) ++ nibbleOf (out 3),
    nibbleOf (out 4) ++ nibbleOf (out 5), nibbleOf (out 6) ++ nibbleOf (out 7)]

/-- `mac_byte2` to `mac_byte5`. -/
def Pins.serialByte (p : Pins) : Nat → U8
  | 0 => p.macByte2
  | 1 => p.macByte3
  | 2 => p.macByte4
  | _ => p.macByte5

/-- The inputs show the bytes of the word. -/
def Pins.Told (p : Pins) (val : U64) : Prop := ∀ j < 4, p.serialByte j = macData val (2 + j)

/-- After the clocks `ps` the card is not shut up, and `p` is one in which
nibble `k` of the serial number is read. -/
structure ReadsSerial (k : Nat) (ps : List Pins) (p : Pins) : Prop where
  awake : (run ps reset).cardShutup = false
  running : p.rstN = true
  space : p.inSpace = true
  read : p.cpuRw = true
  nibble : p.nibbleIdx.toNat = 12 + k

theorem nibbleOf_shown (p : Pins) : nibbleOf (shown p) = p.rom.get p.nibbleIdx.toFin := by
  apply BitVec.eq_of_getLsbD_eq
  intro i hi
  simp only [nibbleOf, shown, BitVec.getLsbD_not, BitVec.getLsbD_extractLsb', hi, decide_true,
    Bool.true_and, BitVec.getLsbD_append]
  rw [if_neg (by omega), Nat.add_sub_cancel_left]
  simp [hi]

theorem ReadsSerial.nibbleOf {k : Nat} {ps : List Pins} {p : Pins} (h : ReadsSerial k ps p) :
    nibbleOf ((run ps reset).clock p).cpuDataOut = p.rom[12 + k]! := by
  have hsel : (run ps reset).selAutoconfig p = true := by
    simp [selAutoconfig, h.awake, h.space]
  have hk : 12 + k < 32 := h.nibble ▸ p.nibbleIdx.isLt
  have hidx : p.nibbleIdx.toFin = ⟨12 + k, hk⟩ := Fin.ext h.nibble
  rw [clock_read h.running hsel h.read, nibbleOf_shown, hidx, getElem!_pos p.rom (12 + k) hk]
  rfl

/-- The two reads of a byte. -/
theorem append_nibbles (b : U8) : (b.extractLsb' 4 4 ++ b.extractLsb' 0 4 : BitVec 8) = b := by
  apply BitVec.eq_of_getLsbD_eq
  intro i hi
  rw [BitVec.getLsbD_append]
  split
  · simp [*]
  · have hhigh : 4 + (i - 4) = i := by omega
    have hin : i - 4 < 4 := by omega
    simp [hhigh, hin]

theorem rom_serial (p : Pins) {j : Nat} (hj : j < 4) :
    p.rom[12 + 2 * j]! = (p.serialByte j).extractLsb' 4 4 ∧
      p.rom[12 + (2 * j + 1)]! = (p.serialByte j).extractLsb' 0 4 := by
  interval_cases j <;> exact ⟨rfl, rfl⟩

/-- Whenever its eight nibbles are read, and whatever else the bus has seen. -/
theorem driverAddress_eq {val : U64} {ps : Nat → List Pins} {p : Nat → Pins}
    (hreads : ∀ k < 8, ReadsSerial k (ps k) (p k)) (htold : ∀ k < 8, (p k).Told val) :
    driverAddress (fun k => ((run (ps k) reset).clock (p k)).cpuDataOut) =
      #v[0x00#8, 0x80#8, macData val (2 + 0), macData val (2 + 1), macData val (2 + 2),
        macData val (2 + 3)] := by
  have hbyte : ∀ j < 4, macData val (2 + j) =
      nibbleOf ((run (ps (2 * j)) reset).clock (p (2 * j))).cpuDataOut ++
        nibbleOf ((run (ps (2 * j + 1)) reset).clock (p (2 * j + 1))).cpuDataOut := by
    intro j hj
    rw [(hreads _ (by omega)).nibbleOf, (hreads _ (by omega)).nibbleOf, (rom_serial _ hj).1,
      (rom_serial _ hj).2, htold _ (by omega) j hj, htold _ (by omega) j hj]
    exact (append_nibbles _).symm
  rw [hbyte 0 (by decide), hbyte 1 (by decide), hbyte 2 (by decide), hbyte 3 (by decide)]
  rfl

end Autoconfig

/-! ## The address on the segment never changes -/

theorem macRealmac_chipInit (d : Daemon) :
    (chipInit d).Always fun d' => d'.macRealmac = d.macRealmac := by
  unfold chipInit
  refine .bind_any fun _ => .bind_any fun _ => .bind_any fun _ => .bind_any fun _ =>
    .bind_any fun _ => .bind_any fun _ => .bind_any fun _ => .bind_any fun _ =>
    .bind_any fun _ => .bind_any fun _ => .bind_any fun _ => .bind_any fun _ =>
    .bind_any fun _ => .bind_any fun _ => .bind_any fun _ => .pure rfl

theorem macRealmac_csr0Command (oreg : U16) (d : Daemon) :
    (csr0Command oreg d).Always fun d' => d'.macRealmac = d.macRealmac := by
  have hstart := (startEngines_frame d).macRealmac
  unfold csr0Command
  split
  · exact .pure rfl
  split
  · dsimp only
    split
    · exact (macRealmac_chipInit _).bind fun d' hd' => .pure (hd'.trans hstart)
    · exact .pure hstart
  split
  · exact (macRealmac_chipInit d).bind fun d' hd' => .pure hd'
  · exact .pure rfl

theorem macRealmac_wputCsr0 (W : Wiring) (v : U16) (d : Daemon) :
    (wputCsr0 W.onInterrupt W.onTransmit v d).Always fun d' => d'.macRealmac = d.macRealmac := by
  refine .bind (macRealmac_csr0Command _ _) fun d₁ h₁ => ?_
  refine .bind (csr0Demand_step W d₁) fun d₂ h₂ => ?_
  refine (rethink_always _ d₂).mono fun d₃ h₃ => ?_
  rw [h₃]
  refine Eq.trans ?_ h₁
  cases h₂ with
  | none => rfl
  | ignored => rfl
  | sent ht =>
      refine ht.frame.macRealmac.trans ?_
      split
      · rfl
      · exact (startEngines_frame d₁).macRealmac

theorem macRealmac_op (W : Wiring) (o : Op) (d : Daemon) :
    (o.prog W d).Always fun d' => d'.macRealmac = d.macRealmac := by
  cases o with
  | wput regOffset v =>
      simp only [Op.prog, chipWput]
      split
      · exact .pure rfl
      split
      · exact .pure rfl
      split
      · exact macRealmac_wputCsr0 W v d
      · refine .pure ?_
        unfold wputOther
        split <;> try rfl
        all_goals split <;> rfl
  | transmit => exact .bind (doTransmit_effect _ d) fun r hr => .pure hr.frame.macRealmac
  | recv databuf len =>
      exact .bind (gotfunc_effect _ _ _ d) fun r hr => .pure hr.frame.macRealmac

theorem macRealmac_runMoves (W : Wiring) (moves : List Move) (s : Sys) :
    (runMoves W moves s).1.macRealmac = s.1.macRealmac := by
  have hop : ∀ (o : Op) d, d.macRealmac = s.1.macRealmac →
      (o.prog W d).Always fun d' => d'.macRealmac = s.1.macRealmac :=
    fun o d h => (macRealmac_op W o d).mono fun _ h' => h'.trans h
  exact runMoves_inv W hop moves s rfl

/-- From the start-up of the daemon, after any operations: the address of the
station on the segment is the one a driver makes of the serial number, and its
low half is not zero. -/
theorem station_identity (W : Wiring) (host : Host) (w : World) (moves : List Move)
    (ps : Nat → List Autoconfig.Pins) (p : Nat → Autoconfig.Pins)
    (hreads : ∀ k < 8, Autoconfig.ReadsSerial k (ps k) (p k))
    (htold : ∀ k < 8, (p k).Told
      (writeMbxMac (daemonSetDefaultMac host (registersReset .boot)).fakemac)) :
    let d := (runMoves W moves (daemonSetDefaultMac host (registersReset .boot), w)).1
    d.macRealmac = Autoconfig.driverAddress
        (fun k => ((Autoconfig.run (ps k) .reset).clock (p k)).cpuDataOut) ∧
      macLowIsZero d.macRealmac = false := by
  intro d
  have hchosen : d.macRealmac = (daemonSetDefaultMac host (registersReset .boot)).fakemac :=
    macRealmac_runMoves W moves _
  have hmac : (daemonSetDefaultMac host (registersReset .boot)).fakemac =
      (#v[0x00, 0x80, 0x10, host.realmac[3]!, host.realmac[4]!, host.realmac[5]!] : Mac) := rfl
  constructor
  · rw [hchosen, Autoconfig.driverAddress_eq hreads htold,
      macData_writeMbxMac _ (by decide) (by decide), macData_writeMbxMac _ (by decide) (by decide),
      macData_writeMbxMac _ (by decide) (by decide), macData_writeMbxMac _ (by decide) (by decide),
      hmac]
    rfl
  · rw [hchosen, hmac]
    exact macLowIsZero_realmac host

/-- No interface has an address. -/
def namelessHost : Host := ⟨.replicate 6 0x00#8, none, [], 0#32, 0#32⟩

/-- Eight reads in a row; the card has just been reset. -/
def serialRead (k : Nat) : Autoconfig.Pins :=
  ⟨true, 0xE80018#24 + BitVec.ofNat 24 (2 * k), true, false, 0x0000#16,
    0x10#8, 0x1C#8, 0x9D#8, 0xC5#8⟩

theorem station_identity_nameless :
    (daemonSetDefaultMac namelessHost (registersReset .boot)).macRealmac =
      Autoconfig.driverAddress fun k =>
        ((Autoconfig.run ((List.range k).map serialRead) .reset).clock
          (serialRead k)).cpuDataOut := by
  have hreads : ∀ k < 8, Autoconfig.ReadsSerial k ((List.range k).map serialRead)
      (serialRead k) := by
    intro k hk
    constructor <;> decide +revert
  have htold : ∀ k < 8, ∀ j < 4, (serialRead k).serialByte j =
      macData (writeMbxMac (daemonSetDefaultMac namelessHost (registersReset .boot)).fakemac)
        (2 + j) := by decide +kernel
  exact (station_identity .null namelessHost .blank [] _ serialRead hreads htold).1

end A2065
