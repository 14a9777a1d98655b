import A2065.CsrInvariant
import A2065.Scatter
import A2065.MacBytes

/-!
# The receive filters, seen from the wire

`gotfunc` translates a frame before it looks at its addresses: the station
address `F` of the driver stands where the real one, `R`, was on the wire.
The translation of an address is `swapMac`, and nothing `mungepacket` does
further back in the frame reaches the two header addresses. So the filters
can be read as a condition on the wire frame.
-/

namespace A2065

open Bits

/-- The group bit of an address. -/
def groupBit (mac : Mac) : Bool := (mac.get 0).getLsbD 0

/-- The LADRF bit of an address: the top six bits of its CRC-32, not
inverted. -/
def multicastHash (mac : Mac) : Nat := (crc32Serial mac.toList >>> 26).toNat

/-- What the receiver is to take, in terms of the wire addresses: frames for
everyone or for the real address, and the groups LADRF selects, except what
the station has sent itself. -/
def RxWanted (d : Daemon) (realmac dst src : Mac) : Prop :=
  (tst d.amMode MODE.PROM = true ∨ dst = realmac ∨ dst = BROADCAST_MAC ∨
    (groupBit dst = true ∧ d.amLadrf.getLsbD (multicastHash dst) = true)) ∧
  ¬ (src = realmac ∧ (dst = realmac ∨ dst = BROADCAST_MAC))

instance (d : Daemon) (realmac dst src : Mac) : Decidable (RxWanted d realmac dst src) :=
  inferInstanceAs (Decidable ((_ ∨ _ ∨ _ ∨ (_ ∧ _)) ∧ ¬ (_ ∧ (_ ∨ _))))

/-! ## The translation of an address -/

/-- An address on the other side of the translation. -/
def swapMac (fakemac realmac mac : Mac) : Mac :=
  if mac = fakemac then realmac else if mac = realmac then fakemac else mac

section Swap

variable {fakemac realmac mac : Mac}

theorem swapMac_eq_fakemac : swapMac fakemac realmac mac = fakemac ↔ mac = realmac := by
  unfold swapMac
  by_cases hfake : mac = fakemac
  · rw [if_pos hfake, hfake, eq_comm]
  by_cases hreal : mac = realmac
  · rw [if_neg hfake, if_pos hreal]
    exact iff_of_true rfl hreal
  · rw [if_neg hfake, if_neg hreal]
    exact iff_of_false hfake hreal

variable (hfake : groupBit fakemac = false) (hreal : groupBit realmac = false)

include hfake hreal

/-- A group address is never translated. -/
theorem swapMac_of_group (hmac : groupBit mac = true) : swapMac fakemac realmac mac = mac := by
  have hne : ∀ a : Mac, groupBit a = false → mac ≠ a := by
    intro a ha h
    rw [h, ha] at hmac
    cases hmac
  rw [swapMac, if_neg (hne _ hfake), if_neg (hne _ hreal)]

theorem groupBit_swapMac : groupBit (swapMac fakemac realmac mac) = groupBit mac := by
  unfold swapMac
  split_ifs with h h'
  · rw [h, hfake, hreal]
  · rw [h', hfake, hreal]
  · rfl

theorem swapMac_eq_broadcast :
    swapMac fakemac realmac mac = BROADCAST_MAC ↔ mac = BROADCAST_MAC := by
  have hgroup : groupBit BROADCAST_MAC = true := by decide
  constructor
  · intro h
    have hmac : groupBit mac = true := by
      rw [← groupBit_swapMac hfake hreal, h, hgroup]
    rwa [swapMac_of_group hfake hreal hmac] at h
  · intro h
    rw [h, swapMac_of_group hfake hreal hgroup]

end Swap

/-! ## The header after the translation -/

theorem macAt_putMac (packet : Buf) (i : Nat) (mac : Mac) :
    macAt (putMac packet i mac) i = mac := by
  ext j hj
  simp [macAt, putMac, Vector.get]

theorem macAt_dofakemac (fakemac realmac : Mac) (packet : Buf) (i : Nat) :
    macAt (dofakemac fakemac realmac packet i).2 i = swapMac fakemac realmac (macAt packet i) := by
  unfold dofakemac swapMac
  by_cases heq : fakemac = realmac
  · rw [if_pos heq, heq]
    by_cases hmac : macAt packet i = realmac
    · rw [if_pos hmac, hmac]
    · rw [if_neg hmac, if_neg hmac]
  rw [if_neg heq]
  by_cases hfake : macAt packet i = fakemac
  · rw [if_pos hfake, if_pos hfake, macAt_putMac]
  by_cases hreal : macAt packet i = realmac
  · rw [if_neg hfake, if_neg hfake, if_pos hreal, if_pos hreal, macAt_putMac]
  · rw [if_neg hfake, if_neg hfake, if_neg hreal, if_neg hreal]

/-- The UDP branch writes at or behind the UDP header. -/
theorem mungeUdp_before (fakemac realmac : Mac) (packet : Buf) (ipv4 : Nat) {data k : Nat}
    (hk : k < data) : mungeUdp fakemac realmac packet ipv4 data k = packet k := by
  have hsum : ∀ (p : Buf) (len2 : Nat), udpChecksum p ipv4 data len2 k = p k := by
    intro p len2
    have hne : ∀ n, k ≠ data + n := by omega
    simp only [udpChecksum, Function.update_of_ne (hne 6), Function.update_of_ne (hne 7),
      Function.update_of_ne (hne len2)]
  have hmac : (dofakemac fakemac realmac packet (data + 8 + 28)).2 k = packet k :=
    Bytewise.dofakemac_snd packet (.inl (by omega))
  simp only [mungeUdp]
  by_cases hport : be16 packet data = 67 ∨ be16 packet data = 68 ∨
      be16 packet (data + 2) = 67 ∨ be16 packet (data + 2) = 68
  · rw [if_pos hport]
    split_ifs
    · rw [hsum, hmac]
    · exact hmac
  · rw [if_neg hport, if_neg (by simp)]

/-- Of the header `mungepacket` changes the two addresses, one by one. -/
theorem mungepacket_header (fakemac realmac : Mac) (packet : Buf) {len k : Nat} (hlen : 20 ≤ len)
    (hk : k < 14) : (mungepacket fakemac realmac packet len).2 k =
      (dofakemac fakemac realmac (dofakemac fakemac realmac packet 0).2 6).2 k := by
  unfold mungepacket
  rw [if_neg (by omega)]
  by_cases heq : fakemac = realmac
  · rw [if_pos heq]
    simp only [dofakemac, if_pos heq]
  rw [if_neg heq]
  simp only
  generalize (dofakemac fakemac realmac (dofakemac fakemac realmac packet 0).2 6).2 = p
  split_ifs
  · rw [Bytewise.dofakemac_snd _ (.inl (by omega)), Bytewise.dofakemac_snd _ (.inl (by omega))]
  · rfl
  · exact mungeUdp_before fakemac realmac p 14 (by omega)
  · rfl
  · rfl

theorem macAt_mungepacket (fakemac realmac : Mac) (packet : Buf) {len : Nat} (hlen : 20 ≤ len) :
    macAt (mungepacket fakemac realmac packet len).2 0 =
        swapMac fakemac realmac (macAt packet 0) ∧
      macAt (mungepacket fakemac realmac packet len).2 6 =
        swapMac fakemac realmac (macAt packet 6) := by
  have hheader := fun k (hk : k < 14) => mungepacket_header fakemac realmac packet hlen hk
  constructor
  · rw [macAt_congr fun k _ hk => hheader k (by omega), ← macAt_dofakemac]
    exact macAt_congr fun k _ hk => Bytewise.dofakemac_snd _ (.inl (by omega))
  · rw [macAt_congr fun k _ hk => hheader k (by omega), macAt_dofakemac]
    congr 1
    exact macAt_congr fun k hk _ => Bytewise.dofakemac_snd _ (.inr (by omega))

/-! ## The filters -/

/-- The filters look at the two addresses only. -/
theorem rxAccepts_eq (d : Daemon) (tmp : Buf) (hloop : tst d.amMode MODE.LOOP = false) :
    rxAccepts d tmp = true ↔
      (tst d.amMode MODE.PROM = true ∨ (groupBit (macAt tmp 0) = false ∧ macAt tmp 0 = d.fakemac) ∨
        macAt tmp 0 = BROADCAST_MAC ∨ (groupBit (macAt tmp 0) = true ∧
          d.amLadrf.getLsbD (multicastHash (macAt tmp 0)) = true)) ∧
      ¬ (macAt tmp 6 = d.fakemac ∧ (macAt tmp 0 = d.fakemac ∨ macAt tmp 0 = BROADCAST_MAC)) := by
  have hgroup : tst (tmp 0) 0x01 = groupBit (macAt tmp 0) := by
    have hbyte : (macAt tmp 0).get 0 = tmp 0 := rfl
    rw [groupBit, hbyte]
    exact tst_twoPow (tmp 0) 0
  have hcrc : ((~~~ crc32Compute tmp 6) >>> 26).toNat = multicastHash (macAt tmp 0) := by
    rw [multicastHash, crc32Compute, BitVec.not_not, crc32Update_eq_serial, Bytewise.toList_macAt]
    simp only [Nat.zero_add]
  have hladrf : ∀ i, tst d.amLadrf (1#64 <<< i) = d.amLadrf.getLsbD i := fun i =>
    tst_twoPow d.amLadrf i
  simp only [rxAccepts, hloop, hgroup, hcrc, hladrf]
  cases hg : groupBit (macAt tmp 0) with
  | false =>
      simp only [Bool.false_eq_true, if_false, Bool.and_eq_true, Bool.or_eq_true,
        decide_eq_true_eq, true_and, false_and, or_false]
      tauto
  | true =>
      simp only [if_true, Bool.false_eq_true, if_false, Bool.and_eq_true, decide_eq_true_eq,
        Bool.true_eq_false, false_and, false_or, true_and]
      by_cases hprom : tst d.amMode MODE.PROM = true
      · simp only [hprom, not_true_eq_false, false_and, if_false, true_and, true_or]
        tauto
      · by_cases hbroadcast : macAt tmp 0 = BROADCAST_MAC
        · simp only [hprom, hbroadcast, ne_eq, not_true_eq_false, and_false, if_false, true_and,
            true_or, or_true]
          tauto
        · simp only [hprom, hbroadcast, ne_eq, not_false_eq_true, false_or]
          tauto

theorem rxAccepts_iff_wanted {d : Daemon} {fakemac realmac : Mac} (stack databuf : Buf) {len : Nat}
    (hloop : tst d.amMode MODE.LOOP = false) (hfake : d.fakemac = fakemac)
    (hmacfake : d.macFakemac = fakemac) (hmacreal : d.macRealmac = realmac)
    (hgfake : groupBit fakemac = false) (hgreal : groupBit realmac = false) (hlen : 20 ≤ len) :
    rxAccepts d (rxFrame d stack databuf len) = true ↔
      RxWanted d realmac (macAt databuf 0) (macAt databuf 6) := by
  -- the translated addresses, from the ones on the wire
  have hcopy : ∀ i, i ≤ 6 →
      macAt (fun i => if i < len then databuf i else stack i) i = macAt databuf i := by
    intro i hi
    exact macAt_congr fun k _ hk => if_pos (by omega)
  obtain ⟨hdst, hsrc⟩ := macAt_mungepacket fakemac realmac
    (fun i => if i < len then databuf i else stack i) hlen
  rw [hcopy 0 (by decide)] at hdst
  rw [hcopy 6 (by decide)] at hsrc
  have hframe : rxFrame d stack databuf len = (mungepacket fakemac realmac
      (fun i => if i < len then databuf i else stack i) len).2 := by
    simp only [rxFrame, hloop, hmacfake, hmacreal, Bool.false_eq_true, if_false]
  rw [hframe, rxAccepts_eq d _ hloop, hdst, hsrc, hfake, swapMac_eq_fakemac, swapMac_eq_fakemac,
    swapMac_eq_broadcast hgfake hgreal, groupBit_swapMac hgfake hgreal, RxWanted]
  cases hg : groupBit (macAt databuf 0) with
  | false => simp only [true_and, Bool.false_eq_true, false_and]
  | true =>
      have hne : macAt databuf 0 ≠ realmac := by
        intro h
        rw [h, hgreal] at hg
        cases hg
      rw [swapMac_of_group hgfake hgreal hg]
      simp only [Bool.true_eq_false, false_and, true_and, hne]

/-! ## What comes of a frame that is taken -/

/-- The frame is stored: RINT is set, and the descriptor before the cursor is
the driver's again, ends the packet and holds its length with the FCS. -/
structure RxStoredAt (rdra : U32) (len : Nat) (d : Daemon) (m : BitVec 15 → U8) : Prop where
  rint : tst d.csr0 CSR0.RINT = true
  last : ∃ k : U32, d.rdrOffset = k + 1 ∧
    tst (descAt m rdra k.toNat).md1 RX.OWN = false ∧
    tst (descAt m rdra k.toNat).md1 RX.ENP = true ∧
    (descAt m rdra k.toNat).md3 = BitVec.ofNat 16 len

/-- The buffers have run out: the receiver is off, and the descriptor at the
cursor is the driver's and says BUFF and OFLO. -/
structure RxCutOff (rdra : U32) (d : Daemon) (m : BitVec 15 → U8) : Prop where
  rxon : tst d.csr0 CSR0.RXON = false
  own : tst (descAt m rdra d.rdrOffset.toNat).md1 RX.OWN = false
  buff : tst (descAt m rdra d.rdrOffset.toNat).md1 RX.BUFF = true
  oflo : tst (descAt m rdra d.rdrOffset.toNat).md1 RX.OFLO = true

/-- What a frame of `len` bytes that goes on to the ring makes of `d` and `m`.
It depends on the descriptor at the cursor: if that is not owned, MISS is set
and boardram stays as it is; else the frame is stored or cut off. -/
structure RxTaken (len : Nat) (d : Daemon) (m : BitVec 15 → U8) (d' : Daemon)
    (m' : BitVec 15 → U8) : Prop where
  missed : tst (descAt m d.amRdrRdra (d.rdrOffset % d.amRdrRlen).toNat).md1 RX.OWN = false →
    tst d'.csr0 CSR0.MISS = true ∧ m' = m
  filled : tst (descAt m d.amRdrRdra (d.rdrOffset % d.amRdrRlen).toNat).md1 RX.OWN = true →
    RxStoredAt d.amRdrRdra (len + 4) d' m' ∨ RxCutOff d.amRdrRdra d' m'

/-- The bits of CSR0 the ways out of the ring loop are known by. -/
theorem rxLeave_bits (c : U16) : tst (rethinkCsr0 (c ||| CSR0.MISS)) CSR0.MISS = true ∧
    tst (rethinkCsr0 (c ||| CSR0.RINT)) CSR0.RINT = true ∧
    tst (rethinkCsr0 (c &&& ~~~ CSR0.RXON)) CSR0.RXON = false := by
  simp only [CSR0.tst_bits, rethinkCsr0_getLsbD]
  simp [CSR0.masks]

/-- The bits of RMD1 they are known by. -/
theorem rxStatus_bits (md1 : U16) (first : Bool) :
    tst ((if first then (md1 &&& ~~~ RX.OWN) ||| RX.STP else md1 &&& ~~~ RX.OWN) ||| RX.ENP)
        RX.OWN = false ∧
      tst ((if first then (md1 &&& ~~~ RX.OWN) ||| RX.STP else md1 &&& ~~~ RX.OWN) ||| RX.ENP)
        RX.ENP = true ∧
      tst (md1 ||| (RX.BUFF ||| RX.OFLO)) RX.OWN = tst md1 RX.OWN ∧
      tst (md1 ||| (RX.BUFF ||| RX.OFLO)) RX.BUFF = true ∧
      tst (md1 ||| (RX.BUFF ||| RX.OFLO)) RX.OFLO = true := by
  simp only [RX.masks, tst_twoPow]
  cases first <;> simp

/-- From an owned descriptor on, or from a later one, the loop stores the
frame or runs out of buffers. -/
theorem rxRing_filled (cb : Callback) {rdra rlen : U32} (hpos : 0 < rlen.toNat)
    (hmax : rlen.toNat ≤ 512) (tmp : Buf) (len : Nat) (d : Daemon) (insize : Nat) (first : Bool)
    (w : World) (hfirst : first = true →
      tst (descAt w.ram.mem rdra (d.rdrOffset % rlen).toNat).md1 RX.OWN = true) :
    let r := (rxRing cb rdra rlen tmp len d insize first).exec w
    RxStoredAt rdra len r.1.2 r.2.ram.mem ∨ RxCutOff rdra r.1.2 r.2.ram.mem := by
  -- induction on the bytes still to store, the measure of the loop
  induction hn : len - insize using Nat.strong_induction_on generalizing d insize first w with
  | _ n ih =>
      have hk : (d.rdrOffset % rlen).toNat < 512 :=
        Nat.lt_of_lt_of_le (by rw [BitVec.toNat_umod]; exact Nat.mod_lt _ hpos) hmax
      generalize hx : descAt w.ram.mem rdra (d.rdrOffset % rlen).toNat = x at hfirst
      cases hown : tst x.md1 RX.OWN with
      | true =>
          have hsize : 0 < x.size := byteCount_pos x.md2
          by_cases hroom : len ≤ insize + x.size
          · obtain ⟨ram, hmem, hexec⟩ : ∃ ram : Boardram, _ ∧
                (rxRing cb rdra rlen tmp len d insize first).exec w = _ :=
              rxRing_last hx hown hroom
            obtain ⟨hres, hsame⟩ := rxLeave_eq cb .delivered
              ({ d with rdrOffset := d.rdrOffset % rlen + 1 }.csr0Set CSR0.RINT)
              { w with ram := ram }
            obtain ⟨hclear, henp, -⟩ := rxStatus_bits x.md1 first
            refine .inl ?_
            rw [hexec, hres, hsame.ram]
            refine ⟨?_, d.rdrOffset % rlen, rfl, ?_⟩
            · rw [Daemon.csr0_setCsr0, Daemon.csr0_csr0Set]
              exact (rxLeave_bits _).2.1
            · rw [hmem, descAt_storeStatus _ _ _ _ hk hk, if_pos rfl]
              exact ⟨hclear, henp, rfl⟩
          · obtain ⟨ram, -, hexec⟩ : ∃ ram : Boardram, _ ∧
                (rxRing cb rdra rlen tmp len d insize first).exec w = _ :=
              rxRing_next hx hown (Nat.not_le.mp hroom)
            rw [hexec]
            exact ih _ (by omega) _ _ _ _ (fun h => absurd h Bool.false_ne_true) rfl
      | false =>
          cases first with
          | true => exact absurd (hfirst rfl) (by rw [hown]; exact Bool.false_ne_true)
          | false =>
              obtain ⟨ram, hmem, hexec⟩ : ∃ ram : Boardram, _ ∧
                  (rxRing cb rdra rlen tmp len d insize false).exec w = _ := rxRing_overrun hx hown
              obtain ⟨hres, hsame⟩ := rxLeave_eq cb .overrun
                ({ d with rdrOffset := d.rdrOffset % rlen }.csr0Clr CSR0.RXON)
                { w with ram := ram }
              obtain ⟨-, -, hclear, hbuff, hoflo⟩ := rxStatus_bits x.md1 true
              have hdesc : descAt ram.mem rdra (d.rdrOffset % rlen).toNat =
                  { x with md1 := x.md1 ||| (RX.BUFF ||| RX.OFLO) } := by
                rw [hmem, descAt_setMd1 _ _ _ hk hk, if_pos rfl, hx]
              refine .inr ?_
              rw [hexec, hres, hsame.ram]
              refine ⟨?_, ?_, ?_, ?_⟩
              · rw [Daemon.csr0_setCsr0, Daemon.csr0_csr0Clr]
                exact (rxLeave_bits _).2.2
              · exact (congrArg (fun y : Desc => tst y.md1 RX.OWN) hdesc).trans (hclear.trans hown)
              · exact (congrArg (fun y : Desc => tst y.md1 RX.BUFF) hdesc).trans hbuff
              · exact (congrArg (fun y : Desc => tst y.md1 RX.OFLO) hdesc).trans hoflo

/-- A frame the filters let through, on a ring that is accepted. -/
theorem gotfunc_outcome (cb : Callback) {databuf : Buf} {len : Nat} {d : Daemon} {w : World}
    (hon : tst d.csr0 CSR0.RXON = true) (hlen : 20 ≤ len)
    (hring : ringAccepted d.amRdrRdra d.amRdrRlen = true)
    (hacc : rxAccepts d (rxFrame d w.stack databuf len) = true) :
    let r := (gotfunc cb databuf len d).exec w
    RxTaken len d w.ram.mem r.1.2 r.2.ram.mem := by
  obtain ⟨hpos, hmax, -⟩ := ringAccepted_iff.mp hring
  rw [gotfunc_accepted cb hon hlen hring hacc]
  constructor
  · intro hown
    obtain ⟨hres, hsame⟩ := rxLeave_eq cb .missed
      ({ d with rdrOffset := d.rdrOffset % d.amRdrRlen }.csr0Set CSR0.MISS) w
    rw [rxRing_missed rfl hown, hres, hsame.ram, Daemon.csr0_setCsr0, Daemon.csr0_csr0Set]
    exact ⟨(rxLeave_bits _).1, rfl⟩
  · intro hown
    exact rxRing_filled cb hpos hmax _ _ d 0 true w fun _ => hown

/-- Behind its first three tests the call is a load of the stack, the filters
and the ring loop. -/
theorem gotfunc_trace (cb : Callback) {databuf : Buf} {len : Nat} {d : Daemon} {w : World}
    (hon : tst d.csr0 CSR0.RXON = true) (hlen : 20 ≤ len)
    (hring : ringAccepted d.amRdrRdra d.amRdrRlen = true) :
    (gotfunc cb databuf len d).trace w = ⟨.uninit, w.stack⟩ ::
      (if ¬ rxAccepts d (rxFrame d w.stack databuf len) then pure (.dropped, d)
        else rxRing cb d.amRdrRdra d.amRdrRlen (appendFcs (rxFrame d w.stack databuf len) len)
          (len + 4) d 0 true : DProg (RxExit × Daemon)).trace w := by
  unfold gotfunc
  rw [if_neg (by simp [hon]), if_neg (by omega), if_neg (by simp [hring])]
  rfl

/-- A frame the filters refuse. -/
theorem gotfunc_refused (cb : Callback) {databuf : Buf} {len : Nat} {d : Daemon} {w : World}
    (hon : tst d.csr0 CSR0.RXON = true) (hlen : 20 ≤ len)
    (hring : ringAccepted d.amRdrRdra d.amRdrRlen = true)
    (hacc : ¬ rxAccepts d (rxFrame d w.stack databuf len) = true) :
    (gotfunc cb databuf len d).exec w = ((.dropped, d), w) := by
  unfold gotfunc
  rw [if_neg (by simp [hon]), if_neg (by omega), if_neg (by simp [hring]), DProg.exec_bind]
  exact congrArg (fun p : DProg (RxExit × Daemon) => p.exec w) (if_pos hacc)

/-- The call loads a descriptor of the RX ring. -/
def LoadsRing (tr : List DEvent) (rdra : U32) : Prop :=
  ∃ (i : U32) (ev : DEvent), ev ∈ tr ∧ ev.op = .getWord (descOff rdra i) 2

/-- The filters alone decide whether it does. -/
theorem loadsRing_iff (cb : Callback) {databuf : Buf} {len : Nat} {d : Daemon} {w : World}
    (hon : tst d.csr0 CSR0.RXON = true) (hlen : 20 ≤ len)
    (hring : ringAccepted d.amRdrRdra d.amRdrRlen = true) :
    LoadsRing ((gotfunc cb databuf len d).trace w) d.amRdrRdra ↔
      rxAccepts d (rxFrame d w.stack databuf len) = true := by
  rw [gotfunc_trace cb hon hlen hring]
  constructor
  · rintro ⟨i, ev, hev, hop⟩
    by_contra hacc
    rw [if_pos hacc] at hev
    rw [List.mem_singleton.mp hev] at hop
    cases hop
  · intro hacc
    rw [if_neg (not_not.mpr hacc), rxRing]
    exact ⟨d.rdrOffset % d.amRdrRlen, _,
      List.mem_cons_of_mem _ (List.mem_cons_of_mem _ (List.mem_cons_self ..)), rfl⟩

/-- With the receiver on, a ring accepted and no loopback, both copies of the
station address `F` and the real address `R`, neither a group address: a wire
frame goes on to the RX ring exactly when `RxWanted` says so, where it is
stored, cut off or missed, and any other frame changes nothing. -/
theorem rx_filter_exact (cb : Callback) (d : Daemon) (w : World) (databuf : Buf) (len : Nat)
    (fakemac realmac : Mac) (hon : tst d.csr0 CSR0.RXON = true)
    (hring : ringAccepted d.amRdrRdra d.amRdrRlen = true)
    (hloop : tst d.amMode MODE.LOOP = false) (hfake : d.fakemac = fakemac)
    (hmacfake : d.macFakemac = fakemac) (hmacreal : d.macRealmac = realmac)
    (hgfake : groupBit fakemac = false) (hgreal : groupBit realmac = false) (hlen : 20 ≤ len) :
    let wanted := RxWanted d realmac (macAt databuf 0) (macAt databuf 6)
    let r := (gotfunc cb databuf len d).exec w
    (LoadsRing ((gotfunc cb databuf len d).trace w) d.amRdrRdra ↔ wanted) ∧
      (wanted → RxTaken len d w.ram.mem r.1.2 r.2.ram.mem) ∧ (¬ wanted → r.1.2 = d ∧ r.2 = w) := by
  intro wanted r
  have hiff := rxAccepts_iff_wanted w.stack databuf hloop hfake hmacfake hmacreal hgfake hgreal hlen
  refine ⟨(loadsRing_iff cb hon hlen hring).trans hiff, fun hw => ?_, fun hw => ?_⟩
  · exact gotfunc_outcome cb hon hlen hring (hiff.mpr hw)
  · have hexec := gotfunc_refused cb (w := w) hon hlen hring fun h => hw (hiff.mp h)
    exact ⟨congrArg (·.1.2) hexec, congrArg (·.2) hexec⟩

/-- A receiver with a one-descriptor ring and one group in its LADRF. -/
def groupReceiver : Daemon :=
  { (registersReset (.bootWith someFakemac someFakemac someRealmac)).csr0Set CSR0.RXON with
    amRdrRlen := 1
    amLadrf := 1#64 <<< multicastHash #v[0x01, 0x00, 0x5E, 0x00, 0x00, 0x01] }

/-- A frame from nowhere in particular to `dst`. -/
def frameTo (dst : Mac) : Buf := putMac (fun _ => 0x02) 0 dst

/-- Frames for the real address and for the group go on to the ring, which has
no buffer for them; one for another group, or for the driver's address as it
is on the wire, is gone without a trace. -/
theorem rx_filter_exact_some :
    let call := fun dst => (gotfunc .null (frameTo dst) 60 groupReceiver).exec .blank
    tst (call someRealmac).1.2.csr0 CSR0.MISS = true ∧
    tst (call #v[0x01, 0x00, 0x5E, 0x00, 0x00, 0x01]).1.2.csr0 CSR0.MISS = true ∧
    (call #v[0x01, 0x00, 0x5E, 0x00, 0x00, 0x02]).1.2 = groupReceiver ∧
    (call someFakemac).1.2 = groupReceiver := by
  have hexact := fun dst => rx_filter_exact .null groupReceiver .blank (frameTo dst) 60 someFakemac
    someRealmac (by decide) (by decide) (by decide) rfl rfl rfl (by decide) (by decide) (by decide)
  have hown : tst (descAt World.blank.ram.mem groupReceiver.amRdrRdra
      (groupReceiver.rdrOffset % groupReceiver.amRdrRlen).toNat).md1 RX.OWN = false := by
    decide +kernel
  intro call
  have hmiss : ∀ dst, RxWanted groupReceiver someRealmac (macAt (frameTo dst) 0)
      (macAt (frameTo dst) 6) → tst (call dst).1.2.csr0 CSR0.MISS = true :=
    fun dst hw => (((hexact dst).2.1 hw).missed hown).1
  have hgone : ∀ dst, ¬ RxWanted groupReceiver someRealmac (macAt (frameTo dst) 0)
      (macAt (frameTo dst) 6) → (call dst).1.2 = groupReceiver :=
    fun dst hw => ((hexact dst).2.2 hw).1
  exact ⟨hmiss _ (by decide +kernel), hmiss _ (by decide +kernel), hgone _ (by decide +kernel),
    hgone _ (by decide +kernel)⟩

end A2065
