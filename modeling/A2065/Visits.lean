import A2065.Operations

/-!
# The accesses of a ring walk

What one call of `do_transmit` or `gotfunc` does to the descriptors of its
rings, access by access and whatever the loads answer. Every trace of a call
is a sequence of visits (`WalkTrace`): a visit loads the four words of a
descriptor, moves data, and stores to that descriptor only.
-/

namespace A2065

open Bits

/-- The OWN bit, the same in TMD1 and RMD1. -/
def owned (md1 : U16) : Bool := tst md1 TX.OWN

/-- A load of a descriptor word that returned `w`. -/
def loadWord (off disp : U32) (w : U16) : DEvent := ⟨.getWord off disp, w⟩

/-- A store to a descriptor word. -/
def storeWord (off disp : U32) (v : U16) : DEvent := ⟨.putWord off disp v, ()⟩

/-- The four loads a visit starts with. -/
def loadDesc (off : U32) (w0 w1 w2 w3 : U16) : List DEvent :=
  [loadWord off 0 w0, loadWord off 2 w1, loadWord off 4 w2, loadWord off 6 w3]

/-- No word of boardram is accessed. -/
def Eff.IsQuiet : Eff → Prop
  | .getWord _ _ | .putWord _ _ _ => False
  | _ => True

theorem Eff.IsSignal.quiet {e : Eff} (h : e.IsSignal) : e.IsQuiet := by
  cases e <;> simp_all [Eff.IsSignal, Eff.IsQuiet]

/-- The shape of a call's trace. -/
inductive WalkTrace : List DEvent → Prop where
  | nil : WalkTrace []
  | quiet {ev : DEvent} {tr : List DEvent} (h : ev.op.IsQuiet) (ht : WalkTrace tr) :
      WalkTrace (ev :: tr)
  /-- a load of the scan for a frame -/
  | scan {off : U32} {w : U16} {tr : List DEvent} (ht : WalkTrace tr) :
      WalkTrace (loadWord off 2 w :: tr)
  | visit {off : U32} {w0 w1 w2 w3 v : U16} (data stores : List DEvent) {tr : List DEvent}
      (hdata : ∀ ev ∈ data, ev.op.IsQuiet)
      (hstores : ∀ ev ∈ stores, ∃ disp v, ev = storeWord off disp v)
      (hrel : owned w1 = true → owned v = false ∧ ∃ v' st, stores = storeWord off 6 v' :: st)
      (ht : WalkTrace tr) :
      WalkTrace (loadDesc off w0 w1 w2 w3 ++ (data ++ (storeWord off 2 v :: stores ++ tr)))

namespace WalkTrace

theorem quiets {es tr : List DEvent} (h : ∀ ev ∈ es, ev.op.IsQuiet) (ht : WalkTrace tr) :
    WalkTrace (es ++ tr) := by
  induction es with
  | nil => exact ht
  | cons e es ih =>
      have hrest := ih fun ev hev => h ev (List.mem_cons_of_mem _ hev)
      exact .quiet (h e (List.mem_cons_self ..)) hrest

theorem of_quiet {es : List DEvent} (h : ∀ ev ∈ es, ev.op.IsQuiet) : WalkTrace es := by
  have ht := quiets h .nil
  rwa [List.append_nil] at ht

theorem append {a b : List DEvent} (ha : WalkTrace a) (hb : WalkTrace b) :
    WalkTrace (a ++ b) := by
  induction ha with
  | nil => exact hb
  | quiet h _ ih => exact .quiet h ih
  | scan _ ih => exact .scan ih
  | visit data stores hdata hstores hrel _ ih =>
      simp only [List.append_assoc, List.cons_append]
      exact .visit data stores hdata hstores hrel ih

end WalkTrace

@[simp] theorem owned_or (a b : U16) : owned (a ||| b) = (owned a || owned b) := by
  simp only [owned, TX.masks, tst_twoPow, BitVec.getLsbD_or]

@[simp] theorem owned_clear (w : U16) : owned (w &&& ~~~ TX.OWN) = false := by
  simp only [owned, TX.masks, tst_twoPow, getLsbD_and_not_twoPow]
  simp

@[simp] theorem owned_rxClear (w : U16) : owned (w &&& ~~~ RX.OWN) = false := owned_clear w

/-- No status flag is the OWN bit. -/
@[simp] theorem owned_flags : owned RX.STP = false ∧ owned RX.ENP = false ∧
    owned TX.ERR = false := by decide

/-! ## The traces of the walkers -/

theorem runs_getRamWord {α : Type} {off disp : U32} {f : U16 → DProg α} {tr : List DEvent}
    {a : α} : (getRamWord off disp >>= f).Runs tr a ↔
      ∃ w tr', tr = loadWord off disp w :: tr' ∧ (f w).Runs tr' a := Iff.rfl

theorem runs_putRamWord {α : Type} {off disp : U32} {v : U16} {f : Unit → DProg α}
    {tr : List DEvent} {a : α} : (putRamWord off disp v >>= f).Runs tr a ↔
      ∃ tr', tr = storeWord off disp v :: tr' ∧ (f ()).Runs tr' a := by
  constructor
  · rintro ⟨u, tr', rfl, h⟩
    exact ⟨tr', rfl, h⟩
  · rintro ⟨tr', rfl, h⟩
    exact ⟨(), tr', rfl, h⟩

theorem ramReadBlock_quiet (off : U32) (n : Nat) : (ramReadBlock off n).Only Eff.IsQuiet := by
  induction n with
  | zero => exact .pure _
  | succ n ih => exact .bind ih fun _ => .bind (.perform trivial) fun _ => .pure _

theorem ramWriteBlock_quiet (off : U32) (src : Buf) (n : Nat) :
    (ramWriteBlock off src n).Only Eff.IsQuiet := by
  induction n with
  | zero => exact .pure _
  | succ n ih => exact .bind ih fun _ => .perform trivial

theorem rethink_quiet (cb : Callback) (d : Daemon) {α : Type} (f : Daemon → α) :
    (rethink cb d >>= fun d' => pure (f d')).Only Eff.IsQuiet := by
  unfold rethink
  refine .bind ?_ fun _ => .pure _
  simp only
  split
  · refine .bind ?_ fun _ => .pure _
    intro tr a h ev hev
    exact (cb.signals _ tr a h ev hev).quiet
  · exact .pure _

/-- One turn of the receive loop behind its four loads. -/
inductive RxTurn (cb : Callback) (rdra rlen : U32) (tmp : Buf) (len : Nat) (d : Daemon)
    (insize : Nat) (first : Bool) (w0 w1 w2 w3 : U16) : List DEvent → RxExit × Daemon → Prop where
  /-- the descriptor is not the chip's -/
  | refused {tl : List DEvent} {r : RxExit × Daemon} (hown : tst w1 RX.OWN = false)
      (hend : (rethink cb (if first
          then ({ d with rdrOffset := d.rdrOffset % rlen } : Daemon).csr0Set CSR0.MISS
          else ({ d with rdrOffset := d.rdrOffset % rlen } : Daemon).csr0Clr CSR0.RXON)
        >>= fun d' => pure (if first then RxExit.missed else .overrun, d')).Runs tl r) :
      RxTurn cb rdra rlen tmp len d insize first w0 w1 w2 w3
        (storeWord (descOff rdra (d.rdrOffset % rlen)) 2
          (if first then w1 else w1 ||| (RX.BUFF ||| RX.OFLO)) :: tl) r
  /-- its buffer takes the rest of the frame -/
  | last {data tl : List DEvent} {u : Unit} {r : RxExit × Daemon} (hown : tst w1 RX.OWN = true)
      (hdata : (ramWriteBlock (descAddr w0 w1) (fun i => tmp (insize + i)) (byteCount w2)).Runs
        data u)
      (hroom : insize + byteCount w2 ≥ len)
      (hend : (rethink cb (({ d with rdrOffset := d.rdrOffset % rlen + 1 } : Daemon).csr0Set
        CSR0.RINT) >>= fun d' => pure (RxExit.delivered, d')).Runs tl r) :
      RxTurn cb rdra rlen tmp len d insize first w0 w1 w2 w3
        (data ++ storeWord (descOff rdra (d.rdrOffset % rlen)) 2
          ((if first then w1 &&& ~~~ RX.OWN ||| RX.STP else w1 &&& ~~~ RX.OWN) ||| RX.ENP) ::
          storeWord (descOff rdra (d.rdrOffset % rlen)) 6 (BitVec.ofNat 16 len) :: tl) r
  /-- the frame goes on in the next one -/
  | next {data tl : List DEvent} {u : Unit} {r : RxExit × Daemon} (hown : tst w1 RX.OWN = true)
      (hdata : (ramWriteBlock (descAddr w0 w1) (fun i => tmp (insize + i)) (byteCount w2)).Runs
        data u)
      (hroom : ¬ insize + byteCount w2 ≥ len)
      (hnext : (rxRing cb rdra rlen tmp len { d with rdrOffset := d.rdrOffset % rlen + 1 }
        (insize + byteCount w2) false).Runs tl r) :
      RxTurn cb rdra rlen tmp len d insize first w0 w1 w2 w3
        (data ++ storeWord (descOff rdra (d.rdrOffset % rlen)) 2
          (if first then w1 &&& ~~~ RX.OWN ||| RX.STP else w1 &&& ~~~ RX.OWN) ::
          storeWord (descOff rdra (d.rdrOffset % rlen)) 6 w3 :: tl) r

/-- The receive loop is its turns. -/
theorem rxRing_runs {cb : Callback} {rdra rlen : U32} {tmp : Buf} {len : Nat} {d : Daemon}
    {insize : Nat} {first : Bool} {tr : List DEvent} {r : RxExit × Daemon} :
    (rxRing cb rdra rlen tmp len d insize first).Runs tr r ↔ ∃ w0 w1 w2 w3 tail,
      tr = loadDesc (descOff rdra (d.rdrOffset % rlen)) w0 w1 w2 w3 ++ tail ∧
      RxTurn cb rdra rlen tmp len d insize first w0 w1 w2 w3 tail r := by
  rw [rxRing]
  simp only [runs_getRamWord]
  constructor
  · rintro ⟨w0, _, rfl, w1, _, rfl, w2, _, rfl, w3, tail, rfl, h⟩
    refine ⟨w0, w1, w2, w3, tail, rfl, ?_⟩
    by_cases hown : tst w1 RX.OWN = true
    · rw [if_neg (by simp [hown])] at h
      obtain ⟨data, u, rest, rfl, hdata, hrest⟩ := Prog.runs_bind.mp h
      by_cases hroom : insize + byteCount w2 ≥ len
      · rw [if_pos hroom] at hrest
        obtain ⟨_, rfl, hstore⟩ := runs_putRamWord.mp hrest
        obtain ⟨tl, rfl, hend⟩ := runs_putRamWord.mp hstore
        exact .last hown hdata hroom hend
      · rw [if_neg hroom] at hrest
        obtain ⟨_, rfl, hstore⟩ := runs_putRamWord.mp hrest
        obtain ⟨tl, rfl, hnext⟩ := runs_putRamWord.mp hstore
        exact .next hown hdata hroom hnext
    · rw [if_pos hown] at h
      obtain ⟨tl, rfl, hend⟩ := runs_putRamWord.mp h
      exact .refused (by simpa using hown) hend
  · rintro ⟨w0, w1, w2, w3, tail, rfl, h⟩
    refine ⟨w0, _, rfl, w1, _, rfl, w2, _, rfl, w3, tail, rfl, ?_⟩
    cases h with
    | refused hown hend =>
        rw [if_pos (by simpa using hown)]
        exact runs_putRamWord.mpr ⟨_, rfl, hend⟩
    | last hown hdata hroom hend =>
        rw [if_neg (by simpa using hown)]
        refine Prog.runs_bind.mpr ⟨_, _, _, rfl, hdata, ?_⟩
        rw [if_pos hroom]
        exact runs_putRamWord.mpr ⟨_, rfl, runs_putRamWord.mpr ⟨_, rfl, hend⟩⟩
    | next hown hdata hroom hnext =>
        rw [if_neg (by simpa using hown)]
        refine Prog.runs_bind.mpr ⟨_, _, _, rfl, hdata, ?_⟩
        rw [if_neg hroom]
        exact runs_putRamWord.mpr ⟨_, rfl, runs_putRamWord.mpr ⟨_, rfl, hnext⟩⟩

theorem rxRing_walk (cb : Callback) (rdra rlen : U32) (tmp : Buf) (len : Nat) (d : Daemon)
    (insize : Nat) (first : Bool) (tr : List DEvent) (r : RxExit × Daemon)
    (h : (rxRing cb rdra rlen tmp len d insize first).Runs tr r) : WalkTrace tr := by
  -- induction on the bytes still to store, the measure of the loop
  induction hn : len - insize using Nat.strong_induction_on
    generalizing d insize first tr with
  | _ n ih =>
      obtain ⟨w0, w1, w2, w3, tail, rfl, hturn⟩ := rxRing_runs.mp h
      cases hturn with
      | refused hown hend =>
          have ht := WalkTrace.of_quiet (rethink_quiet _ _ _ _ _ hend)
          exact .visit [] [] (by simp) (by simp)
            (fun ho => absurd (hown.symm.trans ho) (by decide)) ht
      | last hown hdata hroom hend =>
          have hq := ramWriteBlock_quiet _ _ _ _ _ hdata
          have ht := WalkTrace.of_quiet (rethink_quiet _ _ _ _ _ hend)
          refine .visit _ [storeWord _ 6 _] hq ?_ (fun _ => ⟨?_, _, [], rfl⟩) ht
          · simp
          · cases first <;> simp
      | next hown hdata hroom hnext =>
          have hq := ramWriteBlock_quiet _ _ _ _ _ hdata
          have hpos := byteCount_pos w2
          have ht := ih _ (by omega) _ _ _ _ hnext rfl
          refine .visit _ [storeWord _ 6 _] hq ?_ (fun _ => ⟨?_, _, [], rfl⟩) ht
          · simp
          · cases first <;> simp

/-- The trace of `gotfunc`. -/
theorem gotfunc_walk (cb : Callback) (databuf : Buf) (len : Nat) (d : Daemon)
    (tr : List DEvent) (r : RxExit × Daemon) (h : (gotfunc cb databuf len d).Runs tr r) :
    WalkTrace tr := by
  unfold gotfunc at h
  split at h
  · exact h.1 ▸ .nil
  split at h
  · exact h.1 ▸ .nil
  split at h
  · exact h.1 ▸ .nil
  obtain ⟨_, tr, rfl, hr⟩ := Prog.runs_perform_bind.mp h
  refine .quiet trivial ?_
  simp only at hr
  split at hr
  · exact hr.1 ▸ .nil
  · exact rxRing_walk _ _ _ _ _ _ _ _ _ _ hr

theorem txScanFrom_walk (tdra tlen start : U32) (n i : Nat) (tmd1 : U16) (offset : U32)
    (tr : List DEvent) (r : U16 × U32)
    (h : (txScanFrom tdra tlen start i tmd1 offset n).Runs tr r) : WalkTrace tr := by
  induction n generalizing i tmd1 offset tr with
  | zero => exact h.1 ▸ .nil
  | succ n ih =>
      rw [txScanFrom] at h
      obtain ⟨w, tr, rfl, hr⟩ := runs_getRamWord.mp h
      refine .scan ?_
      split at hr
      · exact hr.1 ▸ .nil
      · exact ih _ _ _ _ hr

theorem txScan_walk (tdra tlen start : U32) (tr : List DEvent) (r : U16 × U32)
    (h : (txScan tdra tlen start).Runs tr r) : WalkTrace tr := by
  obtain ⟨w, tr, rfl, hr⟩ := runs_getRamWord.mp h
  refine .scan ?_
  split at hr
  · exact hr.1 ▸ .nil
  · exact txScanFrom_walk _ _ _ _ _ _ _ _ _ hr

/-- The chain loop has ended with the visit of its last descriptor open:
the stores `st` are made, more may follow. -/
structure OpenVisit (t : TxWalk) (d : Daemon) (tr : List DEvent) : Prop where
  released : owned t.tmd1 = false
  shape : ∃ before w0 w1 w2 w3 data st, WalkTrace before ∧
    tr = before ++ (loadDesc t.off w0 w1 w2 w3 ++ (data ++ st)) ∧
    (∀ ev ∈ data, ev.op.IsQuiet) ∧
    ((st = [] ∧ (60 ≤ t.outsize ∨ tst d.amMode MODE.LOOP = true)) ∨
      ∃ v v', st = [storeWord t.off 2 v, storeWord t.off 6 v'] ∧ owned v = false)

theorem OpenVisit.prepend {t : TxWalk} {d : Daemon} {a tr : List DEvent} (ha : WalkTrace a)
    (h : OpenVisit t d tr) : OpenVisit t d (a ++ tr) := by
  obtain ⟨before, w0, w1, w2, w3, data, st, hb, rfl, hq, hst⟩ := h.shape
  exact ⟨h.released, a ++ before, w0, w1, w2, w3, data, st, ha.append hb, by simp, hq, hst⟩

/-- Outside loopback the last descriptor is padded to a full frame. -/
theorem txPad_last (d : Daemon) {tmd1 : U16} (h : tst tmd1 TX.ENP = true) (outsize : Nat) :
    60 ≤ (txPad d tmd1 outsize).2 ∨
      tst (txPad d tmd1 outsize).1.amMode MODE.LOOP = true := by
  unfold txPad
  split
  · exact .inl (Nat.le_refl 60)
  · rename_i hpad
    by_cases hl : tst d.amMode MODE.LOOP = true
    · exact .inr hl
    · refine .inl (Nat.le_of_not_lt fun hlt => hpad ⟨h, hlt, hl⟩)

theorem txChain_walk (tdra tlen : U32) (d : Daemon) (outsize : Nat) (tr : List DEvent)
    (r : TxWalk × Daemon) (h : (txChain tdra tlen d outsize).Runs tr r) :
    if r.1.err then WalkTrace tr else OpenVisit r.1 r.2 tr := by
  -- induction on the room left in `transmitbuffer`, the measure of the loop
  induction hn : MAX_PACKET_SIZE + 1 - outsize using Nat.strong_induction_on
    generalizing d outsize tr with
  | _ n ih =>
      rw [txChain] at h
      simp only [runs_getRamWord] at h
      obtain ⟨w0, _, rfl, w1, _, rfl, w2, _, rfl, w3, tr, rfl, h⟩ := h
      split at h
      · rename_i hown
        obtain ⟨_, rfl, h2⟩ := runs_putRamWord.mp h
        obtain ⟨_, rfl, rfl, rfl⟩ := runs_putRamWord.mp h2
        rw [if_pos rfl]
        exact .visit [] [storeWord _ 6 _] (by simp) (by simp) (fun ho => absurd ho hown) .nil
      split at h
      · obtain ⟨_, rfl, h2⟩ := runs_putRamWord.mp h
        obtain ⟨_, rfl, rfl, rfl⟩ := runs_putRamWord.mp h2
        rw [if_neg (by simp)]
        refine ⟨owned_clear w1, [], w0, w1, w2, w3, [], _, .nil, rfl, by simp, .inr ?_⟩
        exact ⟨_, _, rfl, owned_clear w1⟩
      obtain ⟨data, bytes, tr, rfl, hdata, hr⟩ := Prog.runs_bind.mp h
      have hq := ramReadBlock_quiet _ _ _ _ hdata
      split at hr
      · rename_i henp
        obtain ⟨rfl, rfl⟩ := hr
        rw [if_neg (by simp)]
        exact ⟨owned_clear w1, [], w0, w1, w2, w3, data, [], .nil, rfl, hq,
          .inl ⟨rfl, txPad_last _ henp _⟩⟩
      · obtain ⟨_, rfl, h2⟩ := runs_putRamWord.mp hr
        obtain ⟨tr, rfl, h6⟩ := runs_putRamWord.mp h2
        have hpos := byteCount_pos w2
        have hmax : 0 < MAX_PACKET_SIZE := by decide
        have hle := le_txPad { d with
          tdrOffset := d.tdrOffset % tlen,
          transmitbuffer := bufWrite d.transmitbuffer outsize bytes } (w1 &&& ~~~ TX.OWN)
          (outsize + min (byteCount w2) MAX_PACKET_SIZE)
        have hrest := ih _ (by omega) _ _ _ h6 rfl
        have hvisit : ∀ off v v', owned v = false → WalkTrace (loadDesc off w0 w1 w2 w3 ++
            (data ++ [storeWord off 2 v, storeWord off 6 v'])) := by
          intro off v v' hv
          exact .visit data [storeWord off 6 v'] hq (by simp) (fun _ => ⟨hv, v', [], rfl⟩) .nil
        have happ := hvisit (descOff tdra (d.tdrOffset % tlen)) _ w3 (owned_clear w1)
        split
        · rw [if_pos ‹_›] at hrest
          simpa [loadDesc] using happ.append hrest
        · rw [if_neg ‹_›] at hrest
          simpa [loadDesc] using hrest.prepend happ

/-- What `txFinish` adds to an open visit. -/
theorem txFinish_walk (cb : Callback) (addFcs : Bool) (t : TxWalk) (d : Daemon)
    (tr : List DEvent) (d' : Daemon) (herr : t.err = false) (hrel : owned t.tmd1 = false)
    (h : (txFinish cb addFcs t d).Runs tr d') :
    ∃ st rest, tr = st ++ rest ∧ WalkTrace rest ∧
      (∀ ev ∈ st, ∃ disp v, ev = storeWord t.off disp v) ∧
      (60 ≤ t.outsize ∨ tst d.amMode MODE.LOOP = true → ∃ v v',
        st = [storeWord t.off 2 v, storeWord t.off 6 v'] ∧ owned v = false) := by
  have hpair : ∀ v v' rest, owned v = false → WalkTrace rest →
      tr = [storeWord t.off 2 v, storeWord t.off 6 v'] ++ rest →
      ∃ st rest, tr = st ++ rest ∧ WalkTrace rest ∧
        (∀ ev ∈ st, ∃ disp v, ev = storeWord t.off disp v) ∧
        (60 ≤ t.outsize ∨ tst d.amMode MODE.LOOP = true → ∃ v v',
          st = [storeWord t.off 2 v, storeWord t.off 6 v'] ∧ owned v = false) := by
    rintro v v' rest hv hrest rfl
    exact ⟨_, rest, rfl, hrest, by simp, fun _ => ⟨v, v', rfl, hv⟩⟩
  have herror : owned (t.tmd1 ||| TX.ERR) = false := by simp [hrel]
  unfold txFinish at h
  rw [if_neg (by simp [herr])] at h
  split at h
  · rename_i hshort
    obtain ⟨_, rfl, h6⟩ := runs_putRamWord.mp h
    obtain ⟨_, rfl, rfl, rfl⟩ := runs_putRamWord.mp h6
    refine ⟨[storeWord t.off 6 _, storeWord t.off 2 _], [], rfl, .nil, by simp, ?_⟩
    intro hlong
    rcases hlong with hlong | hloop
    · omega
    · exact absurd hloop hshort.2
  split at h
  · unfold txLoop at h
    split at h
    · obtain ⟨_, rfl, h2⟩ := runs_putRamWord.mp h
      obtain ⟨_, rfl, rfl, rfl⟩ := runs_putRamWord.mp h2
      exact hpair _ _ [] herror .nil rfl
    · obtain ⟨_, rfl, h2⟩ := runs_putRamWord.mp h
      obtain ⟨rest, rfl, h6⟩ := runs_putRamWord.mp h2
      obtain ⟨tr₁, r, tr₂, rfl, hgot, rfl, rfl⟩ := Prog.runs_bind.mp h6
      exact hpair _ _ _ hrel ((gotfunc_walk _ _ _ _ _ _ hgot).append .nil) rfl
  · unfold txWire at h
    simp only at h
    split at h
    · obtain ⟨_, rfl, h2⟩ := runs_putRamWord.mp h
      obtain ⟨_, rfl, rfl, rfl⟩ := runs_putRamWord.mp h2
      exact hpair _ _ [] herror .nil rfl
    · obtain ⟨_, rfl, h2⟩ := runs_putRamWord.mp h
      obtain ⟨_, rfl, h6⟩ := runs_putRamWord.mp h2
      obtain ⟨u, _, rfl, rfl, rfl⟩ := Prog.runs_perform_bind.mp h6
      have hsend : ∀ frame, WalkTrace [⟨.ethernetSend frame, u⟩] :=
        fun frame => .quiet trivial .nil
      exact hpair _ _ _ hrel (hsend _) rfl

/-- An open visit and what follows make a walk. -/
theorem OpenVisit.close {t : TxWalk} {d : Daemon} {tr st rest : List DEvent}
    (h : OpenVisit t d tr) (hrest : WalkTrace rest)
    (hst : ∀ ev ∈ st, ∃ disp v, ev = storeWord t.off disp v)
    (hfull : 60 ≤ t.outsize ∨ tst d.amMode MODE.LOOP = true → ∃ v v',
      st = [storeWord t.off 2 v, storeWord t.off 6 v'] ∧ owned v = false) :
    WalkTrace (tr ++ (st ++ rest)) := by
  obtain ⟨before, w0, w1, w2, w3, data, made, hb, rfl, hq, hmade⟩ := h.shape
  rcases hmade with ⟨rfl, hlong⟩ | ⟨v, v', rfl, hv⟩
  · obtain ⟨v, v', rfl, hv⟩ := hfull hlong
    have hvisit : WalkTrace (loadDesc t.off w0 w1 w2 w3 ++
        (data ++ (storeWord t.off 2 v :: [storeWord t.off 6 v'] ++ rest))) :=
      .visit data [storeWord t.off 6 v'] hq (by simp) (fun _ => ⟨hv, v', [], rfl⟩) hrest
    simpa using hb.append hvisit
  · have hvisit : WalkTrace (loadDesc t.off w0 w1 w2 w3 ++
        (data ++ (storeWord t.off 2 v :: (storeWord t.off 6 v' :: st) ++ rest))) :=
      .visit data (storeWord t.off 6 v' :: st) hq
        (by simpa using hst) (fun _ => ⟨hv, v', st, rfl⟩) hrest
    simpa using hb.append hvisit

theorem doTransmit_walk (cb : Callback) (d : Daemon) (tr : List DEvent) (r : Nat × Daemon)
    (h : (doTransmit cb d).Runs tr r) : WalkTrace tr := by
  unfold doTransmit at h
  split at h
  · exact h.1 ▸ .nil
  split at h
  · exact h.1 ▸ .nil
  obtain ⟨scan, s, _, rfl, hscan, hr⟩ := Prog.runs_bind.mp h
  refine (txScan_walk _ _ _ _ _ hscan).append ?_
  simp only at hr
  split at hr
  · exact hr.1 ▸ .nil
  obtain ⟨chain, c, _, rfl, hchain, hr⟩ := Prog.runs_bind.mp hr
  obtain ⟨fin, d₁, last, rfl, hfin, hr⟩ := Prog.runs_bind.mp hr
  have hlast : WalkTrace last := .of_quiet (rethink_quiet _ _ _ _ _ hr)
  have hwalk := txChain_walk _ _ _ _ _ _ hchain
  split at hwalk
  · rename_i herr
    unfold txFinish at hfin
    rw [if_pos herr] at hfin
    rw [hfin.1, List.nil_append]
    exact hwalk.append hlast
  · rename_i herr
    obtain ⟨st, rest, rfl, hrest, hst, hfull⟩ := txFinish_walk cb _ _ _ _ _
      (by simpa using herr) hwalk.released hfin
    have := hwalk.close (hrest.append hlast) hst hfull
    simpa using this

/-- A call that walks a ring. -/
inductive RingCall where
  | transmit
  | receive (databuf : Buf) (len : Nat)

/-- `tr` is the trace of the call from `d`, its loads answered in any way. -/
def RingCall.Traces (cb : Callback) (d : Daemon) (tr : List DEvent) : RingCall → Prop
  | .transmit => ∃ r, (doTransmit cb d).Runs tr r
  | .receive databuf len => ∃ r, (gotfunc cb databuf len d).Runs tr r

theorem RingCall.Traces.walk {cb : Callback} {c : RingCall} {d : Daemon} {tr : List DEvent}
    (h : c.Traces cb d tr) : WalkTrace tr := by
  cases c with
  | transmit =>
      obtain ⟨r, hr⟩ := h
      exact doTransmit_walk cb d tr r hr
  | receive databuf len =>
      obtain ⟨r, hr⟩ := h
      exact gotfunc_walk cb databuf len d tr r hr

end A2065
