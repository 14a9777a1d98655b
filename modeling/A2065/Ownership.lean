import A2065.Visits

/-!
# Descriptor ownership

A descriptor belongs to the chip while its OWN bit is set. Two rules follow
for the daemon: store to a descriptor only if it was found owned, and release
it with the last store. The visits of `WalkTrace` decide both: an unowned
descriptor is stored to all the same, and an owned one is released before its
word 3 is stored.
-/

namespace A2065

open Bits

/-- What a call has loaded last from word `disp` of the descriptor at `off`. -/
abbrev Loaded := U32 → U32 → Option U16

/-- The loads with one more event. -/
def noteLoad (seen : Loaded) : DEvent → Loaded
  | ⟨.getWord off disp, w⟩ => fun o p => if o = off ∧ p = disp then some w else seen o p
  | _ => seen

/-- The loads of a whole trace. -/
def lastLoad (tr : List DEvent) : Loaded := tr.foldl noteLoad fun _ _ => none

/-- The status word was loaded, and had OWN set. -/
def Loaded.owns (seen : Loaded) (off : U32) : Bool := (seen off 2).any owned

/-! ## Stores to owned descriptors only -/

/-- Each descriptor store is to a descriptor last loaded with OWN set. -/
def OwnedStores (tr : List DEvent) : Prop :=
  ∀ pre off disp v post, tr = pre ++ storeWord off disp v :: post →
    (lastLoad pre).owns off = true

/-- A word store by the host. -/
structure HostStore where
  off : U32
  disp : U32
  v : U16

/-- The daemon's accesses in an interleaving with stores of the host. -/
def daemonPart (mx : List (DEvent ⊕ HostStore)) : List DEvent := mx.filterMap Sum.getLeft?

/-- No store of the host that sets OWN is overwritten by a store of the daemon
that rests on an older load with OWN clear. -/
def NoLostArm (mx : List (DEvent ⊕ HostStore)) : Prop :=
  ∀ a off v b v' c, mx = a ++ .inr ⟨off, 2, v⟩ :: (b ++ .inl (storeWord off 2 v') :: c) →
    owned v = true → (∀ w, .inl (loadWord off 2 w) ∉ b) →
    ¬ ∃ w, lastLoad (daemonPart a) off 2 = some w ∧ owned w = false

/-- Each descriptor the walk takes up (it loads the byte count) was found with
OWN at `b`. -/
def Takes (b : Bool) (tr : List DEvent) : Prop :=
  ∀ pre off w post, tr = pre ++ loadWord off 4 w :: post → (lastLoad pre).owns off = b

/-- The two rules as monitors. -/
def storeOwned (seen : Loaded) (ev : DEvent) : Bool :=
  match ev.op with
  | .putWord off _ _ => seen.owns off
  | _ => true

/-- The loads of a byte count come from descriptors with OWN at `b`. -/
def takeIs (b : Bool) (seen : Loaded) (ev : DEvent) : Bool :=
  match ev.op with
  | .getWord off disp => if disp = 4 then seen.owns off == b else true
  | _ => true

theorem ownedStores_iff (tr : List DEvent) : OwnedStores tr ↔
    Watch noteLoad (fun seen ev => storeOwned seen ev = true) (fun _ _ => none) tr := by
  rw [Watch.iff_split]
  constructor
  · intro h pre ev post htr
    obtain ⟨op, ans⟩ := ev
    cases op with
    | putWord off disp v => exact h pre off disp v post htr
    | _ => rfl
  · intro h pre off disp v post htr
    exact h pre _ post htr

theorem takes_iff (b : Bool) (tr : List DEvent) : Takes b tr ↔
    Watch noteLoad (fun seen ev => takeIs b seen ev = true) (fun _ _ => none) tr := by
  rw [Watch.iff_split]
  constructor
  · intro h pre ev post htr
    obtain ⟨op, ans⟩ := ev
    cases op with
    | getWord off disp =>
        show (if disp = 4 then (lastLoad pre).owns off == b else true) = true
        split
        · rename_i hd
          subst hd
          exact beq_iff_eq.mpr (h pre off ans post htr)
        · rfl
    | _ => rfl
  · intro h pre off w post htr
    exact beq_iff_eq.mp (h pre _ post htr)

/-! ### What a visit does to the monitors -/

theorem noteLoad_quiet {ev : DEvent} (h : ev.op.IsQuiet) (seen : Loaded) :
    noteLoad seen ev = seen := by
  obtain ⟨op, ans⟩ := ev
  cases op with
  | getWord off disp => exact h.elim
  | _ => rfl

theorem storeOwned_quiet {ev : DEvent} (h : ev.op.IsQuiet) (seen : Loaded) :
    storeOwned seen ev = true := by
  obtain ⟨op, ans⟩ := ev
  cases op with
  | putWord off disp v => exact h.elim
  | _ => rfl

theorem takeIs_quiet {ev : DEvent} (h : ev.op.IsQuiet) (b : Bool) (seen : Loaded) :
    takeIs b seen ev = true := by
  obtain ⟨op, ans⟩ := ev
  cases op with
  | getWord off disp => exact h.elim
  | _ => rfl

/-- The loads of a visit leave its status word behind. -/
theorem loadDesc_owns (seen : Loaded) (off : U32) (w0 w1 w2 w3 : U16) :
    ((loadDesc off w0 w1 w2 w3).foldl noteLoad seen).owns off = owned w1 := by
  simp [loadDesc, loadWord, noteLoad, Loaded.owns]

section visit

variable {off : U32} {data stores : List DEvent}

/-- The part of a visit behind its loads. -/
theorem visit_mem {v : U16} (hdata : ∀ ev ∈ data, ev.op.IsQuiet)
    (hstores : ∀ ev ∈ stores, ∃ disp v, ev = storeWord off disp v) {ev : DEvent}
    (h : ev ∈ data ++ storeWord off 2 v :: stores) :
    ev.op.IsQuiet ∨ ∃ disp v, ev = storeWord off disp v := by
  rcases List.mem_append.mp h with h | h
  · exact .inl (hdata ev h)
  rcases List.mem_cons.mp h with rfl | h
  · exact .inr ⟨2, v, rfl⟩
  · exact .inr (hstores ev h)

/-- It leaves what was loaded alone. -/
theorem noteLoad_of_store_or_quiet {ev : DEvent} (seen : Loaded)
    (h : ev.op.IsQuiet ∨ ∃ disp v, ev = storeWord off disp v) : noteLoad seen ev = seen := by
  rcases h with h | ⟨disp, v, rfl⟩
  · exact noteLoad_quiet h seen
  · rfl

theorem quiet_foldl (seen : Loaded) (hdata : ∀ ev ∈ data, ev.op.IsQuiet) :
    data.foldl noteLoad seen = seen :=
  (Watch.idle (P := fun _ _ => True) (fun ev hev => noteLoad_quiet (hdata ev hev) seen)
    fun _ _ => trivial).1

theorem visit_foldl (seen : Loaded) {v : U16} (hdata : ∀ ev ∈ data, ev.op.IsQuiet)
    (hstores : ∀ ev ∈ stores, ∃ disp v, ev = storeWord off disp v) :
    (data ++ storeWord off 2 v :: stores).foldl noteLoad seen = seen :=
  (Watch.idle (P := fun _ _ => True)
    (fun _ hev => noteLoad_of_store_or_quiet seen (visit_mem hdata hstores hev))
    fun _ _ => trivial).1

/-- A monitor of loads reads a visit in three parts. -/
theorem watch_visit {P : Loaded → DEvent → Prop} (seen : Loaded) {w0 w1 w2 w3 v : U16}
    {tr : List DEvent} (hdata : ∀ ev ∈ data, ev.op.IsQuiet)
    (hstores : ∀ ev ∈ stores, ∃ disp v, ev = storeWord off disp v) :
    Watch noteLoad P seen
        (loadDesc off w0 w1 w2 w3 ++ (data ++ (storeWord off 2 v :: stores ++ tr))) ↔
      Watch noteLoad P seen (loadDesc off w0 w1 w2 w3) ∧
      Watch noteLoad P ((loadDesc off w0 w1 w2 w3).foldl noteLoad seen)
        (data ++ storeWord off 2 v :: stores) ∧
      Watch noteLoad P ((loadDesc off w0 w1 w2 w3).foldl noteLoad seen) tr := by
  rw [← List.append_assoc data, Watch.append, Watch.append _ (data ++ _),
    visit_foldl _ hdata hstores]

/-- Its stores are allowed exactly if the descriptor is owned. -/
theorem visit_stores (seen : Loaded) {v : U16} (hdata : ∀ ev ∈ data, ev.op.IsQuiet)
    (hstores : ∀ ev ∈ stores, ∃ disp v, ev = storeWord off disp v) :
    Watch noteLoad (fun seen ev => storeOwned seen ev = true) seen
      (data ++ storeWord off 2 v :: stores) ↔ seen.owns off = true := by
  constructor
  · intro h
    have hstore := ((Watch.append _ _ _).mp h).2.1
    rw [quiet_foldl seen hdata] at hstore
    exact hstore
  · intro h
    refine (Watch.idle (fun ev hev => noteLoad_of_store_or_quiet seen
      (visit_mem hdata hstores hev)) fun ev hev => ?_).2
    rcases visit_mem hdata hstores hev with hq | ⟨disp, v, rfl⟩
    · exact storeOwned_quiet hq seen
    · exact h

/-- It takes up no descriptor. -/
theorem visit_takes (b : Bool) (seen : Loaded) (v : U16) (hdata : ∀ ev ∈ data, ev.op.IsQuiet)
    (hstores : ∀ ev ∈ stores, ∃ disp v, ev = storeWord off disp v) :
    Watch noteLoad (fun seen ev => takeIs b seen ev = true) seen
      (data ++ storeWord off 2 v :: stores) := by
  refine (Watch.idle (fun ev hev => noteLoad_of_store_or_quiet seen
    (visit_mem hdata hstores hev)) fun ev hev => ?_).2
  rcases visit_mem hdata hstores hev with hq | ⟨disp, v, rfl⟩
  · exact takeIs_quiet hq b seen
  · rfl

/-- Its loads take up the descriptor with the status they find. -/
theorem loadDesc_takes (b : Bool) (seen : Loaded) (w0 w1 w2 w3 : U16) :
    Watch noteLoad (fun seen ev => takeIs b seen ev = true) seen (loadDesc off w0 w1 w2 w3) ↔
      owned w1 = b := by
  simp [loadDesc, loadWord, takeIs, noteLoad, Loaded.owns]

end visit

/-- On a walk the two rules stand and fall together. -/
theorem WalkTrace.owned_iff {tr : List DEvent} (h : WalkTrace tr) (seen : Loaded) :
    Watch noteLoad (fun seen ev => storeOwned seen ev = true) seen tr ↔
      Watch noteLoad (fun seen ev => takeIs true seen ev = true) seen tr := by
  induction h generalizing seen with
  | nil => exact Iff.rfl
  | quiet hq _ ih =>
      rw [Watch.cons, Watch.cons, noteLoad_quiet hq, ih, storeOwned_quiet hq, takeIs_quiet hq]
  | scan _ ih =>
      rw [Watch.cons, Watch.cons, ih]
      exact and_congr_left fun _ => ⟨fun _ => rfl, fun _ => rfl⟩
  | @visit off w0 w1 w2 w3 v data stores tr hdata hstores hrel _ ih =>
      have hloads : Watch noteLoad (fun seen ev => storeOwned seen ev = true) seen
          (loadDesc off w0 w1 w2 w3) := ⟨rfl, rfl, rfl, rfl, trivial⟩
      have htakes := visit_takes true ((loadDesc off w0 w1 w2 w3).foldl noteLoad seen) v
        hdata hstores
      rw [watch_visit seen hdata hstores, watch_visit seen hdata hstores,
        visit_stores _ hdata hstores, loadDesc_owns, ih, loadDesc_takes]
      tauto

theorem WalkTrace.ownedStores_iff {tr : List DEvent} (h : WalkTrace tr) :
    OwnedStores tr ↔ Takes true tr := by
  rw [A2065.ownedStores_iff, takes_iff]
  exact h.owned_iff _

/-! ### Interleavings with the host -/

/-- Events that load no status word of `off` leave the last one. -/
theorem foldl_noteLoad_status (b : List DEvent) (seen : Loaded) (off : U32)
    (h : ∀ w, loadWord off 2 w ∉ b) : b.foldl noteLoad seen off 2 = seen off 2 := by
  induction b generalizing seen with
  | nil => rfl
  | cons ev b ih =>
      rw [List.foldl_cons, ih _ fun w hw => h w (List.mem_cons_of_mem _ hw)]
      obtain ⟨op, ans⟩ := ev
      cases op with
      | getWord o disp =>
          refine if_neg ?_
          rintro ⟨rfl, rfl⟩
          exact h ans (List.mem_cons_self ..)
      | _ => rfl

theorem daemonPart_map (tr : List DEvent) : daemonPart (tr.map .inl) = tr := by
  induction tr with
  | nil => rfl
  | cons ev tr ih => exact congrArg (ev :: ·) ih

/-- Stores to owned descriptors only never overwrite a fresh OWN. -/
theorem OwnedStores.noLostArm {mx : List (DEvent ⊕ HostStore)}
    (h : OwnedStores (daemonPart mx)) : NoLostArm mx := by
  rintro a off v b v' c rfl - hb ⟨w, hw, hown⟩
  have hpart : daemonPart (a ++ .inr ⟨off, 2, v⟩ :: (b ++ .inl (storeWord off 2 v') :: c)) =
      (daemonPart a ++ daemonPart b) ++ storeWord off 2 v' :: daemonPart c := by
    simp [daemonPart, List.filterMap_cons]
  have howns := h _ off 2 v' _ hpart
  rw [Loaded.owns, lastLoad, List.foldl_append, foldl_noteLoad_status _ _ _ ?_, ← lastLoad,
    hw] at howns
  · rw [Option.any_some, hown] at howns
    cases howns
  · intro w' hw'
    rw [daemonPart, List.mem_filterMap] at hw'
    obtain ⟨x, hx, hleft⟩ := hw'
    rw [Sum.getLeft?_eq_some_iff] at hleft
    exact hb w' (hleft ▸ hx)

/-! ### Two calls on rings of one descriptor -/

/-- Both engines on, promiscuous, each ring one descriptor at offset 0. -/
def tinyRings : Daemon :=
  { Daemon.boot with
    csr := fun n => if n = 0 then CSR0.TXON ||| CSR0.RXON else 0
    amMode := MODE.PROM
    amRdrRlen := 1
    amTdrTlen := 1
    fakemac := BROADCAST_MAC }

/-- The descriptor at offset 0 holds a one-byte frame to send. -/
def tinyWorld : World :=
  { World.blank with ram := (World.blank.ram.putRamWord 2 0x8300).putRamWord 4 0xFFFF }

/-- A frame arrives and finds the descriptor unowned. -/
def missTrace : List DEvent := (gotfunc .null (fun _ => 0) 20 tinyRings).trace .blank

theorem missTrace_traces :
    (RingCall.receive (fun _ => 0) 20).Traces .null tinyRings missTrace :=
  ⟨_, Prog.runs_exec World.handle _ _⟩

/-- The frame at offset 0 is sent. -/
def sendTrace : List DEvent := (doTransmit .null tinyRings).trace tinyWorld

theorem sendTrace_traces : RingCall.transmit.Traces .null tinyRings sendTrace :=
  ⟨_, Prog.runs_exec World.handle _ _⟩

/-- A call stores to descriptors it found owned only, and overwrites no fresh
OWN of the host in any interleaving, exactly if every descriptor it takes up
was found owned. -/
theorem descriptor_ownership_iff (cb : Callback) (c : RingCall) (d : Daemon)
    (tr : List DEvent) (h : c.Traces cb d tr) :
    (OwnedStores tr ∧ ∀ mx, daemonPart mx = tr → NoLostArm mx) ↔ Takes true tr := by
  rw [← h.walk.ownedStores_iff]
  constructor
  · exact fun hp => hp.1
  · intro hs
    refine ⟨hs, ?_⟩
    rintro mx rfl
    exact hs.noLostArm

/-- Sending takes up an owned descriptor. -/
theorem descriptor_ownership_of_send :
    OwnedStores sendTrace ∧ ∀ mx, daemonPart mx = sendTrace → NoLostArm mx :=
  (descriptor_ownership_iff .null .transmit tinyRings sendTrace sendTrace_traces).mpr
    ((takes_iff _ _).mpr (by decide +kernel))

/-- The store rests on a load with OWN clear. -/
def armLost (seen : Loaded) (ev : DEvent) : Bool :=
  match ev.op with
  | .putWord off disp _ => disp = 2 && (seen off 2).any (!owned ·)
  | _ => false

/-- Wherever a status store rests on a load with OWN clear, the host can have
set OWN just before. -/
theorem noLostArm_watch {tr : List DEvent} (h : ∀ mx, daemonPart mx = tr → NoLostArm mx) :
    Watch noteLoad (fun seen ev => armLost seen ev = false) (fun _ _ => none) tr := by
  rw [Watch.iff_split]
  rintro pre ⟨op, ans⟩ post rfl
  by_contra hlost
  rw [Bool.not_eq_false] at hlost
  cases op with
  | putWord off disp v =>
      simp only [armLost, Bool.and_eq_true, decide_eq_true_eq, Option.any_eq_true] at hlost
      obtain ⟨rfl, w, hw, hown⟩ := hlost
      refine h (pre.map .inl ++ .inr ⟨off, 2, TX.OWN⟩ ::
        ([] ++ .inl (storeWord off 2 v) :: post.map .inl)) ?_ _ _ _ _ _ _ rfl (by decide)
        (by simp) ⟨w, ?_, by simpa using hown⟩
      · rw [daemonPart, List.filterMap_append, ← daemonPart, daemonPart_map]
        exact congrArg (pre ++ storeWord off 2 v :: ·) (daemonPart_map post)
      · rw [daemonPart_map]
        exact hw
  | _ => cases hlost

/-- A frame that finds the descriptor unowned is answered by a store to it,
which can overwrite the OWN the host has just set. -/
theorem unowned_descriptor_stored :
    (RingCall.receive (fun _ => 0) 20).Traces .null tinyRings missTrace ∧
      ¬ OwnedStores missTrace ∧ ¬ ∀ mx, daemonPart mx = missTrace → NoLostArm mx := by
  refine ⟨missTrace_traces, fun h => ?_, fun h => ?_⟩
  · exact absurd ((ownedStores_iff _).mp h) (by decide +kernel)
  · exact absurd (noLostArm_watch h) (by decide +kernel)

/-! ## Release last -/

/-- The event clears OWN of the descriptor at `off`. -/
def Releases (seen : Loaded) (ev : DEvent) (off : U32) : Prop :=
  seen.owns off = true ∧ ∃ v, ev = storeWord off 2 v ∧ owned v = false

/-- The byte at `a` belongs to the data buffer of the descriptor at `off`. -/
def InBuffer (seen : Loaded) (off a : U32) : Prop :=
  ∃ w0 w1 w2, seen off 0 = some w0 ∧ seen off 2 = some w1 ∧ seen off 4 = some w2 ∧
    ∃ i < byteCount w2, cell a = cell (descAddr w0 w1 + BitVec.ofNat 32 i)

/-- The store that releases a descriptor comes after every other store to its
words and to its data buffer. -/
def ReleaseLast (tr : List DEvent) : Prop :=
  ∀ pre ev post off, tr = pre ++ ev :: post → Releases (lastLoad pre) ev off →
    (∀ disp v, storeWord off disp v ∉ post) ∧
      ∀ a b, ⟨.putByte a b, ()⟩ ∈ post → ¬ InBuffer (lastLoad pre) off a

/-- A host that reads OWN clear finds word 3 final: it is stored again only
after the daemon has found the descriptor re-armed. -/
def PolledFinal (tr : List DEvent) : Prop :=
  ∀ pre ev mid v post off, tr = pre ++ ev :: (mid ++ storeWord off 6 v :: post) →
    Releases (lastLoad pre) ev off → ∃ w, loadWord off 2 w ∈ mid ∧ owned w = true

theorem ReleaseLast.polledFinal {tr : List DEvent} (h : ReleaseLast tr) : PolledFinal tr := by
  rintro pre ev mid v post off htr hrel
  exact absurd (List.mem_append_right _ (List.mem_cons_self ..)) ((h pre ev _ off htr hrel).1 6 v)

theorem storeWord_inj {off off' disp disp' : U32} {v v' : U16} :
    storeWord off disp v = storeWord off' disp' v' ↔ off = off' ∧ disp = disp' ∧ v = v' := by
  constructor
  · intro h
    cases h
    exact ⟨rfl, rfl, rfl⟩
  · rintro ⟨rfl, rfl, rfl⟩
    rfl

theorem not_releases_load (seen : Loaded) (o p : U32) (w : U16) (off : U32) :
    ¬ Releases seen (loadWord o p w) off := by
  rintro ⟨-, v, hv, -⟩
  cases hv

/-- A walk that finds nothing owned releases nothing. -/
theorem WalkTrace.no_release {tr : List DEvent} (h : WalkTrace tr) {seen : Loaded}
    (hnone : Watch noteLoad (fun seen ev => takeIs false seen ev = true) seen tr) :
    Watch noteLoad (fun seen ev => ∀ off, ¬ Releases seen ev off) seen tr := by
  induction h generalizing seen with
  | nil => exact trivial
  | quiet hq _ ih =>
      rw [Watch.cons, noteLoad_quiet hq] at hnone ⊢
      refine ⟨?_, ih hnone.2⟩
      rintro off ⟨-, v, rfl, -⟩
      exact hq
  | scan _ ih => exact ⟨not_releases_load _ _ _ _, ih hnone.2⟩
  | @visit off w0 w1 w2 w3 v data stores tr hdata hstores hrel _ ih =>
      rw [watch_visit seen hdata hstores] at hnone ⊢
      obtain ⟨hloads, -, hrest⟩ := hnone
      refine ⟨?_, ?_, ih hrest⟩
      · exact ⟨not_releases_load _ _ _ _, not_releases_load _ _ _ _, not_releases_load _ _ _ _,
          not_releases_load _ _ _ _, trivial⟩
      · refine (Watch.idle (fun ev hev => noteLoad_of_store_or_quiet _
          (visit_mem hdata hstores hev)) fun ev hev off' hr => ?_).2
        obtain ⟨howns, v', rfl, -⟩ := hr
        rcases visit_mem hdata hstores hev with hq | ⟨disp, v'', heq⟩
        · exact hq
        · obtain ⟨rfl, -, -⟩ := storeWord_inj.mp heq
          rw [loadDesc_owns, (loadDesc_takes _ _ _ _ _ _).mp hloads] at howns
          cases howns

/-- A walk in which no release is followed at once by the store of word 3 finds
nothing owned, since that is how each owned descriptor is written back. -/
theorem WalkTrace.takes_none {tr : List DEvent} (h : WalkTrace tr) {seen : Loaded}
    (hlast : ∀ pre ev post off v, tr = pre ++ ev :: storeWord off 6 v :: post →
      ¬ Releases (pre.foldl noteLoad seen) ev off) :
    Watch noteLoad (fun seen ev => takeIs false seen ev = true) seen tr := by
  induction h generalizing seen with
  | nil => exact trivial
  | @quiet ev tr hq _ ih =>
      rw [Watch.cons, noteLoad_quiet hq]
      refine ⟨takeIs_quiet hq _ _, ih ?_⟩
      rintro pre ev' post off v rfl
      have := hlast (ev :: pre) ev' post off v rfl
      rwa [List.foldl_cons, noteLoad_quiet hq] at this
  | @scan off w tr _ ih =>
      refine ⟨rfl, ih ?_⟩
      rintro pre ev' post off' v rfl
      exact hlast (loadWord off 2 w :: pre) ev' post off' v rfl
  | @visit off w0 w1 w2 w3 v data stores tr hdata hstores hrel _ ih =>
      have hown : owned w1 = false := by
        by_contra ho
        rw [Bool.not_eq_false] at ho
        obtain ⟨hv, v', st, rfl⟩ := hrel ho
        refine hlast (loadDesc off w0 w1 w2 w3 ++ data) (storeWord off 2 v) (st ++ tr) off v'
          (by simp) ⟨?_, v, rfl, hv⟩
        rw [List.foldl_append, quiet_foldl _ hdata, loadDesc_owns]
        exact ho
      rw [watch_visit seen hdata hstores]
      refine ⟨(loadDesc_takes _ _ _ _ _ _).mpr hown, visit_takes _ _ _ hdata hstores, ih ?_⟩
      rintro pre ev' post off' v' rfl
      have := hlast (loadDesc off w0 w1 w2 w3 ++ (data ++ storeWord off 2 v :: stores) ++ pre)
        ev' post off' v' (by simp)
      rwa [List.foldl_append, List.foldl_append, visit_foldl _ hdata hstores] at this

theorem ReleaseLast.no_pair {tr : List DEvent} (h : ReleaseLast tr) {pre post : List DEvent}
    {ev : DEvent} {off : U32} {v : U16} (htr : tr = pre ++ ev :: storeWord off 6 v :: post) :
    ¬ Releases (lastLoad pre) ev off :=
  fun hr => (h pre ev _ off htr hr).1 6 v (List.mem_cons_self ..)

theorem PolledFinal.no_pair {tr : List DEvent} (h : PolledFinal tr) {pre post : List DEvent}
    {ev : DEvent} {off : U32} {v : U16} (htr : tr = pre ++ ev :: storeWord off 6 v :: post) :
    ¬ Releases (lastLoad pre) ev off := by
  intro hr
  obtain ⟨w, hw, -⟩ := h pre ev [] v post off htr hr
  cases hw

/-- A call releases each descriptor with its last store, and a polling host
finds word 3 final, exactly if the call releases nothing at all. -/
theorem release_last_iff (cb : Callback) (c : RingCall) (d : Daemon) (tr : List DEvent)
    (h : c.Traces cb d tr) : (ReleaseLast tr ∧ PolledFinal tr) ↔ Takes false tr := by
  rw [takes_iff]
  constructor
  · rintro ⟨hlast, -⟩
    exact h.walk.takes_none fun pre ev post off v htr => hlast.no_pair htr
  · intro hnone
    have hquiet := (Watch.iff_split _ _).mp (h.walk.no_release hnone)
    have hlast : ReleaseLast tr := fun pre ev post off htr hr =>
      absurd hr (hquiet pre ev post htr off)
    exact ⟨hlast, hlast.polledFinal⟩

/-- A missed frame releases nothing. -/
theorem release_last_of_miss : ReleaseLast missTrace ∧ PolledFinal missTrace :=
  (release_last_iff .null _ tinyRings missTrace missTrace_traces).mpr
    ((takes_iff _ _).mpr (by decide +kernel))

/-- A frame that is sent is released before its TMD3 is stored. -/
theorem released_before_final :
    RingCall.transmit.Traces .null tinyRings sendTrace ∧
      ¬ ReleaseLast sendTrace ∧ ¬ PolledFinal sendTrace := by
  have howned : ¬ Watch noteLoad (fun seen ev => takeIs false seen ev = true) (fun _ _ => none)
      sendTrace := by decide +kernel
  have hwalk := sendTrace_traces.walk
  refine ⟨sendTrace_traces, fun h => ?_, fun h => ?_⟩
  · exact howned (hwalk.takes_none fun pre ev post off v htr => h.no_pair htr)
  · exact howned (hwalk.takes_none fun pre ev post off v htr => h.no_pair htr)

end A2065
