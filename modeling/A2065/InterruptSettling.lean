import A2065.InterruptSlot

/-!
# The interrupt slot settles

A frame at the wrong moment leaves the slot wrong, and the daemon with a wrong
idea of it. The turns that follow repair this if they have nothing else to do:
at most 16 of them retry a transmission, at most 100 wait for the hold-off, and
at the latest the tenth one after that refreshes the slot. One wrong slot they
do not see: one that is up when the daemon and the registers say down.
-/

namespace A2065

open Bits

/-! ## The counters -/

/-- The count the main loop has read. -/
def TurnPc.count? : TurnPc → Option U64
  | .count rest => some rest
  | _ => none

namespace Ddr3

/-- The counters are in range. -/
structure InRange (s : Ddr3) : Prop where
  hold : s.intHold.toNat ≤ 100
  retry : s.tdmdRetry.toNat ≤ 16
  refresh : s.intRefresh < 10

theorem InRange.calls {s : Ddr3} (h : s.InRange) {α : Type} {p : DProg α}
    (hp : p.Traces (Calls [assertTrace, retryTrace])) (d : Daemon) :
    InRange { s with d := d, w := (p.exec s.w).2 } := by
  have hkeep := Calls.keep (P := fun m => (m INT_HOLD).toNat ≤ 100 ∧ (m TDMD_RETRY).toNat ≤ 16)
    (mailbox_keep (fun _ hm => ⟨Nat.le_refl 100, hm.2⟩) fun _ hm => ⟨hm.1, Nat.le_refl 16⟩) hp
    ⟨h.hold, h.retry⟩
  exact ⟨hkeep.1, hkeep.2, h.refresh⟩

theorem InRange.make {s : Ddr3} (h : s.InRange) (o : Op) : (s.make o).InRange :=
  h.calls (op_calls o s.d) _

theorem InRange.assert {s : Ddr3} (h : s.InRange) : s.assert.InRange :=
  h.calls (assertMbxInt_calls (List.mem_cons_self ..)) s.d

theorem InRange.transmit {s : Ddr3} (h : s.InRange) : s.transmit.2.InRange :=
  h.calls (doTransmit_calls (List.mem_cons_self ..) s.d) _

theorem InRange.put {s : Ddr3} (h : s.InRange) (off : Nat) (v : U64)
    (hhold : off = INT_HOLD → v.toNat ≤ 100) (hretry : off = TDMD_RETRY → v.toNat ≤ 16) :
    (s.put off v).InRange where
  hold := by
    by_cases hoff : off = INT_HOLD
    · rw [intHold, Ddr3.put, ← hoff, slots_wr64]
      exact hhold hoff
    · rw [intHold, Ddr3.put, slots_wr64_ne s.w (Ne.symm hoff)]
      exact h.hold
  retry := by
    by_cases hoff : off = TDMD_RETRY
    · rw [tdmdRetry, Ddr3.put, ← hoff, slots_wr64]
      exact hretry hoff
    · rw [tdmdRetry, Ddr3.put, slots_wr64_ne s.w (Ne.symm hoff)]
      exact h.retry
  refresh := h.refresh

/-- A store to another variable. -/
theorem InRange.putOther {s : Ddr3} (h : s.InRange) (off : Nat) (v : U64)
    (hhold : off ≠ INT_HOLD) (hretry : off ≠ TDMD_RETRY) : (s.put off v).InRange :=
  h.put off v (absurd · hhold) (absurd · hretry)

theorem InRange.retryTransmit {s : Ddr3} (h : s.InRange) : s.retryTransmit.InRange := by
  rcases s.retryTransmit_cases with ⟨-, heq⟩ | ⟨hpos, s', hs', heq⟩
  · rwa [heq]
  have hless : (s.tdmdRetry - 1).toNat ≤ 16 := by
    have := h.retry
    bv_omega
  have hs : s'.InRange := by
    have hcount := h.put TDMD_RETRY (s.tdmdRetry - 1) (absurd · (by decide)) fun _ => hless
    rcases hs' with rfl | rfl
    · exact hcount
    · exact hcount.transmit
  rcases heq with heq | heq
  · rwa [heq]
  · rw [heq]
    exact hs.put TDMD_RETRY 0 (by decide) (by decide)

theorem InRange.refreshInt {s : Ddr3} (h : s.InRange) : s.refreshInt.InRange := by
  have hrefresh := h.refresh
  unfold Ddr3.refreshInt
  split
  · split
    · have hput := h.putOther MBX_INT_OFF 1 (by decide) (by decide)
      exact ⟨hput.hold, hput.retry, Nat.succ_pos 9⟩
    · exact ⟨h.hold, h.retry, by simp only; omega⟩
  · exact ⟨h.hold, h.retry, Nat.succ_pos 9⟩

/-- So is the count the main loop has read. -/
structure Bounded (s : Ddr3) : Prop extends InRange s where
  count : ∀ rest, s.main.count? = some rest → rest.toNat ≤ 100

theorem InRange.bounded {s : Ddr3} (h : s.InRange) (hmain : s.main.count? = none) : s.Bounded :=
  ⟨h, fun rest hrest => absurd (hmain.symm.trans hrest) (Option.some_ne_none rest).symm⟩

theorem InRange.with_main {s : Ddr3} (h : s.InRange) (main : TurnPc) :
    InRange { s with main := main } := ⟨h.hold, h.retry, h.refresh⟩

theorem Bounded.stepMain {s : Ddr3} (h : s.Bounded) : s.stepMain.Bounded := by
  obtain ⟨d, w, deferred, intRefresh, main⟩ := s
  have hr := h.toInRange
  cases main with
  | poll =>
      simp only [Ddr3.stepMain]
      split <;> exact (hr.with_main _).bounded rfl
  | serve req =>
      have hann := (announce_keep (fun s hs => InRange.assert hs) req hr).putOther MBX_REQ_OFF 0
        (by decide) (by decide)
      simp only [Ddr3.stepMain]
      split <;> exact (hann.with_main _).bounded rfl
  | apply req => exact ((hr.make _).with_main _).bounded rfl
  | settle doInitDelay intCleared =>
      have hafter := afterWrite_keep (fun s hs => InRange.assert hs)
        (fun s hs => hs.put INT_HOLD 1 (by decide) (by decide)) doInitDelay intCleared hr
      exact (hafter.with_main _).bounded rfl
  | drain =>
      simp only [Ddr3.stepMain]
      split
      · exact (hr.with_main _).bounded rfl
      · exact InRange.bounded ⟨(hr.make _).hold, (hr.make _).retry, hr.refresh⟩ rfl
  | retry => exact (hr.retryTransmit.with_main _).bounded rfl
  | hold =>
      simp only [Ddr3.stepMain]
      split
      · rename_i hpos
        refine ⟨hr.with_main _, fun rest hrest => ?_⟩
        obtain rfl := Option.some.inj hrest
        have := hr.hold
        bv_omega
      · exact (hr.with_main _).bounded rfl
  | count rest =>
      exact ((hr.put INT_HOLD rest (fun _ => h.count rest rfl) (absurd · (by decide))).with_main
        _).bounded rfl
  | compare val =>
      simp only [Ddr3.stepMain]
      split
      · exact ((hr.putOther _ val (by decide) (by decide)).with_main _).bounded rfl
      · exact (hr.with_main _).bounded rfl
  | store val =>
      exact ((hr.putOther _ val (by decide) (by decide)).with_main _).bounded rfl
  | refresh => exact (hr.refreshInt.with_main _).bounded rfl

theorem Bounded.step {s : Ddr3} (h : s.Bounded) (a : TurnStep) : (s.step a).Bounded := by
  have hr := h.toInRange
  cases a with
  | main => exact h.stepMain
  | recv rxbuf len => exact ⟨hr.make _, h.count⟩
  | post req =>
      simp only [Ddr3.step]
      split
      · exact h
      · exact ⟨hr.putOther _ req (by decide) (by decide), h.count⟩
  | safe =>
      have hput := hr.putOther MBX_REQ_OFF 0 (by decide) (by decide)
      simp only [Ddr3.step, serviceBridgeSafe]
      split
      · split
        · split
          · exact ⟨hput.make _, h.count⟩
          · split
            · exact ⟨⟨hput.hold, hput.retry, hput.refresh⟩, h.count⟩
            · exact ⟨hput, h.count⟩
        · exact ⟨hput, h.count⟩
      · exact h
  | host ram stack => exact ⟨⟨hr.hold, hr.retry, hr.refresh⟩, h.count⟩

theorem bounded_start (d : Daemon) (w : World) : (start d w).Bounded :=
  InRange.bounded ⟨Nat.zero_le 100, Nat.zero_le 16, Nat.succ_pos 9⟩ rfl

/-! ## Turns with nothing to do -/

/-- At the top of the loop, with no request and nothing deferred. -/
structure Idle (s : Ddr3) : Prop where
  main : s.main = .poll
  pending : s.pending = false
  deferred : s.deferred.isEmpty = true

/-- The hold-off is counted down; without one the line is stored if it has
changed. -/
def holdOrWrite (s : Ddr3) : Ddr3 :=
  if 0 < s.intHold then s.put INT_HOLD (s.intHold - 1)
  else if intState s.d ≠ s.last then
    (s.put MBX_INT_OFF (intState s.d)).put LAST_MBX_INT (intState s.d)
  else s

/-- A whole turn. -/
def turn (s : Ddr3) : Ddr3 :=
  let s := { retryTransmit { s with main := .retry } with main := .hold }
  let s := { s.holdOrWrite with main := .refresh }
  { s.refreshInt with main := .poll }

theorem stepMain_poll {s : Ddr3} (hmain : s.main = .poll) (h : s.pending = false) :
    s.stepMain = { s with main := .drain } := by
  simp only [stepMain, hmain, h]
  rfl

theorem stepMain_drain {s : Ddr3} (hmain : s.main = .drain) (h : s.deferred.isEmpty = true) :
    s.stepMain = { s with main := .retry } := by
  have hpop : s.deferred.pop = none := if_pos h
  simp only [stepMain, hmain, hpop]

theorem stepMain_hold (s : Ddr3) (h : s.main = .hold) :
    ∃ k ≤ 3, stepMain^[k] s = { s.holdOrWrite with main := .refresh } := by
  obtain ⟨d, w, deferred, intRefresh, main⟩ := s
  obtain rfl : main = .hold := h
  by_cases hhold : 0 < w.slots INT_HOLD
  · have hread : stepMain ⟨d, w, deferred, intRefresh, .hold⟩ =
        ⟨d, w, deferred, intRefresh, .count (w.slots INT_HOLD - 1)⟩ :=
      congrArg (Ddr3.mk d w deferred intRefresh) (if_pos hhold)
    refine ⟨2, by decide, ?_⟩
    rw [Function.iterate_succ_apply, hread, holdOrWrite, intHold, if_pos hhold]
    rfl
  have hread : stepMain ⟨d, w, deferred, intRefresh, .hold⟩ =
      ⟨d, w, deferred, intRefresh, .compare (intState d)⟩ :=
    congrArg (Ddr3.mk d w deferred intRefresh) (if_neg hhold)
  by_cases hval : intState d ≠ w.slots LAST_MBX_INT
  · have hcompare : stepMain ⟨d, w, deferred, intRefresh, .compare (intState d)⟩ =
        { put MBX_INT_OFF (intState d) ⟨d, w, deferred, intRefresh, .hold⟩ with
          main := .store (intState d) } := if_pos hval
    refine ⟨3, by decide, ?_⟩
    rw [Function.iterate_succ_apply, hread, Function.iterate_succ_apply, hcompare, holdOrWrite,
      intHold, if_neg hhold, last, if_pos hval]
    rfl
  · have hcompare : stepMain ⟨d, w, deferred, intRefresh, .compare (intState d)⟩ =
        ⟨d, w, deferred, intRefresh, .refresh⟩ := if_neg hval
    refine ⟨2, by decide, ?_⟩
    rw [Function.iterate_succ_apply, hread, Function.iterate_succ_apply, hcompare, holdOrWrite,
      intHold, if_neg hhold, last, if_neg hval]
    rfl

/-- The steps of such a turn. -/
theorem Idle.steps {s : Ddr3} (h : s.Idle) : ∃ k ≤ 7, stepMain^[k] s = s.turn := by
  have hpoll := stepMain_poll h.main h.pending
  have hdrain : stepMain { s with main := .drain } = { s with main := .retry } :=
    stepMain_drain rfl h.deferred
  have htop : stepMain^[3] s =
      { retryTransmit { s with main := .retry } with main := .hold } := by
    rw [Function.iterate_succ_apply, hpoll, Function.iterate_succ_apply, hdrain]
    rfl
  obtain ⟨k, hk, hhold⟩ := stepMain_hold
    { retryTransmit { s with main := .retry } with main := .hold } rfl
  refine ⟨k + 3 + 1, by omega, ?_⟩
  rw [Function.iterate_succ_apply', Function.iterate_add_apply, htop, hhold]
  rfl

/-- What the end of a turn leaves alone. -/
structure Frame (s s' : Ddr3) : Prop where
  d : s'.d = s.d
  deferred : s'.deferred = s.deferred
  req : s'.w.slots MBX_REQ_OFF = s.w.slots MBX_REQ_OFF
  retry : s'.tdmdRetry = s.tdmdRetry

theorem Frame.trans {s s' s'' : Ddr3} (h : Frame s s') (h' : Frame s' s'') : Frame s s'' :=
  ⟨h'.d.trans h.d, h'.deferred.trans h.deferred, h'.req.trans h.req, h'.retry.trans h.retry⟩

theorem frame_put (s : Ddr3) (off : Nat) (v : U64) (hreq : off ≠ MBX_REQ_OFF)
    (hretry : off ≠ TDMD_RETRY) : Frame s (s.put off v) :=
  ⟨rfl, rfl, slots_wr64_ne s.w hreq.symm v, slots_wr64_ne s.w hretry.symm v⟩

theorem frame_holdOrWrite (s : Ddr3) : Frame s s.holdOrWrite := by
  unfold holdOrWrite
  split
  · exact frame_put s _ _ (by decide) (by decide)
  split
  · exact (frame_put s _ _ (by decide) (by decide)).trans
      (frame_put _ _ _ (by decide) (by decide))
  · exact ⟨rfl, rfl, rfl, rfl⟩

theorem frame_refreshInt (s : Ddr3) : Frame s s.refreshInt := by
  unfold refreshInt
  split
  · split
    · have hput := frame_put s MBX_INT_OFF 1 (by decide) (by decide)
      exact ⟨rfl, rfl, hput.req, hput.retry⟩
    · exact ⟨rfl, rfl, rfl, rfl⟩
  · exact ⟨rfl, rfl, rfl, rfl⟩

theorem InRange.holdOrWrite {s : Ddr3} (h : s.InRange) : s.holdOrWrite.InRange := by
  have hhold := h.hold
  unfold Ddr3.holdOrWrite
  split
  · exact h.put INT_HOLD _ (fun _ => by bv_omega) (absurd · (by decide))
  split
  · exact (h.putOther _ _ (by decide) (by decide)).putOther _ _ (by decide) (by decide)
  · exact h

/-- A transmission touches neither the request nor the counter. -/
theorem transmit_slots (s : Ddr3) :
    s.transmit.2.w.slots MBX_REQ_OFF = s.w.slots MBX_REQ_OFF ∧
      s.transmit.2.tdmdRetry = s.tdmdRetry := by
  have hassert : ∀ b ∈ [assertTrace], ∀ m : Nat → U64,
      (m MBX_REQ_OFF = s.w.slots MBX_REQ_OFF ∧ m TDMD_RETRY = s.tdmdRetry) →
      (b.foldl storeSlot m MBX_REQ_OFF = s.w.slots MBX_REQ_OFF ∧
        b.foldl storeSlot m TDMD_RETRY = s.tdmdRetry) := by
    intro b hb m hm
    obtain rfl := List.mem_singleton.mp hb
    exact hm
  exact Calls.keep hassert (doTransmit_calls (List.mem_singleton_self _) s.d) ⟨rfl, rfl⟩

theorem retryTransmit_frame (s : Ddr3) : s.retryTransmit.deferred = s.deferred ∧
    s.retryTransmit.w.slots MBX_REQ_OFF = s.w.slots MBX_REQ_OFF ∧
    s.retryTransmit.tdmdRetry.toNat ≤ s.tdmdRetry.toNat - 1 := by
  rcases s.retryTransmit_cases with ⟨hzero, heq⟩ | ⟨hpos, s', hs', heq⟩
  · rw [heq, hzero]
    exact ⟨rfl, rfl, Nat.le_refl _⟩
  have hs : s'.deferred = s.deferred ∧ s'.w.slots MBX_REQ_OFF = s.w.slots MBX_REQ_OFF ∧
      s'.tdmdRetry = s.tdmdRetry - 1 := by
    have hreq : (s.put TDMD_RETRY (s.tdmdRetry - 1)).w.slots MBX_REQ_OFF =
        s.w.slots MBX_REQ_OFF := slots_wr64_ne s.w (by decide) _
    have hretry : (s.put TDMD_RETRY (s.tdmdRetry - 1)).tdmdRetry = s.tdmdRetry - 1 :=
      slots_wr64 s.w TDMD_RETRY _
    rcases hs' with rfl | rfl
    · exact ⟨rfl, hreq, hretry⟩
    · obtain ⟨hreq', hretry'⟩ := transmit_slots (s.put TDMD_RETRY (s.tdmdRetry - 1))
      exact ⟨rfl, hreq'.trans hreq, hretry'.trans hretry⟩
  rcases heq with heq | heq
  · rw [heq]
    refine ⟨hs.1, hs.2.1, ?_⟩
    rw [hs.2.2]
    bv_omega
  · rw [heq]
    refine ⟨hs.1, (slots_wr64_ne s'.w (by decide) 0).trans hs.2.1, ?_⟩
    rw [tdmdRetry, Ddr3.put, slots_wr64]
    exact Nat.zero_le _

/-- The end of a turn, from where its transmission is tried. -/
theorem turn_frame (s : Ddr3) :
    Frame (retryTransmit { s with main := .retry }) s.turn :=
  have hhold := frame_holdOrWrite { retryTransmit { s with main := .retry } with main := .hold }
  have hrefresh := frame_refreshInt { holdOrWrite
    { retryTransmit { s with main := .retry } with main := .hold } with main := .refresh }
  ⟨hrefresh.d.trans hhold.d, hrefresh.deferred.trans hhold.deferred,
    hrefresh.req.trans hhold.req, hrefresh.retry.trans hhold.retry⟩

theorem Idle.turn {s : Ddr3} (h : s.Idle) : s.turn.Idle := by
  have hframe := s.turn_frame
  obtain ⟨hdeferred, hreq, -⟩ := retryTransmit_frame { s with main := .retry }
  refine ⟨rfl, ?_, ?_⟩
  · rw [Ddr3.pending, hframe.req, hreq]
    exact h.pending
  · rw [hframe.deferred, hdeferred]
    exact h.deferred

theorem InRange.turn {s : Ddr3} (h : s.InRange) : s.turn.InRange :=
  ((((h.with_main _).retryTransmit.with_main _).holdOrWrite.with_main _).refreshInt).with_main _

theorem turn_retry (s : Ddr3) : s.turn.tdmdRetry.toNat ≤ s.tdmdRetry.toNat - 1 := by
  rw [s.turn_frame.retry]
  exact (retryTransmit_frame { s with main := .retry }).2.2

/-! ## Settling -/

theorem turn_of_retry_zero {s : Ddr3} (h : s.tdmdRetry = 0) : s.turn = { refreshInt
    { holdOrWrite { s with main := .hold } with main := .refresh } with main := .poll } := by
  have hskip : retryTransmit { s with main := .retry } = { s with main := .retry } :=
    if_neg (by rw [show tdmdRetry { s with main := .retry } = 0 from h]; decide)
  rw [turn, hskip]

theorem intHold_refreshInt (s : Ddr3) : s.refreshInt.intHold = s.intHold := by
  unfold refreshInt
  split
  · split
    · exact slots_wr64_ne s.w (by decide) 1
    · rfl
  · rfl

theorem intHold_holdOrWrite (s : Ddr3) :
    s.holdOrWrite.intHold.toNat = s.intHold.toNat - 1 := by
  unfold holdOrWrite
  split
  · rw [intHold, Ddr3.put, slots_wr64]
    bv_omega
  · have hzero : s.intHold = 0 := by bv_omega
    split
    · rw [intHold, Ddr3.put, slots_wr64_ne _ (by decide), Ddr3.put, slots_wr64_ne _ (by decide),
        ← intHold, hzero]
      rfl
    · rw [hzero]
      rfl

theorem turn_hold {s : Ddr3} (h : s.tdmdRetry = 0) :
    s.turn.tdmdRetry = 0 ∧ s.turn.intHold.toNat = s.intHold.toNat - 1 := by
  have hretry : s.turn.tdmdRetry.toNat ≤ 0 := by
    have hless := s.turn_retry
    rwa [h] at hless
  refine ⟨by bv_omega, ?_⟩
  rw [turn_of_retry_zero h]
  exact (congrArg BitVec.toNat (intHold_refreshInt _)).trans (intHold_holdOrWrite _)

/-- The daemon knows the line, and shows it when it is up. -/
structure Settled (s : Ddr3) : Prop where
  retry : s.tdmdRetry = 0
  last : s.last = intState s.d
  up : intState s.d = 1 → s.int = 1

theorem last_holdOrWrite {s : Ddr3} (h : s.intHold = 0) :
    s.holdOrWrite.last = intState s.d := by
  rw [holdOrWrite, if_neg (by rw [h]; decide)]
  split
  · exact slots_wr64 _ LAST_MBX_INT _
  · rename_i hsame
    exact (not_not.mp hsame).symm

theorem refreshInt_settles {s : Ddr3} (hretry : s.tdmdRetry = 0) (hlast : s.last = intState s.d) :
    s.refreshInt.Settled ∨ s.refreshInt.intRefresh = s.intRefresh + 1 := by
  unfold refreshInt
  split
  · split
    · have hframe := frame_put s MBX_INT_OFF 1 (by decide) (by decide)
      have hknown : (s.put MBX_INT_OFF 1).last = intState s.d :=
        (slots_wr64_ne s.w (by decide) 1).trans hlast
      exact .inl ⟨hframe.retry.trans hretry, hknown, fun _ => slots_wr64 s.w MBX_INT_OFF 1⟩
    · exact .inr rfl
  · rename_i hdown
    exact .inl ⟨hretry, hlast, fun hup => absurd (hlast.trans hup) hdown⟩

/-- Without hold-off a turn settles the slot, or counts towards the refresh. -/
theorem turn_settles {s : Ddr3} (hretry : s.tdmdRetry = 0) (hhold : s.intHold = 0) :
    s.turn.Settled ∨ s.turn.intRefresh = s.intRefresh + 1 := by
  have hframe := frame_holdOrWrite { s with main := .hold }
  have hrefresh : (holdOrWrite { s with main := .hold }).intRefresh = s.intRefresh := by
    unfold holdOrWrite
    split
    · rfl
    split <;> rfl
  have hlast : (holdOrWrite { s with main := .hold }).last =
      intState (holdOrWrite { s with main := .hold }).d := by
    rw [hframe.d]
    exact last_holdOrWrite hhold
  rw [turn_of_retry_zero hretry]
  rcases refreshInt_settles
    (s := { holdOrWrite { s with main := .hold } with main := .refresh })
    (hframe.retry.trans hretry) hlast with hsettled | hcount
  · exact .inl ⟨hsettled.retry, hsettled.last, hsettled.up⟩
  · exact .inr (hcount.trans (congrArg (· + 1) hrefresh))

/-- The turns that lead there: the retries, the hold-off, the refresh. -/
theorem exists_settled {s : Ddr3} (h : s.InRange) : ∃ n ≤ 126, (turn^[n] s).Settled := by
  have hrange : ∀ n s, InRange s → InRange (turn^[n] s) := by
    intro n
    induction n with
    | zero => exact fun _ hs => hs
    | succ n ih => exact fun s hs => ih _ hs.turn
  have hretries : ∀ n s, (turn^[n] s).tdmdRetry.toNat ≤ s.tdmdRetry.toNat - n := by
    intro n
    induction n with
    | zero => exact fun _ => Nat.le_refl _
    | succ n ih =>
        intro s
        have hturn := s.turn_retry
        have hrest := ih s.turn
        rw [Function.iterate_succ_apply]
        omega
  have hholds : ∀ n s, s.tdmdRetry = 0 → (turn^[n] s).tdmdRetry = 0 ∧
      (turn^[n] s).intHold.toNat = s.intHold.toNat - n := by
    intro n
    induction n with
    | zero => exact fun _ hs => ⟨hs, rfl⟩
    | succ n ih =>
        intro s hs
        obtain ⟨hzero, hless⟩ := turn_hold hs
        obtain ⟨hzero', hless'⟩ := ih s.turn hzero
        rw [Function.iterate_succ_apply]
        exact ⟨hzero', by omega⟩
  -- induction on the turns left to the next refresh
  have hrefreshes : ∀ n s, InRange s → s.tdmdRetry = 0 → s.intHold = 0 → 10 - s.intRefresh = n →
      ∃ k ≤ n, (turn^[k] s).Settled := by
    intro n
    induction n with
    | zero =>
        intro s hs _ _ hn
        have := hs.refresh
        omega
    | succ n ih =>
        intro s hs hretry hhold hn
        obtain ⟨hretry', hhold'⟩ := turn_hold hretry
        rw [hhold] at hhold'
        rcases turn_settles hretry hhold with hsettled | hcount
        · exact ⟨1, by omega, hsettled⟩
        · obtain ⟨k, hk, hsettled⟩ := ih s.turn hs.turn hretry' (by bv_omega) (by omega)
          exact ⟨k + 1, by omega, hsettled⟩
  have h16 : (turn^[16] s).tdmdRetry = 0 := by
    have hless := hretries 16 s
    have hretry := h.retry
    bv_omega
  obtain ⟨hretry, hhold⟩ := hholds 100 _ h16
  have hbound := (hrange 16 s h).hold
  obtain ⟨k, hk, hsettled⟩ := hrefreshes _ _ (hrange 100 _ (hrange 16 s h)) hretry
    (by bv_omega) rfl
  refine ⟨k + (100 + 16), by omega, ?_⟩
  rwa [Function.iterate_add_apply, Function.iterate_add_apply]

theorem Idle.iterate {s : Ddr3} (h : s.Idle) (n : Nat) :
    (Ddr3.turn^[n] s).Idle ∧ ∃ k ≤ 7 * n, stepMain^[k] s = Ddr3.turn^[n] s := by
  induction n generalizing s with
  | zero => exact ⟨h, 0, Nat.le_refl _, rfl⟩
  | succ n ih =>
      obtain ⟨k, hk, hturn⟩ := h.steps
      obtain ⟨hidle, k', hk', hturns⟩ := ih h.turn
      refine ⟨hidle, k' + k, by omega, ?_⟩
      rw [Function.iterate_add_apply, hturn, hturns, Function.iterate_succ_apply]

/-- Settled, wherever in its turn the main loop is. -/
structure Steady (s : Ddr3) : Prop extends Settled s where
  pending : s.pending = false
  deferred : s.deferred.isEmpty = true
  main : s.main.Calm (intState s.d)

/-- All that is stored from then on is the hold-off and, while the line is up,
the slot. -/
theorem Steady.stepMain_cases {s : Ddr3} (h : s.Steady) :
    ∃ main intRefresh, main.Calm (intState s.d) ∧
      (s.stepMain = { s with intRefresh := intRefresh, main := main } ∨
        (∃ rest, s.stepMain = { s.put INT_HOLD rest with main := main }) ∨
        s.last = 1 ∧
          s.stepMain = { s.put MBX_INT_OFF 1 with intRefresh := intRefresh, main := main }) := by
  obtain ⟨⟨hretry, hlast, -⟩, hpending, hdeferred, hmain⟩ := h
  obtain ⟨d, w, deferred, intRefresh, main⟩ := s
  cases main with
  | poll => exact ⟨.drain, intRefresh, trivial, .inl (stepMain_poll rfl hpending)⟩
  | serve req => exact hmain.elim
  | apply req => exact hmain.elim
  | settle doInitDelay intCleared => exact hmain.elim
  | drain => exact ⟨.retry, intRefresh, trivial, .inl (stepMain_drain rfl hdeferred)⟩
  | retry =>
      have hskip : retryTransmit ⟨d, w, deferred, intRefresh, .retry⟩ =
          ⟨d, w, deferred, intRefresh, .retry⟩ := if_neg (by rw [hretry]; decide)
      exact ⟨.hold, intRefresh, trivial, .inl (by simp only [Ddr3.stepMain, hskip])⟩
  | hold =>
      refine ⟨_, intRefresh, ?_, .inl rfl⟩
      split
      · exact trivial
      · exact rfl
  | count rest => exact ⟨.refresh, intRefresh, trivial, .inr (.inl ⟨rest, rfl⟩)⟩
  | compare val =>
      exact ⟨.refresh, intRefresh, trivial, .inl (if_neg (not_not.mpr (hmain.trans hlast.symm)))⟩
  | store val => exact hmain.elim
  | refresh =>
      simp only [Ddr3.stepMain, refreshInt]
      split
      · rename_i hone
        split
        · exact ⟨.poll, 0, trivial, .inr (.inr ⟨hone, rfl⟩)⟩
        · exact ⟨.poll, intRefresh + 1, trivial, .inl rfl⟩
      · exact ⟨.poll, 0, trivial, .inl rfl⟩

theorem Steady.stepMain {s : Ddr3} (h : s.Steady) : s.stepMain.Steady := by
  obtain ⟨main, intRefresh, hmain, heq | ⟨rest, heq⟩ | ⟨-, heq⟩⟩ := h.stepMain_cases
  all_goals
    rw [heq]
    obtain ⟨⟨hretry, hlast, hup⟩, hpending, hdeferred, -⟩ := h
  · exact ⟨⟨hretry, hlast, hup⟩, hpending, hdeferred, hmain⟩
  · exact ⟨⟨hretry, hlast, hup⟩, hpending, hdeferred, hmain⟩
  · exact ⟨⟨hretry, hlast, fun _ => slots_wr64 s.w MBX_INT_OFF 1⟩, hpending, hdeferred, hmain⟩

/-- From the top of the loop, with nothing to do, the slot settles for good. -/
theorem Idle.settles {s : Ddr3} (h : s.Idle) (hrange : s.InRange) {m : Nat} (hm : 882 ≤ m) :
    (stepMain^[m] s).Steady := by
  obtain ⟨n, hn, hsettled⟩ := exists_settled hrange
  obtain ⟨hidle, k, hk, hturns⟩ := h.iterate n
  have hsteady : (Ddr3.turn^[n] s).Steady :=
    ⟨hsettled, hidle.pending, hidle.deferred, by rw [hidle.main]; trivial⟩
  obtain ⟨j, rfl⟩ : ∃ j, m = j + k := ⟨m - k, by omega⟩
  rw [Function.iterate_add_apply, hturns]
  clear hturns hm
  induction j with
  | zero => exact hsteady
  | succ j ih =>
      rw [Function.iterate_succ_apply']
      exact Steady.stepMain ih

/-- Then it shows the line, if every store was whole. -/
theorem Steady.int_eq {s : Ddr3} (h : s.Steady) (hshown : s.Shown) : s.int = intState s.d := by
  have hshows : Shows s.d s.w := by
    have hmain := h.main
    unfold Shown at hshown
    split at hshown
    · exact hshown.2
    · rename_i hstore
      rw [hstore] at hmain
      exact hmain.elim
    · exact hshown
  rcases intState_cases s.d with hdown | hup
  · rcases hshows.coherent with hzero | hraised
    · exact hzero.trans hdown.symm
    · have hone : s.last = 1 := hraised.2
      rw [h.last, hdown] at hone
      exact absurd hone (by decide)
  · rw [hup]
    exact h.up hup

/-- A slot that has settled wrongly stays so. -/
theorem Steady.int_iterate {s : Ddr3} (h : s.Steady) (hdown : intState s.d = 0) (m : Nat) :
    (Ddr3.stepMain^[m] s).int = s.int ∧ (Ddr3.stepMain^[m] s).d = s.d := by
  induction m generalizing s with
  | zero => exact ⟨rfl, rfl⟩
  | succ m ih =>
      have hstep : s.stepMain.int = s.int ∧ s.stepMain.d = s.d := by
        obtain ⟨main, intRefresh, -, heq | ⟨rest, heq⟩ | ⟨hone, -⟩⟩ := h.stepMain_cases
        · rw [heq]
          exact ⟨rfl, rfl⟩
        · rw [heq]
          exact ⟨slots_wr64_ne s.w (by decide) rest, rfl⟩
        · rw [h.last, hdown] at hone
          exact absurd hone (by decide)
      obtain ⟨hint, hd⟩ := ih h.stepMain (by rw [hstep.2]; exact hdown)
      rw [Function.iterate_succ_apply]
      exact ⟨hint.trans hstep.1, hd.trans hstep.2⟩

theorem Bounded.run {s : Ddr3} (h : s.Bounded) (steps : List TurnStep) : (s.run steps).Bounded := by
  induction steps generalizing s with
  | nil => exact h
  | cons a steps ih => exact ih (h.step a)

theorem Shown.iterate {s : Ddr3} (h : s.Shown) (m : Nat) : (Ddr3.stepMain^[m] s).Shown := by
  induction m generalizing s with
  | zero => exact h
  | succ m ih => exact ih h.stepMain

end Ddr3

/-- Once the main loop has nothing to do, the slot settles within 126 turns of
at most seven steps: it is up if the line is, whatever frames came between the
stores, and it is the line if none did. -/
theorem interrupt_slot_settles (d : Daemon) (w : World) (steps : List TurnStep)
    (hidle : ((Ddr3.start d w).run steps).Idle) (m : Nat) (hm : 882 ≤ m) :
    let e := Ddr3.stepMain^[m] ((Ddr3.start d w).run steps)
    (intState e.d = 1 → e.int = 1) ∧
      ((Ddr3.start d w).RaceFree steps → e.int = intState e.d) := by
  have hrange := ((Ddr3.bounded_start d w).run steps).toInRange
  have hsteady := hidle.settles hrange hm
  refine ⟨hsteady.up, fun hfree => ?_⟩
  exact hsteady.int_eq (((Ddr3.shown_start d w).run hfree).iterate m)

/-- The chip is started, and the interrupt of its initialization acknowledged. -/
def ackSteps : List TurnStep :=
  csr0Turn (CSR0.INIT ||| CSR0.STRT ||| CSR0.INEA) ++ csr0Turn (CSR0.IDON ||| CSR0.INEA)

theorem interrupt_slot_settles_ack :
    let e := Ddr3.stepMain^[882] ((Ddr3.start .boot .blank).run ackSteps)
    e.int = intState e.d :=
  (interrupt_slot_settles .boot .blank ackSteps
    ⟨by decide +kernel, by decide +kernel, by decide +kernel⟩ 882 (Nat.le_refl _)).2
    (by decide +kernel)

/-- A frame comes between the stores of the turn that takes the slot down, and
its interrupt is acknowledged before the hold-off ends. -/
def raceSteps : List TurnStep :=
  ackSteps ++ List.replicate 5 .main ++ [.recv (fun _ => 0xFF) 60, .main, .main] ++
    csr0Turn (CSR0.MISS ||| CSR0.INEA)

theorem raceSteps_steady : ((Ddr3.start .boot .blank).run raceSteps).Steady where
  retry := by decide +kernel
  last := by decide +kernel
  up := by decide +kernel
  pending := by decide +kernel
  deferred := by decide +kernel
  main := by
    have hmain : ((Ddr3.start .boot .blank).run raceSteps).main = .poll := by decide +kernel
    rw [hmain]
    exact trivial

/-- The slot then stays up for good, with nothing to show. -/
theorem interrupt_slot_stuck (m : Nat) :
    let e := Ddr3.stepMain^[m] ((Ddr3.start .boot .blank).run raceSteps)
    e.int = 1 ∧ intState e.d = 0 := by
  have hdown : intState ((Ddr3.start .boot .blank).run raceSteps).d = 0 := by decide +kernel
  have hup : ((Ddr3.start .boot .blank).run raceSteps).int = 1 := by decide +kernel
  obtain ⟨hint, hd⟩ := raceSteps_steady.int_iterate hdown m
  exact ⟨hint.trans hup, by rw [hd]; exact hdown⟩

end A2065
