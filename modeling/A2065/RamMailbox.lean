import A2065.BoardramRemote
import A2065.Lib.Watch

/-!
# `boardram_xfer` and its adapter

The daemon posts a transfer in `RAM_REQ` and polls `RAM_RSP`. The FPGA adapter
on the other side is not part of this repository; it is taken to read
`RAM_REQ` at any moment, to perform a pending request on the RAM some time
later, and to write the response some time after that. The slots carry no tag,
so nothing in them tells the answer of this call from that of another.
`Execution` is the tag: each execution of a request remembers the call during
which the adapter read it.
-/

namespace A2065

open Bits

/-- The word `boardram_xfer` posts. -/
def xferReq (off : U16) (write : Bool) (wdata : U16) : U64 :=
  1 ||| (if write then 2 else 0) ||| (off &&& 0x7FFE).setWidth 64 <<< 2 |||
    wdata.setWidth 64 <<< 17

/-- The fields of `RAM_REQ` as the adapter reads them. -/
def reqWrite (req : U64) : Bool := req.getLsbD 1

/-- Bits 2 to 16. -/
def reqOffset (req : U64) : BitVec 15 := req.extractLsb' 2 15

/-- Bits 17 to 32. -/
def reqWdata (req : U64) : U16 := req.extractLsb' 17 16

/-- `req` was read during call number `call`; `data` is what it gave. -/
structure Execution where
  call : Nat
  req : U64
  data : U16
  deriving DecidableEq

/-- Where `boardram_xfer` is. The answer it has read is kept with its tag. -/
inductive XferPc where
  | idle
  | post (req : U64) (attempt : Nat)
  | poll (req : U64) (attempt i : Nat)
  /-- a response was read; `RAM_RSP` is to be cleared -/
  | ready (req rsp : U64) (x : Option Execution)
  /-- `RAM_REQ` is to be cleared before returning -/
  | acked (req rsp : U64) (x : Option Execution)
  /-- the last poll failed; `RAM_REQ` is to be cleared before returning 0xFFFF -/
  | giveUp (req : U64)
  deriving DecidableEq

/-- Where the adapter is: a request it has read counts for the call it was read
during. -/
inductive Adapter where
  | idle
  | fetched (call : Nat) (req : U64)
  | performed (x : Execution)
  deriving DecidableEq

/-- The request a call is waiting for an answer to. -/
def XferPc.awaits : XferPc → Option U64
  | .post req _ | .poll req _ _ | .giveUp req => some req
  | _ => none

/-- The request the adapter is working on. -/
def Adapter.inHand : Adapter → Option (Nat × U64)
  | .idle => none
  | .fetched call req => some (call, req)
  | .performed x => some (x.call, x.req)

/-- The two slots, the RAM behind the adapter and the two parties. -/
structure RamBox where
  ram : WordRam
  ramReq : U64
  ramRsp : U64
  arm : XferPc
  adapter : Adapter
  /-- The number of calls so far, and so of the current one. -/
  calls : Nat
  /-- The call during which the adapter last read a pending request. -/
  lastFetch : Nat
  /-- The execution `RAM_RSP` answers. -/
  rspOf : Option Execution

/-- What can happen next; every interleaving is allowed. -/
inductive XferStep where
  | call (off : U16) (write : Bool) (wdata : U16)
  | arm
  | fetch
  /-- `echo` is what the adapter returns for a write. -/
  | perform (echo : U16)
  | respond

namespace RamBox

/-- Both slots cleared, as `main` leaves them. -/
def start (ram : WordRam) : RamBox := ⟨ram, 0, 0, .idle, .idle, 0, 0, none⟩

/-- The polls of one attempt. -/
def POLLS : Nat := 10000

/-- The attempts of one call. -/
def ATTEMPTS : Nat := 3

/-- `boardram_xfer` makes its next access of a slot. -/
def stepArm (s : RamBox) : RamBox :=
  match s.arm with
  | .idle => s
  | .post req attempt => { s with ramReq := req, arm := .poll req attempt 0 }
  | .poll req attempt i =>
      if tst s.ramRsp 1 then { s with arm := .ready req s.ramRsp s.rspOf }
      else if i + 1 < POLLS then { s with arm := .poll req attempt (i + 1) }
      else if attempt + 1 < ATTEMPTS then { s with arm := .post req (attempt + 1) }
      else { s with arm := .giveUp req }
  | .ready req rsp x => { s with ramRsp := 0, rspOf := none, arm := .acked req rsp x }
  | .acked _ _ _ | .giveUp _ => { s with ramReq := 0, arm := .idle }

/-- One step. A party that is not at the point does nothing. -/
def step (s : RamBox) : XferStep → RamBox
  | .call off write wdata =>
      match s.arm with
      | .idle => { s with arm := .post (xferReq off write wdata) 0, calls := s.calls + 1 }
      | _ => s
  | .arm => s.stepArm
  | .fetch =>
      match s.adapter with
      | .idle =>
          if tst s.ramReq 1 then
            { s with adapter := .fetched s.calls s.ramReq, lastFetch := s.calls } else s
      | _ => s
  | .perform echo =>
      match s.adapter with
      | .fetched call req =>
          let i := (reqOffset req).extractLsb' 1 14
          if reqWrite req then
            { s with
              ram := Function.update s.ram i (reqWdata req)
              adapter := .performed ⟨call, req, echo⟩ }
          else { s with adapter := .performed ⟨call, req, s.ram i⟩ }
      | _ => s
  | .respond =>
      match s.adapter with
      | .performed x =>
          { s with
            ramRsp := 1 ||| x.data.setWidth 64 <<< 1
            rspOf := some x
            adapter := .idle }
      | _ => s

/-- A call that returns without timing out returns the data of an execution of
its own request that the adapter started during this call; a write is
performed only while its call is running. -/
def Own (s : RamBox) : XferStep → Prop
  | .arm =>
      match s.arm with
      | .acked req rsp x => x = some ⟨s.calls, req, (rsp >>> 1).setWidth 16⟩
      | _ => True
  | .perform _ =>
      match s.adapter with
      | .fetched call req => reqWrite req = true → call = s.calls ∧ s.arm ≠ .idle
      | _ => True
  | _ => True

/-- The adapter reads the request of a call at most once, and not at all when
the call times out. -/
def Prompt (s : RamBox) : XferStep → Prop
  | .fetch => s.adapter = .idle → tst s.ramReq 1 = true → s.lastFetch ≠ s.calls
  | .arm =>
      match s.arm with
      | .giveUp _ => s.lastFetch ≠ s.calls
      | _ => True
  | _ => True

/-! ## The stages of a call -/

/-- The word the adapter answers with. -/
def rspWord (data : U16) : U64 := 1 ||| data.setWidth 64 <<< 1

/-- A prompt adapter answers a call once, so a run goes from stage to stage. -/
inductive Stage (s : RamBox) : Prop where
  | idle (arm : s.arm = .idle) (adapter : s.adapter = .idle) (req : s.ramReq = 0)
      (rsp : s.ramRsp = 0) (last : s.lastFetch ≤ s.calls)
  | asked (req : U64) (arm : s.arm.awaits = some req) (adapter : s.adapter = .idle)
      (slot : s.ramReq = 0 ∨ s.ramReq = req) (rsp : s.ramRsp = 0) (last : s.lastFetch < s.calls)
  | taken (req : U64) (arm : s.arm.awaits = some req)
      (adapter : s.adapter.inHand = some (s.calls, req)) (rsp : s.ramRsp = 0)
      (last : s.lastFetch = s.calls)
  | answered (req : U64) (data : U16) (arm : s.arm.awaits = some req)
      (adapter : s.adapter = .idle) (rsp : s.ramRsp = rspWord data)
      (rspOf : s.rspOf = some ⟨s.calls, req, data⟩) (last : s.lastFetch = s.calls)
  | collected (req : U64) (data : U16)
      (arm : s.arm = .ready req (rspWord data) (some ⟨s.calls, req, data⟩))
      (adapter : s.adapter = .idle) (last : s.lastFetch = s.calls)
  | cleared (req : U64) (data : U16)
      (arm : s.arm = .acked req (rspWord data) (some ⟨s.calls, req, data⟩))
      (adapter : s.adapter = .idle) (rsp : s.ramRsp = 0) (last : s.lastFetch = s.calls)

variable {s : RamBox}

theorem tst_rspWord (data : U16) : tst (rspWord data) 1 = true := by
  have hone : (1 : U64) = .twoPow 64 0 := rfl
  rw [hone, tst_twoPow, rspWord]
  simp

theorem rspWord_data (data : U16) : (rspWord data >>> 1).setWidth 16 = data := by
  apply BitVec.eq_of_getLsbD_eq
  intro i hi
  simp [rspWord, hi, show 1 + i < 64 by omega, show i < 64 by omega]

/-- A waiting call without a response goes on waiting, or gives up. -/
theorem stepArm_awaits {req : U64} (h : s.arm.awaits = some req) (hrsp : s.ramRsp = 0)
    (hgive : s.arm ≠ .giveUp req) : ∃ pc slot, pc.awaits = some req ∧
      (slot = s.ramReq ∨ slot = req) ∧ s.stepArm = { s with ramReq := slot, arm := pc } := by
  have hnone : tst s.ramRsp 1 = false := by rw [hrsp]; decide
  cases harm : s.arm with
  | idle => rw [harm] at h; cases h
  | ready _ _ _ => rw [harm] at h; cases h
  | acked _ _ _ => rw [harm] at h; cases h
  | giveUp r =>
      rw [harm] at h hgive
      cases h
      exact absurd rfl hgive
  | post r a =>
      rw [harm] at h
      cases h
      exact ⟨.poll req a 0, req, rfl, .inr rfl, by rw [stepArm, harm]⟩
  | poll r a i =>
      rw [harm] at h
      cases h
      have hstep : ∃ pc : XferPc, pc.awaits = some req ∧ s.stepArm = { s with arm := pc } := by
        simp only [stepArm, harm, hnone, Bool.false_eq_true, if_false]
        split
        · exact ⟨_, rfl, rfl⟩
        · split
          · exact ⟨_, rfl, rfl⟩
          · exact ⟨_, rfl, rfl⟩
      obtain ⟨pc, hpc, hstep⟩ := hstep
      exact ⟨pc, s.ramReq, hpc, .inl rfl, hstep⟩

theorem Stage.call (h : s.Stage) (off : U16) (write : Bool) (wdata : U16) :
    (s.step (.call off write wdata)).Stage := by
  cases harm : s.arm with
  | idle =>
      simp only [step, harm]
      cases h with
      | idle _ had hreq hrsp hlast =>
          exact .asked _ rfl had (.inl hreq) hrsp (Nat.lt_succ_of_le hlast)
      | asked req h => rw [harm] at h; cases h
      | taken req h => rw [harm] at h; cases h
      | answered req data h => rw [harm] at h; cases h
      | collected req data h => rw [harm] at h; cases h
      | cleared req data h => rw [harm] at h; cases h
  | _ => simpa only [step, harm] using h

theorem Stage.stepArm (h : s.Stage) (hp : s.Prompt .arm) : s.stepArm.Stage := by
  -- giving up needs a request that was never read
  have hgive : s.lastFetch = s.calls → ∀ req, s.arm ≠ .giveUp req := by
    intro hlast req harm
    rw [Prompt, harm] at hp
    exact hp hlast
  cases h with
  | idle harm had hreq hrsp hlast =>
      rw [RamBox.stepArm, harm]
      exact .idle harm had hreq hrsp hlast
  | asked req harm had hslot hrsp hlast =>
      by_cases hg : s.arm = .giveUp req
      · rw [RamBox.stepArm, hg]
        exact .idle rfl had rfl hrsp (Nat.le_of_lt hlast)
      · obtain ⟨pc, slot, hpc, hslot', hstep⟩ := stepArm_awaits harm hrsp hg
        rw [hstep]
        refine .asked req hpc had ?_ hrsp hlast
        rcases hslot' with rfl | rfl
        · exact hslot
        · exact .inr rfl
  | taken req harm had hrsp hlast =>
      obtain ⟨pc, slot, hpc, -, hstep⟩ := stepArm_awaits harm hrsp (hgive hlast req)
      rw [hstep]
      exact .taken req hpc had hrsp hlast
  | answered req data harm had hrsp hof hlast =>
      cases hpc : s.arm with
      | post r a =>
          rw [RamBox.stepArm, hpc]
          rw [hpc] at harm
          exact .answered req data harm had hrsp hof hlast
      | poll r a i =>
          rw [hpc] at harm
          cases harm
          have hready : tst s.ramRsp 1 = true := by rw [hrsp, tst_rspWord]
          simp only [RamBox.stepArm, hpc, hready, if_true]
          exact .collected req data (by rw [hrsp, hof]) had hlast
      | giveUp r => exact absurd hpc (hgive hlast r)
      | _ => rw [hpc] at harm; cases harm
  | collected req data harm had hlast =>
      rw [RamBox.stepArm, harm]
      exact .cleared req data rfl had rfl hlast
  | cleared req data harm had hrsp hlast =>
      rw [RamBox.stepArm, harm]
      exact .idle rfl had rfl hrsp (Nat.le_of_eq hlast)

theorem Stage.fetch (h : s.Stage) (hp : s.Prompt .fetch) : (s.step .fetch).Stage := by
  cases had : s.adapter with
  | idle =>
      cases hreq : tst s.ramReq 1 with
      | false => simpa only [step, had, hreq, Bool.false_eq_true, if_false] using h
      | true =>
          have hfresh : s.lastFetch ≠ s.calls := hp had hreq
          simp only [step, had, hreq, if_true]
          cases h with
          | idle _ _ hzero => rw [hzero] at hreq; cases hreq
          | asked req harm _ hslot hrsp hlast =>
              rcases hslot with hzero | hslot
              · rw [hzero] at hreq
                cases hreq
              · exact .taken req harm (by rw [← hslot]; rfl) hrsp rfl
          | taken _ _ _ _ hlast => exact absurd hlast hfresh
          | answered _ _ _ _ _ _ hlast => exact absurd hlast hfresh
          | collected _ _ _ _ hlast => exact absurd hlast hfresh
          | cleared _ _ _ _ _ hlast => exact absurd hlast hfresh
  | _ => simpa only [step, had] using h

/-- The adapter is busy in one stage only. -/
theorem Stage.of_inHand (h : s.Stage) {call : Nat} {req : U64}
    (had : s.adapter.inHand = some (call, req)) : call = s.calls ∧
      s.arm.awaits = some req ∧ s.ramRsp = 0 ∧ s.lastFetch = s.calls := by
  cases h with
  | taken r harm had' hrsp hlast =>
      rw [had] at had'
      cases had'
      exact ⟨rfl, harm, hrsp, hlast⟩
  | idle _ hidle => rw [hidle] at had; cases had
  | asked _ _ hidle => rw [hidle] at had; cases had
  | answered _ _ _ hidle => rw [hidle] at had; cases had
  | collected _ _ _ hidle => rw [hidle] at had; cases had
  | cleared _ _ _ hidle => rw [hidle] at had; cases had

theorem Stage.perform (h : s.Stage) (echo : U16) : (s.step (.perform echo)).Stage := by
  cases had : s.adapter with
  | fetched call req =>
      obtain ⟨rfl, harm, hrsp, hlast⟩ := h.of_inHand (by rw [had]; rfl)
      simp only [step, had]
      split
      · exact .taken req harm rfl hrsp hlast
      · exact .taken req harm rfl hrsp hlast
  | _ => simpa only [step, had] using h

theorem Stage.respond (h : s.Stage) : (s.step .respond).Stage := by
  cases had : s.adapter with
  | performed x =>
      obtain ⟨hcall, harm, -, hlast⟩ := h.of_inHand (by rw [had]; rfl)
      simp only [step, had]
      refine .answered x.req x.data harm rfl rfl ?_ hlast
      rw [← hcall]
  | _ => simpa only [step, had] using h

theorem Stage.step (h : s.Stage) (e : XferStep) (hp : s.Prompt e) : (s.step e).Stage := by
  cases e with
  | call off write wdata => exact h.call off write wdata
  | arm => exact h.stepArm hp
  | fetch => exact h.fetch hp
  | perform echo => exact h.perform echo
  | respond => exact h.respond

theorem Stage.own (h : s.Stage) (e : XferStep) : s.Own e := by
  cases e with
  | arm =>
      simp only [Own]
      split
      case h_1 req rsp x hpc =>
        cases h with
        | cleared r data harm =>
            rw [hpc] at harm
            cases harm
            rw [rspWord_data]
        | idle harm => rw [hpc] at harm; cases harm
        | asked _ harm => rw [hpc] at harm; cases harm
        | taken _ harm => rw [hpc] at harm; cases harm
        | answered _ _ harm => rw [hpc] at harm; cases harm
        | collected _ _ harm => rw [hpc] at harm; cases harm
      case h_2 => trivial
  | perform echo =>
      simp only [Own]
      split
      case h_1 call req had =>
        intro _
        obtain ⟨hcall, harm, -⟩ := h.of_inHand (by rw [had]; rfl)
        refine ⟨hcall, ?_⟩
        intro hidle
        rw [hidle] at harm
        cases harm
      case h_2 => trivial
  | _ => trivial

instance (s : RamBox) : (e : XferStep) → Decidable (s.Prompt e)
  | .fetch => inferInstanceAs (Decidable (_ = _ → _ = true → _ ≠ _))
  | .arm =>
      match h : s.arm with
      | .giveUp _ => decidable_of_iff (s.lastFetch ≠ s.calls) (by simp only [Prompt, h])
      | .idle | .post _ _ | .poll _ _ _ | .ready _ _ _ | .acked _ _ _ =>
          .isTrue (by simp only [Prompt, h])
  | .call _ _ _ | .perform _ | .respond => .isTrue trivial

instance (s : RamBox) : (e : XferStep) → Decidable (s.Own e)
  | .arm =>
      match h : s.arm with
      | .acked req rsp x =>
          decidable_of_iff (x = some ⟨s.calls, req, (rsp >>> 1).setWidth 16⟩)
            (by simp only [Own, h])
      | .idle | .post _ _ | .poll _ _ _ | .ready _ _ _ | .giveUp _ =>
          .isTrue (by simp only [Own, h])
  | .perform _ =>
      match h : s.adapter with
      | .fetched call req =>
          decidable_of_iff (reqWrite req = true → call = s.calls ∧ s.arm ≠ .idle)
            (by simp only [Own, h])
      | .idle | .performed _ => .isTrue (by simp only [Own, h])
  | .call _ _ _ | .fetch | .respond => .isTrue trivial

end RamBox

open RamBox

/-- In every run with a prompt adapter, whatever the calls and the delays,
each call that does not time out returns the data of an execution of its own
request started during the call, and no write is performed after its call has
returned. -/
theorem xfer_answers_own (ram : WordRam) (steps : List XferStep)
    (hp : Watch RamBox.step Prompt (RamBox.start ram) steps) :
    Watch RamBox.step Own (RamBox.start ram) steps := by
  have hstart : (RamBox.start ram).Stage := .idle rfl rfl rfl rfl (Nat.le_refl _)
  have hstep : ∀ (s : RamBox) e, s.Stage → s.Prompt e → (s.step e).Stage ∧ s.Own e :=
    fun s e hs he => ⟨hs.step e he, hs.own e⟩
  exact Watch.entails hstep hstart hp

/-! ## Runs -/

/-- A call answered at its first poll. -/
def answeredCall (off : U16) (write : Bool) (wdata : U16) : List XferStep :=
  [.call off write wdata, .arm, .fetch, .perform 0, .respond, .arm, .arm, .arm]

theorem xfer_answers_own_in_turn :
    Watch RamBox.step Own (RamBox.start fun _ => 0)
      (answeredCall 0x10 true 0xBEEF ++ answeredCall 0x10 false 0) :=
  xfer_answers_own _ _ (by decide)

/-- The adapter reads the first request a second time before the daemon has
cleared it, and answers that reading during the next call. -/
def answeredTwice : List XferStep :=
  [.call 0x10 false 0, .arm, .fetch, .perform 0, .respond, .arm, .arm, .fetch, .perform 0, .arm,
    .call 0x20 false 0, .arm, .respond, .arm, .arm, .arm]

/-- The read at 0x20 returns the word at 0x10. -/
theorem xfer_answered_by_previous :
    ¬ ∀ (ram : WordRam) (steps : List XferStep),
      Watch RamBox.step Own (RamBox.start ram) steps := by
  intro h
  have hown := h (fun i => i.setWidth 16) answeredTwice
  revert hown
  decide +kernel

end A2065
