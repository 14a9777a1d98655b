import Mathlib.Control.Basic
import Mathlib.Data.List.Basic

/-!
# Programs over shared effects

A program that shares memory with other parties is a tree of effects: each
node performs one effect and continues with its answer. Nothing in the tree
says who answers. `Runs` lets the answers be anything, which is what a party
interrupted between two effects can see; `exec` lets one handler answer all
of them, which is a call nobody interferes with. Every `exec` is a run
(`runs_exec`), so what is proved of all runs holds of both.
-/

/-- A program performing effects `E`, the answer to `e` having type `R e`. -/
inductive Prog (E : Type) (R : E → Type) (α : Type) : Type where
  | pure (a : α)
  | op (e : E) (k : R e → Prog E R α)

/-- One performed effect with the answer it got. -/
structure Event (E : Type) (R : E → Type) where
  op : E
  ans : R op

namespace Prog

variable {E : Type} {R : E → Type} {α β γ σ τ : Type}

protected def bind : Prog E R α → (α → Prog E R β) → Prog E R β
  | .pure a, f => f a
  | .op e k, f => .op e fun r => (k r).bind f

instance : Monad (Prog E R) where
  pure := Prog.pure
  bind := Prog.bind

/-- The program that performs `e` and returns its answer. -/
def perform (e : E) : Prog E R (R e) := .op e .pure

theorem op_bind (e : E) (k : R e → Prog E R α) (f : α → Prog E R β) :
    (Prog.op e k >>= f) = .op e fun r => k r >>= f := rfl

protected theorem pure_bind (a : α) (f : α → Prog E R β) :
    (Pure.pure a >>= f) = f a := rfl

protected theorem bind_assoc (p : Prog E R α) (f : α → Prog E R β)
    (g : β → Prog E R γ) : p >>= f >>= g = p >>= fun a => f a >>= g := by
  induction p with
  | pure a => rfl
  | op e k ih =>
      simp only [op_bind]
      exact congrArg _ (funext ih)

protected theorem bind_pure (p : Prog E R α) : p >>= Pure.pure = p := by
  induction p with
  | pure a => rfl
  | op e k ih =>
      rw [op_bind]
      exact congrArg _ (funext ih)

instance : LawfulMonad (Prog E R) :=
  LawfulMonad.mk' _ Prog.bind_pure Prog.pure_bind Prog.bind_assoc

/-! ## Runs with arbitrary answers -/

/-- `p.Runs tr a`: answered as `tr` records, `p` returns `a`. -/
def Runs : Prog E R α → List (Event E R) → α → Prop
  | .pure a, tr, b => tr = [] ∧ a = b
  | .op e k, tr, b => ∃ r tr', tr = ⟨e, r⟩ :: tr' ∧ (k r).Runs tr' b

theorem runs_op {e : E} {k : R e → Prog E R α} {tr : List (Event E R)} {b : α} :
    (Prog.op e k).Runs tr b ↔ ∃ r tr', tr = ⟨e, r⟩ :: tr' ∧ (k r).Runs tr' b :=
  Iff.rfl

theorem runs_perform_bind {e : E} {f : R e → Prog E R β} {tr : List (Event E R)}
    {b : β} : (perform e >>= f).Runs tr b ↔
      ∃ r tr', tr = ⟨e, r⟩ :: tr' ∧ (f r).Runs tr' b := Iff.rfl

@[simp] theorem runs_perform {e : E} {tr : List (Event E R)} {r : R e} :
    (perform e).Runs tr r ↔ tr = [⟨e, r⟩] := by
  constructor
  · rintro ⟨r', tr', rfl, rfl, rfl⟩
    rfl
  · rintro rfl
    exact ⟨r, [], rfl, rfl, rfl⟩

/-- A run of a sequence is a run of the first part followed by one of the
second. -/
theorem runs_bind {p : Prog E R α} {f : α → Prog E R β} {tr : List (Event E R)}
    {b : β} : (p >>= f).Runs tr b ↔
      ∃ tr₁ a tr₂, tr = tr₁ ++ tr₂ ∧ p.Runs tr₁ a ∧ (f a).Runs tr₂ b := by
  induction p generalizing tr with
  | pure a =>
      constructor
      · intro h
        exact ⟨[], a, tr, rfl, ⟨rfl, rfl⟩, h⟩
      · rintro ⟨tr₁, a', tr₂, rfl, ⟨rfl, rfl⟩, h⟩
        exact h
  | op e k ih =>
      rw [op_bind, runs_op]
      constructor
      · rintro ⟨r, tr', rfl, h⟩
        obtain ⟨tr₁, a, tr₂, rfl, h₁, h₂⟩ := (ih r).mp h
        exact ⟨⟨e, r⟩ :: tr₁, a, tr₂, rfl, ⟨r, tr₁, rfl, h₁⟩, h₂⟩
      · rintro ⟨tr₁, a, tr₂, rfl, ⟨r, tr', rfl, h₁⟩, h₂⟩
        exact ⟨r, tr' ++ tr₂, rfl, (ih r).mpr ⟨tr', a, tr₂, rfl, h₁, h₂⟩⟩

/-! ## Results of all runs -/

/-- Whatever the answers, the result satisfies `Q`. -/
def Always (p : Prog E R α) (Q : α → Prop) : Prop :=
  ∀ tr a, p.Runs tr a → Q a

theorem Always.pure {Q : α → Prop} {a : α} (h : Q a) :
    (Pure.pure a : Prog E R α).Always Q := by
  rintro tr b ⟨-, rfl⟩
  exact h

theorem Always.bind {p : Prog E R α} {f : α → Prog E R β} {P : α → Prop}
    {Q : β → Prop} (hp : p.Always P) (hf : ∀ a, P a → (f a).Always Q) :
    (p >>= f).Always Q := by
  intro tr b h
  obtain ⟨tr₁, a, tr₂, -, h₁, h₂⟩ := runs_bind.mp h
  exact hf a (hp _ _ h₁) _ _ h₂

/-- Nothing is assumed of the first program's result. -/
theorem Always.bind_any {p : Prog E R α} {f : α → Prog E R β} {Q : β → Prop}
    (hf : ∀ a, (f a).Always Q) : (p >>= f).Always Q :=
  Always.bind (P := fun _ => True) (fun _ _ _ => trivial) (fun a _ => hf a)

theorem Always.mono {p : Prog E R α} {P Q : α → Prop} (hp : p.Always P)
    (h : ∀ a, P a → Q a) : p.Always Q := fun tr a hr => h a (hp tr a hr)

theorem Always.and {p : Prog E R α} {P Q : α → Prop} (hp : p.Always P) (hq : p.Always Q) :
    p.Always fun a => P a ∧ Q a := fun tr a hr => ⟨hp tr a hr, hq tr a hr⟩

/-! ## Effects of all runs -/

/-- Whatever the answers, every effect performed satisfies `ok`. -/
def Only (ok : E → Prop) (p : Prog E R α) : Prop :=
  ∀ tr a, p.Runs tr a → ∀ ev ∈ tr, ok ev.op

theorem Only.pure {ok : E → Prop} (a : α) : Only ok (Pure.pure a : Prog E R α) := by
  rintro tr b ⟨rfl, -⟩
  simp

theorem Only.perform {ok : E → Prop} {e : E} (h : ok e) :
    Only ok (perform e : Prog E R (R e)) := by
  intro tr r hr ev hev
  rw [runs_perform.mp hr, List.mem_singleton] at hev
  rw [hev]
  exact h

theorem Only.bind {ok : E → Prop} {p : Prog E R α} {f : α → Prog E R β}
    (hp : Only ok p) (hf : ∀ a, Only ok (f a)) : Only ok (p >>= f) := by
  intro tr b h ev hev
  obtain ⟨tr₁, a, tr₂, rfl, h₁, h₂⟩ := runs_bind.mp h
  rcases List.mem_append.mp hev with hev | hev
  · exact hp _ _ h₁ ev hev
  · exact hf a _ _ h₂ ev hev

/-! ## Traces of all runs -/

/-- Whatever the answers, the trace satisfies `T`. -/
def Traces (T : List (Event E R) → Prop) (p : Prog E R α) : Prop :=
  ∀ tr a, p.Runs tr a → T tr

/-- True of no effect, and of two traces one after the other. -/
structure Composes (T : List (Event E R) → Prop) : Prop where
  nil : T []
  append : ∀ {a b : List (Event E R)}, T a → T b → T (a ++ b)

theorem Composes.pure {T : List (Event E R) → Prop} (h : Composes T) (a : α) :
    Traces T (Pure.pure a : Prog E R α) := by
  rintro tr b ⟨rfl, -⟩
  exact h.nil

theorem Composes.bind {T : List (Event E R) → Prop} (h : Composes T) {p : Prog E R α}
    {f : α → Prog E R β} (hp : Traces T p) (hf : ∀ a, Traces T (f a)) : Traces T (p >>= f) := by
  intro tr b hr
  obtain ⟨tr₁, a, tr₂, rfl, h₁, h₂⟩ := runs_bind.mp hr
  exact h.append (hp _ _ h₁) (hf a _ _ h₂)

/-- The same, with something known of the first program's result. -/
theorem Composes.bind_of {T : List (Event E R) → Prop} (h : Composes T) {p : Prog E R α}
    {f : α → Prog E R β} {P : α → Prop} (hp : Traces T p) (hP : p.Always P)
    (hf : ∀ a, P a → Traces T (f a)) : Traces T (p >>= f) := by
  intro tr b hr
  obtain ⟨tr₁, a, tr₂, rfl, h₁, h₂⟩ := runs_bind.mp hr
  exact h.append (hp _ _ h₁) (hf a (hP _ _ h₁) _ _ h₂)

theorem Traces.perform {T : List (Event E R) → Prop} {e : E} (h : ∀ r, T [⟨e, r⟩]) :
    Traces T (Prog.perform e : Prog E R (R e)) := by
  intro tr r hr
  rw [runs_perform.mp hr]
  exact h r

/-! ## One handler for all effects -/

variable (handle : (e : E) → σ → R e × σ)

/-- Result and final state when `handle` answers every effect. -/
def exec : Prog E R α → σ → α × σ
  | .pure a, s => (a, s)
  | .op e k, s => exec (k (handle e s).1) (handle e s).2

/-- The effects performed when `handle` answers them. -/
def trace : Prog E R α → σ → List (Event E R)
  | .pure _, _ => []
  | .op e k, s => ⟨e, (handle e s).1⟩ :: trace (k (handle e s).1) (handle e s).2

@[simp] theorem exec_pure (a : α) (s : σ) :
    exec handle (Pure.pure a : Prog E R α) s = (a, s) := rfl

@[simp] theorem exec_bind (p : Prog E R α) (f : α → Prog E R β) (s : σ) :
    exec handle (p >>= f) s =
      exec handle (f (exec handle p s).1) (exec handle p s).2 := by
  induction p generalizing s with
  | pure a => rfl
  | op e k ih => exact ih _ _

/-- An undisturbed call is one of the runs. -/
theorem runs_exec (p : Prog E R α) (s : σ) :
    p.Runs (trace handle p s) (exec handle p s).1 := by
  induction p generalizing s with
  | pure a => exact ⟨rfl, rfl⟩
  | op e k ih => exact ⟨_, _, rfl, ih _ _⟩

theorem Always.exec {p : Prog E R α} {Q : α → Prop} (h : p.Always Q) (s : σ) :
    Q (exec handle p s).1 := h _ _ (runs_exec handle p s)

/-- What every effect of the call leaves alone, the call leaves alone. -/
theorem exec_frame {ok : E → Prop} (view : σ → τ)
    (hv : ∀ e s, ok e → view (handle e s).2 = view s) (p : Prog E R α) (s : σ)
    (hok : ∀ ev ∈ trace handle p s, ok ev.op) : view (exec handle p s).2 = view s := by
  induction p generalizing s with
  | pure a => rfl
  | op e k ih =>
      have hhead : ok e := hok ⟨e, (handle e s).1⟩ (List.mem_cons_self ..)
      exact (ih _ _ fun ev hev => hok ev (List.mem_cons_of_mem _ hev)).trans (hv e s hhead)

/-- A call restricted to such effects. -/
theorem Only.exec_frame {ok : E → Prop} {p : Prog E R α} (hp : Only ok p)
    (view : σ → τ) (hv : ∀ e s, ok e → view (handle e s).2 = view s) (s : σ) :
    view (exec handle p s).2 = view s :=
  Prog.exec_frame handle view hv p s (hp _ _ (runs_exec handle p s))

theorem trace_bind (p : Prog E R α) (f : α → Prog E R β) (s : σ) :
    trace handle (p >>= f) s =
      trace handle p s ++ trace handle (f (exec handle p s).1) (exec handle p s).2 := by
  induction p generalizing s with
  | pure a => rfl
  | op e k ih =>
      rw [op_bind, trace, trace, ih]
      rfl

/-- A program that can be answered as another one was, from a state in which
the handler gives the same answers, does the same. -/
theorem exec_congr {ok : E → Prop} {Rel : σ → σ → Prop}
    (hrel : ∀ e s s', ok e → Rel s s' →
      (handle e s').1 = (handle e s).1 ∧ Rel (handle e s).2 (handle e s').2)
    {p p' : Prog E R α} {s s' : σ} {b : α} (hs : Rel s s')
    (hok : ∀ ev ∈ trace handle p s, ok ev.op) (hruns : p'.Runs (trace handle p s) b) :
    (exec handle p' s').1 = b ∧ Rel (exec handle p s).2 (exec handle p' s').2 ∧
      trace handle p' s' = trace handle p s := by
  induction p generalizing p' s s' with
  | pure a =>
      cases p' with
      | pure a' => exact ⟨hruns.2, hs, rfl⟩
      | op e k => obtain ⟨_, _, h, -⟩ := hruns; cases h
  | op e k ih =>
      cases p' with
      | pure a' => cases hruns.1
      | op e' k' =>
          obtain ⟨r, tr, h, hk⟩ := hruns
          cases h
          obtain ⟨hans, hnext⟩ := hrel e s s' (hok _ (List.mem_cons_self ..)) hs
          obtain ⟨hb, hend, htr⟩ := ih _ hnext
            (fun ev hev => hok ev (List.mem_cons_of_mem _ hev)) hk
          simp only [exec, trace, hans]
          exact ⟨hb, hend, by rw [htr]⟩

/-- Two handlers that give the same answers from related states, as far as
the program asks. -/
theorem exec_simulates {handle' : (e : E) → τ → R e × τ} {ok : E → Prop} {Rel : σ → τ → Prop}
    (hrel : ∀ e s t, ok e → Rel s t →
      (handle' e t).1 = (handle e s).1 ∧ Rel (handle e s).2 (handle' e t).2)
    {p : Prog E R α} (hp : Only ok p) {s : σ} {t : τ} (h : Rel s t) :
    (exec handle' p t).1 = (exec handle p s).1 ∧
      Rel (exec handle p s).2 (exec handle' p t).2 := by
  have hok := hp _ _ (runs_exec handle p s)
  clear hp
  induction p generalizing s t with
  | pure a => exact ⟨rfl, h⟩
  | op e k ih =>
      obtain ⟨hans, hnext⟩ := hrel e s t (hok _ (List.mem_cons_self ..)) h
      simp only [exec, hans]
      exact ih _ hnext fun ev hev => hok ev (List.mem_cons_of_mem _ hev)

end Prog
