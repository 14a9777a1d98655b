import Mathlib.Data.List.Basic

/-!
# Watching a sequence of events

A monitor reads a sequence from left to right. It keeps a state, moved by
`next`, and asks `P` of each event and the state before it. `Watch` is the
sequence passing the monitor. It is defined by recursion, which is what
inductions on the sequence and evaluation use; `watch_iff` is the reading by
positions.
-/

variable {σ ε : Type} {next : σ → ε → σ} {P Q : σ → ε → Prop}

/-- `P` holds of every event and the state `next` has reached before it. -/
def Watch (next : σ → ε → σ) (P : σ → ε → Prop) : σ → List ε → Prop
  | _, [] => True
  | s, e :: es => P s e ∧ Watch next P (next s e) es

namespace Watch

@[simp] theorem nil (s : σ) : Watch next P s [] ↔ True := Iff.rfl

@[simp] theorem cons (s : σ) (e : ε) (es : List ε) :
    Watch next P s (e :: es) ↔ P s e ∧ Watch next P (next s e) es := Iff.rfl

theorem append (s : σ) (es es' : List ε) : Watch next P s (es ++ es') ↔
    Watch next P s es ∧ Watch next P (es.foldl next s) es' := by
  induction es generalizing s with
  | nil => simp
  | cons e es ih => simp [ih, and_assoc]

/-- The monitor asks `P` wherever the sequence can be cut. -/
theorem iff_split (s : σ) (es : List ε) : Watch next P s es ↔
    ∀ pre e post, es = pre ++ e :: post → P (pre.foldl next s) e := by
  constructor
  · rintro h pre e post rfl
    exact ((append s pre _).mp h).2.1
  · intro h
    induction es generalizing s with
    | nil => exact trivial
    | cons e es ih =>
        refine ⟨h [] e es rfl, ih _ ?_⟩
        rintro pre e' post rfl
        exact h (e :: pre) e' post rfl

/-- Events that meet `P` in any state. -/
theorem of_forall {s : σ} {es : List ε} (h : ∀ e ∈ es, ∀ s, P s e) : Watch next P s es := by
  induction es generalizing s with
  | nil => exact trivial
  | cons e es ih =>
      exact ⟨h e (List.mem_cons_self ..) s, ih fun e' he => h e' (List.mem_cons_of_mem _ he)⟩

/-- Events that neither move the monitor nor concern it. -/
theorem idle {s : σ} {es : List ε} (hn : ∀ e ∈ es, next s e = s) (hP : ∀ e ∈ es, P s e) :
    es.foldl next s = s ∧ Watch next P s es := by
  induction es with
  | nil => exact ⟨rfl, trivial⟩
  | cons e es ih =>
      have he : next s e = s := hn e (List.mem_cons_self ..)
      obtain ⟨hfold, hwatch⟩ := ih (fun e' h => hn e' (List.mem_cons_of_mem _ h))
        (fun e' h => hP e' (List.mem_cons_of_mem _ h))
      refine ⟨?_, hP e (List.mem_cons_self ..), ?_⟩
      · rw [List.foldl_cons, he, hfold]
      · rw [he]
        exact hwatch

/-- What holds of every event can be watched as well. -/
theorem and_forall {Q : ε → Prop} {s : σ} {es : List ε} (hQ : ∀ e ∈ es, Q e)
    (h : Watch next P s es) : Watch next (fun s e => Q e ∧ P s e) s es := by
  induction es generalizing s with
  | nil => exact trivial
  | cons e es ih =>
      exact ⟨⟨hQ e (List.mem_cons_self ..), h.1⟩,
        ih (fun e' he => hQ e' (List.mem_cons_of_mem _ he)) h.2⟩

/-- What every watched event preserves holds at the end. -/
theorem preserves {Inv : σ → Prop} (hstep : ∀ s e, Inv s → P s e → Inv (next s e))
    {s : σ} {es : List ε} (hs : Inv s) (h : Watch next P s es) : Inv (es.foldl next s) := by
  induction es generalizing s with
  | nil => exact hs
  | cons e es ih => exact ih (hstep s e hs h.1) h.2

/-- Under an invariant that the watched events keep, they meet whatever the
invariant and the first question entail. -/
theorem entails {Inv : σ → Prop} (hstep : ∀ s e, Inv s → P s e → Inv (next s e) ∧ Q s e)
    {s : σ} {es : List ε} (hs : Inv s) (h : Watch next P s es) : Watch next Q s es := by
  induction es generalizing s with
  | nil => exact trivial
  | cons e es ih =>
      obtain ⟨hinv, hq⟩ := hstep s e hs h.1
      exact ⟨hq, ih hinv h.2⟩

theorem and {s : σ} {es : List ε} (h : Watch next P s es) (h' : Watch next Q s es) :
    Watch next (fun s e => P s e ∧ Q s e) s es := by
  induction es generalizing s with
  | nil => exact trivial
  | cons e es ih => exact ⟨⟨h.1, h'.1⟩, ih h.2 h'.2⟩

instance decidable [∀ s e, Decidable (P s e)] : ∀ s es, Decidable (Watch next P s es)
  | _, [] => .isTrue trivial
  | s, e :: es =>
      haveI := decidable (next s e) es
      inferInstanceAs (Decidable (P s e ∧ Watch next P (next s e) es))

end Watch
