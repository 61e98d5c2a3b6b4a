import Mathlib.Data.List.Basic
import Mathlib.Data.List.Infix

namespace Machino.Runs

variable {σ ι : Type*}

/-- The state after a list of inputs, one step for each of them. -/
def run (step : σ → ι → σ) (s : σ) (is : List ι) : σ := is.foldl step s

@[simp] theorem run_nil (step : σ → ι → σ) (s : σ) : run step s [] = s := rfl

@[simp] theorem run_cons (step : σ → ι → σ) (s : σ) (i : ι) (is : List ι) :
    run step s (i :: is) = run step (step s i) is := rfl

theorem run_append (step : σ → ι → σ) (s : σ) (is js : List ι) :
    run step s (is ++ js) = run step (run step s is) js := List.foldl_append

/-- What holds at the start and survives every step holds after every run. -/
theorem run_invariant {step : σ → ι → σ} {P : σ → Prop} (hs : ∀ s i, P s → P (step s i))
    {s : σ} (h0 : P s) (is : List ι) : P (run step s is) := by
  induction is generalizing s with
  | nil => exact h0
  | cons i is ih => exact ih (hs s i h0)

/-- Every step of the run takes an admissible input in the state it starts from. -/
def Along (step : σ → ι → σ) (ok : σ → ι → Prop) : σ → List ι → Prop
  | _, [] => True
  | s, i :: is => ok s i ∧ Along step ok (step s i) is

instance decidableAlong (step : σ → ι → σ) (ok : σ → ι → Prop) [∀ s i, Decidable (ok s i)] :
    (s : σ) → (is : List ι) → Decidable (Along step ok s is)
  | _, [] => .isTrue trivial
  | s, i :: is => @instDecidableAnd _ _ _ (decidableAlong step ok (step s i) is)

theorem Along.append {step : σ → ι → σ} {ok : σ → ι → Prop} {s : σ} {is js : List ι} :
    Along step ok s (is ++ js) ↔ Along step ok s is ∧ Along step ok (run step s is) js := by
  induction is generalizing s with
  | nil => simp [Along]
  | cons i is ih => simp [Along, ih, and_assoc]

theorem Along.mono {step : σ → ι → σ} {ok ok' : σ → ι → Prop} (hok : ∀ s i, ok s i → ok' s i)
    {s : σ} {is : List ι} (h : Along step ok s is) : Along step ok' s is := by
  induction is generalizing s with
  | nil => trivial
  | cons i is ih => exact ⟨hok s i h.1, ih h.2⟩

/-- What an invariant says of the next step holds all along every run. -/
theorem along_of_invariant {step : σ → ι → σ} {P : σ → Prop} {ok : σ → ι → Prop}
    (hs : ∀ s i, P s → P (step s i)) (hok : ∀ s i, P s → ok s i) {s : σ} (h0 : P s)
    (is : List ι) : Along step ok s is := by
  induction is generalizing s with
  | nil => trivial
  | cons i is ih => exact ⟨hok s i h0, ih (hs s i h0)⟩

/-- What an invariant of an admissible run says of its next step holds all along it. -/
theorem Along.of_invariant {step : σ → ι → σ} {P : σ → Prop} {ok ok' : σ → ι → Prop}
    (hs : ∀ s i, P s → ok s i → P (step s i)) (hok : ∀ s i, P s → ok s i → ok' s i) {s : σ}
    (h0 : P s) {is : List ι} (h : Along step ok s is) : Along step ok' s is := by
  induction is generalizing s with
  | nil => trivial
  | cons i is ih => exact ⟨hok s i h0 h.1, ih (hs s i h0 h.1) h.2⟩

/-- The predicate holds in every state the run passes through. -/
def Always (step : σ → ι → σ) (P : σ → Prop) (s : σ) (is : List ι) : Prop :=
  ∀ js, js <+: is → P (run step s js)

/-- An invariant that only admissible steps keep holds all along an admissible run. -/
theorem always_of_along {step : σ → ι → σ} {ok : σ → ι → Prop} {P : σ → Prop}
    (hs : ∀ s i, P s → ok s i → P (step s i)) {s : σ} (h0 : P s) {is : List ι}
    (h : Along step ok s is) : Always step P s is := by
  induction is generalizing s with
  | nil =>
    intro js hjs
    rw [List.prefix_nil.mp hjs]
    exact h0
  | cons i is ih =>
    intro js hjs
    cases js with
    | nil => exact h0
    | cons j js =>
      obtain ⟨rfl, hpre⟩ := List.cons_prefix_cons.mp hjs
      exact ih (hs s j h0 h.1) h.2 js hpre

theorem Always.mono {step : σ → ι → σ} {P Q : σ → Prop} (hpq : ∀ s, P s → Q s) {s : σ}
    {is : List ι} (h : Always step P s is) : Always step Q s is :=
  fun js hjs => hpq _ (h js hjs)

/-- Where a step that is not admissible breaks the predicate, it holds all along a run just when
every step of the run is admissible. -/
theorem always_iff_along {step : σ → ι → σ} {ok : σ → ι → Prop} {P Q : σ → Prop}
    (hs : ∀ s i, P s → ok s i → P (step s i)) (hq : ∀ s, P s → Q s)
    (hbad : ∀ s i, P s → ¬ ok s i → ¬ Q (step s i)) {s : σ} (h0 : P s) {is : List ι} :
    Always step Q s is ↔ Along step ok s is := by
  constructor
  · intro h
    induction is generalizing s with
    | nil => trivial
    | cons i is ih =>
      have hi : ok s i := by
        by_contra hi
        exact hbad s i h0 hi (h [i] (List.cons_prefix_cons.mpr ⟨rfl, List.nil_prefix⟩))
      refine ⟨hi, ih (hs s i h0 hi) ?_⟩
      intro js hjs
      exact h (i :: js) (List.cons_prefix_cons.mpr ⟨rfl, hjs⟩)
  · exact fun h => (always_of_along hs h0 h).mono hq

/-- The entries of a list that has grown by one. -/
theorem getElem?_concat_eq_some {α : Type*} {l : List α} {a b : α} {i : ℕ}
    (h : (l ++ [a])[i]? = some b) : l[i]? = some b ∨ l.length = i ∧ a = b := by
  rw [List.getElem?_append] at h
  split at h
  · exact .inl h
  · rename_i hge
    have hlt := (List.getElem?_eq_some_iff.mp h).1
    rw [List.length_singleton] at hlt
    have heq : l.length = i := by omega
    rw [← heq, Nat.sub_self] at h
    exact .inr ⟨heq, Option.some.inj h⟩

end Machino.Runs
