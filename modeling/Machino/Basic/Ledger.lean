import Mathlib.Data.List.Basic
import Mathlib.Tactic.Common

namespace Machino.Ledger

variable {R : Type*}

/-- A line of a ledger: something was acquired, or given back. -/
inductive Entry (R : Type*) where
  | acquired (r : R)
  | undone (r : R)
  deriving DecidableEq

open Entry

/-- Every acquisition is undone exactly once, the last acquired first, and nothing
else is undone. -/
inductive Balanced : List (Entry R) → Prop
  | nil : Balanced []
  | wrap (r : R) {w v : List (Entry R)} : Balanced w → Balanced v →
      Balanced (acquired r :: w ++ undone r :: v)

theorem Balanced.append {w v : List (Entry R)} (hw : Balanced w) (hv : Balanced v) :
    Balanced (w ++ v) := by
  induction hw with
  | nil => exact hv
  | wrap r ha hb _ ih => simpa using Balanced.wrap r ha ih

/-- What is still held after the entries, last acquired first; nothing when an entry
undoes what is not on top. -/
def held [DecidableEq R] : List R → List (Entry R) → Option (List R)
  | st, [] => some st
  | st, acquired r :: es => held (r :: st) es
  | [], undone _ :: _ => none
  | x :: st, undone r :: es => if x = r then held st es else none

variable [DecidableEq R]

@[simp] theorem held_nil (st : List R) : held st [] = some st := by cases st <;> rfl

@[simp] theorem held_acquired (st : List R) (r : R) (es : List (Entry R)) :
    held st (acquired r :: es) = held (r :: st) es := by cases st <;> rfl

@[simp] theorem held_undone_top (st : List R) (r : R) (es : List (Entry R)) :
    held (r :: st) (undone r :: es) = held st es := by simp [held]

theorem held_append (st : List R) (es fs : List (Entry R)) :
    held st (es ++ fs) = (held st es).bind fun st' => held st' fs := by
  induction es generalizing st with
  | nil => simp
  | cons e es ih =>
    cases e with
    | acquired r => simpa using ih (r :: st)
    | undone r =>
      cases st with
      | nil => rfl
      | cons x st =>
        by_cases h : x = r
        · subst h
          simpa using ih st
        · simp [held, h]

theorem held_append_of_eq {st st' : List R} {es : List (Entry R)} (h : held st es = some st')
    (fs : List (Entry R)) : held st (es ++ fs) = held st' fs := by
  simp [held_append, h]

/-- Undoing everything held, from the top, leaves nothing. -/
theorem held_undo_all (st : List R) : held st (st.map undone) = some [] := by
  induction st with
  | nil => simp
  | cons r st ih => simpa using ih

/-- A ledger that closes with one more thing held splits at the line that undoes it. -/
theorem exists_split {st : List R} {r : R} (es : List (Entry R))
    (h : held (r :: st) es = some []) :
    ∃ w v, es = w ++ undone r :: v ∧ Balanced w ∧ held st v = some [] := by
  match es, h with
  | [], h => simp at h
  | undone x :: es, h =>
    by_cases hx : r = x
    · subst hx
      exact ⟨[], es, rfl, .nil, by simpa using h⟩
    · simp [held, hx] at h
  | acquired x :: es, h =>
    obtain ⟨w, v, rfl, hw, hv⟩ := exists_split es (by simpa using h)
    obtain ⟨w', v', rfl, hw', hv'⟩ := exists_split v hv
    exact ⟨acquired x :: w ++ undone x :: w', v', by simp, .wrap x hw hw', hv'⟩
  termination_by es.length
  decreasing_by all_goals simp_all; try omega

/-- A ledger that leaves nothing held is well nested. -/
theorem balanced_of_held (es : List (Entry R)) (h : held [] es = some []) : Balanced es := by
  match es, h with
  | [], _ => exact .nil
  | undone r :: es, h => simp [held] at h
  | acquired r :: es, h =>
    obtain ⟨w, v, rfl, hw, hv⟩ := exists_split es (by simpa using h)
    exact .wrap r hw (balanced_of_held v hv)
  termination_by es.length
  decreasing_by simp_all; omega

/-- In a balanced ledger every resource is given back as often as it was acquired. -/
theorem Balanced.count_eq {es : List (Entry R)} (h : Balanced es) (r : R) :
    es.count (acquired r) = es.count (undone r) := by
  induction h with
  | nil => rfl
  | wrap x _ _ iha ihb =>
    simp only [List.cons_append, List.count_cons, List.count_append, iha, ihb, beq_iff_eq,
      acquired.injEq, undone.injEq, reduceCtorEq, if_false]
    omega

end Machino.Ledger
