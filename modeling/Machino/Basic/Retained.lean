import Mathlib.Data.List.Count
import Mathlib.Data.List.Infix

namespace Machino

variable {α : Type*} (mark : α → Bool)

/-- The history is what has left, `gone` of it marked, and what is in the window. -/
def Retained (history window : List α) (gone : ℕ) : Prop :=
  ∃ left, history = left ++ window ∧ gone = left.countP mark

namespace Retained

variable {mark} {history window : List α} {gone : ℕ}

theorem nil : Retained mark [] [] 0 := ⟨[], rfl, rfl⟩

theorem push (h : Retained mark history window gone) (a : α) :
    Retained mark (history ++ [a]) (window ++ [a]) gone := by
  obtain ⟨left, rfl, hgone⟩ := h
  exact ⟨left, List.append_assoc _ _ _, hgone⟩

/-- The oldest entry leaves. -/
theorem drop {a : α} (h : Retained mark history (a :: window) gone) :
    Retained mark history window (if mark a then gone + 1 else gone) := by
  obtain ⟨left, rfl, rfl⟩ := h
  refine ⟨left ++ [a], (List.append_assoc left [a] window).symm, ?_⟩
  rw [List.countP_append, List.countP_singleton]
  split_ifs
  · rfl
  · rfl

theorem clear (h : Retained mark history window gone) :
    Retained mark history [] (gone + window.countP mark) := by
  obtain ⟨left, rfl, rfl⟩ := h
  exact ⟨left ++ window, (List.append_nil _).symm, List.countP_append.symm⟩

theorem length_le (h : Retained mark history window gone) : window.length ≤ history.length := by
  obtain ⟨left, rfl, -⟩ := h
  rw [List.length_append]
  exact Nat.le_add_left _ _

/-- Where an entry of the window is in the history. -/
theorem getElem?_window (h : Retained mark history window gone) (i : ℕ) :
    window[i]? = history[history.length - window.length + i]? := by
  obtain ⟨left, rfl, -⟩ := h
  have hlen : (left ++ window).length - window.length + i = left.length + i := by
    rw [List.length_append]
    omega
  rw [hlen, List.getElem?_append_right (Nat.le_add_right _ _), Nat.add_sub_cancel_left]

/-- The marks up to an entry, of those that left and those in the window: they are a matter of the
history alone. -/
theorem countP_take (h : Retained mark history window gone) (i : ℕ) :
    gone + (window.take i).countP mark =
      (history.take (history.length - window.length + i)).countP mark := by
  obtain ⟨left, rfl, rfl⟩ := h
  have hlen : (left ++ window).length - window.length + i = left.length + i := by
    rw [List.length_append]
    omega
  rw [hlen, List.take_length_add_append, List.countP_append]

end Retained

end Machino
