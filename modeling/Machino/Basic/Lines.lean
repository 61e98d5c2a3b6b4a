import Mathlib.Data.List.Basic

namespace Machino.Lines

variable {α : Type*} [DecidableEq α] {sep : α}

/-- What stands before each separator, and behind the last one unless that is nothing. -/
def split (sep : α) : List α → List (List α)
  | [] => []
  | a :: s =>
    if a = sep then [] :: split sep s
    else
      match split sep s with
      | l :: ls => (a :: l) :: ls
      | [] => [[a]]

/-- Each piece with a separator behind it. -/
def join (sep : α) (ls : List (List α)) : List α := ls.flatMap (· ++ [sep])

omit [DecidableEq α] in
theorem join_append (ls ls' : List (List α)) : join sep (ls ++ ls') = join sep ls ++ join sep ls' :=
  List.flatMap_append

/-- The first piece ends at the first separator. -/
theorem split_append_cons {l : List α} (hl : sep ∉ l) (s : List α) :
    split sep (l ++ sep :: s) = l :: split sep s := by
  induction l with
  | nil => simp [split]
  | cons a l ih =>
    rw [List.mem_cons, not_or] at hl
    simp [split, ih hl.2, Ne.symm hl.1]

theorem split_join_append {ls : List (List α)} (h : ∀ l ∈ ls, sep ∉ l) (s : List α) :
    split sep (join sep ls ++ s) = ls ++ split sep s := by
  induction ls with
  | nil => rfl
  | cons l ls ih =>
    have hjoin : join sep (l :: ls) ++ s = l ++ sep :: (join sep ls ++ s) := by simp [join]
    rw [hjoin, split_append_cons (h l List.mem_cons_self),
      ih fun l' hl' => h l' (List.mem_cons_of_mem _ hl'), List.cons_append]

theorem split_join {ls : List (List α)} (h : ∀ l ∈ ls, sep ∉ l) :
    split sep (join sep ls) = ls := by
  have hnil := split_join_append h []
  rwa [List.append_nil, split, List.append_nil] at hnil

theorem split_of_not_mem {l : List α} (hl : sep ∉ l) (hne : l ≠ []) : split sep l = [l] := by
  induction l with
  | nil => exact absurd rfl hne
  | cons a l ih =>
    rw [List.mem_cons, not_or] at hl
    rcases eq_or_ne l [] with rfl | hl'
    · simp [split, Ne.symm hl.1]
    · simp [split, Ne.symm hl.1, ih hl.2 hl']

/-- Pieces that are not empty, with separators between them only. -/
theorem split_intercalate {ls : List (List α)} (h : ∀ l ∈ ls, sep ∉ l) (hne : ∀ l ∈ ls, l ≠ []) :
    split sep ([sep].intercalate ls) = ls := by
  induction ls with
  | nil => rfl
  | cons l ls ih =>
    cases ls with
    | nil =>
      rw [List.intercalate_singleton]
      exact split_of_not_mem (h l List.mem_cons_self) (hne l List.mem_cons_self)
    | cons l' ls =>
      rw [List.intercalate_cons_cons, List.append_assoc, List.singleton_append,
        split_append_cons (h l List.mem_cons_self),
        ih (fun k hk => h k (List.mem_cons_of_mem _ hk)) fun k hk => hne k (List.mem_cons_of_mem _ hk)]

/-- A separator ends a piece, whatever stands around it. -/
theorem split_append_sep (l s : List α) :
    split sep (l ++ sep :: s) = split sep (l ++ [sep]) ++ split sep s := by
  induction l with
  | nil => simp [split]
  | cons a l ih =>
    have hne : split sep (l ++ [sep]) ≠ [] := by
      intro h
      cases l with
      | nil => simp [split] at h
      | cons b l =>
        rw [List.cons_append, split] at h
        split at h
        · exact List.cons_ne_nil _ _ h
        · split at h <;> exact List.cons_ne_nil _ _ h
    obtain ⟨p, ps, hp⟩ := List.exists_cons_of_ne_nil hne
    rw [List.cons_append, List.cons_append, split, split, ih, hp]
    split <;> rfl

theorem mem_split_join {ls : List (List α)} {l x : List α} (hl : l ∈ ls)
    (hx : x ∈ split sep (l ++ [sep])) : x ∈ split sep (join sep ls) := by
  induction ls with
  | nil => exact absurd hl List.not_mem_nil
  | cons k ls ih =>
    have hjoin : join sep (k :: ls) = k ++ sep :: join sep ls := by simp [join]
    rw [hjoin, split_append_sep, List.mem_append]
    rcases List.mem_cons.mp hl with rfl | hl
    · exact .inl hx
    · exact .inr (ih hl)

/-- No piece holds the separator. -/
theorem not_mem_of_mem_split {s l : List α} (h : l ∈ split sep s) : sep ∉ l := by
  induction s generalizing l with
  | nil => exact absurd h List.not_mem_nil
  | cons a s ih =>
    unfold split at h
    split at h
    · rcases List.mem_cons.mp h with rfl | h
      · exact List.not_mem_nil
      · exact ih h
    · rename_i hne
      split at h
      · rename_i l' ls heq
        rcases List.mem_cons.mp h with rfl | h
        · have hl' : sep ∉ l' := ih (heq ▸ List.mem_cons_self)
          simp [hl', Ne.symm hne]
        · exact ih (heq ▸ List.mem_cons_of_mem _ h)
      · rw [List.mem_singleton.mp h]
        simp [Ne.symm hne]

theorem isPrefix_of_split_eq_cons {s l : List α} {ls : List (List α)}
    (h : split sep s = l :: ls) : l <+: s := by
  induction s generalizing l ls with
  | nil => exact absurd h (List.cons_ne_nil _ _).symm
  | cons a s ih =>
    unfold split at h
    split at h
    · exact (List.cons.inj h).1 ▸ List.nil_prefix
    · split at h
      · rename_i heq
        exact (List.cons.inj h).1 ▸ List.cons_prefix_cons.mpr ⟨rfl, ih heq⟩
      · exact (List.cons.inj h).1 ▸ List.cons_prefix_cons.mpr ⟨rfl, List.nil_prefix⟩

theorem isInfix_of_mem_split {s l : List α} (h : l ∈ split sep s) : l <:+: s := by
  induction s generalizing l with
  | nil => exact absurd h List.not_mem_nil
  | cons a s ih =>
    cases hs : split sep (a :: s) with
    | nil => exact absurd (hs ▸ h) List.not_mem_nil
    | cons l' ls =>
      rcases List.mem_cons.mp (hs ▸ h) with rfl | hl
      · exact (isPrefix_of_split_eq_cons hs).isInfix
      · refine (ih ?_).trans (List.suffix_cons a s).isInfix
        unfold split at hs
        split at hs
        · exact (List.cons.inj hs).2 ▸ hl
        · split at hs
          · rename_i heq
            exact heq ▸ List.mem_cons_of_mem _ ((List.cons.inj hs).2 ▸ hl)
          · exact absurd ((List.cons.inj hs).2 ▸ hl) List.not_mem_nil

theorem mem_of_mem_split {s l : List α} {a : α} (h : l ∈ split sep s) (ha : a ∈ l) : a ∈ s :=
  (isInfix_of_mem_split h).subset ha

/-- What is no separator stands in a piece. -/
theorem exists_mem_split {s : List α} {a : α} (ha : a ∈ s) (hne : a ≠ sep) :
    ∃ l ∈ split sep s, a ∈ l := by
  induction s with
  | nil => exact absurd ha List.not_mem_nil
  | cons b s ih =>
    unfold split
    split
    · rename_i hb
      have hs := (List.mem_cons.mp ha).resolve_left fun h => hne (h.trans hb)
      obtain ⟨l, hl, hal⟩ := ih hs
      exact ⟨l, List.mem_cons_of_mem _ hl, hal⟩
    · rcases List.mem_cons.mp ha with rfl | hs
      · split
        · exact ⟨_, List.mem_cons_self, List.mem_cons_self⟩
        · exact ⟨_, List.mem_cons_self, List.mem_cons_self⟩
      · obtain ⟨l, hl, hal⟩ := ih hs
        split
        · rename_i l' ls heq
          rcases List.mem_cons.mp (heq ▸ hl) with rfl | hl
          · exact ⟨_, List.mem_cons_self, List.mem_cons_of_mem _ hal⟩
          · exact ⟨l, List.mem_cons_of_mem _ hl, hal⟩
        · rename_i heq
          exact absurd (heq ▸ hl) List.not_mem_nil

end Machino.Lines

/-! Texts whose lines are separated by a pair of symbols, such as a carriage return and a line
feed. -/
namespace Machino.PairLines

variable {α : Type*} [DecidableEq α] {a b : α}

/-- One symbol in front of the first line. -/
def push (x : α) : List (List α) → List (List α)
  | l :: ls => (x :: l) :: ls
  | [] => [[x]]

/-- What stands between the separators; there is always a line. -/
def lines (a b : α) : List α → List (List α)
  | [] => [[]]
  | [x] => [[x]]
  | x :: y :: s => if x = a ∧ y = b then [] :: lines a b s else push x (lines a b (y :: s))

/-- Lines with separators between them. -/
def join (a b : α) : List (List α) → List α
  | [] => []
  | [l] => l
  | l :: ls => l ++ a :: b :: join a b ls

omit [DecidableEq α] in
theorem join_cons {ls : List (List α)} (l : List α) (h : ls ≠ []) :
    join a b (l :: ls) = l ++ a :: b :: join a b ls := by
  cases ls with
  | nil => exact absurd rfl h
  | cons l' ls => rfl

theorem lines_cons {x : α} {s : List α} (h : s.head? ≠ some b) :
    lines a b (x :: s) = push x (lines a b s) := by
  cases s with
  | nil => rfl
  | cons y s =>
    rw [lines, if_neg]
    rintro ⟨-, rfl⟩
    exact h rfl

theorem lines_of_notMem {l : List α} (hl : b ∉ l) : lines a b l = [l] := by
  induction l with
  | nil => rfl
  | cons x l ih =>
    rw [List.mem_cons, not_or] at hl
    rw [lines_cons fun h => hl.2 (List.mem_of_head? h), ih hl.2]
    rfl

/-- The first separator ends the first line. -/
theorem lines_append {l : List α} (hab : a ≠ b) (hl : b ∉ l) (s : List α) :
    lines a b (l ++ a :: b :: s) = l :: lines a b s := by
  induction l with
  | nil => simp [lines]
  | cons x l ih =>
    rw [List.mem_cons, not_or] at hl
    have hhead : (l ++ a :: b :: s).head? ≠ some b := by
      cases l with
      | nil => simpa using hab
      | cons y l => exact fun h => hl.2 (Option.some.inj h ▸ List.mem_cons_self)
    rw [List.cons_append, lines_cons hhead, ih hl.2]
    rfl

theorem lines_join {ls : List (List α)} (hab : a ≠ b) (hne : ls ≠ []) (h : ∀ l ∈ ls, b ∉ l) :
    lines a b (join a b ls) = ls := by
  induction ls with
  | nil => exact absurd rfl hne
  | cons l ls ih =>
    cases ls with
    | nil => exact lines_of_notMem (h l List.mem_cons_self)
    | cons l' ls =>
      rw [join_cons l (List.cons_ne_nil l' ls), lines_append hab (h l List.mem_cons_self),
        ih (List.cons_ne_nil l' ls) fun k hk => h k (List.mem_cons_of_mem l hk)]

end Machino.PairLines
