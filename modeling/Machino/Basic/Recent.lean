import Mathlib.Algebra.Order.Group.Int
import Mathlib.Data.List.Infix

/-! A memory of keys with the times at which they came: the oldest goes when it has expired, and
when there is no room. -/
namespace Machino.Recent

variable {κ : Type} (horizon : ℤ) (cap : ℕ)

def purge (now : ℤ) (l : List (κ × ℤ)) : List (κ × ℤ) := l.dropWhile fun e => e.2 < now - horizon

/-- An entry is purged only when it has expired, whatever stands in front of it. -/
theorem purge_keeps (now : ℤ) {k : κ} {t : ℤ} (a b : List (κ × ℤ)) (ht : now - horizon ≤ t) :
    ∃ a', purge horizon now (a ++ (k, t) :: b) = a' ++ (k, t) :: b := by
  unfold purge
  induction a with
  | nil =>
    refine ⟨[], ?_⟩
    rw [List.nil_append, List.dropWhile_cons_of_neg (by simpa using ht)]
  | cons e a ih =>
    rw [List.cons_append, List.dropWhile_cons]
    split
    · exact ih
    · exact ⟨e :: a, rfl⟩

variable [DecidableEq κ]

/-- Whether the key is remembered, and the memory behind: a new key is recorded. -/
def look (key : κ) (now : ℤ) (l : List (κ × ℤ)) : Bool × List (κ × ℤ) :=
  let l := purge horizon now l
  if l.any (·.1 = key) then (true, l)
  else (false, (if cap ≤ l.length then l.drop 1 else l) ++ [(key, now)])

/-- The memory behind some lookups. -/
def run (l : List (κ × ℤ)) (evs : List (κ × ℤ)) : List (κ × ℤ) :=
  evs.foldl (fun l e => (look horizon cap e.1 e.2 l).2) l

/-- How many of them recorded their key. -/
def news : List (κ × ℤ) → List (κ × ℤ) → ℕ
  | _, [] => 0
  | l, e :: evs =>
    (if (look horizon cap e.1 e.2 l).1 then 0 else 1) + news (look horizon cap e.1 e.2 l).2 evs

theorem length_look_le (hcap : 0 < cap) {l : List (κ × ℤ)} (hl : l.length ≤ cap) (key : κ)
    (now : ℤ) : (look horizon cap key now l).2.length ≤ cap := by
  have hpurge : (purge horizon now l).length ≤ l.length :=
    (List.dropWhile_suffix _).length_le
  unfold look
  dsimp only
  split_ifs with hseen hroom
  · exact hpurge.trans hl
  · rw [List.length_append, List.length_drop, List.length_singleton]
    omega
  · rw [List.length_append, List.length_singleton]
    omega

/-- One lookup: an entry with `b` behind it stays, and what is recorded comes behind it, unless it
has expired or the entries behind it fill the memory. -/
theorem look_keeps (key : κ) (now : ℤ) {k : κ} {t : ℤ} (a b : List (κ × ℤ)) :
    t < now - horizon ∨
    ((look horizon cap key now (a ++ (k, t) :: b)).1 = false ∧ cap ≤ b.length + 1) ∨
    ∃ a' b', (look horizon cap key now (a ++ (k, t) :: b)).2 = a' ++ (k, t) :: b' ∧
      b'.length = b.length +
        if (look horizon cap key now (a ++ (k, t) :: b)).1 then 0 else 1 := by
  by_cases ht : t < now - horizon
  · exact .inl ht
  obtain ⟨a', ha'⟩ := purge_keeps horizon now (k := k) a b (Int.not_lt.mp ht)
  unfold look
  dsimp only
  rw [ha']
  by_cases hseen : (a' ++ (k, t) :: b).any (·.1 = key) = true
  · rw [if_pos hseen]
    exact .inr (.inr ⟨a', b, rfl, rfl⟩)
  · rw [if_neg hseen]
    by_cases hroom : cap ≤ (a' ++ (k, t) :: b).length
    · rw [if_pos hroom]
      cases a' with
      | nil => exact .inr (.inl ⟨rfl, hroom⟩)
      | cons e a' =>
        refine .inr (.inr ⟨a', b ++ [(key, now)], ?_, List.length_append⟩)
        rw [List.cons_append, List.drop_one, List.tail_cons, List.append_assoc]
        rfl
    · rw [if_neg hroom]
      refine .inr (.inr ⟨a', b ++ [(key, now)], ?_, List.length_append⟩)
      rw [List.append_assoc]
      rfl

/-- Over a run of lookups. -/
theorem run_keeps {k : κ} {t : ℤ} (evs : List (κ × ℤ)) (a b : List (κ × ℤ)) :
    (∃ e ∈ evs, t < e.2 - horizon) ∨
    cap ≤ b.length + news horizon cap (a ++ (k, t) :: b) evs ∨
    ∃ a' b', run horizon cap (a ++ (k, t) :: b) evs = a' ++ (k, t) :: b' ∧
      b'.length = b.length + news horizon cap (a ++ (k, t) :: b) evs := by
  induction evs generalizing a b with
  | nil => exact .inr (.inr ⟨a, b, rfl, rfl⟩)
  | cons e evs ih =>
    obtain hold | ⟨hnew, hfull⟩ | ⟨a', b', hmem, hlen⟩ := look_keeps horizon cap e.1 e.2 a b
    · exact .inl ⟨e, List.mem_cons_self, hold⟩
    · refine .inr (.inl ?_)
      rw [news, hnew, if_neg Bool.false_ne_true]
      omega
    · have hnews : b.length + news horizon cap (a ++ (k, t) :: b) (e :: evs) =
          b'.length + news horizon cap (a' ++ (k, t) :: b') evs := by
        rw [news, hmem, hlen]
        omega
      have hrun : run horizon cap (a ++ (k, t) :: b) (e :: evs) =
          run horizon cap (a' ++ (k, t) :: b') evs := by
        rw [← hmem]
        rfl
      rw [hnews, hrun]
      exact (ih a' b').imp_left fun ⟨e', he', hold⟩ => ⟨e', List.mem_cons_of_mem e he', hold⟩

/-- A key that is recorded a second time has expired in between, or as many keys as the memory
holds were recorded. -/
theorem second_record {k : κ} {t t' : ℤ} {l : List (κ × ℤ)} (evs : List (κ × ℤ))
    (hfirst : (look horizon cap k t l).1 = false)
    (hsecond : (look horizon cap k t' (run horizon cap (look horizon cap k t l).2 evs)).1 = false) :
    (∃ e ∈ evs ++ [(k, t')], t < e.2 - horizon) ∨
      cap ≤ news horizon cap (look horizon cap k t l).2 evs := by
  have hrecorded : ∃ a, (look horizon cap k t l).2 = a ++ (k, t) :: [] := by
    unfold look at hfirst ⊢
    dsimp only at hfirst ⊢
    split_ifs at hfirst ⊢
    · exact ⟨_, rfl⟩
    · exact ⟨_, rfl⟩
  obtain ⟨a, ha⟩ := hrecorded
  rw [ha] at hsecond ⊢
  obtain ⟨e, he, hold⟩ | hfull | ⟨a', b', hmem, hlen⟩ := run_keeps horizon cap (k := k) (t := t) evs a []
  · exact .inl ⟨e, List.mem_append_left _ he, hold⟩
  · exact .inr (by simpa using hfull)
  · by_cases hexp : t < t' - horizon
    · exact .inl ⟨(k, t'), List.mem_append_right _ (List.mem_singleton_self _), hexp⟩
    · obtain ⟨a'', ha''⟩ := purge_keeps horizon t' (k := k) a' b' (Int.not_lt.mp hexp)
      rw [hmem] at hsecond
      unfold look at hsecond
      dsimp only at hsecond
      rw [ha'', if_pos (by simp)] at hsecond
      exact Bool.noConfusion hsecond

end Machino.Recent
