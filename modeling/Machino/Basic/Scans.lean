import Mathlib.Data.Nat.Basic

namespace Machino.Scans

/-- A place in some data, and whether the scan has gone wrong. -/
structure Cursor (δ : Type) where
  data : δ
  pos : ℕ := 0
  bad : Bool := false

/-- A scan over data; it may give up. -/
def Scan (δ α : Type) := Cursor δ → Option (α × Cursor δ)

variable {δ β α γ : Type}

instance : Monad (Scan δ) where
  pure a := fun c => some (a, c)
  bind p f := fun c => (p c).bind fun r => f r.1 r.2

namespace Scan

def giveUp : Scan δ α := fun _ => none

/-- The scan has gone wrong, and goes on. -/
def spoil : Scan δ Unit := fun c => some ((), { c with bad := true })

def isBad : Scan δ Bool := fun c => some (c.bad, c)

def position : Scan δ ℕ := fun c => some (c.pos, c)

/-- What is read next; past the end that is wrong, and `past` is read. -/
def next (read : δ → ℕ → Option β) (past : β) : Scan δ β := fun c =>
  match read c.data c.pos with
  | some x => some (x, { c with pos := c.pos + 1 })
  | none => some (past, { c with bad := true })

def onlyIf (P : Prop) [Decidable P] (p : Scan δ Unit) : Scan δ Unit := if P then p else pure ()

def times : ℕ → Scan δ Unit → Scan δ Unit
  | 0, _ => pure ()
  | n + 1, p => p >>= fun _ => times n p

theorem bind_eq_some {p : Scan δ α} {f : α → Scan δ γ} {c c' : Cursor δ} {b : γ} :
    (p >>= f) c = some (b, c') ↔ ∃ a c₁, p c = some (a, c₁) ∧ f a c₁ = some (b, c') := by
  show (p c).bind (fun r => f r.1 r.2) = _ ↔ _
  rw [Option.bind_eq_some_iff]
  exact ⟨fun ⟨r, h⟩ => ⟨r.1, r.2, h⟩, fun ⟨a, c₁, h⟩ => ⟨(a, c₁), h⟩⟩

/-- A scan that goes well has read nothing but what is between where it began and where it ends:
it goes the same way over all data that is the same up to there. -/
def Local (read : δ → ℕ → Option β) (p : Scan δ α) : Prop :=
  ∀ c a c', p c = some (a, c') → c'.bad = false →
    c.bad = false ∧ c'.data = c.data ∧ c.pos ≤ c'.pos ∧
      ∀ d, (∀ i < c'.pos, read d i = read c.data i) →
        p ⟨d, c.pos, false⟩ = some (a, ⟨d, c'.pos, false⟩)

namespace Local

variable {read : δ → ℕ → Option β}

theorem pure (a : α) : Local read (Pure.pure a : Scan δ α) := by
  intro c b c' h hgood
  obtain ⟨rfl, rfl⟩ := Prod.mk.inj (Option.some.inj h)
  exact ⟨hgood, rfl, Nat.le_refl _, fun d _ => rfl⟩

theorem giveUp : Local read (Scan.giveUp : Scan δ α) := nofun

theorem spoil : Local read (Scan.spoil : Scan δ Unit) := by
  intro c b c' h hgood
  obtain ⟨-, rfl⟩ := Prod.mk.inj (Option.some.inj h)
  exact Bool.noConfusion hgood

theorem isBad : Local read (Scan.isBad : Scan δ Bool) := by
  intro c b c' h hgood
  obtain ⟨rfl, rfl⟩ := Prod.mk.inj (Option.some.inj h)
  refine ⟨hgood, rfl, Nat.le_refl _, fun d _ => ?_⟩
  rw [hgood]
  rfl

theorem position : Local read (Scan.position : Scan δ ℕ) := by
  intro c b c' h hgood
  obtain ⟨rfl, rfl⟩ := Prod.mk.inj (Option.some.inj h)
  exact ⟨hgood, rfl, Nat.le_refl _, fun d _ => rfl⟩

theorem next (past : β) : Local read (Scan.next read past) := by
  intro c b c' h hgood
  unfold Scan.next at h
  split at h
  · rename_i x hread
    obtain ⟨rfl, rfl⟩ := Prod.mk.inj (Option.some.inj h)
    refine ⟨hgood, rfl, Nat.le_succ _, fun d hd => ?_⟩
    unfold Scan.next
    rw [hd c.pos (Nat.lt_succ_self _), hread]
  · obtain ⟨-, rfl⟩ := Prod.mk.inj (Option.some.inj h)
    exact Bool.noConfusion hgood

theorem bind {p : Scan δ α} {f : α → Scan δ γ} (hp : Local read p) (hf : ∀ a, Local read (f a)) :
    Local read (p >>= f) := by
  intro c b c' h hgood
  obtain ⟨a, c₁, h₁, h₂⟩ := bind_eq_some.mp h
  obtain ⟨hgood₁, hdata₂, hle₂, hrun₂⟩ := hf a c₁ b c' h₂ hgood
  obtain ⟨hgood₀, hdata₁, hle₁, hrun₁⟩ := hp c a c₁ h₁ hgood₁
  refine ⟨hgood₀, hdata₂.trans hdata₁, Nat.le_trans hle₁ hle₂, fun d hd => ?_⟩
  have hsame₁ := hrun₁ d fun i hi => hd i (Nat.lt_of_lt_of_le hi hle₂)
  have hsame₂ := hrun₂ d fun i hi => by rw [hd i hi, hdata₁]
  exact bind_eq_some.mpr ⟨a, _, hsame₁, hsame₂⟩

theorem ite {P : Prop} [Decidable P] {p q : Scan δ α} (hp : Local read p) (hq : Local read q) :
    Local read (if P then p else q) := by
  split
  · exact hp
  · exact hq

theorem onlyIf {P : Prop} [Decidable P] {p : Scan δ Unit} (hp : Local read p) :
    Local read (Scan.onlyIf P p) := hp.ite (pure ())

theorem times {p : Scan δ Unit} (hp : Local read p) (n : ℕ) : Local read (times n p) := by
  induction n with
  | zero => exact pure ()
  | succ n ih => exact hp.bind fun _ => ih

end Local

/-- Wherever this word stands in the data, the scan reads it, all of it and nothing else. -/
def Decodes (read : δ → ℕ → Option β) (p : Scan δ α) (word : List β) (a : α) : Prop :=
  ∀ d pos, (∀ i (hi : i < word.length), read d (pos + i) = some word[i]) →
    p ⟨d, pos, false⟩ = some (a, ⟨d, pos + word.length, false⟩)

namespace Decodes

variable {read : δ → ℕ → Option β}

theorem pure (a : α) : Decodes read (Pure.pure a : Scan δ α) [] a := fun _ _ _ => rfl

theorem isBad : Decodes read (Scan.isBad : Scan δ Bool) [] false := fun _ _ _ => rfl

theorem next (past x : β) : Decodes read (Scan.next read past) [x] x := by
  intro d pos h
  unfold Scan.next
  rw [show read d pos = some x from h 0 Nat.zero_lt_one]
  rfl

theorem bind {p : Scan δ α} {f : α → Scan δ γ} {word rest : List β} {a : α} {b : γ}
    (hp : Decodes read p word a) (hf : Decodes read (f a) rest b) :
    Decodes read (p >>= f) (word ++ rest) b := by
  intro d pos h
  have hfirst : ∀ i (hi : i < word.length), read d (pos + i) = some word[i] := by
    intro i hi
    rw [h i (by rw [List.length_append]; omega), List.getElem_append_left hi]
  have hsecond : ∀ i (hi : i < rest.length), read d (pos + word.length + i) = some rest[i] := by
    intro i hi
    rw [Nat.add_assoc, h (word.length + i) (by rw [List.length_append]; omega),
      List.getElem_append_right (Nat.le_add_right _ _)]
    simp only [Nat.add_sub_cancel_left]
  rw [List.length_append, ← Nat.add_assoc]
  exact bind_eq_some.mpr ⟨a, _, hp d pos hfirst, hf d _ hsecond⟩

end Decodes

end Scan

end Machino.Scans
