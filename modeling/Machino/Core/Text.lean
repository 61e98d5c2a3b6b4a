import Mathlib.Algebra.Ring.Nat
import Mathlib.Data.List.Basic

namespace Machino

/-- The bytes of a `std::string`. -/
abbrev Text := List Char

instance : LawfulBEq Text := inferInstanceAs (LawfulBEq (List Char))

namespace Text

/-- Decided over the bytes there are, not over all characters. -/
instance decidableBAll (p : Char → Prop) [DecidablePred p] (s : Text) :
    Decidable (∀ c ∈ s, p c) := List.decidableBAll p s

instance decidableBEx (p : Char → Prop) [DecidablePred p] (s : Text) :
    Decidable (∃ c ∈ s, p c) := List.decidableBEx p s

/-- Where `sub` first starts in `s`, as `std::string::find`. -/
def find (sub : Text) : Text → Option ℕ
  | [] => if sub = [] then some 0 else none
  | c :: s => if sub.isPrefixOf (c :: s) then some 0 else (find sub s).map (· + 1)

/-- The first place at which `sub` starts. -/
theorem find_eq_some_iff {sub s : Text} {i : ℕ} :
    find sub s = some i ↔ sub <+: s.drop i ∧ ∀ j < i, ¬ sub <+: s.drop j := by
  induction s generalizing i with
  | nil =>
    rw [find]
    simp only [List.drop_nil, List.prefix_nil]
    cases i with
    | zero => simp
    | succ i =>
      split_ifs with h
      · exact iff_of_false nofun fun hfirst => hfirst.2 0 (Nat.succ_pos i) h
      · simp [h]
  | cons c s ih =>
    rw [find]
    split_ifs with h
    · rw [List.isPrefixOf_iff_prefix] at h
      cases i with
      | zero => simpa using h
      | succ i =>
        rw [Option.some.injEq]
        exact ⟨fun h0 => absurd h0 (by omega), fun hi => absurd h (hi.2 0 (Nat.succ_pos i))⟩
    · rw [List.isPrefixOf_iff_prefix] at h
      cases i with
      | zero => simp [h]
      | succ i =>
        rw [Option.map_eq_some_iff]
        simp only [Nat.add_right_cancel_iff, exists_eq_right, ih, List.drop_succ_cons]
        refine and_congr_right fun _ => ⟨fun hj j hji => ?_, fun hj j hji => ?_⟩
        · cases j with
          | zero => exact h
          | succ j => exact hj j (by omega)
        · exact hj (j + 1) (by omega)

theorem find_eq_none_iff {sub s : Text} :
    find sub s = none ↔ ∀ i, ¬ sub <+: s.drop i := by
  induction s with
  | nil =>
    rw [find]
    simp only [List.drop_nil, List.prefix_nil, forall_const]
    split_ifs with h
    · simp [h]
    · simp [h]
  | cons c s ih =>
    rw [find]
    split_ifs with h
    · rw [List.isPrefixOf_iff_prefix] at h
      exact ⟨fun hn => absurd hn (by simp), fun hn => absurd h (hn 0)⟩
    · rw [List.isPrefixOf_iff_prefix] at h
      rw [Option.map_eq_none_iff, ih]
      refine ⟨fun hn i => ?_, fun hn i => hn (i + 1)⟩
      cases i with
      | zero => exact h
      | succ i => exact hn i

/-- What is found stands somewhere in the text. -/
theorem find_isSome_iff {sub s : Text} : (find sub s).isSome = true ↔ sub <:+: s := by
  rw [Option.isSome_iff_ne_none, ne_eq, find_eq_none_iff, not_forall]
  constructor
  · rintro ⟨i, hi⟩
    exact (not_not.mp hi).isInfix.trans (List.drop_suffix i s).isInfix
  · rintro ⟨a, b, rfl⟩
    refine ⟨a.length, not_not.mpr ?_⟩
    rw [List.append_assoc, List.drop_left]
    exact List.prefix_append _ _

theorem infix_intercalate {sep l : Text} {ls : List Text} (h : l ∈ ls) :
    l <:+: sep.intercalate ls := by
  induction ls with
  | nil => exact absurd h List.not_mem_nil
  | cons k ls ih =>
    cases ls with
    | nil =>
      obtain rfl := List.mem_singleton.mp h
      exact ⟨[], [], by simp⟩
    | cons k' ls =>
      rw [List.intercalate_cons_cons]
      rcases List.mem_cons.mp h with rfl | h
      · exact ⟨[], sep ++ sep.intercalate (k' :: ls), by simp⟩
      · exact (ih h).trans ⟨k ++ sep, [], by simp⟩

/-- A sign and a text start where the sign stands with the text behind it. -/
theorem cons_prefix_drop_iff {c : Char} {t s : Text} {i : ℕ} :
    c :: t <+: s.drop i ↔ s[i]? = some c ∧ t <+: s.drop (i + 1) := by
  rw [← List.head?_drop, ← List.tail_drop]
  cases s.drop i with
  | nil => simp
  | cons d u => simp [List.cons_prefix_cons, eq_comm]

def contains (s : Text) (sub : String) : Bool := (find sub.toList s).isSome

/-- What `trim` takes off: a space, a tab or the end of a line. -/
def isBlank (c : Char) : Bool := c = ' ' || c = '\t' || c = '\r' || c = '\n'

def trim (s : Text) : Text := ((s.dropWhile isBlank).reverse.dropWhile isBlank).reverse

def isHexDigit (c : Char) : Bool := c.isDigit || ('a' ≤ c && c ≤ 'f') || ('A' ≤ c && c ≤ 'F')

end Text

/-- What is known of a computation that went well. -/
theorem except_bind_eq_ok {ε α β : Type} {x : Except ε α} {f : α → Except ε β} {b : β} :
    (x >>= f) = .ok b ↔ ∃ a, x = .ok a ∧ f a = .ok b := by
  cases x with
  | error e => simp [bind, Except.bind]
  | ok a => simp [bind, Except.bind]

/-- A check in front of a computation. -/
theorem except_check_eq_ok {ε β : Type} {x : Except ε Unit} {y : Except ε β} {b : β} :
    (x >>= fun _ => y) = .ok b ↔ x = .ok () ∧ y = .ok b := by
  rw [except_bind_eq_ok]
  exact ⟨fun ⟨_, h⟩ => h, fun h => ⟨(), h⟩⟩

theorem except_map_eq_ok {ε α β : Type} {x : Except ε α} {f : α → β} {b : β} :
    x.map f = .ok b ↔ ∃ a, x = .ok a ∧ f a = b := by
  cases x with
  | error e => simp [Except.map]
  | ok a => simp [Except.map]

/-- A step that fails in every state makes the run fail. -/
theorem foldlM_error {ε α σ : Type} {f : σ → α → Except ε σ} {l : List α} {a : α} (ha : a ∈ l)
    (hbad : ∀ s, ∃ e, f s a = .error e) (s : σ) : ∃ e, l.foldlM f s = .error e := by
  induction l generalizing s with
  | nil => exact absurd ha List.not_mem_nil
  | cons b l ih =>
    rw [List.foldlM_cons]
    cases hb : f s b with
    | error e => exact ⟨e, rfl⟩
    | ok t =>
      rcases List.mem_cons.mp ha with rfl | ha
      · obtain ⟨e, he⟩ := hbad s
        rw [he] at hb
        exact absurd hb (by simp)
      · exact ih ha t

/-- What each step keeps holds after a run that goes well. -/
theorem foldlM_keeps {ε α σ : Type} {f : σ → α → Except ε σ} {P : σ → Prop} {l : List α}
    (hstep : ∀ s t, ∀ a ∈ l, P s → f s a = .ok t → P t) {s t : σ} (hs : P s)
    (h : l.foldlM f s = .ok t) : P t := by
  induction l generalizing s with
  | nil =>
    obtain rfl := Except.ok.inj h
    exact hs
  | cons a l ih =>
    rw [List.foldlM_cons] at h
    obtain ⟨u, hu, h⟩ := except_bind_eq_ok.mp h
    exact ih (fun s t b hb => hstep s t b (List.mem_cons_of_mem _ hb))
      (hstep s u a List.mem_cons_self hs hu) h

/-- What comes out of a list comes out of one of its entries. -/
theorem exists_of_mem_mapM {ε α β : Type} {f : α → Except ε β} {l : List α} {bs : List β} {b : β}
    (h : l.mapM f = .ok bs) (hb : b ∈ bs) : ∃ a ∈ l, f a = .ok b := by
  induction l generalizing bs with
  | nil =>
    obtain rfl := Except.ok.inj h
    exact absurd hb List.not_mem_nil
  | cons a l ih =>
    rw [List.mapM_cons] at h
    obtain ⟨b', hb', h⟩ := except_bind_eq_ok.mp h
    obtain ⟨bs', hbs', h⟩ := except_bind_eq_ok.mp h
    obtain rfl := Except.ok.inj h
    rcases List.mem_cons.mp hb with rfl | hb
    · exact ⟨a, List.mem_cons_self, hb'⟩
    · obtain ⟨a', ha', heq⟩ := ih hbs' hb
      exact ⟨a', List.mem_cons_of_mem _ ha', heq⟩

/-- The check passes, or fails with its message. -/
def ensure (c : Bool) (err : String) : Except String Unit := if c then .ok () else .error err

theorem ensure_eq_ok {c : Bool} {err : String} {u : Unit} : ensure c err = .ok u ↔ c = true := by
  unfold ensure
  cases c with
  | true => simp
  | false => simp

end Machino
