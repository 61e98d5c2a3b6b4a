import Machino.Core.ConfigStore

namespace Machino

open Lines

/-- The key and the value that one line of the file hands to `apply`, if any. -/
def handed (line : Text) : Option (Text × Text) :=
  let s := Text.trim (uncommented line)
  if '=' ∉ s then none
  else
    some (Text.trim (s.takeWhile (· ≠ '=')), unquote (Text.trim (s.dropWhile (· ≠ '=')).tail))

/-- What `apply` is handed, line by line. -/
def configLines (text : Text) : List (Text × Text) := (split '\n' text).filterMap handed

/-- The value that is handed over last for a key. -/
def inForce (text key : Text) : Option Text :=
  ((configLines text).reverse.find? fun p => p.1 = key).map Prod.snd

/-- The loader and the reader of the store take the key to have the same value. -/
def OneMeaning (text key : Text) : Prop :=
  ∀ v, inForce text key = some v → configTextGet text key = v

namespace Text

/-- A text without what may be dropped at either end of it. -/
def strip (p q : Char → Bool) (s : Text) : Text := (s.dropWhile p).rdropWhile q

theorem trim_eq_strip (s : Text) : trim s = strip isBlank isBlank s := rfl

section strip

variable {p q : Char → Bool}

theorem strip_append_singleton {c : Char} (hc : q c = true) (s : Text) :
    strip p q (s ++ [c]) = strip p q s := by
  unfold strip
  rw [List.dropWhile_append]
  split
  · rename_i h
    have hnil : s.dropWhile p = [] := by simpa using h
    rw [hnil, List.dropWhile_cons, List.rdropWhile_nil]
    split
    · rfl
    · exact List.rdropWhile_concat_pos q [] c hc
  · exact List.rdropWhile_concat_pos _ _ _ hc

/-- What is gone at either end makes no difference. -/
theorem strip_dropWhile (s : Text) : strip p q (s.dropWhile p) = strip p q s := by
  unfold strip
  rw [List.dropWhile_idempotent]

theorem strip_rdropWhile (s : Text) : strip p q (s.rdropWhile q) = strip p q s := by
  induction s using List.reverseRecOn with
  | nil => rfl
  | append_singleton s c ih =>
    by_cases hc : q c = true
    · rw [List.rdropWhile_concat_pos _ _ _ hc, ih, strip_append_singleton hc]
    · rw [List.rdropWhile_concat_neg _ _ _ hc]

/-- An inner character that stays parts the text as before. -/
theorem strip_append_cons {c : Char} (hp : p c = false) (hq : q c = false) (a b : Text) :
    strip p q (a ++ c :: b) = a.dropWhile p ++ c :: b.rdropWhile q := by
  have hdrop : (a ++ c :: b).dropWhile p = a.dropWhile p ++ c :: b := by
    rw [List.dropWhile_append]
    split
    · rename_i h
      have hnil : a.dropWhile p = [] := by simpa using h
      rw [hnil, List.dropWhile_cons_of_neg (by simp [hp])]
      rfl
    · rfl
  unfold strip
  rw [hdrop]
  clear hdrop
  induction b using List.reverseRecOn with
  | nil => rw [List.rdropWhile_concat_neg _ _ _ (by simp [hq]), List.rdropWhile_nil]
  | append_singleton b d ih =>
    rw [← List.cons_append, ← List.append_assoc]
    by_cases hd : q d = true
    · rw [List.rdropWhile_concat_pos _ _ _ hd, List.rdropWhile_concat_pos _ _ _ hd]
      exact ih
    · rw [List.rdropWhile_concat_neg _ _ _ hd, List.rdropWhile_concat_neg _ _ _ hd]
      simp

theorem strip_eq_self {s : Text} (hp : ∀ c, s.head? = some c → p c = false)
    (hq : ∀ c, s.getLast? = some c → q c = false) : strip p q s = s := by
  have hdrop : s.dropWhile p = s := by
    rw [List.dropWhile_eq_self_iff]
    intro hlen
    have hhead : s.head? = some s[0] := by
      rw [List.head?_eq_getElem?, List.getElem?_eq_getElem hlen]
    simp [hp _ hhead]
  unfold strip
  rw [hdrop, List.rdropWhile_eq_self_iff]
  intro hne
  simp [hq _ (List.getLast?_eq_some_getLast hne)]

/-- Neither end of what is left may be dropped. -/
theorem strip_ends (s : Text) : (∀ c, (strip p q s).head? = some c → p c = false) ∧
    ∀ c, (strip p q s).getLast? = some c → q c = false := by
  unfold strip
  refine ⟨fun c hc => ?_, fun c hc => ?_⟩
  · obtain ⟨t, ht⟩ := List.head?_eq_some_iff.mp hc
    obtain ⟨u, hu⟩ := List.rdropWhile_prefix q (s.dropWhile p)
    have hhead : (s.dropWhile p).head? = some c := by
      rw [← hu, ht]
      rfl
    have hnot := List.head?_dropWhile_not p s
    rw [hhead] at hnot
    exact hnot
  · have hne : (s.dropWhile p).rdropWhile q ≠ [] := by
      intro hnil
      rw [hnil] at hc
      exact absurd hc (by simp)
    have hnot := List.rdropWhile_last_not q (s.dropWhile p) hne
    rw [List.getLast?_eq_some_getLast hne] at hc
    rw [Option.some.inj hc] at hnot
    simpa using hnot

end strip

theorem trim_dropWhile (s : Text) : trim (s.dropWhile isBlank) = trim s := strip_dropWhile s

theorem trim_rdropWhile (s : Text) : trim (s.rdropWhile isBlank) = trim s := strip_rdropWhile s

theorem trim_append_cons {c : Char} (hc : isBlank c = false) (a b : Text) :
    trim (a ++ c :: b) = a.dropWhile isBlank ++ c :: b.rdropWhile isBlank :=
  strip_append_cons hc hc a b

end Text

theorem takeWhile_first {c : Char} {a : Text} (ha : c ∉ a) (b : Text) :
    (a ++ c :: b).takeWhile (· ≠ c) = a := by
  rw [List.takeWhile_append_of_pos]
  · simp
  · intro d hd
    exact decide_eq_true fun h => ha (h ▸ hd)

theorem dropWhile_first {c : Char} {a : Text} (ha : c ∉ a) (b : Text) :
    (a ++ c :: b).dropWhile (· ≠ c) = c :: b := by
  rw [List.dropWhile_append_of_pos]
  · simp
  · intro d hd
    exact decide_eq_true fun h => ha (h ▸ hd)

/-- The two readers take a line apart alike. -/
theorem handed_eq (line : Text) :
    handed line = if '=' ∈ uncommented line then some (lineKey line, lineValue line) else none := by
  unfold handed lineKey lineValue
  dsimp only
  generalize uncommented line = s
  by_cases hs : '=' ∈ s
  · obtain ⟨a, b, rfl, ha⟩ := List.eq_append_cons_of_mem hs
    have ha' : '=' ∉ a.dropWhile Text.isBlank :=
      fun h => ha ((List.dropWhile_suffix _).subset h)
    rw [Text.trim_append_cons (by decide) a b, if_neg (by simp), if_pos hs, if_pos hs, if_pos hs,
      takeWhile_first ha', takeWhile_first ha, dropWhile_first ha', dropWhile_first ha,
      Text.trim_dropWhile, List.tail_cons, List.tail_cons, Text.trim_rdropWhile]
  · have hs' : '=' ∉ Text.trim s := fun h => hs ((Text.trim_sublist s).subset h)
    rw [if_pos hs', if_neg hs]

/-- The first line that is read for the key and the last one that sets it say the same. -/
def SameEnds (text key : Text) : Prop :=
  ∀ first last, (split '\n' text).find? (lineKey · = key) = some first →
    ((split '\n' text).reverse.find? fun l => '=' ∈ uncommented l ∧ lineKey l = key) = some last →
      lineValue first = lineValue last

theorem inForce_eq (text key : Text) :
    inForce text key = ((split '\n' text).reverse.find? fun l =>
      '=' ∈ uncommented l ∧ lineKey l = key).map lineValue := by
  unfold inForce configLines
  rw [← List.filterMap_reverse]
  induction (split '\n' text).reverse with
  | nil => rfl
  | cons l ls ih =>
    rw [List.filterMap_cons, handed_eq]
    by_cases hl : '=' ∈ uncommented l
    · rw [if_pos hl]
      by_cases hk : lineKey l = key
      · rw [List.find?_cons_of_pos (by simpa using hk), List.find?_cons_of_pos (by simp [hl, hk])]
        rfl
      · rw [List.find?_cons_of_neg (by simpa using hk),
          List.find?_cons_of_neg (by simp [hk])]
        exact ih
    · rw [if_neg hl, List.find?_cons_of_neg (by simp [hl])]
      exact ih

/-- The two readers agree on a key just when its first and its last line do. -/
theorem oneMeaning_iff (text key : Text) : OneMeaning text key ↔ SameEnds text key := by
  unfold OneMeaning SameEnds
  rw [inForce_eq]
  constructor
  · intro h first last hf hl
    have hv := h (lineValue last) (by rw [hl]; rfl)
    unfold configTextGet at hv
    rwa [hf] at hv
  · intro h v hv
    obtain ⟨last, hl, rfl⟩ := Option.map_eq_some_iff.mp hv
    have hlast := List.find?_some hl
    have hmem := List.mem_reverse.mp (List.mem_of_find?_eq_some hl)
    -- the last line is one of the key, so there is a first one
    cases hf : (split '\n' text).find? (lineKey · = key) with
    | none =>
      have hnone := List.find?_eq_none.mp hf last hmem
      simp at hlast hnone
      exact absurd hlast.2 hnone
    | some first =>
      unfold configTextGet
      rw [hf]
      exact h first last hf hl

/-- The board is given twice. -/
theorem not_oneMeaning_board : ¬ ∀ text key, OneMeaning text key := by
  intro h
  exact absurd (h "board = a\nboard = b\n".toList "board".toList "b".toList (by decide)) (by decide)

end Machino
