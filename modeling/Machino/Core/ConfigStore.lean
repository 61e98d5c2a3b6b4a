import Mathlib.Data.List.DropRight
import Mathlib.Data.List.Nodup
import Mathlib.Data.List.TakeWhile
import Machino.Basic.Lines
import Machino.Core.Text

namespace Machino

open Lines

/-- What a line that is no comment holds. -/
def uncommented (line : Text) : Text := line.takeWhile (· ≠ '#')

def lineKey (line : Text) : Text :=
  let s := uncommented line
  if '=' ∈ s then Text.trim (s.takeWhile (· ≠ '=')) else []

def quotationMark : Char := .ofNat 34

def Quoted (v : Text) : Prop :=
  2 ≤ v.length ∧ v.head? = some quotationMark ∧ v.getLast? = some quotationMark

instance (v : Text) : Decidable (Quoted v) := inferInstanceAs (Decidable (_ ∧ _))

def unquote (v : Text) : Text := if Quoted v then v.tail.dropLast else v

def lineValue (line : Text) : Text :=
  let s := uncommented line
  unquote (Text.trim (if '=' ∈ s then (s.dropWhile (· ≠ '=')).tail else s))

def configTextGet (text key : Text) : Text :=
  match (split '\n' text).find? (lineKey · = key) with
  | some line => lineValue line
  | none => []

def managedHdr : Text := "# --- managed by the Machino API ---".toList

/-- A header is kept for the first line behind it that is not empty, unless that is a header. -/
def headsSomething (ls : List Text) : Bool :=
  match ls.find? (· ≠ []) with
  | some l => l ≠ managedHdr
  | none => false

def dropOrphans : List Text → List Text
  | [] => []
  | l :: ls => if l = managedHdr ∧ !headsSomething ls then dropOrphans ls else l :: dropOrphans ls

def dropOrphanHeaders (text : Text) : Text := join '\n' (dropOrphans (split '\n' text))

def assignment (k v : Text) : Text := k ++ " = ".toList ++ v

/-- A key that is to be written, until its line has been. -/
structure Setting where
  key : Text
  value : Text
  done : Bool := false

namespace Setting

def line (e : Setting) : Text := assignment e.key e.value ++ ['\n']

/-- The first setting of the key counts as written. -/
def markDone (key : Text) : List Setting → List Setting
  | [] => []
  | e :: es => if e.key = key then { e with done := true } :: es else e :: markDone key es

end Setting

/-- The setting a line is for. -/
def settingOf (key : Text) (es : List Setting) : Option Setting :=
  if key = [] then none else es.find? (·.key = key)

/-- The settings and what has been put out, after one more line of the old text. -/
def rewriteLine (st : List Setting × Text) (line : Text) : List Setting × Text :=
  match settingOf (lineKey line) st.1 with
  | some e => if e.done then st else (Setting.markDone (lineKey line) st.1, st.2 ++ e.line)
  | none => (st.1, st.2 ++ line ++ ['\n'])

/-- The settings no line of the old text was for, below a header of their own. -/
def appendSettings (out : Text) (rest : List Setting) : Text :=
  if rest = [] then out
  else
    let out := if out ≠ [] ∧ out.getLast? ≠ some '\n' then out ++ ['\n'] else out
    out ++ ['\n'] ++ managedHdr ++ ['\n'] ++ rest.flatMap Setting.line

def revisionKey : Text := "config.revision".toList

def settingsFor (kv : List (Text × Text)) (revision : UInt32) : List Setting :=
  (kv ++ [(revisionKey, Nat.toDigits 10 revision.toNat)]).map fun p => ⟨p.1, p.2, false⟩

def rewriteConfigText (text : Text) (kv : List (Text × Text)) (revision : UInt32) : Text :=
  let st := (split '\n' text).foldl rewriteLine (settingsFor kv revision, [])
  dropOrphanHeaders (appendSettings st.2 (st.1.filter fun e => !e.done))

/-- The text that has been persisted and its revision. -/
structure ConfigStore where
  text : Text := []
  revision : UInt32 := 1

namespace ConfigStore

def get (s : ConfigStore) (key : Text) : Text := configTextGet s.text key

/-- The new text counts once it has been written. -/
def commit (written : Bool) (kv : List (Text × Text)) (s : ConfigStore) : ConfigStore :=
  if written then
    { text := rewriteConfigText s.text kv (s.revision + 1), revision := s.revision + 1 }
  else s

end ConfigStore

namespace Text

theorem trim_eq (s : Text) : trim s = (s.dropWhile isBlank).rdropWhile isBlank := rfl

theorem trim_sublist (s : Text) : (trim s).Sublist s := by
  rw [trim_eq]
  exact (List.rdropWhile_prefix _ _).sublist.trans (List.dropWhile_suffix _).sublist

/-- Blanks in front do not count. -/
theorem trim_cons_blank {c : Char} (hc : isBlank c = true) (s : Text) : trim (c :: s) = trim s := by
  rw [trim_eq, List.dropWhile_cons_of_pos hc, ← trim_eq]

/-- Nor do blanks behind what is no blank. -/
theorem trim_append_blank {s : Text} {c : Char} (hs : trim s = s) (hne : s ≠ [])
    (hc : isBlank c = true) : trim (s ++ [c]) = s := by
  have hhead : s.dropWhile isBlank = s := by
    have hle := (List.rdropWhile_prefix isBlank (s.dropWhile isBlank)).length_le
    rw [← trim_eq, hs] at hle
    exact (List.dropWhile_suffix _).sublist.eq_of_length_le hle
  rw [trim_eq, List.dropWhile_append, hhead, if_neg (by simpa using hne),
    List.rdropWhile_concat_pos _ _ _ hc]
  conv_rhs => rw [← hs, trim_eq, hhead]

end Text

theorem uncommented_append {s : Text} (hs : '#' ∉ s) (v : Text) :
    uncommented (s ++ v) = s ++ uncommented v := by
  unfold uncommented
  rw [List.takeWhile_append_of_pos]
  intro c hc
  exact decide_eq_true fun h => hs (h ▸ hc)

/-- A key is one that a line can give: not empty, without the characters that end it, and without
blanks around it. -/
structure WellFormed (k : Text) : Prop where
  nonempty : k ≠ []
  noAssign : '=' ∉ k
  noComment : '#' ∉ k
  noBreak : '\n' ∉ k
  trimmed : Text.trim k = k

instance (k : Text) : Decidable (WellFormed k) :=
  decidable_of_iff (k ≠ [] ∧ '=' ∉ k ∧ '#' ∉ k ∧ '\n' ∉ k ∧ Text.trim k = k)
    ⟨fun ⟨h₁, h₂, h₃, h₄, h₅⟩ => ⟨h₁, h₂, h₃, h₄, h₅⟩,
      fun ⟨h₁, h₂, h₃, h₄, h₅⟩ => ⟨h₁, h₂, h₃, h₄, h₅⟩⟩

/-- What is read of a value after it has been written. -/
def readBack (v : Text) : Text := unquote (Text.trim (uncommented v))

theorem uncommented_assignment {k : Text} (hk : WellFormed k) (v : Text) :
    uncommented (assignment k v) = k ++ ' ' :: '=' :: ' ' :: uncommented v := by
  have hs : '#' ∉ k ++ " = ".toList := by
    rw [List.mem_append, not_or]
    exact ⟨hk.noComment, by decide⟩
  rw [assignment, uncommented_append hs]
  simp

theorem lineKey_assignment {k : Text} (hk : WellFormed k) (v : Text) :
    lineKey (assignment k v) = k := by
  unfold lineKey
  rw [uncommented_assignment hk]
  dsimp only
  rw [if_pos (by simp), List.takeWhile_append_of_pos]
  · exact Text.trim_append_blank hk.trimmed hk.nonempty (by decide)
  · intro c hc
    exact decide_eq_true fun h => hk.noAssign (h ▸ hc)

theorem lineValue_assignment {k : Text} (hk : WellFormed k) (v : Text) :
    lineValue (assignment k v) = readBack v := by
  unfold lineValue readBack
  rw [uncommented_assignment hk]
  dsimp only
  rw [if_pos (by simp), List.dropWhile_append_of_pos]
  · exact congrArg unquote (Text.trim_cons_blank (by decide) _)
  · intro c hc
    exact decide_eq_true fun h => hk.noAssign (h ▸ hc)

namespace Setting

theorem find?_markDone_self {k : Text} {es : List Setting} {e : Setting}
    (h : es.find? (·.key = k) = some e) :
    (markDone k es).find? (·.key = k) = some { e with done := true } := by
  induction es with
  | nil => cases h
  | cons e' es ih =>
    unfold markDone
    by_cases hk : e'.key = k
    · rw [List.find?_cons_of_pos (by simpa using hk)] at h
      cases h
      rw [if_pos hk, List.find?_cons_of_pos (by simpa using hk)]
    · rw [List.find?_cons_of_neg (by simpa using hk)] at h
      rw [if_neg hk, List.find?_cons_of_neg (by simpa using hk)]
      exact ih h

theorem find?_markDone_of_ne {k k' : Text} (hne : k' ≠ k) (es : List Setting) :
    (markDone k es).find? (·.key = k') = es.find? (·.key = k') := by
  induction es with
  | nil => rfl
  | cons e es ih =>
    unfold markDone
    by_cases hk : e.key = k
    · have hk' : e.key ≠ k' := fun h => hne (h.symm.trans hk)
      rw [if_pos hk, List.find?_cons_of_neg (by simpa using hk'),
        List.find?_cons_of_neg (by simpa using hk')]
    · rw [if_neg hk, List.find?_cons, List.find?_cons, ih]

/-- What a marked list holds besides the marks. -/
theorem mem_markDone {k : Text} {es : List Setting} {e : Setting} (h : e ∈ markDone k es) :
    ∃ e' ∈ es, e'.key = e.key ∧ e'.value = e.value := by
  induction es with
  | nil => cases h
  | cons e' es ih =>
    unfold markDone at h
    split at h
    · rcases List.mem_cons.mp h with rfl | h
      · exact ⟨e', List.mem_cons_self, rfl, rfl⟩
      · exact ⟨e, List.mem_cons_of_mem _ h, rfl, rfl⟩
    · rcases List.mem_cons.mp h with rfl | h
      · exact ⟨e, List.mem_cons_self, rfl, rfl⟩
      · obtain ⟨e'', hmem, heq⟩ := ih h
        exact ⟨e'', List.mem_cons_of_mem _ hmem, heq⟩

end Setting

/-- A setting whose line is one line and reads as its key. -/
def OneLine (e : Setting) : Prop := WellFormed e.key ∧ '\n' ∉ e.value

theorem OneLine.not_mem {e : Setting} (h : OneLine e) : '\n' ∉ assignment e.key e.value := by
  unfold assignment
  rw [List.mem_append, List.mem_append, not_or, not_or]
  exact ⟨⟨h.1.noBreak, by decide⟩, h.2⟩

/-- Which line of a list counts for a key. -/
def lineFor (k : Text) (ls : List Text) : Option Text := ls.find? (lineKey · = k)

def settingFor (k : Text) (es : List Setting) : Option Setting := es.find? (·.key = k)

/-- The lines put out for those of the old text: a key that is not set keeps its line, and one that
is set has its new line once the setting is done. -/
structure Rewritten (es : List Setting) (seen : List Text) (st : List Setting × Text)
    (outs : List Text) : Prop where
  out : st.2 = join '\n' outs
  oneLine : ∀ e ∈ st.1, OneLine e
  free : ∀ l ∈ outs, '\n' ∉ l
  kept : ∀ k, settingFor k es = none → settingFor k st.1 = none
  value : ∀ k e, settingFor k es = some e → ∃ d, settingFor k st.1 = some { e with done := d }
  other : ∀ k, k ≠ [] → settingFor k st.1 = none → lineFor k outs = lineFor k seen
  written : ∀ k e, settingFor k st.1 = some e →
    lineFor k outs = if e.done then some (assignment k e.value) else none

theorem lineFor_cons (k l : Text) (ls : List Text) :
    lineFor k (l :: ls) = if lineKey l = k then some l else lineFor k ls := by
  unfold lineFor
  by_cases hl : lineKey l = k
  · rw [if_pos hl, List.find?_cons_of_pos (by simpa using hl)]
  · rw [if_neg hl, List.find?_cons_of_neg (by simpa using hl)]

theorem lineFor_concat (k : Text) (ls : List Text) (l : Text) :
    lineFor k (ls ++ [l]) = (lineFor k ls).or (if lineKey l = k then some l else none) := by
  unfold lineFor
  rw [List.find?_append, List.find?_singleton]
  simp

theorem lineFor_concat_of_ne {k l : Text} (h : lineKey l ≠ k) (ls : List Text) :
    lineFor k (ls ++ [l]) = lineFor k ls := by
  rw [lineFor_concat, if_neg h, Option.or_none]

theorem join_concat (ls : List Text) (l : Text) :
    join '\n' (ls ++ [l]) = join '\n' ls ++ l ++ ['\n'] := by
  rw [join_append, List.append_assoc]
  simp [join]

theorem key_of_settingFor {k : Text} {es : List Setting} {e : Setting}
    (h : settingFor k es = some e) : e.key = k := by
  simpa using List.find?_some h

theorem free_concat {ls : List Text} {l : Text} (h : ∀ l ∈ ls, '\n' ∉ l) (hl : '\n' ∉ l) :
    ∀ l' ∈ ls ++ [l], '\n' ∉ l' := by
  intro l' hl'
  rcases List.mem_append.mp hl' with hl' | hl'
  · exact h l' hl'
  · exact List.mem_singleton.mp hl' ▸ hl

namespace Rewritten

variable {es : List Setting} {seen outs : List Text} {st : List Setting × Text} {line : Text}

/-- A line without a setting of its key is kept. -/
theorem keep (h : Rewritten es seen st outs) (hl : '\n' ∉ line)
    (hk : lineKey line = [] ∨ settingFor (lineKey line) st.1 = none) :
    rewriteLine st line = (st.1, st.2 ++ line ++ ['\n']) ∧
      Rewritten es (seen ++ [line]) (st.1, st.2 ++ line ++ ['\n']) (outs ++ [line]) := by
  refine ⟨?_, ?_, h.oneLine, free_concat h.free hl, h.kept, h.value, ?_, ?_⟩
  · have hnone : settingOf (lineKey line) st.1 = none := by
      unfold settingOf
      split
      · rfl
      · rename_i hne
        exact hk.resolve_left hne
    unfold rewriteLine
    rw [hnone]
  · rw [h.out, join_concat]
  · intro k hne hnone
    rw [lineFor_concat, lineFor_concat, h.other k hne hnone]
  · intro k e he
    have hkey := key_of_settingFor he
    have hne : lineKey line ≠ k := by
      intro heq
      rcases hk with hk | hk
      · exact (h.oneLine e (List.mem_of_find?_eq_some he)).1.nonempty (hkey.trans (heq ▸ hk))
      · rw [heq, he] at hk
        cases hk
    rw [lineFor_concat_of_ne hne, h.written k e he]

/-- A second line of a key that is done is dropped. -/
theorem drop (h : Rewritten es seen st outs) {e : Setting} (hne : lineKey line ≠ [])
    (he : settingFor (lineKey line) st.1 = some e) (hd : e.done = true) :
    rewriteLine st line = st ∧ Rewritten es (seen ++ [line]) st outs := by
  refine ⟨?_, h.out, h.oneLine, h.free, h.kept, h.value, ?_, h.written⟩
  · have hsome : settingOf (lineKey line) st.1 = some e := (if_neg hne).trans he
    unfold rewriteLine
    rw [hsome]
    exact if_pos hd
  · intro k hk hnone
    rw [lineFor_concat_of_ne, h.other k hk hnone]
    intro heq
    rw [heq, hnone] at he
    cases he

/-- The first line of a key that is set gets its value. -/
theorem write (h : Rewritten es seen st outs) {e : Setting} (hne : lineKey line ≠ [])
    (he : settingFor (lineKey line) st.1 = some e) (hd : e.done = false) :
    rewriteLine st line = (Setting.markDone (lineKey line) st.1, st.2 ++ e.line) ∧
      Rewritten es (seen ++ [line]) (Setting.markDone (lineKey line) st.1, st.2 ++ e.line)
        (outs ++ [assignment e.key e.value]) := by
  have hkey := key_of_settingFor he
  have hone := h.oneLine e (List.mem_of_find?_eq_some he)
  have hself := Setting.find?_markDone_self he
  refine ⟨?_, ?_, ?_, free_concat h.free hone.not_mem, ?_, ?_, ?_, ?_⟩
  · have hsome : settingOf (lineKey line) st.1 = some e := (if_neg hne).trans he
    unfold rewriteLine
    rw [hsome]
    exact if_neg (by simp [hd])
  · rw [join_concat, h.out, Setting.line, ← List.append_assoc]
  · intro e' he'
    obtain ⟨e'', hmem, hk, hv⟩ := Setting.mem_markDone he'
    have h' := h.oneLine e'' hmem
    unfold OneLine at h'
    rwa [hk, hv] at h'
  · intro k hk
    have hnone := h.kept k hk
    have hne' : k ≠ lineKey line := by
      rintro rfl
      rw [hnone] at he
      cases he
    exact (Setting.find?_markDone_of_ne hne' _).trans hnone
  · intro k e₀ hk
    obtain ⟨d, hv⟩ := h.value k e₀ hk
    by_cases hkl : k = lineKey line
    · subst hkl
      obtain rfl : e = _ := Option.some.inj (he.symm.trans hv)
      exact ⟨true, hself⟩
    · exact ⟨d, (Setting.find?_markDone_of_ne hkl _).trans hv⟩
  · intro k hk hnone
    by_cases hkl : k = lineKey line
    · subst hkl
      exact absurd (hself.symm.trans hnone) (Option.some_ne_none _)
    · have hnone' := (Setting.find?_markDone_of_ne hkl st.1).symm.trans hnone
      rw [lineFor_concat_of_ne (Ne.symm hkl), lineFor_concat_of_ne, h.other k hk hnone']
      rw [lineKey_assignment hone.1, hkey]
      exact Ne.symm hkl
  · intro k e' he'
    by_cases hkl : k = lineKey line
    · subst hkl
      obtain rfl : _ = e' := Option.some.inj (hself.symm.trans he')
      rw [lineFor_concat, h.written _ e he, lineKey_assignment hone.1, hkey, hd]
      simp
    · have he'' := (Setting.find?_markDone_of_ne hkl st.1).symm.trans he'
      rw [lineFor_concat_of_ne, h.written k e' he'']
      rw [lineKey_assignment hone.1, hkey]
      exact Ne.symm hkl

theorem step (h : Rewritten es seen st outs) (hl : '\n' ∉ line) :
    ∃ outs', Rewritten es (seen ++ [line]) (rewriteLine st line) outs' := by
  by_cases hne : lineKey line = []
  · obtain ⟨heq, hw⟩ := h.keep hl (.inl hne)
    exact ⟨_, heq ▸ hw⟩
  · cases he : settingFor (lineKey line) st.1 with
    | none =>
      obtain ⟨heq, hw⟩ := h.keep hl (.inr he)
      exact ⟨_, heq ▸ hw⟩
    | some e =>
      cases hd : e.done with
      | false =>
        obtain ⟨heq, hw⟩ := h.write hne he hd
        exact ⟨_, heq ▸ hw⟩
      | true =>
        obtain ⟨heq, hw⟩ := h.drop hne he hd
        exact ⟨_, heq ▸ hw⟩

theorem foldl {ls : List Text} (hls : ∀ l ∈ ls, '\n' ∉ l) (h : Rewritten es seen st outs) :
    ∃ outs', Rewritten es (seen ++ ls) (ls.foldl rewriteLine st) outs' := by
  induction ls generalizing seen st outs with
  | nil => exact ⟨outs, (List.append_nil seen).symm ▸ h⟩
  | cons l ls ih =>
    obtain ⟨outs', hw⟩ := h.step (hls l List.mem_cons_self)
    obtain ⟨outs'', hw'⟩ := ih (fun l' hl' => hls l' (List.mem_cons_of_mem _ hl')) hw
    exact ⟨outs'', by rwa [List.append_assoc] at hw'⟩

end Rewritten

theorem configTextGet_eq (text k : Text) :
    configTextGet text k = ((lineFor k (split '\n' text)).map lineValue).getD [] := by
  unfold configTextGet
  change (match lineFor k (split '\n' text) with | some line => _ | none => _) = _
  cases lineFor k (split '\n' text) with
  | none => rfl
  | some l => rfl

theorem dropOrphans_sublist (ls : List Text) : (dropOrphans ls).Sublist ls := by
  induction ls with
  | nil => exact List.Sublist.slnil
  | cons l ls ih =>
    unfold dropOrphans
    split
    · exact ih.cons l
    · exact ih.cons_cons l

/-- A header is no line of any key. -/
theorem lineFor_dropOrphans {k : Text} (hk : k ≠ []) (ls : List Text) :
    lineFor k (dropOrphans ls) = lineFor k ls := by
  induction ls with
  | nil => rfl
  | cons l ls ih =>
    unfold dropOrphans
    split
    · rename_i h
      have hkey : lineKey l = [] := by
        rw [h.1]
        decide
      rw [ih, lineFor_cons, if_neg (hkey ▸ hk.symm)]
    · rw [lineFor_cons, lineFor_cons, ih]

theorem configTextGet_dropOrphanHeaders {k : Text} (hk : k ≠ []) {ls : List Text}
    (h : ∀ l ∈ ls, '\n' ∉ l) :
    configTextGet (dropOrphanHeaders (join '\n' ls)) k = ((lineFor k ls).map lineValue).getD [] := by
  have hsub : ∀ l ∈ dropOrphans ls, '\n' ∉ l := fun l hl => h l ((dropOrphans_sublist ls).subset hl)
  rw [configTextGet_eq, dropOrphanHeaders, split_join h, split_join hsub, lineFor_dropOrphans hk]

/-- The lines behind the old ones. -/
def appended (rest : List Setting) : List Text :=
  if rest = [] then [] else [] :: managedHdr :: rest.map fun e => assignment e.key e.value

theorem appendSettings_join (outs : List Text) (rest : List Setting) :
    appendSettings (join '\n' outs) rest = join '\n' (outs ++ appended rest) := by
  unfold appendSettings appended
  split
  · rw [List.append_nil]
  · have hend : ¬ (join '\n' outs ≠ [] ∧ (join '\n' outs).getLast? ≠ some '\n') := by
      rintro ⟨hne, h⟩
      rcases List.eq_nil_or_concat outs with rfl | ⟨ls, l, rfl⟩
      · exact hne rfl
      · rw [List.concat_eq_append, join_concat, List.getLast?_concat] at h
        exact h rfl
    have hlines : rest.flatMap Setting.line =
        join '\n' (rest.map fun e => assignment e.key e.value) := by
      rw [join, List.flatMap_map]
      rfl
    rw [join_append, hlines, if_neg hend]
    simp [join]

theorem free_appended {rest : List Setting} (h : ∀ e ∈ rest, OneLine e) :
    ∀ l ∈ appended rest, '\n' ∉ l := by
  intro l hl
  unfold appended at hl
  split at hl
  · cases hl
  · rcases List.mem_cons.mp hl with rfl | hl
    · exact List.not_mem_nil
    · rcases List.mem_cons.mp hl with rfl | hl
      · decide
      · obtain ⟨e, he, rfl⟩ := List.mem_map.mp hl
        exact (h e he).not_mem

theorem lineFor_appended {k : Text} (hk : k ≠ []) {rest : List Setting}
    (h : ∀ e ∈ rest, OneLine e) :
    lineFor k (appended rest) = (settingFor k rest).map fun e => assignment e.key e.value := by
  have hassign : lineFor k (rest.map fun e => assignment e.key e.value) =
      (settingFor k rest).map fun e => assignment e.key e.value := by
    induction rest with
    | nil => rfl
    | cons e rest ih =>
      have hkey := lineKey_assignment (h e List.mem_cons_self).1 e.value
      have htail := ih fun e' he' => h e' (List.mem_cons_of_mem _ he')
      unfold lineFor settingFor at htail ⊢
      rw [List.map_cons, List.find?_cons, List.find?_cons, hkey, htail]
      split <;> rfl
  unfold appended
  split
  · rename_i hnil
    rw [hnil]
    rfl
  · have hempty : ¬ lineKey [] = k := fun heq => hk (heq ▸ by decide)
    have hhdr : ¬ lineKey managedHdr = k := fun heq => hk (heq ▸ by decide)
    rw [← hassign, lineFor_cons, if_neg hempty, lineFor_cons, if_neg hhdr]

theorem Rewritten.start {es : List Setting} (hone : ∀ e ∈ es, OneLine e)
    (hd : ∀ e ∈ es, e.done = false) : Rewritten es [] (es, []) [] where
  out := rfl
  oneLine := hone
  free := nofun
  kept _ h := h
  value _ e h := ⟨e.done, h⟩
  other _ _ _ := rfl
  written k e h := by
    rw [hd e (List.mem_of_find?_eq_some h)]
    rfl

theorem settingFor_filter_of_none {k : Text} {es : List Setting} (h : settingFor k es = none)
    {p : Setting → Bool} : settingFor k (es.filter p) = none := by
  unfold settingFor at h ⊢
  rw [List.find?_eq_none] at h ⊢
  exact fun e he => h e (List.mem_of_mem_filter he)

theorem settingFor_filter_of_undone {k : Text} {es : List Setting} {e : Setting}
    (h : settingFor k es = some e) (hd : e.done = false) :
    settingFor k (es.filter (!·.done)) = some e := by
  induction es with
  | nil => cases h
  | cons e' es ih =>
    unfold settingFor at h ih ⊢
    by_cases hk : e'.key = k
    · rw [List.find?_cons_of_pos (by simpa using hk)] at h
      cases h
      rw [List.filter_cons_of_pos (by simpa using hd), List.find?_cons_of_pos (by simpa using hk)]
    · rw [List.find?_cons_of_neg (by simpa using hk)] at h
      rw [← ih h, List.filter_cons]
      split
      · exact List.find?_cons_of_neg (by simpa using hk)
      · rfl

/-- A key that is set reads as its value comes back, every other key as before. -/
theorem configTextGet_rewriteConfigText {text : Text} {kv : List (Text × Text)}
    {revision : UInt32} (hone : ∀ e ∈ settingsFor kv revision, OneLine e) {k : Text} (hk : k ≠ []) :
    configTextGet (rewriteConfigText text kv revision) k =
      ((settingFor k (settingsFor kv revision)).map fun e => readBack e.value).getD
        (configTextGet text k) := by
  have hd : ∀ e ∈ settingsFor kv revision, e.done = false := by
    intro e he
    obtain ⟨p, -, rfl⟩ := List.mem_map.mp he
    rfl
  have hls : ∀ l ∈ split '\n' text, '\n' ∉ l := fun l hl => not_mem_of_mem_split hl
  obtain ⟨outs, hw⟩ := (Rewritten.start hone hd).foldl hls
  rw [List.nil_append] at hw
  unfold rewriteConfigText
  generalize (split '\n' text).foldl rewriteLine (settingsFor kv revision, []) = st at hw ⊢
  have hrest : ∀ e ∈ st.1.filter (!·.done), OneLine e :=
    fun e he => hw.oneLine e (List.mem_of_mem_filter he)
  dsimp only
  rw [hw.out, appendSettings_join, configTextGet_dropOrphanHeaders hk]
  · have hfind : lineFor k (outs ++ appended (st.1.filter (!·.done))) =
        (lineFor k outs).or ((settingFor k (st.1.filter (!·.done))).map
          fun e => assignment e.key e.value) := by
      rw [← lineFor_appended hk hrest]
      exact List.find?_append
    rw [hfind]
    cases hset : settingFor k (settingsFor kv revision) with
    | none =>
      have hnone := hw.kept k hset
      rw [settingFor_filter_of_none hnone, hw.other k hk hnone, configTextGet_eq]
      simp
    | some e =>
      obtain ⟨d, he⟩ := hw.value k e hset
      have hwf : WellFormed k :=
        key_of_settingFor hset ▸ (hone e (List.mem_of_find?_eq_some hset)).1
      rw [hw.written k _ he]
      cases d with
      | true => simp [lineValue_assignment hwf]
      | false =>
        have hkey : e.key = k := key_of_settingFor hset
        rw [settingFor_filter_of_undone he rfl]
        simp [hkey, lineValue_assignment hwf]
  · intro l hl
    rcases List.mem_append.mp hl with hl | hl
    · exact hw.free l hl
    · exact free_appended hrest l hl

/-- A value that stands on its line as it is. -/
structure Plain (v : Text) : Prop where
  noBreak : '\n' ∉ v
  noComment : '#' ∉ v
  noBlank : ∀ c, v.head? = some c ∨ v.getLast? = some c → Text.isBlank c = false
  unquoted : ¬ Quoted v

theorem trim_eq_self_iff {v : Text} :
    Text.trim v = v ↔ ∀ c, v.head? = some c ∨ v.getLast? = some c → Text.isBlank c = false := by
  have hboth : Text.trim v = v ↔
      v.dropWhile Text.isBlank = v ∧ v.rdropWhile Text.isBlank = v := by
    rw [Text.trim_eq]
    constructor
    · intro h
      have hle := (List.rdropWhile_prefix Text.isBlank (v.dropWhile Text.isBlank)).length_le
      rw [h] at hle
      have heq := (List.dropWhile_suffix Text.isBlank).sublist.eq_of_length_le hle
      exact ⟨heq, by rwa [heq] at h⟩
    · rintro ⟨h, h'⟩
      rw [h, h']
  rw [hboth, List.rdropWhile_eq_self_iff]
  cases v with
  | nil => simp
  | cons c s =>
    have hlast : (c :: s).getLast? = some ((c :: s).getLast (List.cons_ne_nil c s)) :=
      List.getLast?_eq_some_getLast _
    rw [hlast]
    simp only [List.head?_cons, Option.some.injEq]
    constructor
    · rintro ⟨hhead, hend⟩ d (rfl | rfl)
      · simpa using hhead
      · simpa using hend
    · intro h
      exact ⟨by simpa using h _ (.inl rfl), by simpa using h _ (.inr rfl)⟩

theorem unquote_sublist (v : Text) : (unquote v).Sublist v := by
  unfold unquote
  split
  · exact (List.dropLast_sublist _).trans (List.tail_sublist _)
  · exact List.Sublist.refl _

theorem unquote_eq_self_iff {v : Text} : unquote v = v ↔ ¬ Quoted v := by
  unfold unquote
  refine ⟨fun h hq => ?_, fun h => if_neg h⟩
  rw [if_pos hq] at h
  have hlen := congrArg List.length h
  rw [List.length_dropLast, List.length_tail] at hlen
  have := hq.1
  omega

theorem readBack_eq_self_iff {v : Text} :
    readBack v = v ↔ '#' ∉ v ∧ Text.trim v = v ∧ ¬ Quoted v := by
  unfold readBack
  have hun : (uncommented v).Sublist v := List.takeWhile_sublist _
  have htrim := Text.trim_sublist (uncommented v)
  have hquote := unquote_sublist (Text.trim (uncommented v))
  constructor
  · intro h
    -- what is read is as long as the value, so nothing was taken off on the way
    have hlen := congrArg List.length h
    have h₁ := hun.length_le
    have h₂ := htrim.length_le
    have h₃ := hquote.length_le
    have heq : uncommented v = v := hun.eq_of_length (by omega)
    rw [heq] at htrim hquote h hlen h₂ h₃
    have heq' : Text.trim v = v := htrim.eq_of_length (by omega)
    rw [heq', unquote_eq_self_iff] at h
    refine ⟨fun hm => ?_, heq', h⟩
    have := List.mem_takeWhile_imp (heq.symm ▸ hm)
    simp at this
  · rintro ⟨hc, ht, hq⟩
    have heq : uncommented v = v := by
      unfold uncommented
      rw [List.takeWhile_eq_self_iff]
      exact fun c hm => decide_eq_true fun h => hc (h ▸ hm)
    rw [heq, ht, unquote_eq_self_iff]
    exact hq

theorem plain_iff {v : Text} : Plain v ↔ '\n' ∉ v ∧ readBack v = v := by
  rw [readBack_eq_self_iff, trim_eq_self_iff]
  exact ⟨fun ⟨h₁, h₂, h₃, h₄⟩ => ⟨h₁, h₂, h₃, h₄⟩, fun ⟨h₁, h₂, h₃, h₄⟩ => ⟨h₁, h₂, h₃, h₄⟩⟩

instance (v : Text) : Decidable (Plain v) := decidable_of_iff _ plain_iff.symm

/-- So is a value of characters that mean nothing to the reader of a line. -/
theorem plain_of_all {p : Char → Bool}
    (hp : ['\n', '\t', '\r', ' ', '#', quotationMark].any p = false) {v : Text}
    (h : ∀ c ∈ v, p c = true) : Plain v := by
  have hnot {c : Char} (hc : c ∈ v) : c ∉ ['\n', '\t', '\r', ' ', '#', quotationMark] := by
    intro hmem
    exact List.any_eq_false.mp hp c hmem (h c hc)
  refine ⟨fun hm => hnot hm (by simp), fun hm => hnot hm (by simp), fun c hc => ?_, ?_⟩
  · have hmem : c ∈ v := hc.elim List.mem_of_head? List.mem_of_getLast?
    have hc' := hnot hmem
    simp only [List.mem_cons, not_or] at hc'
    simp [Text.isBlank, hc']
  · rintro ⟨-, hhead, -⟩
    exact hnot (List.mem_of_head? hhead) (by simp)

/-- A key that a configuration can be given a value for. -/
abbrev ConfigKey := { k : Text // WellFormed k }

def settings (kv : List (ConfigKey × Text)) : List (Text × Text) := kv.map fun p => (p.1.1, p.2)

/-- After the commit each key that was set reads as its value, and every other one but the
revision's as before. -/
def Preserves (text : Text) (kv : List (ConfigKey × Text)) (revision : UInt32) : Prop :=
  let out := rewriteConfigText text (settings kv) revision
  (∀ p ∈ kv, configTextGet out p.1 = p.2) ∧
    ∀ k, k ≠ [] → k ≠ revisionKey → (∀ p ∈ kv, p.1.1 ≠ k) → configTextGet out k = configTextGet text k

/-- Every value stands on its line as it is, and no key is given two of them. -/
structure Committable (kv : List (ConfigKey × Text)) : Prop where
  plain : ∀ p ∈ kv, Plain p.2
  unique : ∀ p ∈ kv, ∀ q ∈ kv, p.1 = q.1 → p.2 = q.2

theorem wellFormed_revisionKey : WellFormed revisionKey := by
  refine ⟨?_, ?_, ?_, ?_, ?_⟩ <;> decide

theorem not_mem_toDigits (n : ℕ) : '\n' ∉ Nat.toDigits 10 n := by
  intro h
  exact absurd (Nat.isDigit_of_mem_toDigits (by decide) (by decide) h) (by decide)

theorem oneLine_settingsFor {kv : List (ConfigKey × Text)} (h : ∀ p ∈ kv, '\n' ∉ p.2)
    (revision : UInt32) : ∀ e ∈ settingsFor (settings kv) revision, OneLine e := by
  intro e he
  obtain ⟨p, hp, rfl⟩ := List.mem_map.mp he
  rcases List.mem_append.mp hp with hp | hp
  · obtain ⟨q, hq, rfl⟩ := List.mem_map.mp hp
    exact ⟨q.1.2, h q hq⟩
  · rw [List.mem_singleton.mp hp]
    exact ⟨wellFormed_revisionKey, not_mem_toDigits _⟩

/-- The first value a key is given is the one that is written. -/
theorem settingFor_settingsFor {kv : List (ConfigKey × Text)} {p : ConfigKey × Text} (hp : p ∈ kv)
    (revision : UInt32) : ∃ q ∈ kv, q.1 = p.1 ∧
      settingFor p.1 (settingsFor (settings kv) revision) = some ⟨q.1, q.2, false⟩ := by
  unfold settingFor settingsFor settings
  rw [List.map_append, List.map_map, List.find?_append, List.find?_map]
  cases hf : kv.find? ((fun e : Setting => decide (e.key = p.1)) ∘
      ((fun p => ⟨p.1, p.2, false⟩) ∘ fun p : ConfigKey × Text => (p.1.1, p.2))) with
  | none =>
    have hnot := List.find?_eq_none.mp hf p hp
    simp at hnot
  | some q =>
    refine ⟨q, List.mem_of_find?_eq_some hf, Subtype.ext ?_, rfl⟩
    simpa using List.find?_some hf

theorem settingFor_settingsFor_of_ne {kv : List (ConfigKey × Text)} {k : Text}
    (hr : k ≠ revisionKey) (hk : ∀ p ∈ kv, p.1.1 ≠ k) (revision : UInt32) :
    settingFor k (settingsFor (settings kv) revision) = none := by
  unfold settingFor
  rw [List.find?_eq_none]
  intro e he
  obtain ⟨p, hp, rfl⟩ := List.mem_map.mp he
  rcases List.mem_append.mp hp with hp | hp
  · obtain ⟨q, hq, rfl⟩ := List.mem_map.mp hp
    simpa using hk q hq
  · rw [List.mem_singleton.mp hp]
    simpa using Ne.symm hr

theorem lineValue_sublist (line : Text) : (lineValue line).Sublist line := by
  unfold lineValue
  dsimp only
  refine (unquote_sublist _).trans ((Text.trim_sublist _).trans ?_)
  refine List.Sublist.trans ?_ (List.takeWhile_sublist (· ≠ '#'))
  change List.Sublist (if '=' ∈ uncommented line then _ else _) (uncommented line)
  split
  · exact (List.tail_sublist _).trans (List.dropWhile_suffix _).sublist
  · exact List.Sublist.refl _

/-- No line break is ever read. -/
theorem not_mem_configTextGet (text k : Text) : '\n' ∉ configTextGet text k := by
  unfold configTextGet
  split
  · rename_i line h
    intro hm
    exact not_mem_of_mem_split (List.mem_of_find?_eq_some h) ((lineValue_sublist line).subset hm)
  · exact List.not_mem_nil

/-- What a key that is set reads as. -/
theorem configTextGet_settings {text : Text} {kv : List (ConfigKey × Text)}
    (h : ∀ p ∈ kv, '\n' ∉ p.2) (revision : UInt32) {p : ConfigKey × Text} (hp : p ∈ kv) :
    ∃ q ∈ kv, q.1 = p.1 ∧
      configTextGet (rewriteConfigText text (settings kv) revision) p.1 = readBack q.2 := by
  obtain ⟨q, hq, hkey, hset⟩ := settingFor_settingsFor hp revision
  refine ⟨q, hq, hkey, ?_⟩
  rw [configTextGet_rewriteConfigText (oneLine_settingsFor h revision) p.1.2.nonempty, hset]
  rfl

theorem committable_of_preserves {text : Text} {kv : List (ConfigKey × Text)} {revision : UInt32}
    (h : Preserves text kv revision) : Committable kv := by
  obtain ⟨hset, -⟩ := h
  have hbreak : ∀ p ∈ kv, '\n' ∉ p.2 := by
    intro p hp
    rw [← hset p hp]
    exact not_mem_configTextGet _ _
  have hunique : ∀ p ∈ kv, ∀ q ∈ kv, p.1 = q.1 → p.2 = q.2 := by
    intro p hp q hq hkey
    rw [← hset p hp, ← hset q hq, hkey]
  refine ⟨fun p hp => ?_, hunique⟩
  obtain ⟨q, hq, hkey, hread⟩ := configTextGet_settings hbreak revision hp
  rw [hset p hp, hunique q hq p hp hkey] at hread
  obtain ⟨hcomment, htrim, hquote⟩ := readBack_eq_self_iff.mp hread.symm
  exact ⟨hbreak p hp, hcomment, trim_eq_self_iff.mp htrim, hquote⟩

theorem preserves_of_committable {kv : List (ConfigKey × Text)} (h : Committable kv) (text : Text)
    (revision : UInt32) : Preserves text kv revision := by
  obtain ⟨hplain, hunique⟩ := h
  have hbreak : ∀ p ∈ kv, '\n' ∉ p.2 := fun p hp => (hplain p hp).noBreak
  refine ⟨fun p hp => ?_, fun k hk hr hother => ?_⟩
  · obtain ⟨q, hq, hkey, hread⟩ := configTextGet_settings hbreak revision hp
    obtain ⟨-, hcomment, hblank, hquote⟩ := hplain q hq
    rw [hread, ← hunique q hq p hp hkey]
    exact readBack_eq_self_iff.mpr ⟨hcomment, trim_eq_self_iff.mpr hblank, hquote⟩
  · rw [configTextGet_rewriteConfigText (oneLine_settingsFor hbreak revision) hk,
      settingFor_settingsFor_of_ne hr hother]
    rfl

/-- A key among different ones reads as the plain value it has been given. -/
theorem ConfigStore.get_commit {kv : List (Text × Text)} (hkeys : ∀ p ∈ kv, WellFormed p.1)
    (hplain : ∀ p ∈ kv, Plain p.2) (hnodup : (kv.map Prod.fst).Nodup) (s : ConfigStore)
    {p : Text × Text} (hp : p ∈ kv) : (s.commit true kv).get p.1 = p.2 := by
  let kv' : List (ConfigKey × Text) := kv.attach.map fun q => (⟨q.1.1, hkeys q.1 q.2⟩, q.1.2)
  have hkv : settings kv' = kv := by
    unfold settings
    rw [List.map_map]
    exact List.attach_map_subtype_val kv
  have hmem : ∀ q ∈ kv', (q.1.1, q.2) ∈ kv := by
    intro q hq
    obtain ⟨r, -, rfl⟩ := List.mem_map.mp hq
    exact r.2
  have hc : Committable kv' := by
    refine ⟨fun q hq => hplain _ (hmem q hq), fun q hq r hr heq => ?_⟩
    have hkey : (q.1.1, q.2) = (r.1.1, r.2) :=
      List.inj_on_of_nodup_map hnodup (hmem q hq) (hmem r hr) (congrArg Subtype.val heq)
    exact (Prod.mk.inj hkey).2
  have hp' : ((⟨p.1, hkeys p hp⟩ : ConfigKey), p.2) ∈ kv' :=
    List.mem_map.mpr ⟨⟨p, hp⟩, List.mem_attach _ _, rfl⟩
  have hget := (preserves_of_committable hc s.text (s.revision + 1)).1 _ hp'
  rw [hkv] at hget
  exact hget

/-- A commit preserves all values just when it is of plain ones. -/
theorem preserves_iff (text : Text) (kv : List (ConfigKey × Text)) (revision : UInt32) :
    Preserves text kv revision ↔ Committable kv :=
  ⟨committable_of_preserves, fun h => preserves_of_committable h text revision⟩

/-- The number that is dialled by default. -/
def dialKey : ConfigKey := ⟨"cellular.dial".toList, by refine ⟨?_, ?_, ?_, ?_, ?_⟩ <;> decide⟩

def defaultDial : Text := "*99***1#".toList

theorem not_preserves_defaultDial : ¬ ∀ text kv revision, Preserves text kv revision := by
  intro h
  exact absurd ((h [] [(dialKey, defaultDial)] 2).1 _ List.mem_cons_self) (by decide)

end Machino
