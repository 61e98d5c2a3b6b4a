import Machino.Core.CommittedLines

namespace Machino

open Lines

/-- The lines that are not of the keys. -/
def prune (keys : List Text) (ls : List Text) : List Text :=
  ls.filter fun l => lineKey l = [] ∨ lineKey l ∉ keys

def removeConfigKeysText (text : Text) (keys : List Text) (revision : UInt32) : Text :=
  rewriteConfigText (join '\n' (prune keys (split '\n' text))) [] revision

def Comment (l : Text) : Prop := (l.dropWhile Text.isBlank).head? = some '#'

instance (l : Text) : Decidable (Comment l) := inferInstanceAs (Decidable (_ = _))

/-- Only the first line of the key. -/
def firstOnly (k : Text) : List Text → List Text
  | [] => []
  | l :: ls => l :: if lineKey l = k then ls.filter (lineKey · ≠ k) else firstOnly k ls

/-- The lines of the old text that stand in the new one, the revision as it was. -/
def staying (keys : List Text) (ls : List Text) : List Text :=
  firstOnly revisionKey (prune keys ls)

/-- The comments but for the headers that head nothing. -/
def comments : List Text → List Text
  | [] => []
  | l :: ls =>
    if Comment l ∧ (l = managedHdr → headsSomething ls) then l :: comments ls else comments ls

structure Framed (text : Text) (keys : List Text) (out : Text) : Prop where
  gone : ∀ k ∈ keys, k ≠ [] → k ≠ revisionKey → ∀ l ∈ split '\n' out, lineKey l ≠ k
  same : ∀ k ∉ keys, k ≠ revisionKey → configTextGet out k = configTextGet text k
  kept : comments (staying keys (split '\n' text)) <+: (split '\n' out).filter Comment

/-- The line of the revision is written anew. -/
def renew (v l : Text) : Text := if lineKey l = revisionKey then assignment revisionKey v else l

theorem lineKey_renew (v l : Text) : lineKey (renew v l) = lineKey l := by
  unfold renew
  split
  · rename_i h
    rw [h, lineKey_assignment wellFormed_revisionKey]
  · rfl

theorem renew_of_ne {v l : Text} (h : lineKey l ≠ revisionKey) : renew v l = l := if_neg h

theorem map_renew_filter (v : Text) (ls : List Text) :
    (ls.filter (lineKey · ≠ revisionKey)).map (renew v) =
      ls.filter (lineKey · ≠ revisionKey) := by
  conv_rhs => rw [← List.map_id (ls.filter _)]
  refine List.map_congr_left fun l hl => renew_of_ne ?_
  simpa using (List.mem_filter.mp hl).2

theorem settingOf_revision_of_ne {k : Text} (h : k ≠ revisionKey) (v : Text) (done : Bool) :
    settingOf k [⟨revisionKey, v, done⟩] = none := by
  unfold settingOf
  split
  · rfl
  · exact List.find?_cons_of_neg (by simpa using h.symm)

/-- Once the revision has been written, its further lines are dropped. -/
theorem rewriteLines_done (v : Text) (ls : List Text) :
    rewriteLines [⟨revisionKey, v, true⟩] ls =
      ([⟨revisionKey, v, true⟩], ls.filter (lineKey · ≠ revisionKey)) := by
  induction ls with
  | nil => rfl
  | cons l ls ih =>
    rw [rewriteLines]
    by_cases hl : lineKey l = revisionKey
    · rw [List.filter_cons_of_neg (by simpa using hl), hl]
      exact ih
    · rw [List.filter_cons_of_pos (by simpa using hl), settingOf_revision_of_ne hl, ih]

theorem rewriteLines_revision (v : Text) (ls : List Text) :
    rewriteLines [⟨revisionKey, v, false⟩] ls =
      ([⟨revisionKey, v, decide (∃ l ∈ ls, lineKey l = revisionKey)⟩],
        (firstOnly revisionKey ls).map (renew v)) := by
  induction ls with
  | nil => rfl
  | cons l ls ih =>
    rw [rewriteLines, firstOnly]
    by_cases hl : lineKey l = revisionKey
    · have hsome : settingOf revisionKey [⟨revisionKey, v, false⟩] =
          some ⟨revisionKey, v, false⟩ := by rfl
      have hmark : Setting.markDone revisionKey [⟨revisionKey, v, false⟩] =
          [⟨revisionKey, v, true⟩] := by rfl
      -- what comes behind the first line of the revision has no line of it any more
      rw [hl, hsome, if_pos rfl, List.map_cons, map_renew_filter]
      simp [hmark, rewriteLines_done, renew, hl]
    · rw [settingOf_revision_of_ne hl, ih, if_neg hl, List.map_cons, renew_of_ne hl]
      simp [hl]

/-- The revision below a header of its own, if no line of it is left. -/
def newRevision (v : Text) (ls : List Text) : List Text :=
  appended (if ∃ l ∈ ls, lineKey l = revisionKey then [] else [⟨revisionKey, v, false⟩])

def newLines (v : Text) (keys ls : List Text) : List Text :=
  (staying keys ls).map (renew v) ++ newRevision v (prune keys ls)

theorem free_prune (keys : List Text) (text : Text) :
    ∀ l ∈ prune keys (split '\n' text), '\n' ∉ l :=
  fun _ hl => not_mem_of_mem_split (List.mem_filter.mp hl).1

theorem free_newLines {v : Text} (hv : '\n' ∉ v) (keys : List Text) (text : Text) :
    ∀ l ∈ newLines v keys (split '\n' text), '\n' ∉ l := by
  have hone : ∀ e ∈ [(⟨revisionKey, v, false⟩ : Setting)], OneLine e := by
    intro e he
    rw [List.mem_singleton.mp he]
    exact ⟨wellFormed_revisionKey, hv⟩
  have hfree := (free_rewriteLines hone (free_prune keys text)).2
  rw [rewriteLines_revision] at hfree
  intro l hl
  rcases List.mem_append.mp hl with hl | hl
  · exact hfree l hl
  · refine free_appended (fun e he => ?_) l hl
    split at he
    · cases he
    · exact hone e he

/-- The new text has the new lines without the headers that head nothing. -/
theorem split_removeConfigKeysText (text : Text) (keys : List Text) (revision : UInt32) :
    split '\n' (removeConfigKeysText text keys revision) =
      dropOrphans (newLines (Nat.toDigits 10 revision.toNat) keys (split '\n' text)) := by
  have hv : '\n' ∉ Nat.toDigits 10 revision.toNat := not_mem_toDigits _
  have hfree := free_newLines hv keys text
  have hset : settingsFor [] revision =
      [⟨revisionKey, Nat.toDigits 10 revision.toNat, false⟩] := rfl
  unfold removeConfigKeysText rewriteConfigText
  rw [split_join (free_prune keys text), hset, foldl_rewriteLine, rewriteLines_revision, List.nil_append]
  dsimp only
  -- the revision is appended when no line was left to take it
  have hrest : ([⟨revisionKey, Nat.toDigits 10 revision.toNat,
      decide (∃ l ∈ prune keys (split '\n' text), lineKey l = revisionKey)⟩] :
        List Setting).filter (!·.done) =
      if ∃ l ∈ prune keys (split '\n' text), lineKey l = revisionKey then []
      else [⟨revisionKey, Nat.toDigits 10 revision.toNat, false⟩] := by
    split
    · rename_i h
      rw [decide_eq_true h]
      rfl
    · rename_i h
      rw [decide_eq_false h]
      rfl
  rw [hrest, appendSettings_join]
  change split '\n' (dropOrphanHeaders (join '\n' (newLines _ _ _))) = _
  unfold dropOrphanHeaders
  rw [split_join hfree, split_join fun l hl => hfree l ((dropOrphans_sublist _).subset hl)]

theorem firstOnly_sublist (k : Text) (ls : List Text) : (firstOnly k ls).Sublist ls := by
  induction ls with
  | nil => exact List.Sublist.slnil
  | cons l ls ih =>
    unfold firstOnly
    split
    · exact List.filter_sublist.cons_cons l
    · exact ih.cons_cons l

theorem lineFor_filter {k : Text} {p : Text → Bool} (h : ∀ l, lineKey l = k → p l = true)
    (ls : List Text) : lineFor k (ls.filter p) = lineFor k ls := by
  unfold lineFor
  rw [List.find?_filter]
  congr 1
  funext l
  by_cases hl : lineKey l = k
  · simp [h l hl]
  · simp [hl]

theorem lineFor_firstOnly {k k' : Text} (hne : k ≠ k') (ls : List Text) :
    lineFor k (firstOnly k' ls) = lineFor k ls := by
  induction ls with
  | nil => rfl
  | cons l ls ih =>
    unfold firstOnly
    split
    · rename_i hl
      have hfilter : lineFor k (ls.filter (lineKey · ≠ k')) = lineFor k ls :=
        lineFor_filter (fun l' hl' => by simpa [hl'] using hne) ls
      rw [lineFor_cons, lineFor_cons, hfilter]
    · rw [lineFor_cons, lineFor_cons, ih]

theorem lineFor_map_renew {k : Text} (hk : k ≠ revisionKey) (v : Text) (ls : List Text) :
    lineFor k (ls.map (renew v)) = lineFor k ls := by
  induction ls with
  | nil => rfl
  | cons l ls ih =>
    rw [List.map_cons, lineFor_cons, lineFor_cons, lineKey_renew, ih]
    split
    · rename_i hl
      rw [renew_of_ne (hl ▸ hk)]
    · rfl

/-- The staying lines have the same line for another key. -/
theorem lineFor_staying {keys : List Text} {k : Text} (hk : k ∉ keys) (hrev : k ≠ revisionKey)
    (v : Text) (ls : List Text) :
    lineFor k ((staying keys ls).map (renew v)) = lineFor k ls := by
  rw [lineFor_map_renew hrev, staying, lineFor_firstOnly hrev]
  exact lineFor_filter (fun l hl => by simp [hl, hk]) ls

theorem newRevision_eq (v : Text) (ls : List Text) :
    newRevision v ls = [] ∨ newRevision v ls = [[], managedHdr, assignment revisionKey v] := by
  unfold newRevision
  split
  · exact .inl rfl
  · exact .inr rfl

theorem lineKey_newRevision {v : Text} {ls : List Text} {l : Text} (h : l ∈ newRevision v ls) :
    lineKey l = [] ∨ lineKey l = revisionKey := by
  rcases newRevision_eq v ls with heq | heq <;> rw [heq] at h
  · cases h
  · simp only [List.mem_cons, List.not_mem_nil, or_false] at h
    obtain rfl | rfl | rfl := h
    · exact .inl (by decide)
    · exact .inl (by decide)
    · exact .inr (lineKey_assignment wellFormed_revisionKey v)

theorem gone_newLines {keys : List Text} {k : Text} (hmem : k ∈ keys) (hk : k ≠ [])
    (hrev : k ≠ revisionKey) (v : Text) (ls : List Text) :
    ∀ l ∈ newLines v keys ls, lineKey l ≠ k := by
  intro l hl heq
  rcases List.mem_append.mp hl with hl | hl
  · obtain ⟨l', hl', rfl⟩ := List.mem_map.mp hl
    rw [lineKey_renew] at heq
    have hleft := (List.mem_filter.mp ((firstOnly_sublist _ _).subset hl')).2
    rw [decide_eq_true_eq, heq] at hleft
    exact hleft.elim hk fun h => h hmem
  · rcases lineKey_newRevision hl with h | h
    · exact hk (heq.symm.trans h)
    · exact hrev (heq.symm.trans h)

/-- What is read of a key, from the lines. -/
def valueIn (ls : List Text) (k : Text) : Text := ((lineFor k ls).map lineValue).getD []

theorem valueIn_cons (l : Text) (ls : List Text) (k : Text) :
    valueIn (l :: ls) k = if lineKey l = k then lineValue l else valueIn ls k := by
  unfold valueIn
  rw [lineFor_cons]
  split <;> rfl

theorem headsSomething_cons (l : Text) (ls : List Text) :
    headsSomething (l :: ls) = if l = [] then headsSomething ls else decide (l ≠ managedHdr) := by
  unfold headsSomething
  by_cases hl : l = []
  · rw [if_pos hl, List.find?_cons_of_neg (by simpa using hl)]
  · rw [if_neg hl, List.find?_cons_of_pos (by simpa using hl)]

/-- Where no line that is not empty is headed, the first line without a key has no value. -/
theorem valueIn_nil_of_orphan {ls : List Text} (h : headsSomething ls = false) :
    valueIn ls [] = [] := by
  cases ls with
  | nil => rfl
  | cons l ls =>
    have hl : l = [] ∨ l = managedHdr := by
      by_cases hnil : l = []
      · exact .inl hnil
      · rw [headsSomething_cons, if_neg hnil] at h
        exact .inr (by simpa using h)
    have hkey : lineKey l = [] ∧ lineValue l = [] := by
      rcases hl with rfl | rfl <;> decide
    rw [valueIn_cons, if_pos hkey.1, hkey.2]

/-- A header that is dropped has no value, and nothing behind it has one. -/
theorem valueIn_nil_dropOrphans (ls : List Text) :
    valueIn (dropOrphans ls) [] = valueIn ls [] := by
  induction ls with
  | nil => rfl
  | cons l ls ih =>
    unfold dropOrphans
    split
    · rename_i h
      have hhdr : lineKey managedHdr = [] ∧ lineValue managedHdr = [] := by decide
      rw [ih, valueIn_nil_of_orphan (by simpa using h.2), h.1, valueIn_cons, if_pos hhdr.1, hhdr.2]
    · rw [valueIn_cons, valueIn_cons, ih]

theorem valueIn_dropOrphans (ls : List Text) (k : Text) :
    valueIn (dropOrphans ls) k = valueIn ls k := by
  by_cases hk : k = []
  · rw [hk, valueIn_nil_dropOrphans]
  · unfold valueIn
    rw [lineFor_dropOrphans hk]

/-- The new section has no value for another key. -/
theorem valueIn_newRevision {k : Text} (hk : k ≠ revisionKey) (v : Text) (ls : List Text) :
    valueIn (newRevision v ls) k = [] := by
  rcases newRevision_eq v ls with heq | heq <;> rw [heq]
  · rfl
  have hempty : lineKey [] = [] := by decide
  have hhdr : lineKey managedHdr = [] := by decide
  have hrev : lineKey (assignment revisionKey v) ≠ k :=
    (lineKey_assignment wellFormed_revisionKey v).trans_ne hk.symm
  rw [valueIn_cons, valueIn_cons, valueIn_cons, hempty, hhdr, if_neg hrev]
  split <;> rfl

theorem valueIn_append (ls ls' : List Text) (k : Text) (h : valueIn ls' k = []) :
    valueIn (ls ++ ls') k = valueIn ls k := by
  unfold valueIn lineFor at h ⊢
  rw [List.find?_append]
  cases ls.find? (lineKey · = k) with
  | none => exact h
  | some l => rfl

theorem same_removeConfigKeysText {keys : List Text} {k : Text} (hk : k ∉ keys)
    (hrev : k ≠ revisionKey) (text : Text) (revision : UInt32) :
    configTextGet (removeConfigKeysText text keys revision) k = configTextGet text k := by
  rw [configTextGet_eq, configTextGet_eq, split_removeConfigKeysText]
  change valueIn (dropOrphans (newLines _ _ _)) k = valueIn (split '\n' text) k
  rw [valueIn_dropOrphans, newLines, valueIn_append _ _ _ (valueIn_newRevision hrev _ _)]
  unfold valueIn
  rw [lineFor_staying hk hrev]

theorem Comment.lineKey_eq {l : Text} (h : Comment l) : lineKey l = [] := by
  have hblank : ∀ c ∈ l.takeWhile Text.isBlank, Text.isBlank c = true :=
    fun c hc => List.mem_takeWhile_imp hc
  obtain ⟨r, hr⟩ := List.head?_eq_some_iff.mp h
  -- nothing but blanks is left in front of the comment
  have hl : uncommented l = l.takeWhile Text.isBlank := by
    conv_lhs => rw [← List.takeWhile_append_dropWhile (p := Text.isBlank) (l := l), hr]
    unfold uncommented
    rw [List.takeWhile_append_of_pos, List.takeWhile_cons_of_neg (by simp), List.append_nil]
    intro c hc
    exact decide_eq_true fun heq => absurd (hblank c hc) (heq ▸ by decide)
  unfold lineKey
  rw [hl]
  exact if_neg fun hmem => absurd (hblank _ hmem) (by decide)

theorem filter_comment_dropOrphans (ls : List Text) :
    (dropOrphans ls).filter Comment = comments ls := by
  induction ls with
  | nil => rfl
  | cons l ls ih =>
    unfold dropOrphans comments
    split
    · rename_i h
      rw [if_neg fun hc => by simp [hc.2 h.1] at h, ih]
    · rename_i h
      rw [List.filter_cons, ih]
      refine if_congr ?_ rfl rfl
      simp only [decide_eq_true_eq, iff_self_and]
      intro _ heq
      by_contra hnot
      exact h ⟨heq, by simpa using hnot⟩

theorem headsSomething_append {ls ls' : List Text} (h : headsSomething ls' = false) :
    headsSomething (ls ++ ls') = headsSomething ls := by
  unfold headsSomething at h ⊢
  rw [List.find?_append]
  cases ls.find? (· ≠ []) with
  | none => simpa using h
  | some l => rfl

theorem comments_append {ls ls' : List Text} (h : headsSomething ls' = false) :
    comments (ls ++ ls') = comments ls ++ comments ls' := by
  induction ls with
  | nil => rfl
  | cons l ls ih =>
    rw [List.cons_append, comments, comments, headsSomething_append h, ih]
    split <;> rfl

/-- A line with a key is neither empty nor a comment. -/
theorem keyed {l : Text} (h : lineKey l = revisionKey) : l ≠ [] ∧ l ≠ managedHdr ∧ ¬Comment l := by
  refine ⟨?_, ?_, fun hc => ?_⟩
  · rintro rfl
    exact absurd h (by decide)
  · rintro rfl
    exact absurd h (by decide)
  · exact absurd (h.symm.trans hc.lineKey_eq) (by decide)

theorem headsSomething_map_renew (v : Text) (ls : List Text) :
    headsSomething (ls.map (renew v)) = headsSomething ls := by
  induction ls with
  | nil => rfl
  | cons l ls ih =>
    rw [List.map_cons, headsSomething_cons, headsSomething_cons, ih]
    by_cases hl : lineKey l = revisionKey
    · -- both the old line and the new one are something to head
      obtain ⟨hne, hhdr, -⟩ := keyed hl
      obtain ⟨hne', hhdr', -⟩ := keyed ((lineKey_renew v l).trans hl)
      rw [if_neg hne, if_neg hne', decide_eq_true hhdr, decide_eq_true hhdr']
    · rw [renew_of_ne hl]

theorem comments_map_renew (v : Text) (ls : List Text) :
    comments (ls.map (renew v)) = comments ls := by
  induction ls with
  | nil => rfl
  | cons l ls ih =>
    rw [List.map_cons, comments, comments, headsSomething_map_renew, ih]
    by_cases hl : lineKey l = revisionKey
    · have hnot : ¬Comment (renew v l) := (keyed ((lineKey_renew v l).trans hl)).2.2
      rw [if_neg fun h => hnot h.1, if_neg fun h => (keyed hl).2.2 h.1]
    · rw [renew_of_ne hl]

theorem kept_removeConfigKeysText (text : Text) (keys : List Text) (revision : UInt32) :
    comments (staying keys (split '\n' text)) <+:
      (split '\n' (removeConfigKeysText text keys revision)).filter Comment := by
  rw [split_removeConfigKeysText, filter_comment_dropOrphans, newLines]
  have hheads (v : Text) (ls : List Text) : headsSomething (newRevision v ls) = false := by
    rcases newRevision_eq v ls with heq | heq <;> rw [heq] <;> rfl
  rw [comments_append (hheads _ _), comments_map_renew]
  exact List.prefix_append _ _

/-- Keys can be removed and nothing else is changed but the revision and the headers. -/
theorem framed_removeConfigKeysText (text : Text) (keys : List Text) (revision : UInt32) :
    Framed text keys (removeConfigKeysText text keys revision) where
  gone k hmem hk hrev l hl := by
    rw [split_removeConfigKeysText] at hl
    exact gone_newLines hmem hk hrev _ _ l ((dropOrphans_sublist _).subset hl)
  same k hk hrev := same_removeConfigKeysText hk hrev text revision
  kept := kept_removeConfigKeysText text keys revision

open Lines

def cycle (k v : Text) (r r' : UInt32) (text : Text) : Text :=
  removeConfigKeysText (rewriteConfigText text [(k, v)] r) [k] r'

/-- Each cycle has its own value and revisions. -/
def afterCycles (k : Text) (v : ℕ → Text) (r r' : ℕ → UInt32) (text : Text) : ℕ → Text
  | 0 => text
  | n + 1 => cycle k (v n) (r n) (r' n) (afterCycles k v r r' text n)

/-- The length without the lines of the revision. -/
def lengthApart (text : Text) : ℕ :=
  (((split '\n' text).filter (lineKey · ≠ revisionKey)).map fun l => l.length + 1).sum

def Bounded (k : Text) (v : ℕ → Text) (r r' : ℕ → UInt32) (text : Text) : Prop :=
  ∃ bound, ∀ n, lengthApart (afterCycles k v r r' text n) ≤ bound

def empties (text : Text) : ℕ := (split '\n' text).count []

theorem empties_le_lengthApart (text : Text) : empties text ≤ lengthApart text := by
  unfold empties lengthApart
  induction split '\n' text with
  | nil => rfl
  | cons l ls ih =>
    by_cases hl : l = []
    · subst hl
      have hkey : lineKey [] ≠ revisionKey := by decide
      rw [List.count_cons_self, List.filter_cons_of_pos (by simpa using hkey), List.map_cons,
        List.sum_cons, List.length_nil]
      omega
    · rw [List.count_cons_of_ne (by simpa using hl), List.filter_cons]
      split
      · exact ih.trans (Nat.le_add_left _ _)
      · exact ih

/-- A piece with breaks of its own is several lines. -/
theorem count_le_empties_join (ls : List Text) : ls.count [] ≤ empties (join '\n' ls) := by
  unfold empties
  induction ls with
  | nil => rfl
  | cons l ls ih =>
    have hjoin : join '\n' (l :: ls) = l ++ '\n' :: join '\n' ls := by simp [join]
    rw [hjoin, split_append_sep, List.count_append, ← List.singleton_append, List.count_append]
    refine Nat.add_le_add ?_ ih
    by_cases hl : l = []
    · subst hl
      decide
    · rw [List.count_eq_zero.mpr (by simpa using Ne.symm hl)]
      exact Nat.zero_le _

theorem count_dropOrphans (ls : List Text) : (dropOrphans ls).count [] = ls.count [] := by
  induction ls with
  | nil => rfl
  | cons l ls ih =>
    unfold dropOrphans
    split
    · rename_i h
      rw [ih, h.1, List.count_cons_of_ne (by decide)]
    · rw [List.count_cons, List.count_cons, ih]

theorem empties_dropOrphanHeaders (text : Text) :
    empties (dropOrphanHeaders text) = empties text := by
  have hfree : ∀ l ∈ dropOrphans (split '\n' text), '\n' ∉ l :=
    fun l hl => not_mem_of_mem_split ((dropOrphans_sublist _).subset hl)
  unfold dropOrphanHeaders empties
  rw [split_join hfree, count_dropOrphans]

theorem count_rewriteLines (es : List Setting) (ls : List Text) :
    ls.count [] ≤ (rewriteLines es ls).2.count [] := by
  induction ls generalizing es with
  | nil => rfl
  | cons l ls ih =>
    unfold rewriteLines
    by_cases hl : l = []
    · subst hl
      have hnone : settingOf (lineKey []) es = none := if_pos (by decide)
      rw [hnone, List.count_cons_self]
      dsimp only
      rw [List.count_cons_self]
      exact Nat.succ_le_succ (ih es)
    · rw [List.count_cons_of_ne (by simpa using hl)]
      split
      · -- the line of a setting is left out when the setting is done, and is not empty otherwise
        split
        · exact ih es
        · exact (ih _).trans (List.Sublist.count_le [] (List.sublist_cons_self _ _))
      · exact (ih es).trans (List.Sublist.count_le [] (List.sublist_cons_self _ _))

/-- What a rewritten text has at least. -/
theorem count_le_empties_rewriteConfigText (text : Text) (kv : List (Text × Text)) (r : UInt32) :
    empties text + (appended ((rewriteLines (settingsFor kv r) (split '\n' text)).1.filter
      (!·.done))).count [] ≤ empties (rewriteConfigText text kv r) := by
  unfold rewriteConfigText
  rw [foldl_rewriteLine, List.nil_append, empties_dropOrphanHeaders]
  dsimp only
  rw [appendSettings_join]
  refine Nat.le_trans ?_ (count_le_empties_join _)
  rw [List.count_append]
  exact Nat.add_le_add_right (count_rewriteLines _ _) _

theorem empties_removeConfigKeysText (text : Text) (keys : List Text) (r : UInt32) :
    empties text ≤ empties (removeConfigKeysText text keys r) := by
  have hcount : empties text = (prune keys (split '\n' text)).count [] := by
    unfold empties prune
    have hkey : lineKey [] = [] := by decide
    rw [List.count_filter (by simp [hkey])]
  have hjoin : empties text = empties (join '\n' (prune keys (split '\n' text))) := by
    rw [hcount, empties, split_join (free_prune keys text)]
  rw [hjoin]
  exact (Nat.le_add_right _ _).trans (count_le_empties_rewriteConfigText _ _ _)

/-- Setting the key writes a section. -/
def Fresh (k text : Text) : Prop := k = revisionKey ∨ ∀ l ∈ split '\n' text, lineKey l ≠ k

theorem rest_ne_nil {k text : Text} (hk : k ≠ []) (h : Fresh k text) (v : Text) (r : UInt32) :
    (rewriteLines (settingsFor [(k, v)] r) (split '\n' text)).1.filter (!·.done) ≠ [] := by
  have hown := filter_rewriteLines hk (settingsFor [(k, v)] r) (split '\n' text)
  have hrest : ∃ e ∈ (rewriteLines (settingsFor [(k, v)] r) (split '\n' text)).1.filter
      (·.key = k), e.done = false := by
    rw [hown]
    rcases h with rfl | h
    · -- the revision is among the settings twice, and a line takes one of them
      have hboth : (settingsFor [(revisionKey, v)] r).filter (·.key = revisionKey) =
          [⟨revisionKey, v, false⟩, ⟨revisionKey, Nat.toDigits 10 r.toNat, false⟩] := rfl
      rw [hboth]
      refine ⟨⟨revisionKey, Nat.toDigits 10 r.toNat, false⟩, ?_, rfl⟩
      split
      · exact List.mem_cons_of_mem _ List.mem_cons_self
      · exact List.mem_cons_of_mem _ List.mem_cons_self
    · rw [if_neg fun ⟨l, hl, heq⟩ => h l hl heq]
      exact ⟨⟨k, v, false⟩, List.mem_filter.mpr ⟨List.mem_cons_self, by simp⟩, rfl⟩
  obtain ⟨e, he, hd⟩ := hrest
  refine List.ne_nil_of_mem (a := e) (List.mem_filter.mpr ⟨(List.mem_filter.mp he).1, ?_⟩)
  rw [hd]
  rfl

theorem empties_cycle {k text : Text} (hk : k ≠ []) (h : Fresh k text) (v : Text)
    (r r' : UInt32) : empties text + 1 ≤ empties (cycle k v r r' text) := by
  refine Nat.le_trans ?_ (empties_removeConfigKeysText _ _ _)
  refine Nat.le_trans ?_ (count_le_empties_rewriteConfigText _ _ _)
  refine Nat.add_le_add_left ?_ _
  unfold appended
  rw [if_neg (rest_ne_nil hk h v r), List.count_cons_self]
  exact Nat.le_add_left _ _

theorem fresh_cycle {k : Text} (hk : k ≠ []) (v : Text) (r r' : UInt32) (text : Text) :
    Fresh k (cycle k v r r' text) := by
  by_cases hrev : k = revisionKey
  · exact .inl hrev
  · exact .inr ((framed_removeConfigKeysText _ [k] r').gone k List.mem_cons_self hk hrev)

/-- After so many cycles there are as many empty lines more. -/
theorem le_empties_afterCycles {k text : Text} (hk : k ≠ []) (h : Fresh k text) (v : ℕ → Text)
    (r r' : ℕ → UInt32) (n : ℕ) :
    n ≤ empties (afterCycles k v r r' text n) ∧ Fresh k (afterCycles k v r r' text n) := by
  induction n with
  | zero => exact ⟨Nat.zero_le _, h⟩
  | succ n ih =>
    refine ⟨?_, fresh_cycle hk _ _ _ _⟩
    exact (Nat.succ_le_succ ih.1).trans (empties_cycle hk ih.2 _ _ _)

theorem not_bounded_of_fresh {k text : Text} (hk : k ≠ []) (h : Fresh k text) (v : ℕ → Text)
    (r r' : ℕ → UInt32) : ¬Bounded k v r r' text := by
  rintro ⟨bound, hle⟩
  have hcount := (le_empties_afterCycles hk h v r r' (bound + 1)).1
  have hlen := (empties_le_lengthApart _).trans (hle (bound + 1))
  omega

/-- The blank line of a section outlives it. -/
theorem not_bounded {k text : Text} (hk : WellFormed k)
    (habsent : ∀ l ∈ split '\n' text, lineKey l ≠ k) (v : ℕ → Text) (r r' : ℕ → UInt32) :
    ¬Bounded k v r r' text :=
  not_bounded_of_fresh hk.nonempty (.inr habsent) v r r'

/-- A new camera, and one key that is tried out. -/
theorem not_bounded_fps : ¬Bounded "video.fps".toList (fun _ => ['5']) (fun n => .ofNat (2 * n))
    (fun n => .ofNat (2 * n + 1)) [] :=
  not_bounded (by decide) (List.forall_mem_nil _) _ _ _

theorem not_always_bounded : ¬∀ (text k : Text), WellFormed k →
    (∀ l ∈ split '\n' text, lineKey l ≠ k) → ∀ v r r', Bounded k v r r' text := by
  intro h
  have hk : WellFormed "video.fps".toList := by decide
  exact not_bounded_of_fresh hk.nonempty (.inr (List.forall_mem_nil _)) (fun _ => ['5'])
    (fun _ => 2) (fun _ => 3) (h [] _ hk (List.forall_mem_nil _) _ _ _)

end Machino
