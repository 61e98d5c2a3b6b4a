import Machino.Core.AppConfig

namespace Machino

open Lines

/-- The settings and the new lines, without the header and what stands below it. -/
def rewriteLines : List Setting → List Text → List Setting × List Text
  | es, [] => (es, [])
  | es, l :: ls =>
    match settingOf (lineKey l) es with
    | some e =>
      if e.done then rewriteLines es ls
      else
        let r := rewriteLines (Setting.markDone (lineKey l) es) ls
        (r.1, assignment e.key e.value :: r.2)
    | none =>
      let r := rewriteLines es ls
      (r.1, l :: r.2)

theorem foldl_rewriteLine (es : List Setting) (out : Text) (ls : List Text) :
    ls.foldl rewriteLine (es, out) =
      ((rewriteLines es ls).1, out ++ join '\n' (rewriteLines es ls).2) := by
  induction ls generalizing es out with
  | nil => simp [rewriteLines, join]
  | cons l ls ih =>
    rw [List.foldl_cons, rewriteLines]
    cases hset : settingOf (lineKey l) es with
    | none =>
      have hstep : rewriteLine (es, out) l = (es, out ++ l ++ ['\n']) := by
        unfold rewriteLine
        rw [hset]
      rw [hstep, ih]
      simp [join]
    | some e =>
      cases hd : e.done with
      | true =>
        have hstep : rewriteLine (es, out) l = (es, out) := by
          unfold rewriteLine
          rw [hset]
          exact if_pos hd
        rw [hstep, ih]
        simp [hd]
      | false =>
        have hstep : rewriteLine (es, out) l =
            (Setting.markDone (lineKey l) es, out ++ e.line) := by
          unfold rewriteLine
          rw [hset]
          exact if_neg (by simp [hd])
        rw [hstep, ih]
        simp [hd, join, Setting.line]

theorem oneLine_markDone {es : List Setting} (h : ∀ e ∈ es, OneLine e) (k : Text) :
    ∀ e ∈ Setting.markDone k es, OneLine e := by
  intro e he
  obtain ⟨e', hmem, hk, hv⟩ := Setting.mem_markDone he
  have h' := h e' hmem
  unfold OneLine at h'
  rwa [hk, hv] at h'

theorem free_rewriteLines {es : List Setting} (h : ∀ e ∈ es, OneLine e) {ls : List Text}
    (hls : ∀ l ∈ ls, '\n' ∉ l) :
    (∀ e ∈ (rewriteLines es ls).1, OneLine e) ∧ ∀ l ∈ (rewriteLines es ls).2, '\n' ∉ l := by
  induction ls generalizing es with
  | nil => exact ⟨h, List.forall_mem_nil _⟩
  | cons l ls ih =>
    have htail : ∀ l ∈ ls, '\n' ∉ l := fun l' hl' => hls l' (List.mem_cons_of_mem _ hl')
    unfold rewriteLines
    split
    · rename_i e he
      split
      · exact ih h htail
      · obtain ⟨hes, hout⟩ := ih (oneLine_markDone h (lineKey l)) htail
        have hmem : e ∈ es := by
          unfold settingOf at he
          split at he
          · exact absurd he (by simp)
          · exact List.mem_of_find?_eq_some he
        exact ⟨hes, List.forall_mem_cons.mpr ⟨(h e hmem).not_mem, hout⟩⟩
    · obtain ⟨hes, hout⟩ := ih h htail
      exact ⟨hes, List.forall_mem_cons.mpr ⟨hls l List.mem_cons_self, hout⟩⟩

theorem handed_assignment {k : Text} (hk : WellFormed k) (v : Text) :
    handed (assignment k v) = some (k, readBack v) := by
  have hassign : '=' ∈ uncommented (assignment k v) := by
    rw [uncommented_assignment hk]
    simp
  rw [handed_eq, if_pos hassign, lineKey_assignment hk, lineValue_assignment hk]

/-- The headers hand nothing over. -/
theorem filterMap_handed_dropOrphans (ls : List Text) :
    (dropOrphans ls).filterMap handed = ls.filterMap handed := by
  have hhdr : handed managedHdr = none := by decide
  induction ls with
  | nil => rfl
  | cons l ls ih =>
    unfold dropOrphans
    split
    · rename_i h
      rw [ih, h.1, List.filterMap_cons_none hhdr]
    · rw [List.filterMap_cons, List.filterMap_cons, ih]

theorem filterMap_handed_appended {rest : List Setting} (h : ∀ e ∈ rest, OneLine e) :
    (appended rest).filterMap handed = rest.map fun e => (e.key, readBack e.value) := by
  have hlines : (rest.map fun e => assignment e.key e.value).filterMap handed =
      rest.map fun e => (e.key, readBack e.value) := by
    rw [List.filterMap_map]
    induction rest with
    | nil => rfl
    | cons e rest ih =>
      have hone : WellFormed e.key := (h e List.mem_cons_self).1
      rw [List.map_cons, ← ih fun e' he' => h e' (List.mem_cons_of_mem _ he')]
      exact List.filterMap_cons_some (handed_assignment hone e.value)
  unfold appended
  split
  · rename_i hnil
    rw [hnil]
    rfl
  · have hhdr : handed managedHdr = none := by decide
    have hempty : handed [] = none := by decide
    rw [← hlines]
    exact (List.filterMap_cons_none hempty).trans (List.filterMap_cons_none hhdr)

/-- What a rewritten text hands to the loader. -/
theorem configLines_rewriteConfigText {text : Text} {kv : List (Text × Text)} {revision : UInt32}
    (hone : ∀ e ∈ settingsFor kv revision, OneLine e) :
    configLines (rewriteConfigText text kv revision) =
      (rewriteLines (settingsFor kv revision) (split '\n' text)).2.filterMap handed ++
        ((rewriteLines (settingsFor kv revision) (split '\n' text)).1.filter (!·.done)).map
          fun e => (e.key, readBack e.value) := by
  obtain ⟨hes, hout⟩ := free_rewriteLines hone
    (fun l (hl : l ∈ split '\n' text) => not_mem_of_mem_split hl)
  unfold configLines rewriteConfigText
  rw [foldl_rewriteLine]
  generalize rewriteLines (settingsFor kv revision) (split '\n' text) = r at hes hout ⊢
  have hrest : ∀ e ∈ r.1.filter (!·.done), OneLine e :=
    fun e he => hes e (List.mem_of_mem_filter he)
  dsimp only
  have hfree : ∀ l ∈ r.2 ++ appended (r.1.filter (!·.done)), '\n' ∉ l := by
    intro l hl
    exact (List.mem_append.mp hl).elim (hout l) (free_appended hrest l)
  rw [List.nil_append, appendSettings_join]
  unfold dropOrphanHeaders
  rw [split_join hfree, split_join fun l hl => hfree l ((dropOrphans_sublist _).subset hl),
    filterMap_handed_dropOrphans, List.filterMap_append, filterMap_handed_appended hrest]

/-- What the lines say of a member. -/
def saidBy (f : Field) (ls : List Text) : Option Value := lastSaid f (ls.filterMap handed)

theorem saidBy_cons (f : Field) (l : Text) (ls : List Text) :
    saidBy f (l :: ls) = (saidBy f ls).or ((handed l).bind (tells f)) := by
  unfold saidBy
  cases hl : handed l with
  | none => rw [List.filterMap_cons_none hl, Option.bind_none, Option.or_none]
  | some p =>
    have hone : lastSaid f [p] = tells f p := Option.or_none
    rw [List.filterMap_cons_some hl, ← List.singleton_append, lastSaid_append, hone,
      Option.bind_some]

/-- The lines of other keys behind the first one of the key. -/
def behind (k : Text) (ls : List Text) : List Text :=
  (ls.dropWhile (lineKey · ≠ k)).filter (lineKey · ≠ k)

section member

variable {f : Field} {k : Text} {es : List Setting}

/-- The settings are lines of their own, and no other key tells of the member. -/
structure OnlyKey (f : Field) (k : Text) (es : List Setting) : Prop where
  oneLine : ∀ e ∈ es, OneLine e
  silent : ∀ e ∈ es, e.key ≠ k → ∀ v, tells f (e.key, v) = none

namespace OnlyKey

theorem markDone (h : OnlyKey f k es) (k' : Text) : OnlyKey f k (Setting.markDone k' es) := by
  refine ⟨oneLine_markDone h.oneLine k', fun e he hne v => ?_⟩
  obtain ⟨e', hmem, hkey, -⟩ := Setting.mem_markDone he
  rw [← hkey]
  exact h.silent e' hmem (hkey ▸ hne) v

/-- The lines of another key that is set tell nothing, before and after. -/
theorem silent_line (h : OnlyKey f k es) {l : Text} (hl : lineKey l ≠ k) {e : Setting}
    (he : settingOf (lineKey l) es = some e) :
    (handed l).bind (tells f) = none ∧
      (handed (assignment e.key e.value)).bind (tells f) = none := by
  unfold settingOf at he
  split at he
  · exact absurd he (by simp)
  · have hmem := List.mem_of_find?_eq_some he
    have hkey : e.key = lineKey l := by simpa using List.find?_some he
    have hne : e.key ≠ k := hkey ▸ hl
    refine ⟨?_, ?_⟩
    · rw [handed_eq]
      split
      · rw [← hkey]
        exact h.silent e hmem hne _
      · rfl
    · rw [handed_assignment (h.oneLine e hmem).1]
      exact h.silent e hmem hne _

theorem settingOf_self (h : OnlyKey f k es) {e : Setting} (he : settingFor k es = some e) :
    settingOf k es = some e := by
  have hne : k ≠ [] := by
    rw [← key_of_settingFor he]
    exact (h.oneLine e (List.mem_of_find?_eq_some he)).1.nonempty
  exact (if_neg hne).trans he

/-- Once the key has been written, its further lines are gone. -/
theorem saidBy_of_done (h : OnlyKey f k es) {e : Setting} (he : settingFor k es = some e)
    (hd : e.done = true) (ls : List Text) :
    saidBy f (rewriteLines es ls).2 = saidBy f (ls.filter (lineKey · ≠ k)) := by
  induction ls generalizing es with
  | nil => rfl
  | cons l ls ih =>
    by_cases hl : lineKey l = k
    · rw [List.filter_cons_of_neg (by simpa using hl), ← ih h he, rewriteLines, hl,
        h.settingOf_self he]
      simp [hd]
    · rw [List.filter_cons_of_pos (by simpa using hl), saidBy_cons, rewriteLines]
      cases hset : settingOf (lineKey l) es with
      | none =>
        dsimp only
        rw [saidBy_cons, ih h he]
      | some e' =>
        obtain ⟨hold, hnew⟩ := h.silent_line hl hset
        rw [hold, Option.or_none]
        dsimp only
        split
        · exact ih h he
        · have he' := (Setting.find?_markDone_of_ne (Ne.symm hl) es).trans he
          rw [saidBy_cons, hnew, Option.or_none]
          exact ih (h.markDone _) he'

/-- The first line of the key is given the value, which stands unless another key that is further
down says something else. -/
theorem saidBy_of_line (h : OnlyKey f k es) {e : Setting} (he : settingFor k es = some e)
    (hd : e.done = false) {w : Value} (hw : tells f (k, readBack e.value) = some w)
    {ls : List Text} (hls : ∃ l ∈ ls, lineKey l = k) :
    saidBy f (rewriteLines es ls).2 = (saidBy f (behind k ls)).or (some w) := by
  induction ls generalizing es with
  | nil =>
    obtain ⟨l, hl, -⟩ := hls
    exact absurd hl List.not_mem_nil
  | cons l ls ih =>
    by_cases hl : lineKey l = k
    · have hkey := key_of_settingFor he
      have hwf := (h.oneLine e (List.mem_of_find?_eq_some he)).1
      have hdone : settingFor k (Setting.markDone k es) = some { e with done := true } :=
        Setting.find?_markDone_self he
      have hbehind : behind k (l :: ls) = ls.filter (lineKey · ≠ k) := by
        unfold behind
        rw [List.dropWhile_cons_of_neg (by simpa using hl),
          List.filter_cons_of_neg (by simpa using hl)]
      rw [rewriteLines, hl, h.settingOf_self he, hbehind]
      simp only [hd, Bool.false_eq_true, if_false]
      rw [saidBy_cons, (h.markDone k).saidBy_of_done hdone rfl, handed_assignment hwf, hkey]
      exact congrArg _ hw
    · have hls' : ∃ l ∈ ls, lineKey l = k := by
        obtain ⟨l', hl', hk'⟩ := hls
        rcases List.mem_cons.mp hl' with rfl | hl'
        · exact absurd hk' hl
        · exact ⟨l', hl', hk'⟩
      have hbehind : behind k (l :: ls) = behind k ls := by
        unfold behind
        rw [List.dropWhile_cons_of_pos (by simpa using hl)]
      rw [rewriteLines, hbehind]
      cases hset : settingOf (lineKey l) es with
      | none =>
        dsimp only
        rw [saidBy_cons, ih h he hls', Option.or_assoc, Option.some_or]
      | some e' =>
        dsimp only
        split
        · exact ih h he hls'
        · have he' := (Setting.find?_markDone_of_ne (Ne.symm hl) es).trans he
          rw [saidBy_cons, ih (h.markDone _) he' hls', Option.or_assoc, Option.some_or]

end OnlyKey

end member

namespace Setting

theorem markDone_of_done {k : Text} {es : List Setting} {e : Setting}
    (h : es.find? (·.key = k) = some e) (hd : e.done = true) : markDone k es = es := by
  induction es with
  | nil => cases h
  | cons e' es ih =>
    unfold markDone
    by_cases hk : e'.key = k
    · rw [List.find?_cons_of_pos (by simpa using hk)] at h
      cases h
      rw [if_pos hk, ← hd]
    · rw [List.find?_cons_of_neg (by simpa using hk)] at h
      rw [if_neg hk, ih h]

theorem markDone_markDone (k : Text) (es : List Setting) :
    markDone k (markDone k es) = markDone k es := by
  induction es with
  | nil => rfl
  | cons e es ih =>
    by_cases hk : e.key = k
    · simp [markDone, hk]
    · simp [markDone, hk, ih]

theorem filter_markDone_self (k : Text) (es : List Setting) :
    (markDone k es).filter (·.key = k) = markDone k (es.filter (·.key = k)) := by
  induction es with
  | nil => rfl
  | cons e es ih =>
    by_cases hk : e.key = k
    · simp [markDone, hk]
    · simp [markDone, hk, ih]

theorem filter_markDone_of_ne {k k' : Text} (hne : k' ≠ k) (es : List Setting) :
    (markDone k' es).filter (·.key = k) = es.filter (·.key = k) := by
  induction es with
  | nil => rfl
  | cons e es ih =>
    by_cases hk : e.key = k'
    · simp [markDone, hk, hne]
    · simp [markDone, hk, List.filter_cons, ih]

end Setting

/-- The settings of a key: a line of it takes the first of them. -/
theorem filter_rewriteLines {k : Text} (hk : k ≠ []) (es : List Setting) (ls : List Text) :
    (rewriteLines es ls).1.filter (·.key = k) =
      if ∃ l ∈ ls, lineKey l = k then Setting.markDone k (es.filter (·.key = k))
      else es.filter (·.key = k) := by
  induction ls generalizing es with
  | nil => rw [if_neg (by simp)]; rfl
  | cons l ls ih =>
    by_cases hl : lineKey l = k
    · have hline : ∃ l' ∈ l :: ls, lineKey l' = k := ⟨l, List.mem_cons_self, hl⟩
      have hself : settingOf k es = es.find? (·.key = k) := if_neg hk
      rw [if_pos hline, rewriteLines, hl, hself]
      cases hfind : es.find? (·.key = k) with
      | none =>
        have hnil : es.filter (·.key = k) = [] :=
          List.filter_eq_nil_iff.mpr (List.find?_eq_none.mp hfind)
        dsimp only
        rw [ih, hnil]
        exact ite_self _
      | some e =>
        dsimp only
        split
        · rename_i hd
          rw [ih, ← Setting.filter_markDone_self, Setting.markDone_of_done hfind hd, ite_self]
        · dsimp only
          rw [ih, Setting.filter_markDone_self, Setting.markDone_markDone, ite_self]
    · have hline : (∃ l' ∈ l :: ls, lineKey l' = k) ↔ ∃ l' ∈ ls, lineKey l' = k := by simp [hl]
      rw [if_congr hline rfl rfl, rewriteLines]
      split
      · split
        · exact ih es
        · dsimp only
          rw [ih, Setting.filter_markDone_of_ne hl]
      · exact ih es

theorem mem_rewriteLines {es : List Setting} {ls : List Text} {e : Setting}
    (h : e ∈ (rewriteLines es ls).1) : ∃ e' ∈ es, e'.key = e.key ∧ e'.value = e.value := by
  induction ls generalizing es with
  | nil => exact ⟨e, h, rfl, rfl⟩
  | cons l ls ih =>
    unfold rewriteLines at h
    split at h
    · split at h
      · exact ih h
      · obtain ⟨e₁, hmem₁, hkey₁, hval₁⟩ := ih h
        obtain ⟨e₂, hmem₂, hkey₂, hval₂⟩ := Setting.mem_markDone hmem₁
        exact ⟨e₂, hmem₂, hkey₂.trans hkey₁, hval₂.trans hval₁⟩
    · exact ih h

theorem filter_settingsFor {k v : Text} {pre post : List (Text × Text)} (hk : k ≠ revisionKey)
    (hpost : ∀ p ∈ post, p.1 ≠ k) (revision : UInt32) :
    (settingsFor (pre ++ (k, v) :: post) revision).filter (·.key = k) =
      (pre.filter (·.1 = k)).map (fun p => ⟨p.1, p.2, false⟩) ++ [⟨k, v, false⟩] := by
  have hnil : post.filter (·.1 = k) = [] :=
    List.filter_eq_nil_iff.mpr fun p hp => by simpa using hpost p hp
  unfold settingsFor
  rw [List.filter_map]
  have hcomp : ((fun e : Setting => decide (e.key = k)) ∘
      fun p : Text × Text => (⟨p.1, p.2, false⟩ : Setting)) = fun p => decide (p.1 = k) := rfl
  rw [hcomp, List.filter_append, List.filter_append, List.filter_cons_of_pos (by simp), hnil,
    List.filter_cons_of_neg (by simpa using hk.symm)]
  simp

/-- Only what is given to the key counts. -/
theorem lastSaid_filter {f : Field} {k : Text} {ps : List (Text × Text)}
    (h : ∀ p ∈ ps, p.1 ≠ k → tells f p = none) :
    lastSaid f (ps.filter (·.1 = k)) = lastSaid f ps := by
  induction ps using List.reverseRecOn with
  | nil => rfl
  | append_singleton ps p ih =>
    have hps := ih fun q hq => h q (List.mem_append_left _ hq)
    rw [List.filter_append, lastSaid_append, lastSaid_concat, hps]
    by_cases hp : p.1 = k
    · rw [List.filter_cons_of_pos (by simpa using hp)]
      exact congrArg (Option.or · _) Option.or_none
    · rw [List.filter_cons_of_neg (by simpa using hp), h p (by simp) hp]
      rfl

/-- The value that is given last to a key stands behind all lines, if the key was given more than
one or has no line. -/
theorem lastSaid_rest {f : Field} {k v : Text} {pre post : List (Text × Text)}
    {revision : UInt32} {w : Value}
    (honly : OnlyKey f k (settingsFor (pre ++ (k, v) :: post) revision))
    (hk : k ≠ revisionKey) (hpost : ∀ p ∈ post, p.1 ≠ k) (hw : tells f (k, readBack v) = some w)
    (ls : List Text) :
    lastSaid f (((rewriteLines (settingsFor (pre ++ (k, v) :: post) revision) ls).1.filter
      (!·.done)).map fun e => (e.key, readBack e.value)) =
      if (∃ p ∈ pre, p.1 = k) ∨ ¬ ∃ l ∈ ls, lineKey l = k then some w else none := by
  have hne : k ≠ [] := by
    have hmem : (⟨k, v, false⟩ : Setting) ∈ settingsFor (pre ++ (k, v) :: post) revision :=
      List.mem_map.mpr ⟨(k, v), by simp, rfl⟩
    exact (honly.oneLine _ hmem).1.nonempty
  have hown := filter_rewriteLines hne (settingsFor (pre ++ (k, v) :: post) revision) ls
  rw [filter_settingsFor hk hpost] at hown
  generalize hr : rewriteLines (settingsFor (pre ++ (k, v) :: post) revision) ls = r at hown
  have hsilent : ∀ p ∈ (r.1.filter (!·.done)).map fun e => (e.key, readBack e.value),
      p.1 ≠ k → tells f p = none := by
    intro p hp hpk
    obtain ⟨e, he, rfl⟩ := List.mem_map.mp hp
    obtain ⟨e', hmem, hkey, -⟩ := mem_rewriteLines (hr ▸ List.mem_of_mem_filter he)
    exact hkey ▸ honly.silent e' hmem (hkey ▸ hpk) _
  rw [← lastSaid_filter hsilent, List.filter_map]
  have hcomp : ((fun p : Text × Text => decide (p.1 = k)) ∘
      fun e : Setting => (e.key, readBack e.value)) = fun e => decide (e.key = k) := rfl
  rw [hcomp, List.filter_comm, hown]
  cases hpre : pre.filter (·.1 = k) with
  | nil =>
    have hnone : ¬ ∃ p ∈ pre, p.1 = k := by
      rintro ⟨p, hp, hpk⟩
      simpa using List.filter_eq_nil_iff.mp hpre p hp (by simpa using hpk)
    by_cases hline : ∃ l ∈ ls, lineKey l = k
    · rw [if_pos hline, if_neg (by simp [hnone, hline])]
      simp [Setting.markDone, lastSaid]
    · rw [if_neg hline, if_pos (.inr hline)]
      simpa [lastSaid] using hw
  | cons p rest =>
    have hmem : p ∈ pre ∧ p.1 = k := by
      have h := List.mem_filter.mp (hpre ▸ List.mem_cons_self (a := p) (l := rest))
      exact ⟨h.1, by simpa using h.2⟩
    refine Eq.trans ?_ (if_pos (.inl ⟨p, hmem⟩)).symm
    have hlast (front : List Setting) : lastSaid f (((front ++ [(⟨k, v, false⟩ : Setting)]).filter
        (!·.done)).map fun e => (e.key, readBack e.value)) = some w := by
      rw [List.filter_append, List.map_append]
      exact (lastSaid_concat f _ (k, readBack v)).trans (by rw [hw, Option.some_or])
    split
    · simp only [List.map_cons, List.cons_append, Setting.markDone, hmem.2, if_true]
      exact hlast (_ :: _)
    · exact hlast _

/-- What the file says of a member after a value has been committed to a key of it. -/
theorem lastSaid_rewriteConfigText {f : Field} {k v : Text} {pre post : List (Text × Text)}
    {revision : UInt32} {w : Value}
    (honly : OnlyKey f k (settingsFor (pre ++ (k, v) :: post) revision))
    (hk : k ≠ revisionKey) (hpost : ∀ p ∈ post, p.1 ≠ k) (hw : tells f (k, readBack v) = some w)
    (text : Text) :
    lastSaid f (configLines (rewriteConfigText text (pre ++ (k, v) :: post) revision)) =
      if ∃ p ∈ pre, p.1 = k then some w
      else (saidBy f (behind k (split '\n' text))).or (some w) := by
  rw [configLines_rewriteConfigText honly.oneLine, lastSaid_append,
    lastSaid_rest honly hk hpost hw]
  by_cases hpre : ∃ p ∈ pre, p.1 = k
  · rw [if_pos hpre, if_pos (.inl hpre), Option.some_or]
  · by_cases hline : ∃ l ∈ split '\n' text, lineKey l = k
    · have hfind : settingFor k (settingsFor (pre ++ (k, v) :: post) revision) =
          some ⟨k, v, false⟩ := by
        unfold settingFor
        rw [← List.head?_filter, filter_settingsFor hk hpost]
        have hnil : pre.filter (·.1 = k) = [] :=
          List.filter_eq_nil_iff.mpr fun p hp => by simpa using fun h => hpre ⟨p, hp, h⟩
        rw [hnil]
        rfl
      rw [if_neg hpre, if_neg (by simp [hpre, hline]), Option.none_or]
      exact honly.saidBy_of_line hfind rfl hw hline
    · have hbehind : behind k (split '\n' text) = [] := by
        unfold behind
        rw [List.dropWhile_eq_nil_iff.mpr fun l hl => by simpa using fun h => hline ⟨l, hl, h⟩]
        rfl
      rw [if_neg hpre, if_pos (.inr hline), hbehind]
      rfl

end Machino
