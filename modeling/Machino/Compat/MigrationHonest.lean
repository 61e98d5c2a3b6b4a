import Machino.Compat.MigrationRules

namespace Machino.Compat

open Lines

/-- The sections that anything is copied from. -/
def copiedSections : List Text :=
  ["video0", "video1", "rtsp", "watchdog", "audio"].map String.toList

theorem taken_of_not_mem {p : Text × Text} (h : lower (sectionOf p.1) ∉ copiedSections) :
    taken p = true := by
  have hne {s : String} (hs : s.toList ∈ copiedSections) : lower (sectionOf p.1) ≠ s.toList :=
    fun heq => h (heq ▸ hs)
  rw [taken]
  rw [if_neg (hne (by decide)), if_neg (hne (by decide)), if_neg (hne (by decide)),
    if_neg (hne (by decide)), if_neg (hne (by decide))]

theorem mapOne_spec (kv : List (Text × Text)) (p : Text × Text) :
    Spec p.2 (mapOne kv p) (taken p) := by
  have hfree {s : Text} (h : lower (sectionOf p.1) = s) (hs : s ∉ copiedSections) :
      taken p = true := taken_of_not_mem (h ▸ hs)
  unfold mapOne
  by_cases h : lower (sectionOf p.1) = "system".toList
  · rw [if_pos h, hfree h (by decide)]
    split
    · exact mapLogLevel_spec
    · exact .dropped rfl
  rw [if_neg h]
  by_cases h : lower (sectionOf p.1) = "isp".toList
  · rw [if_pos h, hfree h (by decide)]
    exact .dropped rfl
  rw [if_neg h]
  by_cases h : lower (sectionOf p.1) = "image".toList
  · rw [if_pos h, hfree h (by decide)]
    exact mapImage_spec _
  rw [if_neg h]
  by_cases h0 : lower (sectionOf p.1) = "video0".toList
  · rw [if_pos h0, taken, if_pos h0]
    split
    · rename_i hg
      rw [hg]
      exact mapGop_spec _ _ (intKey_of_mem ("latency.gop", 1, 1000) (by decide))
    · exact mapVideo_spec _ _
  rw [if_neg h0]
  by_cases h1 : lower (sectionOf p.1) = "video1".toList
  · rw [if_pos h1, taken, if_neg h0, if_pos h1]
    split
    · rename_i hg
      rw [hg]
      exact mapGop_spec _ _ (intKey_of_mem ("video.1.gop", 1, 1000) (by decide))
    · exact mapVideo_spec _ _
  rw [if_neg h1]
  by_cases h2 : lower (sectionOf p.1) = "rtsp".toList
  · rw [if_pos h2, taken, if_neg h0, if_neg h1, if_pos h2]
    split
    · exact .copied (copiedKey_of_mem "rtsp.port" (by decide))
    · split
      · exact .dropped rfl
      · exact .dropped rfl
  rw [if_neg h2]
  by_cases h : lower (sectionOf p.1) = "jpeg".toList
  · rw [if_pos h, hfree h (by decide)]
    exact mapJpeg_spec _
  rw [if_neg h]
  by_cases h : lower (sectionOf p.1) = "motiondetect".toList
  · rw [if_pos h, hfree h (by decide)]
    exact mapMotion_spec _
  rw [if_neg h]
  by_cases h3 : lower (sectionOf p.1) = "watchdog".toList
  · rw [if_pos h3, taken, if_neg h0, if_neg h1, if_neg h2, if_pos h3]
    exact mapWatchdog_spec _
  rw [if_neg h3]
  by_cases h4 : lower (sectionOf p.1) = "audio".toList
  · rw [if_pos h4, taken, if_neg h0, if_neg h1, if_neg h2, if_neg h3, if_pos h4]
    exact mapAudio_spec _
  rw [if_neg h4, taken, if_neg h0, if_neg h1, if_neg h2, if_neg h3, if_neg h4]
  -- nothing is copied from the sections that are left
  split
  · exact .dropped rfl
  · split
    · exact .dropped rfl
    · split
      · exact .dropped rfl
      · split
        · exact .dropped rfl
        · split
          · exact mapNight_spec _
          · exact .dropped rfl

theorem structuralEntry_reported (key : Text) : (structuralEntry key).reported = [] :=
  reported_of_not_carried rfl

theorem structuralEntry_config (key : Text) : (structuralEntry key).config = [] :=
  if_neg (by rintro ⟨h, -⟩; cases h)

/-- The leaf that an entry with something to report is of. -/
theorem exists_leaf {flat : Flat} {e : MigrationEntry} (he : e ∈ (run flat).entries)
    {x : Text × Text} (hx : x ∈ e.reported) : ∃ p ∈ flat.kv, e = mapOne flat.kv p := by
  rcases List.mem_append.mp he with he | he
  · obtain ⟨p, hp, rfl⟩ := List.mem_map.mp he
    exact ⟨p, hp, rfl⟩
  · obtain ⟨key, -, rfl⟩ := List.mem_map.mp he
    rw [structuralEntry_reported] at hx
    exact absurd hx List.not_mem_nil

theorem mem_config {flat : Flat} {l : Text × Text} :
    l ∈ (run flat).config ↔ ∃ p ∈ flat.kv, l ∈ (mapOne flat.kv p).config := by
  unfold MigrationResult.config run
  dsimp only
  rw [List.flatMap_append, List.mem_append, List.mem_flatMap, List.mem_flatMap]
  constructor
  · rintro (⟨e, he, hl⟩ | ⟨e, he, hl⟩)
    · obtain ⟨p, hp, rfl⟩ := List.mem_map.mp he
      exact ⟨p, hp, hl⟩
    · obtain ⟨key, -, rfl⟩ := List.mem_map.mp he
      rw [structuralEntry_config] at hl
      exact absurd hl List.not_mem_nil
  · rintro ⟨p, hp, hl⟩
    exact .inl ⟨_, List.mem_map.mpr ⟨p, hp, rfl⟩, hl⟩

/-- The lines of an entry whose values are taken mean what it reports. -/
theorem Spec.lines {sv : Text} {e : MigrationEntry} (h : Spec sv e true) :
    (∀ l ∈ e.config, WellFormed l.1 ∧
      ∃ x ∈ e.reported, x.1 = l.1 ∧ means (l.1, readBack l.2) = means x) ∧
    ∀ x ∈ e.reported, ∃ l ∈ e.config, x.1 = l.1 ∧ means (l.1, readBack l.2) = means x := by
  have hsome := h.fits.mpr rfl
  cases h.shape with
  | copied key hk hrep hconf =>
    rw [hrep, List.forall_mem_singleton] at hsome
    have hmeans : means (key, written sv) = means (key, trim sv) := by
      rw [← written_trim]
      exact hk.read_written (trim_trim sv) hsome
    rw [hrep, hconf]
    refine ⟨fun l hl => ?_, fun x hx => ?_⟩
    · rw [List.mem_singleton.mp hl]
      exact ⟨hk.1.wellFormed, _, List.mem_singleton.mpr rfl, rfl, hmeans⟩
    · rw [List.mem_singleton.mp hx]
      exact ⟨_, List.mem_singleton.mpr rfl, rfl, hmeans⟩
  | clean hconf hclean =>
    rw [hconf]
    have hread {x : Text × Text} (hx : x ∈ e.reported) : means (x.1, readBack x.2) = means x := by
      rw [(hclean x hx).2.readBack_eq]
    exact ⟨fun l hl => ⟨(hclean l hl).1.wellFormed, l, hl, rfl, hread hl⟩,
      fun x hx => ⟨x, hx, rfl, hread hx⟩⟩

theorem Spec.free {sv : Text} {e : MigrationEntry} {t : Bool} (h : Spec sv e t)
    (hsv : '\n' ∉ sv) : ∀ l ∈ e.config, '\n' ∉ l.2 := by
  cases h.shape with
  | copied key hk hrep hconf =>
    rw [hconf, List.forall_mem_singleton]
    intro hm
    have hpiece := (trim_sublist _).subset hm
    rw [headD_splitCommas] at hpiece
    exact hsv ((List.takeWhile_prefix _).subset hpiece)
  | clean hconf hclean =>
    rw [hconf]
    exact fun l hl => (hclean l hl).2.not_mem (by decide)

theorem handed_comment (line : Text) : handed ('#' :: line) = none := rfl

theorem lineKey_comment (line : Text) : lineKey ('#' :: line) = [] := rfl

/-- The two lines at the head of the file. -/
theorem comments (r : MigrationResult) :
    ∀ l ∈ [confTitle, confSummary r], '\n' ∉ l ∧ ∃ line, l = '#' :: line := by
  have hnum (n : ℕ) : '\n' ∉ Text.ofNat n := not_mem_toDigits n
  rw [List.forall_mem_cons, List.forall_mem_singleton]
  refine ⟨⟨by decide, _, rfl⟩, ?_, ?_⟩
  · unfold confSummary
    simp only [List.mem_append, not_or]
    refine ⟨⟨⟨⟨⟨⟨⟨⟨?_, hnum _⟩, ?_⟩, hnum _⟩, ?_⟩, hnum _⟩, ?_⟩, hnum _⟩, ?_⟩ <;> decide
  · unfold confSummary
    simp only [List.append_assoc]
    exact ⟨_, rfl⟩

section loaded

variable {flat : Flat} (hfree : ∀ p ∈ flat.kv, '\n' ∉ p.2) (hsound : Sound flat.kv)

include hsound in
theorem spec_of_sound {p : Text × Text} (hp : p ∈ flat.kv) : Spec p.2 (mapOne flat.kv p) true :=
  hsound.taken p hp ▸ mapOne_spec flat.kv p

include hfree hsound

theorem split_conf : split '\n' (toMachinoConf (run flat)) =
    [confTitle, confSummary (run flat)] ++
      (run flat).config.map fun p => assignment p.1 p.2 := by
  refine split_join fun l hl => ?_
  rcases List.mem_append.mp (show l ∈ [confTitle, confSummary (run flat)] ++ _ from hl) with hl | hl
  · exact (comments _ l hl).1
  · obtain ⟨x, hx, rfl⟩ := List.mem_map.mp hl
    obtain ⟨p, hp, hx⟩ := mem_config.mp hx
    have hspec := spec_of_sound hsound hp
    exact OneLine.not_mem (e := ⟨x.1, x.2, false⟩)
      ⟨(hspec.lines.1 x hx).1, hspec.free (hfree p hp) x hx⟩

omit hfree in
/-- Each line of the settings says what an entry reports. -/
theorem reported_of_config {l : Text × Text} (hl : l ∈ (run flat).config) : WellFormed l.1 ∧
    ∃ p ∈ flat.kv, ∃ x ∈ (mapOne flat.kv p).reported, means (l.1, readBack l.2) = means x := by
  obtain ⟨p, hp, hl⟩ := mem_config.mp hl
  obtain ⟨hwf, x, hx, -, hmeans⟩ := (spec_of_sound hsound hp).lines.1 l hl
  exact ⟨hwf, p, hp, x, hx, hmeans⟩

theorem configLines_conf : configLines (toMachinoConf (run flat)) =
    (run flat).config.map fun l => (l.1, readBack l.2) := by
  have hcomments : [confTitle, confSummary (run flat)].filterMap handed = [] := by
    rw [List.filterMap_eq_nil_iff]
    intro l hl
    obtain ⟨-, line, rfl⟩ := comments _ l hl
    exact handed_comment line
  rw [configLines, split_conf hfree hsound, List.filterMap_append, hcomments, List.nil_append,
    List.filterMap_map]
  rw [← List.filterMap_eq_map]
  refine List.filterMap_congr fun l hl => ?_
  exact handed_assignment (reported_of_config hsound hl).1 l.2

/-- What the store gives for a key that has a line. -/
theorem configTextGet_conf {key : Text} (hkey : key ≠ [])
    (h : ∃ l ∈ (run flat).config, l.1 = key) :
    ∃ l ∈ (run flat).config, l.1 = key ∧
      configTextGet (toMachinoConf (run flat)) key = readBack l.2 := by
  have hwf {l : Text × Text} (hl : l ∈ (run flat).config) : WellFormed l.1 :=
    (reported_of_config hsound hl).1
  unfold configTextGet
  rw [split_conf hfree hsound]
  obtain ⟨l₀, hl₀, hkey₀⟩ := h
  cases hfind : List.find? (fun x => decide (lineKey x = key)) _ with
  | none =>
    have hno := List.find?_eq_none.mp hfind (assignment l₀.1 l₀.2)
      (List.mem_append_right _ (List.mem_map.mpr ⟨l₀, hl₀, rfl⟩))
    rw [lineKey_assignment (hwf hl₀)] at hno
    exact absurd (decide_eq_true hkey₀) hno
  | some line =>
    have hline : lineKey line = key := by simpa using List.find?_some hfind
    rcases List.mem_append.mp (List.mem_of_find?_eq_some hfind) with hm | hm
    · obtain ⟨-, rest, rfl⟩ := comments _ line hm
      rw [lineKey_comment] at hline
      exact absurd hline.symm hkey
    · obtain ⟨l, hl, rfl⟩ := List.mem_map.mp hm
      rw [lineKey_assignment (hwf hl)] at hline
      exact ⟨l, hl, hline, lineValue_assignment (hwf hl) l.2⟩

end loaded

theorem lastSaid_of_agree {f : Field} {v : Value} {ps : List (Text × Text)}
    (hex : ∃ p ∈ ps, tells f p = some v) (hall : ∀ p ∈ ps, ∀ w, tells f p = some w → w = v) :
    lastSaid f ps = some v := by
  induction ps using List.reverseRecOn with
  | nil =>
    obtain ⟨p, hp, -⟩ := hex
    exact absurd hp List.not_mem_nil
  | append_singleton ps p ih =>
    rw [lastSaid_concat]
    cases hp : tells f p with
    | some w => rw [Option.some_or, hall p (List.mem_append_right _ (.head _)) w hp]
    | none =>
      rw [Option.none_or]
      refine ih ?_ fun q hq => hall q (List.mem_append_left _ hq)
      obtain ⟨q, hq, htells⟩ := hex
      rcases List.mem_append.mp hq with hq | hq
      · exact ⟨q, hq, htells⟩
      · rw [List.mem_singleton.mp hq, hp] at htells
        cases htells

theorem rowOf_night : ∀ k ∈ nightKeys, rowOf k = none := by
  have hkeys : nightKeys = ["night.light_monitor", "night.color_to_gray", "night.auto_night_delay",
      "night.auto_day_delay"].map String.toList := rfl
  rw [hkeys, List.forall_mem_map]
  simp only [rowOf_toList]
  decide

theorem key_of_path : ∀ r ∈ rows, r.field = .rtspPath → r.key.toList = pathKey := by
  decide +kernel

/-- What a line tells the loader is what it means. -/
theorem means_field {p : Text × Text} {f : Field} {v : Value} :
    means p = some (.field f, v) ↔ tells f p = some v := by
  obtain ⟨key, w⟩ := p
  unfold tells
  by_cases hn : key ∈ nightKeys
  · have hsaid : said (key, w) = none := by
      rw [said]
      dsimp only
      rw [rowOf_night key hn]
      rfl
    rw [hsaid, means]
    dsimp only
    cases hset : nightSetting key w with
    | none => simp [hsaid]
    | some u => simp
  · rw [means_of_loader hn]
    cases hsaid : said (key, w) with
    | none => simp
    | some q =>
      obtain ⟨g, u⟩ := q
      by_cases hg : g = f
      · simp [hg]
      · simp [hg]

theorem means_night {p : Text × Text} {k : Text} {v : Value} :
    means p = some (.night k, v) ↔ p.1 = k ∧ nightSetting k p.2 = some v := by
  unfold means
  cases hset : nightSetting p.1 p.2 with
  | none =>
    simp only [Option.map_eq_some_iff, Prod.mk.injEq, reduceCtorEq, false_and, and_false,
      exists_false, false_iff, not_and]
    rintro rfl
    simp [hset]
  | some u =>
    simp only [Option.some.injEq, Prod.mk.injEq, Place.night.injEq]
    constructor
    · rintro ⟨rfl, rfl⟩
      exact ⟨rfl, hset⟩
    · rintro ⟨rfl, hv⟩
      exact ⟨rfl, Option.some.inj (hset.symm.trans hv)⟩

theorem night_of_setting {k v : Text} {w : Value} (h : nightSetting k v = some w) :
    k ∈ nightKeys := by
  by_contra hn
  rw [nightSetting_eq_none hn] at h
  cases h

theorem nightKeys_ne_nil : ∀ k ∈ nightKeys, k ≠ [] := by decide

/-- A night key takes any text. -/
theorem isSome_nightSetting {k : Text} (hk : k ∈ nightKeys) (v : Text) :
    (nightSetting k v).isSome := by
  unfold nightSetting
  split
  · rfl
  · split
    · rfl
    · split
      · rfl
      · rename_i h1 h2 h3
        rw [not_or] at h3
        simp [nightKeys, h1, h2, h3] at hk

theorem key_of_said {p : Text × Text} {f : Field} {v : Value} (h : tells f p = some v)
    (hf : f = .rtspPath) : p.1 = pathKey := by
  unfold tells said at h
  obtain ⟨q, hq, hfield⟩ := Option.bind_eq_some_iff.mp h
  obtain ⟨r, hrow, hread⟩ := Option.bind_eq_some_iff.mp hq
  obtain ⟨u, -, rfl⟩ := Option.map_eq_some_iff.mp hread
  have hr : r.field = .rtspPath := by
    split at hfield
    · rename_i heq
      exact heq.trans hf
    · cases hfield
  rw [← key_of_path r (List.mem_of_find?_eq_some hrow) hr]
  have hkey : r.key.toList = p.1 := by simpa using List.find?_some hrow
  exact hkey.symm

/-- No entry is for the path. -/
theorem Spec.not_path {sv : Text} {e : MigrationEntry} {t : Bool} (h : Spec sv e t) :
    ∀ x ∈ e.reported, x.1 ≠ pathKey := by
  cases h.shape with
  | copied key hk hrep _ =>
    rw [hrep, List.forall_mem_singleton]
    exact hk.1.2.2.2
  | clean _ hclean => exact fun x hx => (hclean x hx).1.2.2.2

section main

variable {flat : Flat}

theorem sound_of_honest {c : AppConfig} (h : Honest (run flat) c) : Sound flat.kv := by
  have hentry {p : Text × Text} (hp : p ∈ flat.kv) : mapOne flat.kv p ∈ (run flat).entries :=
    List.mem_append_left _ (List.mem_map.mpr ⟨p, hp, rfl⟩)
  constructor
  · intro p hp
    refine (mapOne_spec flat.kv p).fits.mp fun x hx => ?_
    obtain ⟨q, hq, -⟩ := h _ (hentry hp) x hx
    rw [hq]
    rfl
  · intro p hp p' hp' x hx x' hx' q q' hq hq' hplace
    obtain ⟨r, hr, hset⟩ := h _ (hentry hp) x hx
    obtain ⟨r', hr', hset'⟩ := h _ (hentry hp') x' hx'
    obtain rfl := Option.some.inj (hq.symm.trans hr)
    obtain rfl := Option.some.inj (hq'.symm.trans hr')
    rw [hplace, hset'] at hset
    exact (Option.some.inj hset).symm

theorem honest_of_sound (hfree : ∀ p ∈ flat.kv, '\n' ∉ p.2) (hsound : Sound flat.kv)
    (c : AppConfig) : Honest (run flat) c := by
  intro e he x hx
  obtain ⟨p, hp, rfl⟩ := exists_leaf he hx
  have hspec := spec_of_sound hsound hp
  obtain ⟨l₀, hl₀, hkey, hl₀x⟩ := hspec.lines.2 x hx
  have hl₀ : l₀ ∈ (run flat).config := mem_config.mpr ⟨p, hp, hl₀⟩
  obtain ⟨⟨place, v⟩, hq⟩ := Option.isSome_iff_exists.mp (hspec.fits.mpr rfl x hx)
  -- every line that says something of the setting says this
  have hall : ∀ l ∈ (run flat).config, ∀ w,
      means (l.1, readBack l.2) = some (place, w) → w = v := by
    intro l hl w hw
    obtain ⟨-, p', hp', x', hx', hmeans⟩ := reported_of_config hsound hl
    rw [hmeans] at hw
    exact hsound.agree p' hp' p hp x' hx' x hx _ _ hw hq rfl
  refine ⟨_, hq, ?_⟩
  rw [hq] at hl₀x
  cases place with
  | field f =>
    have htells := means_field.mp hl₀x
    have hf : f ≠ .rtspPath := by
      intro hf
      have hpath := key_of_said htells hf
      exact hspec.not_path x hx (hkey.trans hpath)
    have hlast : lastSaid f (configLines (toMachinoConf (run flat))) = some v := by
      rw [configLines_conf hfree hsound]
      refine lastSaid_of_agree ⟨_, List.mem_map.mpr ⟨l₀, hl₀, rfl⟩, htells⟩ fun l hl w hw => ?_
      obtain ⟨l', hl', rfl⟩ := List.mem_map.mp hl
      exact hall l' hl' w (means_field.mpr hw)
    change some _ = some v
    rw [value_parseConfigText hf, hlast]
    rfl
  | night k =>
    obtain ⟨hk, hset⟩ := means_night.mp hl₀x
    have hnight := night_of_setting hset
    obtain ⟨l, hl, hlk, hget⟩ :=
      configTextGet_conf hfree hsound (nightKeys_ne_nil k hnight) ⟨l₀, hl₀, hk⟩
    obtain ⟨w, hw⟩ := Option.isSome_iff_exists.mp (isSome_nightSetting hnight (readBack l.2))
    have hwv := hall l hl w (means_night.mpr ⟨hlk, hw⟩)
    change nightSetting k _ = some v
    rw [hget, hw, hwv]

end main

/-- The report is true of a document just when every value that is copied is one its key takes and
no two leaves say different things of one setting. -/
theorem honest_iff {text : Text} {r : MigrationResult} (h : migrateMajesticYaml text = .ok r)
    (c : AppConfig) : Honest r c ↔ Sound (parseYamlFlat text).kv := by
  have hr : r = run (parseYamlFlat text) := by
    unfold migrateMajesticYaml at h
    split at h
    · cases h
    · dsimp only at h
      split at h
      · cases h
      · exact (Except.ok.inj h).symm
  rw [hr]
  exact ⟨sound_of_honest, fun hsound => honest_of_sound (parseYamlFlat_free text) hsound c⟩

/-- A size that becomes two settings, a rate as it stands, and a level that is converted. -/
def cameraYaml : Text :=
  "video0:\n  size: 1280x720\n  fps: 25\nsystem:\n  logLevel: debug\n".toList

def cameraLeaves : List (Text × Text) :=
  [("video0.size".toList, "1280x720".toList), ("video0.fps".toList, "25".toList),
    ("system.logLevel".toList, "debug".toList)]

theorem kv_cameraYaml : (parseYamlFlat cameraYaml).kv = cameraLeaves := by decide +kernel

theorem honest_iff_camera :
    ((run (parseYamlFlat cameraYaml)).entries.flatMap MigrationEntry.reported).length = 4 ∧
      Honest (run (parseYamlFlat cameraYaml)) AppConfig.initial := by
  have hok : migrateMajesticYaml cameraYaml = .ok (run (parseYamlFlat cameraYaml)) := by
    rw [migrateMajesticYaml, if_neg (by decide +kernel)]
    dsimp only
    rw [if_neg (by decide +kernel)]
  refine ⟨by decide +kernel, (honest_iff hok .initial).mpr ?_⟩
  rw [kv_cameraYaml]
  have hagree : ∀ p ∈ cameraLeaves, ∀ p' ∈ cameraLeaves,
      ∀ x ∈ (mapOne cameraLeaves p).reported, ∀ x' ∈ (mapOne cameraLeaves p').reported,
        ∀ q ∈ means x, ∀ q' ∈ means x', q.1 = q'.1 → q.2 = q'.2 := by decide +kernel
  exact ⟨by decide +kernel, fun p hp p' hp' x hx x' hx' q q' hq hq' =>
    hagree p hp p' hp' x hx x' hx' q hq q' hq'⟩

def fpsYaml (fps : String) : Text := "video0:\n  fps: ".toList ++ fps.toList ++ ['\n']

/-- A rate that no sensor has is reported as carried over, and the loader leaves it out. -/
theorem not_honest : ¬∀ (text : Text) (r : MigrationResult) (c : AppConfig),
    migrateMajesticYaml text = .ok r → Honest r c := by
  intro h
  have hok : migrateMajesticYaml (fpsYaml "200") = .ok (run (parseYamlFlat (fpsYaml "200"))) := by
    rw [migrateMajesticYaml, if_neg (by decide)]
    dsimp only
    rw [if_neg (by decide +kernel)]
  obtain ⟨q, hq, -⟩ := h _ _ .initial hok
    (mapped "video0.fps".toList "200".toList "video.fps".toList "200".toList) (by decide +kernel)
    ("video.fps".toList, "200".toList) (by decide +kernel)
  have hnone : means ("video.fps".toList, "200".toList) = none := by decide +kernel
  rw [hnone] at hq
  cases hq

end Machino.Compat
