import Machino.Compat.MigrationReport

namespace Machino.Compat

open Lines

def copiedKeys : List String :=
  ["video.fps", "video.bitrate", "video.1.fps", "video.1.bitrate", "rtsp.port", "watchdog.enabled",
    "watchdog.timeout", "audio.enabled", "audio.output_enabled", "audio.volume",
    "audio.output_volume", "audio.srate"]

/-- The values that a rule writes without looking at more than a word or a flag. -/
def fixedValues : List (String × String) :=
  [("image.hflip", "0"), ("image.hflip", "1"), ("image.vflip", "0"), ("image.vflip", "1"),
    ("video.rc_mode", "cbr"), ("video.rc_mode", "vbr"), ("video.rc_mode", "fixqp"),
    ("video.1.enabled", "true"), ("video.1.enabled", "false"), ("jpeg.quality", "99"),
    ("ai.enabled", "true"), ("ai.enabled", "false"), ("ai.detector", "motion"),
    ("audio.srate", "8000"), ("audio.srate", "16000"), ("night.light_monitor", "true"),
    ("night.light_monitor", "false"), ("night.color_to_gray", "true"),
    ("night.color_to_gray", "false")]

/-- The keys that are given a number within bounds. -/
def numberKeys : List (String × Int × Int) :=
  [("latency.gop", 1, 1000), ("video.1.gop", 1, 1000), ("log.level", 0, 3),
    ("jpeg.quality", 1, 99)] ++ imageScale.map fun p => (p.2, 0, 255)

/-- The rules write the loader's keys, as they are read off the tables of both sides. -/
theorem keys_fit : (∀ k ∈ copiedKeys, CopiedKey k.toList) ∧
    (∀ p ∈ fixedValues, Certain p.1.toList p.2.toList) ∧
    ∀ p ∈ numberKeys, IntKey p.2.1 p.2.2 p.1.toList := by
  simp only [CopiedKey, Certain, IntKey, means, said, rowOf_toList]
  decide +kernel

theorem copiedKey_of_mem : ∀ k ∈ copiedKeys, CopiedKey k.toList := keys_fit.1

theorem certain_of_mem : ∀ p ∈ fixedValues, Certain p.1.toList p.2.toList := keys_fit.2.1

theorem intKey_of_mem : ∀ p ∈ numberKeys, IntKey p.2.1 p.2.2 p.1.toList := keys_fit.2.2

section rules

variable {sk sv : Text}

theorem mapGop_spec (kv : List (Text × Text)) (fpsKey : String) {target : Text}
    (hk : IntKey 1 1000 target) : Spec sv (mapGop sk sv kv fpsKey target) true := by
  unfold mapGop
  split
  · exact .dropped rfl
  · split
    · exact .dropped rfl
    · split
      · exact .dropped rfl
      · split
        · exact .dropped rfl
        · exact .converted (hk.certain (by omega) (by decide) (by decide)) _

theorem mapSize_spec {wkey hkey : Text} (hw : GoodKey wkey) (hh : GoodKey hkey)
    (hnw : wkey ∉ nightKeys) (hnh : hkey ∉ nightKeys) :
    Spec sv (mapSize sk sv wkey hkey) (takenSize sv wkey hkey) := by
  rw [mapSize, takenSize]
  cases sizeOf sv with
  | none => exact .dropped rfl
  | some p =>
    have hloads {key : Text} (hn : key ∉ nightKeys) (n : Int) :
        loads key (Text.ofInt n) = (means (key, Text.ofInt n)).isSome := by
      rw [loads, (clean_ofInt n).trim_eq, means_of_loader hn, Option.isSome_map]
    dsimp only
    rw [hloads hnw, hloads hnh]
    exact .pair rfl rfl rfl hw hh (clean_ofInt p.1) (clean_ofInt p.2)

theorem mapImage_spec (leaf : Text) : Spec sv (mapImage sk sv leaf) true := by
  unfold mapImage
  split
  · refine .converted ?_ _
    cases isTruthy sv with
    | false => exact certain_of_mem ("image.hflip", "0") (by decide)
    | true => exact certain_of_mem ("image.hflip", "1") (by decide)
  · split
    · refine .converted ?_ _
      cases isTruthy sv with
      | false => exact certain_of_mem ("image.vflip", "0") (by decide)
      | true => exact certain_of_mem ("image.vflip", "1") (by decide)
    · split
      · exact .dropped rfl
      · rename_i p hp
        have hk : IntKey 0 255 p.2.toList := intKey_of_mem (p.2, 0, 255)
          (List.mem_append_right _ (List.mem_map.mpr ⟨p, List.mem_of_find?_eq_some hp, rfl⟩))
        split
        · exact .dropped rfl
        · refine .converted (hk.certain ?_ (by decide) (by decide)) _
          unfold scale100To255
          omega

theorem certain_rcModes {l : Text} (h : l = "cbr".toList ∨ l = "vbr".toList ∨ l = "fixqp".toList) :
    Certain "video.rc_mode".toList l := by
  rcases h with rfl | rfl | rfl
  · exact certain_of_mem ("video.rc_mode", "cbr") (by decide)
  · exact certain_of_mem ("video.rc_mode", "vbr") (by decide)
  · exact certain_of_mem ("video.rc_mode", "fixqp") (by decide)

theorem mapRateControl_spec : Spec sv (mapRateControl sk sv "video.rc_mode".toList) true := by
  unfold mapRateControl
  dsimp only
  split
  · rename_i h
    exact .mapped (certain_rcModes h)
  · split
    · exact .converted (certain_of_mem ("video.rc_mode", "vbr") (by decide)) _
    · exact .dropped rfl

/-- No key of the second stream's rate control is known to the loader. -/
theorem mapRateControl_sub_spec :
    Spec sv (mapRateControl sk sv "video.1.rc_mode".toList)
      (lower sv ∉ ["cbr", "vbr", "fixqp", "avbr"].map String.toList) := by
  have hkey : GoodKey "video.1.rc_mode".toList := by decide
  have hnone (v : Text) : (means ("video.1.rc_mode".toList, v)).isSome = false := by
    have hrow : rowOf "video.1.rc_mode".toList = none := by
      rw [rowOf_toList]
      simp [rows]
    rw [means_of_loader (by decide), said]
    dsimp only
    rw [hrow]
    rfl
  unfold mapRateControl
  dsimp only
  split
  · rename_i h
    have hin : lower sv ∈ ["cbr", "vbr", "fixqp", "avbr"].map String.toList := by
      rcases h with h | h | h <;> rw [h] <;> decide
    rw [decide_eq_false (not_not.mpr hin), ← hnone (lower sv)]
    exact .clean rfl hkey (certain_rcModes h).2.1
  · rename_i h3
    split
    · rename_i h
      rw [h, decide_eq_false (by decide), ← hnone "vbr".toList]
      exact .clean rfl hkey (show Clean "vbr".toList by decide)
    · rename_i h
      have hout : lower sv ∉ ["cbr", "vbr", "fixqp", "avbr"].map String.toList := by
        simp only [List.map, List.mem_cons, List.not_mem_nil, or_false]
        tauto
      rw [decide_eq_true hout]
      exact .dropped rfl

theorem mapVideo_spec (leaf : Text) (subStream : Bool) :
    Spec sv (mapVideo sk sv leaf subStream) (takenVideo sv leaf subStream) := by
  unfold mapVideo takenVideo
  dsimp only
  split
  · cases subStream with
    | false => exact .copied (copiedKey_of_mem "video.fps" (by decide))
    | true => exact .copied (copiedKey_of_mem "video.1.fps" (by decide))
  · split
    · cases subStream with
      | false => exact .copied (copiedKey_of_mem "video.bitrate" (by decide))
      | true => exact .copied (copiedKey_of_mem "video.1.bitrate" (by decide))
    · split
      · exact mapSize_spec (by cases subStream <;> decide) (by cases subStream <;> decide)
          (by cases subStream <;> decide) (by cases subStream <;> decide)
      · split
        · cases subStream with
          | false => exact mapRateControl_spec
          | true => exact mapRateControl_sub_spec
        · split
          · split
            · exact .dropped rfl
            · exact .dropped rfl
          · split
            · split
              · refine .mapped ?_
                cases isTruthy sv with
                | false => exact certain_of_mem ("video.1.enabled", "false") (by decide)
                | true => exact certain_of_mem ("video.1.enabled", "true") (by decide)
              · split
                · exact .dropped rfl
                · exact .dropped rfl
            · exact .dropped rfl

theorem mapLogLevel_spec : Spec sv (mapLogLevel sk sv) true := by
  unfold mapLogLevel
  dsimp only
  have hk : IntKey 0 3 "log.level".toList := intKey_of_mem ("log.level", 0, 3) (by decide)
  refine .converted (hk.certain ?_ (by decide) (by decide)) _
  split_ifs <;> decide

theorem mapJpeg_spec (leaf : Text) : Spec sv (mapJpeg sk sv leaf) true := by
  unfold mapJpeg
  split
  · split
    · exact .dropped rfl
    · split
      · exact .converted (certain_of_mem ("jpeg.quality", "99") (by decide)) _
      · have hk : IntKey 1 99 "jpeg.quality".toList :=
          intKey_of_mem ("jpeg.quality", 1, 99) (by decide)
        exact .mapped (hk.certain (by omega) (by decide) (by decide))
  · exact .dropped rfl

theorem mapMotion_spec (leaf : Text) : Spec sv (mapMotion sk sv leaf) true := by
  unfold mapMotion
  split
  · split
    · have hpair : Spec sv (converted sk sv "ai.enabled,ai.detector".toList "true,motion".toList
          "mapped to machino detection (IMP_IVS motion)".toList)
          ((means ("ai.enabled".toList, "true".toList)).isSome &&
            (means ("ai.detector".toList, "motion".toList)).isSome) :=
        .pair rfl rfl rfl (by decide) (by decide) (by decide) (by decide)
      rwa [(certain_of_mem ("ai.enabled", "true") (by decide)).2.2,
        (certain_of_mem ("ai.detector", "motion") (by decide)).2.2] at hpair
    · exact .converted (certain_of_mem ("ai.enabled", "false") (by decide)) _
  · exact .dropped rfl

theorem mapWatchdog_spec (leaf : Text) :
    Spec sv (mapWatchdog sk sv leaf) (takenWatchdog sv leaf) := by
  unfold mapWatchdog takenWatchdog
  split
  · exact .copied (copiedKey_of_mem "watchdog.enabled" (by decide))
  · split
    · exact .copied (copiedKey_of_mem "watchdog.timeout" (by decide))
    · exact .dropped rfl

theorem mapVolume_spec {key : Text} (hk : CopiedKey key) :
    Spec sv (mapVolume sk sv key) (takenVolume sv key) := by
  rw [mapVolume, takenVolume]
  cases toInt sv with
  | none => exact .dropped rfl
  | some v =>
    dsimp only
    split
    · rename_i h
      have hout : (v < 0 || 100 < v || loads key sv) = true := by
        rcases h with h | h <;> simp [h]
      rw [hout]
      exact .dropped rfl
    · rename_i h
      have hin : (v < 0 || 100 < v || loads key sv) = loads key sv := by
        rw [not_or] at h
        simp [h]
      rw [hin]
      exact .copied hk

theorem mapSrate_spec : Spec sv (mapSrate sk sv) (takenSrate sv) := by
  rw [mapSrate, takenSrate]
  cases toInt sv with
  | none => exact .dropped rfl
  | some v =>
    dsimp only
    split
    · rename_i h
      have hrate : (v ≠ 8000 && v ≠ 16000 || loads "audio.srate".toList sv) =
          loads "audio.srate".toList sv := by
        rcases h with rfl | rfl <;> simp
      rw [hrate]
      exact .copied (copiedKey_of_mem "audio.srate" (by decide))
    · rename_i h
      have hother : (v ≠ 8000 && v ≠ 16000 || loads "audio.srate".toList sv) = true := by
        rw [not_or] at h
        simp [h]
      rw [hother]
      split
      · exact .converted (certain_of_mem ("audio.srate", "16000") (by decide)) _
      · exact .converted (certain_of_mem ("audio.srate", "8000") (by decide)) _

theorem mapAudio_spec (leaf : Text) : Spec sv (mapAudio sk sv leaf) (takenAudio sv leaf) := by
  unfold mapAudio takenAudio
  split
  · exact .copied (copiedKey_of_mem "audio.enabled" (by decide))
  · split
    · exact .copied (copiedKey_of_mem "audio.output_enabled" (by decide))
    · split
      · exact mapVolume_spec (copiedKey_of_mem "audio.volume" (by decide))
      · split
        · exact mapVolume_spec (copiedKey_of_mem "audio.output_volume" (by decide))
        · split
          · exact mapSrate_spec
          · split
            · exact .dropped rfl
            · exact .dropped rfl

/-- The night service takes whatever there is. -/
theorem certain_delay {key : Text} (hk : GoodKey key) (hn : key = nightDelayKey ∨ key = dayDelayKey)
    (n : Int) : Certain key (Text.ofInt n) := by
  have h1 : key ≠ lightMonitorKey := by
    rcases hn with rfl | rfl
    · decide
    · decide
  have h2 : key ≠ colorToGrayKey := by
    rcases hn with rfl | rfl
    · decide
    · decide
  refine ⟨hk, clean_ofInt n, ?_⟩
  rw [means]
  dsimp only
  rw [nightSetting, if_neg h1, if_neg h2, if_pos hn]
  rfl

theorem mapDelay_spec {key : Text} (hk : GoodKey key)
    (hn : key = nightDelayKey ∨ key = dayDelayKey) : Spec sv (mapDelay sk sv key) true := by
  unfold mapDelay
  split
  · exact .dropped rfl
  · split
    · exact .dropped rfl
    · exact .mapped (certain_delay hk hn _)

theorem mapNight_spec (leaf : Text) : Spec sv (mapNight sk sv leaf) true := by
  unfold mapNight
  split
  · refine .mapped ?_
    cases isTruthy sv with
    | false => exact certain_of_mem ("night.light_monitor", "false") (by decide)
    | true => exact certain_of_mem ("night.light_monitor", "true") (by decide)
  · split
    · refine .mapped ?_
      cases isTruthy sv with
      | false => exact certain_of_mem ("night.color_to_gray", "false") (by decide)
      | true => exact certain_of_mem ("night.color_to_gray", "true") (by decide)
    · split
      · exact mapDelay_spec (by decide) (.inl rfl)
      · split
        · exact mapDelay_spec (by decide) (.inr rfl)
        · exact .dropped rfl

end rules

end Machino.Compat
