import Machino.Compat.MigrationValues

namespace Machino.Compat

open Lines

/-- A delay in seconds, as the night service reads it. -/
def secs (v : Text) : Int :=
  if v = [] then 3
  else
    let n := Text.atoi (Text.cString v)
    if 0 ≤ n ∧ n ≤ 3600 then n else 3

def lightMonitorKey : Text := "night.light_monitor".toList

def colorToGrayKey : Text := "night.color_to_gray".toList

def nightDelayKey : Text := "night.auto_night_delay".toList

def dayDelayKey : Text := "night.auto_day_delay".toList

/-- The night service reads its own keys in the store; the loader leaves them to it. -/
def nightSetting (key v : Text) : Option Value :=
  if key = lightMonitorKey then some (.bool (v = "true".toList))
  else if key = colorToGrayKey then some (.bool (v ≠ "false".toList))
  else if key = nightDelayKey ∨ key = dayDelayKey then some (.int (secs v))
  else none

/-- Who holds a setting: the configuration, or the night service. -/
inductive Place where
  | field (f : Field)
  | night (key : Text)
  deriving DecidableEq

/-- What a key and a value say, unless nobody takes them. -/
def means (p : Text × Text) : Option (Place × Value) :=
  match nightSetting p.1 p.2 with
  | some v => some (.night p.1, v)
  | none => (said p).map fun q => (.field q.1, q.2)

/-- What is in force once the file has been loaded over a configuration. -/
def settled (conf : Text) (c : AppConfig) : Place → Option Value
  | .field f => some ((parseConfigText conf c).value f)
  | .night key => nightSetting key (configTextGet conf key)

/-- The keys of an entry with their values; a comma in the value means something only where there
is one in the key. -/
def MigrationEntry.reported (e : MigrationEntry) : List (Text × Text) :=
  if e.carried = false then []
  else if ',' ∈ e.targetKey then
    ((splitCommas e.targetKey).zip (splitCommas e.value)).map fun p => (trim p.1, trim p.2)
  else [(e.targetKey, trim e.value)]

/-- Every value that is reported is taken and in force. -/
def Honest (r : MigrationResult) (c : AppConfig) : Prop :=
  ∀ e ∈ r.entries, ∀ p ∈ e.reported,
    ∃ q, means p = some q ∧ settled (toMachinoConf r) c q.1 = some q.2

/-- The loader takes the value for the key. -/
def loads (key val : Text) : Bool := (said (key, trim val)).isSome

section taken

variable (sv : Text)

def takenSize (wkey hkey : Text) : Bool :=
  match sizeOf sv with
  | none => true
  | some (w, h) => loads wkey (Text.ofInt w) && loads hkey (Text.ofInt h)

/-- There is no rate control of the second stream to load. -/
def takenVideo (leaf : Text) (subStream : Bool) : Bool :=
  let vp := (if subStream then "video.1." else "video.").toList
  if leaf = "fps".toList then loads (vp ++ "fps".toList) sv
  else if leaf = "bitrate".toList then loads (vp ++ "bitrate".toList) sv
  else if leaf = "size".toList then takenSize sv (vp ++ "width".toList) (vp ++ "height".toList)
  else if leaf = "rcmode".toList ∨ leaf = "rc".toList then
    !subStream || lower sv ∉ ["cbr", "vbr", "fixqp", "avbr"].map String.toList
  else true

/-- A number to base 10 may be none to the loader, which looks for its base. -/
def takenVolume (key : Text) : Bool :=
  match toInt sv with
  | none => true
  | some v => v < 0 || 100 < v || loads key sv

def takenSrate : Bool :=
  match toInt sv with
  | none => true
  | some v => v ≠ 8000 && v ≠ 16000 || loads "audio.srate".toList sv

def takenAudio (leaf : Text) : Bool :=
  if leaf = "enabled".toList then loads "audio.enabled".toList sv
  else if leaf = "outputenabled".toList then loads "audio.output_enabled".toList sv
  else if leaf = "volume".toList then takenVolume sv "audio.volume".toList
  else if leaf = "outputvolume".toList then takenVolume sv "audio.output_volume".toList
  else if leaf = "srate".toList then takenSrate sv
  else true

def takenWatchdog (leaf : Text) : Bool :=
  if leaf = "enabled".toList then loads "watchdog.enabled".toList sv
  else if leaf = "timeout".toList then loads "watchdog.timeout".toList sv
  else true

end taken

/-- What is copied as it stands has to be a value that its key takes. -/
def taken (p : Text × Text) : Bool :=
  let sec := lower (sectionOf p.1)
  let leaf := lower (leafOf p.1)
  if sec = "video0".toList then takenVideo p.2 leaf false
  else if sec = "video1".toList then takenVideo p.2 leaf true
  else if sec = "rtsp".toList then
    if leaf = "port".toList then loads "rtsp.port".toList p.2 else true
  else if sec = "watchdog".toList then takenWatchdog p.2 leaf
  else if sec = "audio".toList then takenAudio p.2 leaf
  else true

/-- The leaves of a document that the report is true of: each is taken, and no two of them say
different things of one setting. -/
structure Sound (kv : List (Text × Text)) : Prop where
  taken : ∀ p ∈ kv, taken p = true
  agree : ∀ p ∈ kv, ∀ p' ∈ kv, ∀ x ∈ (mapOne kv p).reported, ∀ x' ∈ (mapOne kv p').reported,
    ∀ q q', means x = some q → means x' = some q' → q.1 = q'.1 → q.2 = q'.2

def nightKeys : List Text := [lightMonitorKey, colorToGrayKey, nightDelayKey, dayDelayKey]

theorem nightSetting_eq_none {key : Text} (h : key ∉ nightKeys) (v : Text) :
    nightSetting key v = none := by
  simp only [nightKeys, List.mem_cons, List.not_mem_nil, or_false, not_or] at h
  rw [nightSetting, if_neg h.1, if_neg h.2.1, if_neg (not_or.mpr h.2.2)]

theorem means_of_loader {key : Text} (h : key ∉ nightKeys) (v : Text) :
    means (key, v) = (said (key, v)).map fun q => (.field q.1, q.2) := by
  rw [means, nightSetting_eq_none h]

def pathKey : Text := "rtsp.path".toList

/-- A key as the lines of the file and the lists of the report have them; a path would be put right
once the file has been read. -/
def GoodKey (key : Text) : Prop := key ≠ [] ∧ '=' ∉ key ∧ Clean key ∧ key ≠ pathKey

instance (key : Text) : Decidable (GoodKey key) := inferInstanceAs (Decidable (_ ∧ _))

theorem GoodKey.wellFormed {key : Text} (h : GoodKey key) : WellFormed key :=
  ⟨h.1, h.2.1, h.2.2.1.not_mem (by decide), h.2.2.1.not_mem (by decide),
    trim_eq_self_iff.mpr fun _ hc =>
      h.2.2.1.notBlank (hc.elim List.mem_of_head? List.mem_of_getLast?)⟩

theorem GoodKey.noComma {key : Text} (h : GoodKey key) : ',' ∉ key := h.2.2.1.not_mem (by decide)

/-- A key for values that are copied as they stand. -/
def CopiedKey (key : Text) : Prop :=
  GoodKey key ∧ key ∉ nightKeys ∧ (rowOf key).any fun r => isCopied r.kind

instance (key : Text) : Decidable (CopiedKey key) := inferInstanceAs (Decidable (_ ∧ _))

theorem said_of_row {key : Text} {r : Row} (h : rowOf key = some r) (v : Text) :
    said (key, v) = (r.kind.read v).map fun w => (r.field, w) := by
  rw [said]
  dsimp only
  rw [h, Option.bind_some]

theorem CopiedKey.read_written {key : Text} (hk : CopiedKey key) {v : Text} (ht : trim v = v)
    (h : (means (key, v)).isSome) : means (key, written v) = means (key, v) := by
  obtain ⟨-, hnight, hkind⟩ := hk
  obtain ⟨r, hrow, hcopied⟩ := (Option.any_eq_true _ _).mp hkind
  rw [means_of_loader hnight, Option.isSome_map, said_of_row hrow, Option.isSome_map] at h
  rw [means_of_loader hnight, means_of_loader hnight, said_of_row hrow, said_of_row hrow,
    Compat.read_written hcopied ht h]

/-- How the lines of an entry come from what it reports: a value that is copied, or values that
nothing is cut off. -/
inductive Shape (sv : Text) (e : MigrationEntry) : Prop
  | copied (key : Text) : CopiedKey key → e.reported = [(key, trim sv)] →
      e.config = [(key, trim ((splitCommas sv).headD []))] → Shape sv e
  | clean : e.config = e.reported → (∀ x ∈ e.reported, GoodKey x.1 ∧ Clean x.2) → Shape sv e

structure Spec (sv : Text) (e : MigrationEntry) (t : Bool) : Prop where
  shape : Shape sv e
  fits : (∀ x ∈ e.reported, (means x).isSome) ↔ t = true

section spec

variable {sk sv : Text}

theorem reported_of_not_carried {e : MigrationEntry} (h : e.carried = false) : e.reported = [] :=
  if_pos h

theorem Spec.dropped {e : MigrationEntry} (h : e.carried = false) : Spec sv e true := by
  have hrep := reported_of_not_carried h
  have hconf : e.config = [] := if_neg (by simp [h])
  refine ⟨.clean (hconf.trans hrep.symm) ?_, ?_⟩
  · rw [hrep]
    exact fun x hx => absurd hx List.not_mem_nil
  · rw [hrep]
    exact ⟨fun _ => rfl, fun _ x hx => absurd hx List.not_mem_nil⟩

section whole

variable {e : MigrationEntry} (hc : e.carried = true) (hk : GoodKey e.targetKey)

include hc hk

theorem reported_whole : e.reported = [(e.targetKey, trim e.value)] := by
  rw [MigrationEntry.reported, if_neg (by simp [hc]), if_neg hk.noComma]

theorem config_whole : e.config = [(e.targetKey, trim ((splitCommas e.value).headD []))] := by
  rw [MigrationEntry.config, if_pos ⟨hc, hk.1⟩, hk.2.2.1.splitCommas_eq]
  obtain ⟨v, vs, hv⟩ := List.exists_cons_of_ne_nil (List.splitOn_ne_nil ',' e.value)
  rw [splitCommas, hv]
  simp [hk.2.2.1.trim_eq]

end whole

theorem Spec.copied {key : Text} (hk : CopiedKey key) :
    Spec sv (mapped sk sv key sv) (loads key sv) := by
  have hrep := reported_whole (e := mapped sk sv key sv) rfl hk.1
  refine ⟨.copied key hk hrep (config_whole (e := mapped sk sv key sv) rfl hk.1), ?_⟩
  rw [hrep, List.forall_mem_singleton]
  change (means (key, trim sv)).isSome ↔ _
  rw [means_of_loader hk.2.1, Option.isSome_map]
  rfl

theorem Spec.clean {e : MigrationEntry} (hc : e.carried = true) (hk : GoodKey e.targetKey)
    (hv : Clean e.value) : Spec sv e (means (e.targetKey, e.value)).isSome := by
  have hrep := reported_whole hc hk
  have hconf := config_whole hc hk
  rw [hv.splitCommas_eq, List.headD_cons] at hconf
  rw [hv.trim_eq] at hrep hconf
  refine ⟨.clean (hconf.trans hrep.symm) ?_, ?_⟩
  · rw [hrep, List.forall_mem_singleton]
    exact ⟨hk, hv⟩
  · rw [hrep, List.forall_mem_singleton]

theorem Spec.pair {e : MigrationEntry} {k k' v v' : Text} (hc : e.carried = true)
    (hkey : e.targetKey = k ++ ',' :: k') (hvalue : e.value = v ++ ',' :: v') (hk : GoodKey k)
    (hk' : GoodKey k') (hv : Clean v) (hv' : Clean v') :
    Spec sv e ((means (k, v)).isSome && (means (k', v')).isSome) := by
  have hne : e.targetKey ≠ [] := by
    rw [hkey]
    simp
  have hsplit : ((splitCommas e.targetKey).zip (splitCommas e.value)).map
      (fun p => (trim p.1, trim p.2)) = [(k, v), (k', v')] := by
    rw [hkey, hvalue, hk.2.2.1.splitCommas_append, hv.splitCommas_append, hk'.2.2.1.splitCommas_eq,
      hv'.splitCommas_eq]
    simp [hk.2.2.1.trim_eq, hv.trim_eq, hk'.2.2.1.trim_eq, hv'.trim_eq]
  have hrep : e.reported = [(k, v), (k', v')] := by
    rw [MigrationEntry.reported, if_neg (by simp [hc]), if_pos (by simp [hkey]), hsplit]
  have hconf : e.config = [(k, v), (k', v')] := by
    rw [MigrationEntry.config, if_pos ⟨hc, hne⟩, hsplit]
  refine ⟨.clean (hconf.trans hrep.symm) ?_, ?_⟩
  · rw [hrep, List.forall_mem_cons, List.forall_mem_singleton]
    exact ⟨⟨hk, hv⟩, hk', hv'⟩
  · rw [hrep, List.forall_mem_cons, List.forall_mem_singleton, Bool.and_eq_true]

/-- A key and a value that nothing is cut off and that is taken. -/
def Certain (key v : Text) : Prop := GoodKey key ∧ Clean v ∧ (means (key, v)).isSome

instance (key v : Text) : Decidable (Certain key v) := inferInstanceAs (Decidable (_ ∧ _))

theorem Spec.mapped {key v : Text} (h : Certain key v) : Spec sv (mapped sk sv key v) true :=
  h.2.2 ▸ Spec.clean (e := Compat.mapped sk sv key v) rfl h.1 h.2.1

theorem Spec.converted {key v : Text} (h : Certain key v) (note : Text) :
    Spec sv (converted sk sv key v note) true :=
  h.2.2 ▸ Spec.clean (e := Compat.converted sk sv key v note) rfl h.1 h.2.1

/-- A key for numbers between two bounds. -/
def IntKey (lo hi : Int) (key : Text) : Prop :=
  GoodKey key ∧ key ∉ nightKeys ∧ (rowOf key).any fun r => r.kind = .int lo hi

instance (lo hi : Int) (key : Text) : Decidable (IntKey lo hi key) :=
  inferInstanceAs (Decidable (_ ∧ _))

/-- A number within the bounds of its key is read as it is printed. -/
theorem IntKey.certain {lo hi n : Int} {key : Text} (hk : IntKey lo hi key) (h : lo ≤ n ∧ n ≤ hi)
    (hlo : -2 ^ 31 ≤ lo) (hhi : hi < 2 ^ 31) : Certain key (Text.ofInt n) := by
  obtain ⟨hgood, hn, hkind⟩ := hk
  refine ⟨hgood, clean_ofInt n, ?_⟩
  obtain ⟨r, hrow, hr⟩ := (Option.any_eq_true _ _).mp hkind
  have hint : Machino.toInt (Text.ofInt n) = some n := toInt_ofInt (hlo.trans h.1) (by omega)
  rw [means_of_loader hn, Option.isSome_map, said_of_row hrow, Option.isSome_map,
    of_decide_eq_true hr]
  simp [Kind.read, intIn, hint, h]

end spec

end Machino.Compat
