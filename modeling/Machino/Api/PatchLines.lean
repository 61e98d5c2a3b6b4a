import Machino.Api.PatchFields
import Machino.Core.ConfigStore

namespace Machino.Api

def asked : Kind → Json → Option Value
  | .bool, .bool b => some (.bool b)
  | .str, .string s => some (.text s)
  | .preview, .string s => some (.text s)
  | .profile, .string s => (parseProfile s).map .profile
  | .latencyProfile, .string s => (parseLatencyProfile s).map .latency
  | .level, .string s => (parsePerfLevel s).map .level
  | .antiFlicker, .string s => (antiFlickerParse s).map .int
  | .int _ _, .string s => (wbMode s).map .int
  | .int _ _, val => (getInt val).map .int
  | .srate, val => (getInt val).map .int
  | _, _ => none

/-- The loader has a place for the value. -/
def fits : Kind → Value → Bool
  | .int lo hi, .int n => lo ≤ n && n ≤ hi
  | _, _ => true

/-- What is read fits. -/
theorem fits_of_read {kind : Kind} {t : Text} {v : Value} (h : kind.read t = some v) :
    fits kind v = true := by
  cases kind with
  | int lo hi =>
    obtain ⟨n, hn, rfl⟩ := Option.map_eq_some_iff.mp h
    have hrange := Option.filter_eq_some_iff.mp hn
    simpa [fits] using hrange.2
  | _ => rfl

/-- The check of a field goes with the reader of its line. -/
def Check.agrees : Check → Kind → Bool
  | .int lo hi _, .int _ _ => -2 ^ 31 ≤ lo && hi < 2 ^ 31
  | .rate _, .srate => true
  | .bool _, .bool => true
  | .word _ _ _, .str => true
  | .word names _ _, .profile => names = ["performance", "balanced", "battery", "custom"]
  | .word names _ _, .latencyProfile => names = ["normal", "low", "custom"]
  | .word names _ _, .level => names = ["auto", "low", "high"]
  | .word names _ _, .preview => names = ["auto", "live", "off"]
  | .modelPath, .str => true
  | _, _ => false

/-- The values that a check lets through. -/
def Check.reaches : Check → Value → Bool
  | .int lo hi _, .int n => lo ≤ n && n ≤ hi
  | _, _ => true

/-- The texts that a check lets through stand on a line as they are. -/
def Check.plain : Check → Bool
  | .word names _ _ => names.all fun n => Plain n.toList
  | _ => true

theorem plain_ofInt (n : Int) : Plain (Text.ofInt n) :=
  plain_of_all (p := fun c => c.isDigit || c = '-') (by decide) fun _ =>
    isDigit_or_minus_of_mem_ofInt

theorem plain_of_takeModelPath {mp t : Text} (h : takeModelPath mp = .ok t) : t = mp ∧ Plain t := by
  unfold takeModelPath at h
  by_cases hmp : mp = []
  · subst hmp
    obtain rfl := Except.ok.inj h
    exact ⟨rfl, by decide⟩
  · rw [if_neg hmp] at h
    obtain ⟨-, h⟩ := except_check_eq_ok.mp h
    obtain ⟨hall, h⟩ := except_check_eq_ok.mp h
    obtain rfl := Except.ok.inj h
    exact ⟨rfl, plain_of_all (p := modelPathChar) (by decide)
      (List.all_eq_true.mp (ensure_eq_ok.mp hall))⟩

theorem plain_of_takePin {pv t : Text} (h : takePin pv = .ok t) : Plain t := by
  unfold takePin at h
  obtain ⟨-, h⟩ := except_check_eq_ok.mp h
  obtain ⟨hall, h⟩ := except_check_eq_ok.mp h
  obtain rfl := Except.ok.inj h
  exact plain_of_all (p := pinChar) (by decide) (List.all_eq_true.mp (ensure_eq_ok.mp hall))

theorem plain_of_take {check : Check} (hplain : check.plain = true) {val : Json} {t : Text}
    (h : check.take val = .ok t) : Plain t := by
  cases check with
  | int lo hi message =>
    unfold Check.take at h
    dsimp only at h
    split at h
    · exact Except.ok.inj h ▸ plain_ofInt _
    · exact absurd h (by simp)
  | rate message =>
    unfold Check.take at h
    dsimp only at h
    split at h
    · exact Except.ok.inj h ▸ plain_ofInt _
    · exact absurd h (by simp)
  | bool message =>
    cases val with
    | bool b =>
      obtain rfl := Except.ok.inj h
      cases b <;> decide
    | _ => exact absurd h (by simp [Check.take])
  | word names noString unknown =>
    cases val with
    | string s =>
      unfold Check.take at h
      dsimp only at h
      split at h
      · rename_i hs
        obtain ⟨n, hn, rfl⟩ := List.mem_map.mp hs
        obtain rfl := Except.ok.inj h
        simpa using List.all_eq_true.mp hplain n hn
      · exact absurd h (by simp)
    | _ => exact absurd h (by simp [Check.take])
  | modelPath =>
    cases val with
    | string s => exact (plain_of_takeModelPath h).2
    | _ => exact absurd h (by simp [Check.take])
  | pin noString =>
    cases val with
    | string s => exact plain_of_takePin h
    | _ => exact absurd h (by simp [Check.take])

/-- A number that fits is read back. -/
theorem read_ofInt {lo hi n : Int} (hlo : -2 ^ 31 ≤ n) (hhi : n < 2 ^ 31)
    (h : fits (.int lo hi) (.int n) = true) : (Kind.int lo hi).read (Text.ofInt n) = some (.int n) := by
  have hmem : intIn lo hi (Text.ofInt n) = some n := by
    unfold intIn
    rw [toInt_ofInt hlo hhi]
    exact Option.filter_eq_some_iff.mpr ⟨rfl, by simpa [fits] using h⟩
  exact congrArg (Option.map Value.int) hmem

/-- A word of the names stands for something, to the reader of the body as to that of the file. -/
theorem map_of_mem {α : Type} (parse : Text → Option α) {names : List String}
    (hparse : ∀ n ∈ names, (parse n.toList).isSome) {s : Text} (hs : s ∈ names.map String.toList)
    (mk : α → Value) : ∃ v, (parse s).map mk = some v := by
  obtain ⟨n, hn, rfl⟩ := List.mem_map.mp hs
  obtain ⟨a, ha⟩ := Option.isSome_iff_exists.mp (hparse n hn)
  exact ⟨mk a, by rw [ha, Option.map_some]⟩

theorem isNumber_of_getInt {val : Json} {n : Int} (h : getInt val = some n) :
    ∃ q, val = .number q := by
  cases val with
  | number q => exact ⟨q, rfl⟩
  | _ => exact absurd h (by simp [getInt])

/-- What a field asks for is what its line says, if the loader has a place for it. -/
theorem asked_of_take {check : Check} {kind : Kind} (hagrees : check.agrees kind = true)
    {val : Json} {t : Text} (h : check.take val = .ok t) :
    ∃ v, asked kind val = some v ∧ check.reaches v = true ∧
      (fits kind v = true → kind.read t = some v) := by
  cases check with
  | int lo hi message =>
    cases kind with
    | int lo' hi' =>
      unfold Check.take at h
      dsimp only at h
      split at h
      · rename_i n hn
        obtain ⟨hget, hrange⟩ := Option.filter_eq_some_iff.mp hn
        obtain ⟨q, rfl⟩ := isNumber_of_getInt hget
        obtain rfl := Except.ok.inj h
        simp only [Check.agrees, Bool.and_eq_true, decide_eq_true_eq] at hagrees hrange
        exact ⟨.int n, congrArg (Option.map Value.int) hget, by simpa [Check.reaches] using hrange,
          read_ofInt (hagrees.1.trans hrange.1) (hrange.2.trans_lt hagrees.2)⟩
      · exact absurd h (by simp)
    | _ => exact absurd hagrees (by simp [Check.agrees])
  | rate message =>
    cases kind with
    | srate =>
      unfold Check.take at h
      dsimp only at h
      split at h
      · rename_i n hn
        obtain ⟨hget, hrate⟩ := Option.filter_eq_some_iff.mp hn
        obtain ⟨q, rfl⟩ := isNumber_of_getInt hget
        obtain rfl := Except.ok.inj h
        simp only [decide_eq_true_eq] at hrate
        refine ⟨.int n, congrArg (Option.map Value.int) hget, rfl, fun _ => ?_⟩
        rcases hrate with rfl | rfl <;> decide
      · exact absurd h (by simp)
    | _ => exact absurd hagrees (by simp [Check.agrees])
  | bool message =>
    cases kind with
    | bool =>
      cases val with
      | bool b =>
        obtain rfl := Except.ok.inj h
        refine ⟨.bool b, rfl, rfl, fun _ => ?_⟩
        cases b <;> decide
      | _ => exact absurd h (by simp [Check.take])
    | _ => exact absurd hagrees (by simp [Check.agrees])
  | word names noString unknown =>
    cases val with
    | string s =>
      unfold Check.take at h
      dsimp only at h
      split at h
      · rename_i hs
        obtain rfl := Except.ok.inj h
        cases kind with
        | str => exact ⟨.text s, rfl, rfl, fun _ => rfl⟩
        | profile =>
          obtain rfl : names = _ := of_decide_eq_true hagrees
          obtain ⟨v, hv⟩ := map_of_mem parseProfile (by decide) hs .profile
          exact ⟨v, hv, rfl, fun _ => hv⟩
        | latencyProfile =>
          obtain rfl : names = _ := of_decide_eq_true hagrees
          obtain ⟨v, hv⟩ := map_of_mem parseLatencyProfile (by decide) hs .latency
          exact ⟨v, hv, rfl, fun _ => hv⟩
        | level =>
          obtain rfl : names = _ := of_decide_eq_true hagrees
          obtain ⟨v, hv⟩ := map_of_mem parsePerfLevel (by decide) hs .level
          exact ⟨v, hv, rfl, fun _ => hv⟩
        | preview =>
          obtain rfl : names = _ := of_decide_eq_true hagrees
          exact ⟨.text s, rfl, rfl, fun _ => congrArg (Option.map Value.text) (if_pos hs)⟩
        | _ => exact absurd hagrees (by simp [Check.agrees])
      · exact absurd h (by simp)
    | _ => exact absurd h (by simp [Check.take])
  | modelPath =>
    cases kind with
    | str =>
      cases val with
      | string s =>
        obtain ⟨rfl, -⟩ := plain_of_takeModelPath h
        exact ⟨.text t, rfl, rfl, fun _ => rfl⟩
      | _ => exact absurd h (by simp [Check.take])
    | _ => exact absurd hagrees (by simp [Check.agrees])
  | pin noString => exact absurd hagrees (by simp [Check.agrees])

/-- The kind of the line of an image control. -/
def ImageControl.agrees (control : ImageControl) : Kind → Bool
  | .antiFlicker => control = .antiFlicker
  | .int lo hi => control ≠ .antiFlicker && -2 ^ 31 ≤ lo && hi < 2 ^ 31
  | _ => false

/-- What is stored for an image control: a word, the number of one, or what is left of a number. -/
theorem takeImage_eq_ok {control : ImageControl} {cap : RangeCap} {val : Json} {t : Text}
    (h : takeImage control cap val = .ok t) :
    (control = .antiFlicker ∧ ∃ hz, val = .string t ∧ antiFlickerParse t = some hz) ∨
      (control = .whiteBalanceMode ∧
        ∃ s iv, val = .string s ∧ wbMode s = some iv ∧ t = Text.ofInt iv) ∨
      (control ≠ .antiFlicker ∧
        ∃ n, getInt val = some n ∧ cap.inRange (n.bmod (2 ^ 32)) = true ∧
          t = Text.ofInt (n.bmod (2 ^ 32))) := by
  unfold takeImage at h
  split at h
  · split at h
    · rename_i hsome
      obtain ⟨hz, hhz⟩ := Option.isSome_iff_exists.mp hsome
      obtain rfl := Except.ok.inj h
      exact .inl ⟨rfl, hz, rfl, hhz⟩
    · exact absurd h (by simp)
  · exact absurd h (by simp)
  · split at h
    · rename_i iv hiv
      exact .inr (.inl ⟨rfl, _, iv, rfl, hiv, (Except.ok.inj h).symm⟩)
    · exact absurd h (by simp)
  · rename_i hne _ _
    split at h
    · exact absurd h (by simp)
    · rename_i n hn
      dsimp only at h
      split at h
      · rename_i hin
        exact .inr (.inr ⟨hne, n, hn, hin, (Except.ok.inj h).symm⟩)
      · exact absurd h (by simp)

theorem named_mem {α : Type} {names : List (String × α)} {s : Text} {a : α}
    (h : named names s = some a) : ∃ p ∈ names, p.1.toList = s ∧ p.2 = a := by
  obtain ⟨p, hp, rfl⟩ := Option.map_eq_some_iff.mp h
  exact ⟨p, List.mem_of_find?_eq_some hp, by simpa using List.find?_some hp, rfl⟩

theorem plain_of_takeImage {control : ImageControl} {cap : RangeCap} {val : Json} {t : Text}
    (h : takeImage control cap val = .ok t) : Plain t := by
  obtain ⟨-, hz, -, hparse⟩ | ⟨-, s, iv, -, -, rfl⟩ | ⟨-, n, -, -, rfl⟩ := takeImage_eq_ok h
  · obtain ⟨p, hp, rfl, -⟩ := named_mem hparse
    have hall : ∀ p ∈ [("off", (0 : Int)), ("50hz", 50), ("60hz", 60)], Plain p.1.toList := by
      decide
    exact hall p hp
  · exact plain_ofInt _
  · exact plain_ofInt _

theorem wbMode_bounds {s : Text} {iv : Int} (h : wbMode s = some iv) : 0 ≤ iv ∧ iv < 10 := by
  obtain ⟨i, hi, rfl⟩ := Option.map_eq_some_iff.mp h
  have hlt := (List.findIdx?_eq_some_iff_getElem.mp hi).1
  have hlen : (wbNames.map String.toList).length = 10 := rfl
  rw [hlen] at hlt
  simp
  omega

theorem asked_of_takeImage {control : ImageControl} {kind : Kind}
    (hagrees : control.agrees kind = true) {cap : RangeCap} {val : Json} {t : Text}
    (h : takeImage control cap val = .ok t) :
    ∃ v, asked kind val = some v ∧ (fits kind v = true → kind.read t = some v) := by
  obtain ⟨rfl, hz, rfl, hparse⟩ | ⟨rfl, s, iv, rfl, hmode, rfl⟩ | ⟨hne, n, hget, -, rfl⟩ :=
    takeImage_eq_ok h
  · cases kind with
    | antiFlicker =>
      have hread : (antiFlickerParse t).map Value.int = some (.int hz) := by
        rw [hparse, Option.map_some]
      exact ⟨.int hz, hread, fun _ => hread⟩
    | _ => exact absurd hagrees (by simp [ImageControl.agrees])
  · cases kind with
    | int lo hi =>
      obtain ⟨h0, h10⟩ := wbMode_bounds hmode
      exact ⟨.int iv, congrArg (Option.map Value.int) hmode, read_ofInt (by omega) (by omega)⟩
    | _ => exact absurd hagrees (by simp [ImageControl.agrees])
  · cases kind with
    | int lo hi =>
      simp only [ImageControl.agrees, Bool.and_eq_true, decide_eq_true_eq] at hagrees
      obtain ⟨⟨-, hlo⟩, hhi⟩ := hagrees
      obtain ⟨q, rfl⟩ := isNumber_of_getInt hget
      refine ⟨.int n, congrArg (Option.map Value.int) hget, fun hfits => ?_⟩
      have hrange := hfits
      simp only [fits, Bool.and_eq_true, decide_eq_true_eq] at hrange
      have hsame : n.bmod (2 ^ 32) = n := Int.bmod_eq_of_le (by omega) (by omega)
      rw [hsame]
      exact read_ofInt (by omega) (by omega) hfits
    | antiFlicker => exact absurd (by simpa [ImageControl.agrees] using hagrees) hne
    | _ => exact absurd hagrees (by simp [ImageControl.agrees])

def fieldTables : List (List FieldSpec) :=
  [performanceFields, sensorFields, video0Fields, video1Fields, latencyFields, rtspFields,
    lifecycleFields, powerFields, aiFields, nightFields, audioFields, jpegFields, webuiFields]

def allFields : List FieldSpec := fieldTables.flatten

/-- The keys under which the loader knows a member a second time. -/
def aliasKeys : List String := ["video0.fps", "video0.bitrate", "pipeline.grace_ms"]

/-- What the tables of the interface and of the loader say of each other. -/
structure TablesAgree : Prop where
  fieldRow : ∀ sp ∈ allFields, ∀ r ∈ rows, r.key = sp.key →
    r.field ≠ .rtspPath ∧ sp.check.agrees r.kind = true ∧
      (sp.check.reaches (AppConfig.initial.value r.field) = true →
        fits r.kind (AppConfig.initial.value r.field) = true)
  imageRow : ∀ control ∈ ImageControl.all, ∀ r ∈ rows, r.key = control.key →
    r.field ≠ .rtspPath ∧ control.agrees r.kind = true ∧
      fits r.kind (AppConfig.initial.value r.field) = true
  nodup : ((rows.filter fun r => r.key ∉ aliasKeys).map Row.field).Nodup
  aliasKind : ∀ r ∈ rows, r.key ∈ aliasKeys → ∀ r' ∈ rows, r'.field = r.field → r'.kind = r.kind
  fieldKey : ∀ sp ∈ allFields, WellFormed sp.key.toList ∧ sp.check.plain = true ∧
    sp.key ∉ "config.revision" :: aliasKeys
  imageKey : ∀ control ∈ ImageControl.all, WellFormed control.key.toList ∧
    control.key ∉ "config.revision" :: aliasKeys

theorem tablesAgree : TablesAgree where
  fieldRow := by decide +kernel
  imageRow := by decide +kernel
  nodup := by decide +kernel
  aliasKind := by decide +kernel
  fieldKey := by decide +kernel
  imageKey := by decide +kernel

/-- Two rows of a member are read alike, and one of them is an alias unless they are the same. -/
theorem rows_of_member {r r' : Row} (hr : r ∈ rows) (hr' : r' ∈ rows) (h : r.field = r'.field) :
    r.kind = r'.kind ∧ (r.key = r'.key ∨ r.key ∈ aliasKeys ∨ r'.key ∈ aliasKeys) := by
  by_cases ha : r.key ∈ aliasKeys
  · exact ⟨(tablesAgree.aliasKind r hr ha r' hr' h.symm).symm, .inr (.inl ha)⟩
  by_cases ha' : r'.key ∈ aliasKeys
  · exact ⟨tablesAgree.aliasKind r' hr' ha' r hr h, .inr (.inr ha')⟩
  have heq : r = r' := List.inj_on_of_nodup_map tablesAgree.nodup
    (List.mem_filter.mpr ⟨hr, by simpa using ha⟩) (List.mem_filter.mpr ⟨hr', by simpa using ha'⟩) h
  exact ⟨heq ▸ rfl, .inl (heq ▸ rfl)⟩

theorem row_of_rowOf {k : Text} {r : Row} (h : rowOf k = some r) : r ∈ rows ∧ r.key.toList = k :=
  ⟨List.mem_of_find?_eq_some h, by simpa using List.find?_some h⟩

/-- A change that the loader can be given, and what it makes of it. -/
structure Accepted (c : Change) : Prop where
  key : WellFormed c.key
  own : ∀ k ∈ "config.revision" :: aliasKeys, c.key ≠ k.toList
  plain : Plain c.value
  row : ∀ r, rowOf c.key = some r → r.field ≠ .rtspPath ∧
    ∃ v, asked r.kind c.requested = some v ∧
      (fits r.kind v = true → r.kind.read c.value = some v) ∧
      (AppConfig.initial.value r.field = v → fits r.kind v = true)

theorem own_of_not_mem {key : String} {ks : List String} (h : key ∉ ks) :
    ∀ k ∈ ks, key.toList ≠ k.toList :=
  fun _ hk heq => h (String.toList_injective heq ▸ hk)

theorem accepted_of_field {sp : FieldSpec} (hsp : sp ∈ allFields) {path value : Text} {val : Json}
    (h : sp.check.take val = .ok value) : Accepted ⟨path, val, sp.key.toList, value⟩ := by
  obtain ⟨hkey, hplain, hown⟩ := tablesAgree.fieldKey sp hsp
  refine ⟨hkey, own_of_not_mem hown, plain_of_take hplain h, fun r hr => ?_⟩
  obtain ⟨hmem, hrow⟩ := row_of_rowOf hr
  obtain ⟨hpath, hagrees, hinit⟩ := tablesAgree.fieldRow sp hsp r hmem (String.toList_injective hrow)
  obtain ⟨v, hv, hreach, hread⟩ := asked_of_take hagrees h
  exact ⟨hpath, v, hv, hread, fun heq => heq ▸ hinit (heq ▸ hreach)⟩

theorem ImageControl.mem_all (control : ImageControl) : control ∈ all := by
  cases control <;> decide

theorem accepted_of_image {control : ImageControl} {cap : RangeCap} {path value : Text} {val : Json}
    (h : takeImage control cap val = .ok value) :
    Accepted ⟨path, val, control.key.toList, value⟩ := by
  obtain ⟨hkey, hown⟩ := tablesAgree.imageKey control control.mem_all
  refine ⟨hkey, own_of_not_mem hown, plain_of_takeImage h, fun r hr => ?_⟩
  obtain ⟨hmem, hrow⟩ := row_of_rowOf hr
  obtain ⟨hpath, hagrees, hinit⟩ :=
    tablesAgree.imageRow control control.mem_all r hmem (String.toList_injective hrow)
  obtain ⟨v, hv, hread⟩ := asked_of_takeImage hagrees h
  exact ⟨hpath, v, hv, hread, fun heq => heq ▸ hinit⟩

theorem accepted_of_fieldIn {specs : List FieldSpec} (hspecs : specs ∈ fieldTables)
    {path name : Text} {val : Json} {c : Change} (h : fieldIn specs path name val = .ok c) :
    Accepted c := by
  unfold fieldIn at h
  split at h
  · exact absurd h (by simp)
  · rename_i sp hsp
    split at h
    · rename_i value hvalue
      obtain rfl := Except.ok.inj h
      exact accepted_of_field (List.mem_flatten_of_mem hspecs (List.mem_of_find?_eq_some hsp)) hvalue
    · exact absurd h (by simp)

/-- Whatever the section reads can be given to the loader. -/
def Section.Accepting (sec : Section) : Prop :=
  ∀ p path name val cs, sec p path name val = .ok cs → ∀ c ∈ cs, Accepted c

namespace Section.Accepting

theorem fields {specs : List FieldSpec} (hspecs : specs ∈ fieldTables) :
    (Api.fields specs).Accepting := by
  intro p path name val cs h c hc
  obtain ⟨c', hc', rfl⟩ := except_map_eq_ok.mp h
  exact List.mem_singleton.mp hc ▸ accepted_of_fieldIn hspecs hc'

theorem ifThere {sec : Section} (h : sec.Accepting) (there : Platform → Bool) (message : String) :
    (Api.ifThere there message sec).Accepting := by
  intro p path name val cs hcs
  unfold Api.ifThere at hcs
  split at hcs
  · exact h p path name val cs hcs
  · exact absurd hcs (by simp)

theorem ifCapable {sec : Section} (h : sec.Accepting) (capable : Platform → Bool)
    (message : String) : (Api.ifCapable capable message sec).Accepting := by
  intro p path name val cs hcs
  obtain ⟨cs', hcs', hlast⟩ := except_bind_eq_ok.mp hcs
  split at hlast
  · exact Except.ok.inj hlast ▸ h p path name val cs' hcs'
  · exact absurd hlast (by simp)

end Section.Accepting

theorem accepted_of_stream {specs : List FieldSpec} (hspecs : specs ∈ fieldTables) {message : String}
    {path : Text} {val : Json} {cs : List Change} (h : stream specs message path val = .ok cs) :
    ∀ c ∈ cs, Accepted c := by
  unfold stream at h
  split at h
  · intro c hc
    obtain ⟨f, -, hf⟩ := exists_of_mem_mapM h hc
    exact accepted_of_fieldIn hspecs hf
  · exact absurd h (by simp)

theorem videoSection_accepting : videoSection.Accepting := by
  intro p path name val cs h
  unfold videoSection at h
  split at h
  · exact accepted_of_stream (by simp [fieldTables]) h
  · split at h
    · exact accepted_of_stream (by simp [fieldTables]) h
    · exact absurd h (by simp)

theorem latencySection_accepting : latencySection.Accepting := by
  intro p path name val cs h
  unfold latencySection at h
  split at h
  · exact absurd h (by simp)
  · exact Section.Accepting.fields (by simp [fieldTables]) p path name val cs h

theorem imageSection_accepting : imageSection.Accepting := by
  intro p path name val cs h
  unfold imageSection at h
  split at h
  · exact absurd h (by simp)
  · rename_i control hcontrol
    have hname : control.name.toList = name := by simpa using List.find?_some hcontrol
    split at h
    · exact absurd h (by simp)
    · split at h
      · rename_i value hvalue
        obtain rfl := Except.ok.inj h
        have hkey : "image.".toList ++ name = control.key.toList := by
          rw [← hname, ImageControl.key, String.toList_append]
        intro c hc
        rw [List.mem_singleton.mp hc, hkey]
        exact accepted_of_image hvalue
      · exact absurd h (by simp)

theorem jpegSection_accepting : jpegSection.Accepting := by
  intro p path name val cs h
  unfold jpegSection at h
  split at h
  · exact (Section.Accepting.fields (by simp [fieldTables])).ifCapable _ _ p path name val cs h
  · exact absurd h (by simp)

theorem sections_accepting : ∀ sec ∈ sections, sec.2.Accepting := by
  have hfields {specs : List FieldSpec} (h : specs ∈ fieldTables) := Section.Accepting.fields h
  unfold sections
  simp only [List.forall_mem_cons]
  exact ⟨hfields (by simp [fieldTables]), (hfields (by simp [fieldTables])).ifCapable _ _,
    videoSection_accepting, latencySection_accepting, imageSection_accepting,
    hfields (by simp [fieldTables]), hfields (by simp [fieldTables]), hfields (by simp [fieldTables]),
    (hfields (by simp [fieldTables])).ifThere _ _, (hfields (by simp [fieldTables])).ifThere _ _,
    (hfields (by simp [fieldTables])).ifThere _ _, jpegSection_accepting,
    hfields (by simp [fieldTables]), List.forall_mem_nil _⟩

/-- Every change that a body asks for can be given to the loader. -/
theorem accepted_of_changesOf {p : Platform} {doc : Json} {cs : List Change}
    (h : changesOf p doc = .ok cs) : ∀ c ∈ cs, Accepted c := by
  obtain ⟨css, hcss, rfl⟩ := except_map_eq_ok.mp h
  intro c hc
  obtain ⟨cs, hcs, hc⟩ := List.mem_flatten.mp hc
  obtain ⟨sec, -, hsec⟩ := exists_of_mem_mapM hcss hcs
  unfold patchSection at hsec
  split at hsec
  · exact absurd (Except.ok.inj hsec ▸ hc) List.not_mem_nil
  · split at hsec
    · obtain ⟨css', hcss', rfl⟩ := except_map_eq_ok.mp hsec
      obtain ⟨cs', hcs', hc⟩ := List.mem_flatten.mp hc
      obtain ⟨kv, -, hkv⟩ := exists_of_mem_mapM hcss' hcs'
      unfold patchField at hkv
      dsimp only at hkv
      split at hkv
      · rename_i reader hreader
        exact sections_accepting _ (List.mem_of_find?_eq_some hreader) p _ _ _ _ hkv c hc
      · exact absurd hkv (by simp)
    · exact absurd hsec (by simp)

end Machino.Api
