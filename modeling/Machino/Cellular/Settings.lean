import Machino.Cellular.CellularConfig
import Machino.Core.ConfigStore

namespace Machino.Cellular

/-- Hexadecimal without a prefix, as the modem writes it. -/
def maskHex (mask : UInt64) : Text := Nat.toDigits 16 mask.toNat

def hexValue (c : Char) : ℕ :=
  if c.isDigit then c.toNat - 48 else if 'a' ≤ c ∧ c ≤ 'f' then c.toNat - 87 else c.toNat - 55

def ofHex (s : Text) : ℕ := s.foldl (fun n c => 16 * n + hexValue c) 0

/-- A space, a quotation mark or a tab. -/
def hexFiller (c : Char) : Bool := c.toNat = 32 || c.toNat = 34 || c.toNat = 9

def strip0x : Text → Text
  | '0' :: 'x' :: c :: s => c :: s
  | '0' :: 'X' :: c :: s => c :: s
  | s => s

def parseMaskHex (s : Text) : Option UInt64 :=
  let s := strip0x (s.filter fun c => !hexFiller c)
  if s = [] ∨ 16 < s.length then none
  else if !s.all Text.isHexDigit then none
  else some (.ofNat (ofHex s))

theorem isHexDigit_digitChar : ∀ d < 16, Text.isHexDigit (Nat.digitChar d) = true := by decide

theorem hexValue_digitChar : ∀ d < 16, hexValue (Nat.digitChar d) = d := by decide

theorem ofHex_append (s : Text) (c : Char) : ofHex (s ++ [c]) = 16 * ofHex s + hexValue c := by
  simp [ofHex]

theorem toDigits_hex_step {n : ℕ} (h : 16 ≤ n) :
    Nat.toDigits 16 n = Nat.toDigits 16 (n / 16) ++ [Nat.digitChar (n % 16)] :=
  Nat.toDigits_of_base_le (by decide) h

theorem ofHex_toDigits (n : ℕ) : ofHex (Nat.toDigits 16 n) = n := by
  induction n using Nat.strongRecOn with
  | ind n ih =>
    by_cases h : 16 ≤ n
    · rw [toDigits_hex_step h, ofHex_append, ih (n / 16) (by omega),
        hexValue_digitChar _ (Nat.mod_lt _ (by decide))]
      omega
    · rw [Nat.toDigits_of_lt_base (by omega)]
      exact (Nat.zero_add _).trans (hexValue_digitChar n (by omega))

theorem isHexDigit_of_mem_toDigits (n : ℕ) :
    ∀ c ∈ Nat.toDigits 16 n, Text.isHexDigit c = true := by
  induction n using Nat.strongRecOn with
  | ind n ih =>
    intro c hc
    by_cases h : 16 ≤ n
    · rw [toDigits_hex_step h, List.mem_append, List.mem_singleton] at hc
      rcases hc with hc | rfl
      · exact ih (n / 16) (by omega) c hc
      · exact isHexDigit_digitChar _ (Nat.mod_lt _ (by decide))
    · rw [Nat.toDigits_of_lt_base (by omega), List.mem_singleton] at hc
      rw [hc]
      exact isHexDigit_digitChar n (by omega)

theorem not_hexFiller_of_isHexDigit {c : Char} (h : Text.isHexDigit c = true) :
    hexFiller c = false := by
  by_contra hf
  have hcode : c.toNat = 32 ∨ c.toNat = 34 ∨ c.toNat = 9 := by
    simpa [hexFiller, or_assoc, ← or_iff_not_imp_left] using hf
  rw [← Char.ofNat_toNat c] at h
  rcases hcode with hc | hc | hc
  all_goals
    rw [hc] at h
    exact absurd h (by decide)

theorem strip0x_of_hex {s : Text} (h : ∀ c ∈ s, Text.isHexDigit c = true) : strip0x s = s := by
  unfold strip0x
  split
  · exact absurd (h 'x' (by simp)) (by decide)
  · exact absurd (h 'X' (by simp)) (by decide)
  · rfl

@[simp] theorem parseMaskHex_maskHex (mask : UInt64) : parseMaskHex (maskHex mask) = some mask := by
  have hhex : ∀ c ∈ maskHex mask, Text.isHexDigit c = true :=
    isHexDigit_of_mem_toDigits mask.toNat
  have hfilter : (maskHex mask).filter (fun c => !hexFiller c) = maskHex mask := by
    rw [List.filter_eq_self]
    intro c hc
    simp [not_hexFiller_of_isHexDigit (hhex c hc)]
  have hlen : (maskHex mask).length ≤ 16 :=
    (Nat.length_toDigits_le_iff (by decide) (by decide)).mpr mask.toNat_lt
  unfold parseMaskHex
  dsimp only
  rw [hfilter, strip0x_of_hex hhex, if_neg, if_neg]
  · rw [maskHex, ofHex_toDigits, UInt64.ofNat_toNat]
  · simpa using hhex
  · rintro (hnil | hlong)
    · exact Nat.toDigits_ne_nil hnil
    · omega

@[simp] theorem maskHex_ne_nil (mask : UInt64) : maskHex mask ≠ [] := Nat.toDigits_ne_nil

/-- The settings file: a key that is not there reads as empty. -/
abbrev Settings := ConfigStore

/-- Keys and their values, as they are handed to the file and come from it. -/
abbrev KeyValues := List (String × Text)

def boolText (b : Bool) : Text := if b then "true".toList else "false".toList

def boolOf (v : Text) : Bool := v = "true".toList || v = "1".toList

@[simp] theorem boolOf_boolText (b : Bool) : boolOf (boolText b) = b := by
  cases b <;> decide

def cellularConfigToSettings (cfg : CellularConfig) : KeyValues :=
  [("cellular.apn", cfg.apn),
    ("cellular.pdp_type", pdpTypeName cfg.pdp),
    ("cellular.auth_mode", authModeName cfg.auth),
    ("cellular.username", cfg.username),
    ("cellular.password", cfg.password),
    ("cellular.auto_connect", boolText cfg.autoConnect),
    ("cellular.nic_mode", boolText cfg.nicMode),
    ("cellular.data_link", cfg.dataLink),
    ("cellular.dial", cfg.dial),
    ("cellular.sim_pin", cfg.simPin),
    ("cellular.net_mode", netModeName cfg.netMode),
    ("cellular.band_profile", bandProfileName cfg.bandProfile),
    ("cellular.band_mask", maskHex cfg.bandMask)]

/-- The value of a key that holds one of a fixed set of words, or its message. -/
def word {α : Type} (v : Option α) (err : String) : Except String α :=
  match v with
  | some a => .ok a
  | none => .error err

def cellularSetting (next : CellularConfig) (kv : String × Text) :
    Except String CellularConfig :=
  let v := kv.2
  match kv.1 with
  | "cellular.auto_connect" => .ok { next with autoConnect := boolOf v }
  | "cellular.nic_mode" => .ok { next with nicMode := boolOf v }
  | "cellular.apn" => .ok { next with apn := v }
  | "cellular.username" => .ok { next with username := v }
  | "cellular.password" => .ok { next with password := v }
  | "cellular.sim_pin" => .ok { next with simPin := v }
  | "cellular.dial" => .ok { next with dial := v }
  | "cellular.data_link" =>
    (word (dataLinkKindParse v) ("cellular.data_link is not ecm or ppp: " ++ String.ofList v)).map
      fun _ => { next with dataLink := v }
  | "cellular.pdp_type" =>
    (word (pdpTypeParse v) "cellular.pdp_type is not IP or IPV4V6").map
      fun t => { next with pdp := t }
  | "cellular.auth_mode" =>
    (word (authModeParse v) "cellular.auth_mode is not none, pap or chap").map
      fun a => { next with auth := a }
  | "cellular.net_mode" =>
    (word (netModeParse v) "cellular.net_mode is not auto, lte or gsm").map
      fun m => { next with netMode := m }
  | "cellular.band_profile" =>
    (word (bandProfileParse v) "cellular.band_profile is not auto, mid, low or custom").map
      fun p => { next with bandProfile := p }
  | "cellular.band_mask" =>
    (word (if v = [] then some 0 else parseMaskHex v)
      ("cellular.band_mask is not a hex band mask: " ++ String.ofList v)).map
      fun m => { next with bandMask := m }
  | _ => .ok next

def cellularConfigFromSettings (kvs : KeyValues) (cfg : CellularConfig) :
    Except String CellularConfig :=
  kvs.foldlM cellularSetting cfg

/-- What the file has of the keys; an empty value counts as absent. -/
def readSettings (store : Settings) (keys : KeyValues) : KeyValues :=
  (keys.map fun kv => (kv.1, store.get kv.1.toList)).filter fun kv => kv.2 ≠ []

/-- The configuration in the file, over the defaults. Whether cellular runs is not in it: that
is what the boot helper has loaded. -/
def storedCellular (bootCellular : Bool) (store : Settings) : CellularConfig :=
  let cc : CellularConfig := {}
  let cc := match cellularConfigFromSettings (readSettings store (cellularConfigToSettings cc)) cc with
    | .ok c => c
    | .error _ => cc
  { cc with enabled := bootCellular }

/-- A commit that succeeds. -/
def Settings.commit (store : Settings) (kvs : KeyValues) : Settings :=
  ConfigStore.commit true (kvs.map fun kv => (kv.1.toList, kv.2)) store

/-- What the file is given for it stands there as it is. -/
def CellularConfig.Plain (c : CellularConfig) : Prop :=
  ∀ kv ∈ cellularConfigToSettings c, Machino.Plain kv.2

instance (c : CellularConfig) : Decidable c.Plain :=
  inferInstanceAs (Decidable (∀ kv ∈ cellularConfigToSettings c, _))

/-- The keys that are handed to the file. -/
def cellularKeys : List String := (cellularConfigToSettings {}).map Prod.fst

theorem cellularKeys_toSettings (c : CellularConfig) :
    (cellularConfigToSettings c).map Prod.fst = cellularKeys := rfl

theorem wellFormed_cellularKeys : ∀ k ∈ cellularKeys, WellFormed k.toList := by
  decide +kernel

theorem nodup_cellularKeys : (cellularKeys.map String.toList).Nodup := by
  decide +kernel

/-- A key reads as the plain value it has been given. -/
theorem get_commit (store : Settings) {c : CellularConfig} (hc : c.Plain) {kv : String × Text}
    (hkv : kv ∈ cellularConfigToSettings c) :
    (store.commit (cellularConfigToSettings c)).get kv.1.toList = kv.2 := by
  refine ConfigStore.get_commit (p := (kv.1.toList, kv.2)) ?_ ?_ ?_ store
    (List.mem_map.mpr ⟨kv, hkv, rfl⟩)
  · intro p hp
    obtain ⟨q, hq, rfl⟩ := List.mem_map.mp hp
    exact wellFormed_cellularKeys q.1 (cellularKeys_toSettings c ▸ List.mem_map_of_mem hq)
  · intro p hp
    obtain ⟨q, hq, rfl⟩ := List.mem_map.mp hp
    exact hc q hq
  · rw [List.map_map]
    have hkeys := nodup_cellularKeys
    rwa [← cellularKeys_toSettings c, List.map_map] at hkeys

theorem readSettings_commit (store : Settings) {c : CellularConfig} (hc : c.Plain) :
    readSettings (store.commit (cellularConfigToSettings c)) (cellularConfigToSettings {}) =
      (cellularConfigToSettings c).filter fun kv => kv.2 ≠ [] := by
  have hkeys : ∀ kvs : KeyValues,
      (kvs.map fun kv => (kv.1, (store.commit (cellularConfigToSettings c)).get kv.1.toList)) =
        (kvs.map Prod.fst).map fun k =>
          (k, (store.commit (cellularConfigToSettings c)).get k.toList) := by
    intro kvs
    rw [List.map_map]
    rfl
  have hread : (cellularConfigToSettings c).map (fun kv =>
      (kv.1, (store.commit (cellularConfigToSettings c)).get kv.1.toList)) =
        cellularConfigToSettings c := by
    conv_rhs => rw [← List.map_id (cellularConfigToSettings c)]
    exact List.map_congr_left fun kv hkv => Prod.ext rfl (get_commit store hc hkv)
  unfold readSettings
  rw [hkeys, cellularKeys_toSettings {}, ← cellularKeys_toSettings c, ← hkeys, hread]

/-- The configuration as it comes out of the file. -/
def CellularConfig.asStored (c : CellularConfig) (bootCellular : Bool) : CellularConfig :=
  { c with
    enabled := bootCellular
    dial := if c.dial = [] then ({} : CellularConfig).dial else c.dial }

/-- A value that counts as absent leaves what was there. -/
def orKeep (v old : Text) : Text := if v = [] then old else v

@[simp] theorem orKeep_nil (v : Text) : orKeep v [] = v := by
  unfold orKeep
  split
  · rename_i h
    exact h.symm
  · rfl

/-- The step of one key of the file, absent or not. -/
def keySetting (c : CellularConfig) (kv : String × Text) : Except String CellularConfig :=
  if kv.2 = [] then .ok c else cellularSetting c kv

theorem cellularConfigFromSettings_present (kvs : KeyValues) (c : CellularConfig) :
    cellularConfigFromSettings (kvs.filter fun kv => kv.2 ≠ []) c = kvs.foldlM keySetting c := by
  unfold cellularConfigFromSettings
  induction kvs generalizing c with
  | nil => rfl
  | cons kv kvs ih =>
    by_cases hv : kv.2 = []
    · have hstep : keySetting c kv = .ok c := if_pos hv
      rw [List.filter_cons_of_neg (by simp [hv]), ih, List.foldlM_cons, hstep]
      rfl
    · have hstep : keySetting c kv = cellularSetting c kv := if_neg hv
      rw [List.filter_cons_of_pos (by simp [hv]), List.foldlM_cons, List.foldlM_cons, hstep]
      exact bind_congr fun c' => ih c'

section keys

variable (c : CellularConfig) (v : Text)

theorem keySetting_apn :
    keySetting c ("cellular.apn", v) = .ok { c with apn := orKeep v c.apn } := by
  unfold keySetting orKeep
  split <;> rfl

theorem keySetting_username :
    keySetting c ("cellular.username", v) = .ok { c with username := orKeep v c.username } := by
  unfold keySetting orKeep
  split <;> rfl

theorem keySetting_password :
    keySetting c ("cellular.password", v) = .ok { c with password := orKeep v c.password } := by
  unfold keySetting orKeep
  split <;> rfl

theorem keySetting_simPin :
    keySetting c ("cellular.sim_pin", v) = .ok { c with simPin := orKeep v c.simPin } := by
  unfold keySetting orKeep
  split <;> rfl

theorem keySetting_dial :
    keySetting c ("cellular.dial", v) = .ok { c with dial := orKeep v c.dial } := by
  unfold keySetting orKeep
  split <;> rfl

theorem keySetting_dataLink (h : (dataLinkKindParse v).isSome = true) :
    keySetting c ("cellular.data_link", v) = .ok { c with dataLink := v } := by
  have hv : v ≠ [] := by
    rintro rfl
    exact absurd h (by decide)
  obtain ⟨kind, hkind⟩ := Option.isSome_iff_exists.mp h
  simp [keySetting, cellularSetting, hv, hkind, word, Except.map]

theorem keySetting_autoConnect (b : Bool) :
    keySetting c ("cellular.auto_connect", boolText b) = .ok { c with autoConnect := b } := by
  cases b <;> rfl

theorem keySetting_nicMode (b : Bool) :
    keySetting c ("cellular.nic_mode", boolText b) = .ok { c with nicMode := b } := by
  cases b <;> rfl

theorem keySetting_pdp (t : PdpType) :
    keySetting c ("cellular.pdp_type", pdpTypeName t) = .ok { c with pdp := t } := by
  cases t <;> rfl

theorem keySetting_auth (a : AuthMode) :
    keySetting c ("cellular.auth_mode", authModeName a) = .ok { c with auth := a } := by
  cases a <;> rfl

theorem keySetting_netMode (m : NetMode) :
    keySetting c ("cellular.net_mode", netModeName m) = .ok { c with netMode := m } := by
  cases m <;> rfl

theorem keySetting_bandProfile (p : BandProfile) :
    keySetting c ("cellular.band_profile", bandProfileName p) = .ok { c with bandProfile := p } := by
  cases p <;> rfl

theorem keySetting_bandMask (mask : UInt64) :
    keySetting c ("cellular.band_mask", maskHex mask) = .ok { c with bandMask := mask } := by
  simp [keySetting, cellularSetting, word, Except.map]

end keys

theorem cellularConfigFromSettings_toSettings {c : CellularConfig}
    (h : (dataLinkKindParse c.dataLink).isSome = true) :
    cellularConfigFromSettings ((cellularConfigToSettings c).filter fun kv => kv.2 ≠ []) {} =
      .ok (c.asStored false) := by
  rw [cellularConfigFromSettings_present]
  simp only [cellularConfigToSettings, List.foldlM_cons, List.foldlM_nil, keySetting_apn,
    keySetting_username, keySetting_password, keySetting_simPin, keySetting_dial,
    keySetting_dataLink _ _ h, keySetting_autoConnect, keySetting_nicMode, keySetting_pdp,
    keySetting_auth, keySetting_netMode, keySetting_bandProfile, keySetting_bandMask,
    orKeep_nil, bind, Except.bind]
  rfl

theorem storedCellular_commit (b : Bool) (store : Settings) {c : CellularConfig}
    (hc : c.Plain) (h : (dataLinkKindParse c.dataLink).isSome = true) :
    storedCellular b (store.commit (cellularConfigToSettings c)) = c.asStored b := by
  unfold storedCellular
  dsimp only
  rw [readSettings_commit store hc, cellularConfigFromSettings_toSettings h]
  rfl

/-- The default number to dial does not stand there as it is: the file ends it at its `#`. -/
example : (Settings.commit {} (cellularConfigToSettings {})).get "cellular.dial".toList =
    "*99***1".toList := by decide +kernel

theorem cellularSetting_dial {c c' : CellularConfig} {kv : String × Text}
    (h : cellularSetting c kv = .ok c') : c'.dial = c.dial ∨ c'.dial = kv.2 := by
  unfold cellularSetting at h
  dsimp only at h
  split at h
  case h_7 =>
    obtain rfl := Except.ok.inj h
    exact .inr rfl
  all_goals
    left
    first
    | obtain rfl := Except.ok.inj h
      rfl
    | obtain ⟨_, -, rfl⟩ := except_map_eq_ok.mp h
      rfl

/-- What the defaults have and each value of a key keeps, the file gives. -/
theorem storedCellular_of_keys {P : CellularConfig → Prop} (h0 : P {})
    (hkey : ∀ c c' kv, kv.2 ≠ [] → P c → cellularSetting c kv = .ok c' → P c')
    (henabled : ∀ c b, P c → P { c with enabled := b }) (b : Bool) (store : Settings) :
    P (storedCellular b store) := by
  have hfold : ∀ (kvs : KeyValues) (c c' : CellularConfig), (∀ kv ∈ kvs, kv.2 ≠ []) → P c →
      cellularConfigFromSettings kvs c = .ok c' → P c' := by
    intro kvs
    induction kvs with
    | nil =>
      intro c c' _ hc h
      obtain rfl := Except.ok.inj h
      exact hc
    | cons kv kvs ih =>
      intro c c' hkvs hc h
      obtain ⟨d, hd, h⟩ := except_bind_eq_ok.mp h
      refine ih d c' (fun x hx => hkvs x (List.mem_cons_of_mem _ hx)) ?_ h
      exact hkey c d kv (hkvs kv List.mem_cons_self) hc hd
  unfold storedCellular
  dsimp only
  apply henabled
  split
  · rename_i c hc
    refine hfold _ _ _ ?_ h0 hc
    intro kv hkv
    simpa using (List.mem_filter.mp hkv).2
  · exact h0

/-- The file never gives an empty dial string. -/
theorem storedCellular_dial (b : Bool) (store : Settings) : (storedCellular b store).dial ≠ [] := by
  refine storedCellular_of_keys (P := fun c => c.dial ≠ []) (by decide) ?_ (fun _ _ h => h) b store
  intro c c' kv hkv hc h
  rcases cellularSetting_dial h with he | he
  · rw [he]
    exact hc
  · rw [he]
    exact hkv

theorem cellularSetting_dataLink {c c' : CellularConfig} {kv : String × Text}
    (h : cellularSetting c kv = .ok c') :
    c'.dataLink = c.dataLink ∨ (dataLinkKindParse c'.dataLink).isSome = true := by
  unfold cellularSetting at h
  dsimp only at h
  split at h
  case h_8 =>
    obtain ⟨kind, hkind, rfl⟩ := except_map_eq_ok.mp h
    right
    unfold word at hkind
    split at hkind
    · rename_i hparse
      rw [hparse]
      rfl
    · cases hkind
  all_goals
    left
    first
    | obtain rfl := Except.ok.inj h
      rfl
    | obtain ⟨_, -, rfl⟩ := except_map_eq_ok.mp h
      rfl

/-- The file always gives a data link there is. -/
theorem storedCellular_dataLink (b : Bool) (store : Settings) :
    (dataLinkKindParse (storedCellular b store).dataLink).isSome = true := by
  refine storedCellular_of_keys (P := fun c => (dataLinkKindParse c.dataLink).isSome = true)
    (by decide) ?_ (fun _ _ h => h) b store
  intro c c' kv _ hc h
  rcases cellularSetting_dataLink h with he | he
  · rw [he]
    exact hc
  · exact he

theorem Patched.again {body : Json} {b : Bool} {store : Settings} {n : CellularConfig}
    (h : Patched body (storedCellular b store) n) : Patched body (n.asStored b) n where
  object := h.object
  derived := h.derived
  known := h.known
  enabled := h.enabled
  autoConnect := getBool_again h.autoConnect fun _ => rfl
  nicMode := getBool_again h.nicMode fun _ => rfl
  apn := getString_again h.apn fun _ => rfl
  dial := by
    apply getString_again h.dial
    intro hd
    have hne : n.dial ≠ [] := hd ▸ storedCellular_dial b store
    exact if_neg hne
  dataLink := getString_again h.dataLink fun _ => rfl
  link := h.link
  username := getString_again h.username fun _ => rfl
  password := getString_again h.password fun _ => rfl
  simPin := getString_again h.simPin fun _ => rfl
  pin := h.pin
  pdp := getWord_again h.pdp fun _ => rfl
  auth := getWord_again h.auth fun _ => rfl
  user := h.user
  netMode := getWord_again h.netMode fun _ => rfl
  bandProfile := getWord_again h.bandProfile fun _ => rfl
  bandMask := getBands_again h.bandMask fun _ => rfl
  bands := h.bands
  safeApn := h.safeApn
  safeDial := h.safeDial
  safeUser := h.safeUser
  safePassword := h.safePassword

/-- A change that was made and stored comes to the same when it is made again. -/
theorem cellularConfigFromJson_again {body : Json} {b : Bool} {store : Settings}
    {n : CellularConfig} (hn : n.Plain)
    (h : cellularConfigFromJson body (storedCellular b store) = .ok n) :
    cellularConfigFromJson body
      (storedCellular b (store.commit (cellularConfigToSettings n))) = .ok n := by
  have hp := cellularConfigFromJson_ok.mp h
  rw [storedCellular_commit b store hn hp.link]
  exact cellularConfigFromJson_ok.mpr hp.again

end Machino.Cellular
