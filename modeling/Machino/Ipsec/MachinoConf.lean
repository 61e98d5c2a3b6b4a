import Machino.Core.ConfigFile
import Machino.Ipsec.Validate

namespace Machino.Ipsec

open Lines

def joinCsv (v : List Text) : Text := [','].intercalate v

/-- An empty entry is left out, at the end as elsewhere. -/
def splitCsv (s : Text) : List Text := ((split ',' s).map trimFiller).filter (· ≠ [])

def boolText (b : Bool) : Text := if b then "true".toList else "false".toList

def machinoSettings (c : IpsecConfig) : List (String × Text) :=
  [("enabled", boolText c.enabled),
    ("gateway", c.gateway),
    ("port", Text.ofNat c.port.toNat),
    ("underlay", (underlayName c.underlay).toList),
    ("local_id", c.localId),
    ("remote_id", c.remoteId),
    ("local_id_type", (idTypeName c.localIdType).toList),
    ("remote_id_type", (idTypeName c.remoteIdType).toList),
    ("local_subnet", c.localSubnet),
    ("remote_subnet", c.remoteSubnet),
    ("nat_t", boolText c.natT),
    ("pfs", boolText c.pfs),
    ("auto_connect", boolText c.autoConnect),
    ("dpd_interval_s", Text.ofInt c.dpdIntervalS),
    ("ike_lifetime_s", Text.ofNat c.ikeLifetimeS.toNat),
    ("child_lifetime_s", Text.ofNat c.childLifetimeS.toNat),
    ("ike_dh", joinCsv c.ikeDh),
    ("ike_enc", joinCsv c.ikeEnc),
    ("ike_hash", joinCsv c.ikeHash),
    ("esp_enc", joinCsv c.espEnc),
    ("esp_hash", joinCsv c.espHash),
    ("dpd", boolText c.dpd),
    ("dpd_retries", Text.ofInt c.dpdRetries),
    ("natt_keepalive_s", Text.ofInt c.nattKeepaliveS),
    ("child_lifetime_mb", Text.ofNat c.childLifetimeMb.toNat),
    ("mtu", Text.ofInt c.mtu),
    ("auth", (authName c.auth).toList)] ++
  (if c.eapUser = [] then [] else [("eap_user", c.eapUser)]) ++
  [("trust_mode", (trustModeName c.trustMode).toList)]

def toMachinoConf (c : IpsecConfig) : Text :=
  join '\n' ((machinoSettings c).map fun kv => assignment kv.1.toList kv.2)

/-- The value of a key that holds one of a fixed set of names, or the complaint about it. -/
def named {α : Type} (names : Text → Option α) (k : String) (v : Text) : Except String α :=
  match names v with
  | some a => .ok a
  | none => .error (k ++ ": '" ++ String.ofList v ++ "'")

def machinoSetting (c : IpsecConfig) (k : String) (v : Text) : Except String IpsecConfig :=
  match k with
  | "enabled" => .ok { c with enabled := v = "true".toList }
  | "gateway" => .ok { c with gateway := v }
  | "port" => .ok { c with port := .ofInt (Text.atoi v) }
  | "underlay" => (named underlayFromName k v).map fun u => { c with underlay := u }
  | "local_id" => .ok { c with localId := v }
  | "remote_id" => .ok { c with remoteId := v }
  | "local_id_type" => (named idTypeFromName k v).map fun t => { c with localIdType := t }
  | "remote_id_type" => (named idTypeFromName k v).map fun t => { c with remoteIdType := t }
  | "pfs" => .ok { c with pfs := v = "true".toList }
  | "auto_connect" => .ok { c with autoConnect := v = "true".toList }
  | "local_subnet" => .ok { c with localSubnet := v }
  | "remote_subnet" => .ok { c with remoteSubnet := v }
  | "nat_t" => .ok { c with natT := v = "true".toList }
  | "dpd_interval_s" => .ok { c with dpdIntervalS := Text.atoi v }
  | "ike_lifetime_s" => .ok { c with ikeLifetimeS := Text.strtoul v }
  | "child_lifetime_s" => .ok { c with childLifetimeS := Text.strtoul v }
  | "ike" => .ok c
  | "esp" => .ok c
  | "ike_dh" => .ok { c with ikeDh := splitCsv v }
  | "ike_enc" => .ok { c with ikeEnc := splitCsv v }
  | "ike_hash" => .ok { c with ikeHash := splitCsv v }
  | "esp_enc" => .ok { c with espEnc := splitCsv v }
  | "esp_hash" => .ok { c with espHash := splitCsv v }
  | "dpd" => .ok { c with dpd := v = "true".toList }
  | "dpd_retries" => .ok { c with dpdRetries := Text.atoi v }
  | "natt_keepalive_s" => .ok { c with nattKeepaliveS := Text.atoi v }
  | "child_lifetime_mb" => .ok { c with childLifetimeMb := Text.strtoul v }
  | "mtu" => .ok { c with mtu := Text.atoi v }
  | "auth" => (named authFromName k v).map fun a => { c with auth := a }
  | "eap_user" => .ok { c with eapUser := v }
  | "trust_mode" => (named trustModeFromName k v).map fun t => { c with trustMode := t }
  | _ => .error ("unbekannter Schluessel: " ++ k)

def machinoLine (c : IpsecConfig) (line : Text) : Except String IpsecConfig :=
  let line := Text.trim line
  if line = [] ∨ line.head? = some '#' then .ok c
  else if '=' ∉ line then .error ("Zeile ohne '=': " ++ String.ofList line)
  else
    machinoSetting c (String.ofList (Text.trim (line.takeWhile (· ≠ '='))))
      (Text.trim (line.dropWhile (· ≠ '=')).tail)

/-- A configuration that is not enabled is taken as it is. -/
def fromMachinoConf (text : Text) : Except String IpsecConfig := do
  let c ← (split '\n' text).foldlM machinoLine {}
  match validate c with
  | .ok () => .ok c
  | .error e => if c.enabled then .error e else .ok c

/-- What the parser can give a field: one line, without blanks around it. -/
def OneLiner (v : Text) : Prop := '\n' ∉ v ∧ Text.trim v = v

instance (v : Text) : Decidable (OneLiner v) := inferInstanceAs (Decidable (_ ∧ _))

theorem oneLiner_trim {v : Text} (h : '\n' ∉ v) : OneLiner (Text.trim v) := by
  refine ⟨fun hmem => h ((Text.trim_sublist v).subset hmem), ?_⟩
  conv_lhs => arg 1; rw [Text.trim_eq]
  rw [Text.trim_rdropWhile, Text.trim_dropWhile]

theorem oneLiner_of_not_blank {v : Text} (h : ∀ c ∈ v, Text.isBlank c = false) : OneLiner v := by
  refine ⟨fun hmem => absurd (h _ hmem) (by decide), trim_eq_self_iff.mpr fun c hc => h c ?_⟩
  rcases hc with hc | hc
  · exact List.mem_of_head? hc
  · exact List.mem_of_getLast? hc

/-- Without blanks and control characters anywhere. -/
def Solid (v : Text) : Prop := ∀ c ∈ v, 0x20 < c.toNat

instance (v : Text) : Decidable (Solid v) :=
  decidable_of_iff ((v.all fun c => 0x20 < c.toNat) = true) (by simp [Solid])

theorem Solid.not_blank {v : Text} (h : Solid v) : ∀ c ∈ v, Text.isBlank c = false := by
  intro c hc
  have hlt := h c hc
  by_contra hb
  have hblank : Text.isBlank c = true := Bool.eq_true_of_not_eq_false hb
  simp only [Text.isBlank, Bool.or_eq_true, decide_eq_true_eq] at hblank
  rcases hblank with ((rfl | rfl) | rfl) | rfl
  all_goals exact absurd hlt (by decide)

theorem Solid.oneLiner {v : Text} (h : Solid v) : OneLiner v := oneLiner_of_not_blank h.not_blank

/-- So it is with the characters of a class that has none of those. -/
theorem solid_of_all {p : Char → Bool} (hp : ∀ n < 33, p (.ofNat n) = false) {v : Text}
    (h : ∀ c ∈ v, p c = true) : Solid v := by
  intro c hc
  by_contra hle
  have hpc := hp c.toNat (by omega)
  rw [Char.ofNat_toNat, h c hc] at hpc
  exact absurd hpc (by decide)

/-- A line that has been written hands over its value, but for blanks around that. -/
theorem machinoLine_assignment {k : String} (hk : WellFormed k.toList) (c : IpsecConfig) (v : Text) :
    machinoLine c (assignment k.toList v) = machinoSetting c k (Text.trim v) := by
  obtain ⟨d, s, hd⟩ := List.exists_cons_of_ne_nil hk.nonempty
  have hblank : Text.isBlank d = false := trim_eq_self_iff.mp hk.trimmed d (.inl (by rw [hd]; rfl))
  have hhash : d ≠ '#' := by
    rintro rfl
    exact hk.noComment (hd ▸ List.mem_cons_self)
  have hassign : '=' ∉ k.toList ++ [' '] := by simp [hk.noAssign]
  have hline : Text.trim (assignment k.toList v) =
      (k.toList ++ [' ']) ++ '=' :: (' ' :: v).rdropWhile Text.isBlank := by
    have happ : assignment k.toList v = (k.toList ++ [' ']) ++ '=' :: ' ' :: v := by
      simp [assignment]
    have hdrop : (k.toList ++ [' ']).dropWhile Text.isBlank = k.toList ++ [' '] := by
      rw [hd, List.cons_append, List.dropWhile_cons_of_neg (by simp [hblank])]
    rw [happ, Text.trim_append_cons (by decide), hdrop]
  unfold machinoLine
  rw [hline]
  dsimp only
  rw [if_neg (by simp [hd, hhash]), if_neg (by simp), takeWhile_first hassign,
    dropWhile_first hassign, Text.trim_append_blank hk.trimmed hk.nonempty (by decide),
    List.tail_cons, Text.trim_rdropWhile, Text.trim_cons_blank (by decide), String.ofList_toList]

/-- An entry that a list of the file keeps as it is. -/
def CsvEntry (v : Text) : Prop := v ≠ [] ∧ ',' ∉ v ∧ trimFiller v = v

theorem splitCsv_joinCsv {ids : List Text} (h : ∀ id ∈ ids, CsvEntry id) :
    splitCsv (joinCsv ids) = ids := by
  have hmap : ids.map trimFiller = ids := by
    conv_rhs => rw [← List.map_id ids]
    exact List.map_congr_left fun id hid => (h id hid).2.2
  unfold splitCsv joinCsv
  rw [split_intercalate (fun id hid => (h id hid).2.1) fun id hid => (h id hid).1, hmap,
    List.filter_eq_self]
  exact fun id hid => decide_eq_true (h id hid).1

theorem Offered.solid {g : AlgoGroup} {id : Text} (h : Offered g id) : Solid id :=
  solid_of_all (p := Char.isAlphanum) (by decide) h.alnum.2.2

theorem Solid.trimFiller {v : Text} (h : Solid v) : trimFiller v = v := by
  have hfill : ∀ c ∈ v, isFiller c = false := fun c hc => by
    have hblank := h.not_blank c hc
    simp only [Text.isBlank, Bool.or_eq_false_iff] at hblank
    simp [isFiller, hblank.1.1]
  have hdrop : v.dropWhile isFiller = v := by
    rw [List.dropWhile_eq_self_iff]
    intro hlen
    simp [hfill _ (List.getElem_mem hlen)]
  unfold Ipsec.trimFiller
  rw [hdrop, List.rdropWhile_eq_self_iff]
  intro hv
  simp [hfill _ (List.getLast_mem hv)]

theorem Offered.csvEntry {g : AlgoGroup} {id : Text} (h : Offered g id) : CsvEntry id :=
  ⟨h.alnum.1, fun hmem => absurd (h.alnum.2.2 _ hmem) (by decide), h.solid.trimFiller⟩

theorem mem_joinCsv {ids : List Text} {c : Char} (h : c ∈ joinCsv ids) :
    c = ',' ∨ ∃ id ∈ ids, c ∈ id := by
  unfold joinCsv at h
  induction ids with
  | nil => exact absurd h List.not_mem_nil
  | cons id ids ih =>
    cases ids with
    | nil =>
      rw [List.intercalate_singleton] at h
      exact .inr ⟨id, List.mem_cons_self, h⟩
    | cons id' ids =>
      rw [List.intercalate_cons_cons, List.append_assoc, List.mem_append, List.mem_append,
        List.mem_singleton] at h
      rcases h with h | rfl | h
      · exact .inr ⟨id, List.mem_cons_self, h⟩
      · exact .inl rfl
      · exact (ih h).imp_right fun ⟨k, hk, hc⟩ => ⟨k, List.mem_cons_of_mem _ hk, hc⟩

theorem OfferedList.splitCsv_joinCsv {g : AlgoGroup} {ids : List Text} (h : OfferedList g ids) :
    splitCsv (joinCsv ids) = ids :=
  Ipsec.splitCsv_joinCsv fun id hid => (h.2 id hid).csvEntry

theorem solid_boolText (b : Bool) : Solid (boolText b) := by
  cases b <;> decide

theorem solid_ofNat (n : ℕ) : Solid (Text.ofNat n) :=
  solid_of_all (p := Char.isDigit) (by decide) fun _ => Text.isDigit_of_mem_ofNat

theorem solid_ofInt (n : Int) : Solid (Text.ofInt n) := by
  unfold Text.ofInt
  split
  · intro c hc
    rcases List.mem_cons.mp hc with rfl | hc
    · decide
    · exact solid_ofNat _ c hc
  · exact solid_ofNat _

theorem OfferedList.solid {g : AlgoGroup} {ids : List Text} (h : OfferedList g ids) :
    Solid (joinCsv ids) := by
  intro c hc
  rcases mem_joinCsv hc with rfl | ⟨id, hid, hc⟩
  · decide
  · exact (h.2 id hid).solid c hc

theorem solid_of_hostOk {v : Text} (h : v ≠ [] → hostOk v = true) : Solid v := by
  refine solid_of_all (p := hostChar) (by decide) fun c hc => ?_
  have hok := h (List.ne_nil_of_mem hc)
  simp only [hostOk, Bool.and_eq_true] at hok
  exact List.all_eq_true.mp hok.2 c hc

theorem solid_of_idOk {v : Text} (h : v ≠ [] → idOk v = true) : Solid v := by
  refine solid_of_all (p := idChar) (by decide) fun c hc => ?_
  have hok := h (List.ne_nil_of_mem hc)
  simp only [idOk, Bool.and_eq_true] at hok
  exact List.all_eq_true.mp hok.2 c hc

theorem solid_underlayName (u : Underlay) : Solid (underlayName u).toList := by
  cases u <;> decide

theorem solid_idTypeName (t : IdType) : Solid (idTypeName t).toList := by
  cases t <;> decide

theorem solid_authName (a : Auth) : Solid (authName a).toList := by
  cases a <;> decide

theorem solid_trustModeName (t : TrustMode) : Solid (trustModeName t).toList := by
  cases t <;> decide

/-- The fields that a check may let through with blanks around them or on several lines. -/
def OneLiners (c : IpsecConfig) : Prop :=
  OneLiner c.localSubnet ∧ OneLiner c.remoteSubnet ∧ OneLiner c.eapUser

instance (c : IpsecConfig) : Decidable (OneLiners c) := inferInstanceAs (Decidable (_ ∧ _))

theorem oneLiner_machinoSettings {c : IpsecConfig} (h : Valid c) (hc : OneLiners c) :
    ∀ kv ∈ machinoSettings c, OneLiner kv.2 := by
  obtain ⟨hlocal, hremote, heap⟩ := hc
  have heap' : ∀ kv ∈ (if c.eapUser = [] then [] else [("eap_user", c.eapUser)]), OneLiner kv.2 := by
    intro kv hkv
    split at hkv
    · exact absurd hkv List.not_mem_nil
    · rw [List.mem_singleton.mp hkv]
      exact heap
  unfold machinoSettings
  simp only [List.forall_mem_append, List.forall_mem_cons]
  exact ⟨⟨⟨(solid_boolText _).oneLiner, (solid_of_hostOk h.gateway).oneLiner,
    (solid_ofNat _).oneLiner, (solid_underlayName _).oneLiner, (solid_of_idOk h.localId).oneLiner,
    (solid_of_idOk h.remoteId).oneLiner, (solid_idTypeName _).oneLiner, (solid_idTypeName _).oneLiner, hlocal, hremote,
    (solid_boolText _).oneLiner, (solid_boolText _).oneLiner, (solid_boolText _).oneLiner,
    (solid_ofInt _).oneLiner, (solid_ofNat _).oneLiner, (solid_ofNat _).oneLiner,
    h.ikeDh.solid.oneLiner, h.ikeEnc.solid.oneLiner, h.ikeHash.solid.oneLiner,
    h.espEnc.solid.oneLiner, h.espHash.solid.oneLiner, (solid_boolText _).oneLiner,
    (solid_ofInt _).oneLiner, (solid_ofInt _).oneLiner, (solid_ofNat _).oneLiner,
    (solid_ofInt _).oneLiner, (solid_authName _).oneLiner, List.forall_mem_nil _⟩, heap'⟩,
    (solid_trustModeName _).oneLiner, List.forall_mem_nil _⟩

theorem wellFormed_machinoSettings (c : IpsecConfig) :
    ∀ kv ∈ machinoSettings c, WellFormed kv.1.toList := by
  have hkeys : ∀ k ∈ (machinoSettings c).map Prod.fst, WellFormed k.toList := by
    unfold machinoSettings
    split
    · exact (by decide +kernel : ∀ k ∈ (machinoSettings {}).map Prod.fst, WellFormed k.toList)
    · exact (by decide +kernel :
        ∀ k ∈ (machinoSettings { eapUser := ['x'] }).map Prod.fst, WellFormed k.toList)
  exact fun kv hkv => hkeys kv.1 (List.mem_map_of_mem hkv)

/-- The file is read setting by setting. -/
theorem fromMachinoConf_settings {c : IpsecConfig} (h : Valid c) (hc : OneLiners c) :
    (split '\n' (toMachinoConf c)).foldlM machinoLine {} =
      (machinoSettings c).foldlM (fun c kv => machinoSetting c kv.1 kv.2) {} := by
  have hone := oneLiner_machinoSettings h hc
  have hwf := wellFormed_machinoSettings c
  unfold toMachinoConf
  rw [split_join]
  · rw [List.foldlM_map]
    generalize machinoSettings c = kvs at hone hwf
    generalize ({} : IpsecConfig) = c₀
    induction kvs generalizing c₀ with
    | nil => rfl
    | cons kv kvs ih =>
      rw [List.foldlM_cons, List.foldlM_cons, machinoLine_assignment (hwf kv List.mem_cons_self),
        (hone kv List.mem_cons_self).2]
      exact bind_congr fun c₁ => ih (fun k hk => hone k (List.mem_cons_of_mem _ hk))
        (fun k hk => hwf k (List.mem_cons_of_mem _ hk)) c₁
  · intro l hl
    obtain ⟨kv, hkv, rfl⟩ := List.mem_map.mp hl
    simp [assignment, (hwf kv hkv).noBreak, (hone kv hkv).1]

theorem atoi_port (p : UInt16) : UInt16.ofInt (Text.atoi (Text.ofNat p.toNat)) = p := by
  have hp : Text.ofNat p.toNat = Text.ofInt p.toNat := (if_neg (by omega)).symm
  have hlt := p.toNat_lt
  have hmod : ((p.toNat : Int) % 2 ^ 16).toNat = p.toNat := by omega
  rw [hp, Text.atoi_ofInt (by omega) (by omega), UInt16.ofInt, hmod, UInt16.ofNat_toNat]

section keys

variable (c : IpsecConfig) (v : Text)

theorem machinoSetting_enabled (b : Bool) :
    machinoSetting c "enabled" (boolText b) = .ok { c with enabled := b } := by
  cases b <;> rfl

theorem machinoSetting_gateway : machinoSetting c "gateway" v = .ok { c with gateway := v } := rfl

theorem machinoSetting_port (p : UInt16) :
    machinoSetting c "port" (Text.ofNat p.toNat) = .ok { c with port := p } := by
  conv_rhs => rw [← atoi_port p]
  rfl

theorem machinoSetting_underlay (u : Underlay) :
    machinoSetting c "underlay" (underlayName u).toList = .ok { c with underlay := u } := by
  cases u <;> rfl

theorem machinoSetting_localId : machinoSetting c "local_id" v = .ok { c with localId := v } := rfl

theorem machinoSetting_remoteId : machinoSetting c "remote_id" v = .ok { c with remoteId := v } := rfl

theorem machinoSetting_localIdType (t : IdType) :
    machinoSetting c "local_id_type" (idTypeName t).toList = .ok { c with localIdType := t } := by
  cases t <;> rfl

theorem machinoSetting_remoteIdType (t : IdType) :
    machinoSetting c "remote_id_type" (idTypeName t).toList = .ok { c with remoteIdType := t } := by
  cases t <;> rfl

theorem machinoSetting_localSubnet : machinoSetting c "local_subnet" v = .ok { c with localSubnet := v } := rfl

theorem machinoSetting_remoteSubnet : machinoSetting c "remote_subnet" v = .ok { c with remoteSubnet := v } := rfl

theorem machinoSetting_natT (b : Bool) :
    machinoSetting c "nat_t" (boolText b) = .ok { c with natT := b } := by
  cases b <;> rfl

theorem machinoSetting_pfs (b : Bool) :
    machinoSetting c "pfs" (boolText b) = .ok { c with pfs := b } := by
  cases b <;> rfl

theorem machinoSetting_autoConnect (b : Bool) :
    machinoSetting c "auto_connect" (boolText b) = .ok { c with autoConnect := b } := by
  cases b <;> rfl

theorem machinoSetting_dpdIntervalS :
    machinoSetting c "dpd_interval_s" v = .ok { c with dpdIntervalS := Text.atoi v } := rfl

theorem machinoSetting_ikeLifetimeS :
    machinoSetting c "ike_lifetime_s" v = .ok { c with ikeLifetimeS := Text.strtoul v } := rfl

theorem machinoSetting_childLifetimeS :
    machinoSetting c "child_lifetime_s" v = .ok { c with childLifetimeS := Text.strtoul v } := rfl

theorem machinoSetting_ikeDh :
    machinoSetting c "ike_dh" v = .ok { c with ikeDh := splitCsv v } := rfl

theorem machinoSetting_ikeEnc :
    machinoSetting c "ike_enc" v = .ok { c with ikeEnc := splitCsv v } := rfl

theorem machinoSetting_ikeHash :
    machinoSetting c "ike_hash" v = .ok { c with ikeHash := splitCsv v } := rfl

theorem machinoSetting_espEnc :
    machinoSetting c "esp_enc" v = .ok { c with espEnc := splitCsv v } := rfl

theorem machinoSetting_espHash :
    machinoSetting c "esp_hash" v = .ok { c with espHash := splitCsv v } := rfl

theorem machinoSetting_dpd (b : Bool) :
    machinoSetting c "dpd" (boolText b) = .ok { c with dpd := b } := by
  cases b <;> rfl

theorem machinoSetting_dpdRetries :
    machinoSetting c "dpd_retries" v = .ok { c with dpdRetries := Text.atoi v } := rfl

theorem machinoSetting_nattKeepaliveS :
    machinoSetting c "natt_keepalive_s" v = .ok { c with nattKeepaliveS := Text.atoi v } := rfl

theorem machinoSetting_childLifetimeMb :
    machinoSetting c "child_lifetime_mb" v = .ok { c with childLifetimeMb := Text.strtoul v } := rfl

theorem machinoSetting_mtu :
    machinoSetting c "mtu" v = .ok { c with mtu := Text.atoi v } := rfl

theorem machinoSetting_auth (a : Auth) :
    machinoSetting c "auth" (authName a).toList = .ok { c with auth := a } := by
  cases a <;> rfl

theorem machinoSetting_eapUser : machinoSetting c "eap_user" v = .ok { c with eapUser := v } := rfl

theorem machinoSetting_trustMode (t : TrustMode) :
    machinoSetting c "trust_mode" (trustModeName t).toList = .ok { c with trustMode := t } := by
  cases t <;> rfl

end keys

theorem settings_cons (kv : String × Text) (kvs : List (String × Text)) (c : IpsecConfig) :
    (kv :: kvs).foldlM (fun c kv => machinoSetting c kv.1 kv.2) c =
      match machinoSetting c kv.1 kv.2 with
      | .ok c => kvs.foldlM (fun c kv => machinoSetting c kv.1 kv.2) c
      | .error e => .error e := by
  rw [List.foldlM_cons]
  cases machinoSetting c kv.1 kv.2 <;> rfl

theorem foldlM_machinoSettings {c : IpsecConfig} (h : Valid c) :
    (machinoSettings c).foldlM (fun c kv => machinoSetting c kv.1 kv.2) {} = .ok c := by
  have hsmall {n : Int} (hlo : -10000 ≤ n) (hhi : n ≤ 10000) : Text.atoi (Text.ofInt n) = n :=
    Text.atoi_ofInt (by omega) (by omega)
  obtain ⟨hd, hd'⟩ := h.dpdIntervalS
  obtain ⟨hr, hr'⟩ := h.dpdRetries
  obtain ⟨hm, hm'⟩ := h.mtu
  have hn := h.nattKeepaliveS
  have hdpd : Text.atoi (Text.ofInt c.dpdIntervalS) = c.dpdIntervalS :=
    hsmall (by omega) (by omega)
  have hretries : Text.atoi (Text.ofInt c.dpdRetries) = c.dpdRetries :=
    hsmall (by omega) (by omega)
  have hnatt : Text.atoi (Text.ofInt c.nattKeepaliveS) = c.nattKeepaliveS :=
    hsmall (by omega) (by omega)
  have hmtu : Text.atoi (Text.ofInt c.mtu) = c.mtu := hsmall (by omega) (by omega)
  have hok (c : IpsecConfig) (f : IpsecConfig → Except String IpsecConfig) :
      (Except.ok c >>= f) = f c := rfl
  unfold machinoSettings
  rw [List.foldlM_append, List.foldlM_append]
  simp -implicitDefEqProofs only [settings_cons, List.foldlM_nil, pure, Except.pure, hok,
    machinoSetting_enabled, machinoSetting_gateway, machinoSetting_port, machinoSetting_underlay, machinoSetting_localId,
    machinoSetting_remoteId, machinoSetting_localIdType, machinoSetting_remoteIdType,
    machinoSetting_localSubnet, machinoSetting_remoteSubnet, machinoSetting_natT,
    machinoSetting_pfs, machinoSetting_autoConnect, machinoSetting_dpdIntervalS,
    machinoSetting_ikeLifetimeS, machinoSetting_childLifetimeS, machinoSetting_ikeDh,
    machinoSetting_ikeEnc, machinoSetting_ikeHash, machinoSetting_espEnc,
    machinoSetting_espHash, machinoSetting_dpd, machinoSetting_dpdRetries,
    machinoSetting_nattKeepaliveS, machinoSetting_childLifetimeMb, machinoSetting_mtu,
    machinoSetting_auth, machinoSetting_trustMode, Text.strtoul_ofNat, hdpd, hretries, hnatt,
    hmtu, h.ikeDh.splitCsv_joinCsv, h.ikeEnc.splitCsv_joinCsv, h.ikeHash.splitCsv_joinCsv,
    h.espEnc.splitCsv_joinCsv, h.espHash.splitCsv_joinCsv]
  by_cases heap : c.eapUser = []
  · rw [if_pos heap]
    simp only [List.foldlM_nil, pure, Except.pure, hok]
    rw [← heap]
  · rw [if_neg heap]
    simp only [settings_cons, List.foldlM_nil, machinoSetting_eapUser, pure, Except.pure, hok]

theorem fromMachinoConf_of_oneLiners {c : IpsecConfig} (h : validate c = .ok ())
    (hc : OneLiners c) : fromMachinoConf (toMachinoConf c) = .ok c := by
  have hvalid := validate_eq_ok.mp h
  unfold fromMachinoConf
  rw [fromMachinoConf_settings hvalid hc, foldlM_machinoSettings hvalid]
  simp only [bind, Except.bind, h]

theorem oneLiners_machinoSetting {c c' : IpsecConfig} {k : String} {v : Text}
    (h : machinoSetting c k v = .ok c') (hv : OneLiner v) (hc : OneLiners c) : OneLiners c' := by
  obtain ⟨hlocal, hremote, heap⟩ := hc
  unfold machinoSetting at h
  split at h
  -- a value of its own, a name, or no such key
  all_goals
    first
    | obtain rfl := Except.ok.inj h
    | obtain ⟨_, -, rfl⟩ := except_map_eq_ok.mp h
    | exact absurd h (by simp)
  all_goals exact ⟨by assumption, by assumption, by assumption⟩

theorem oneLiners_machinoLine {c c' : IpsecConfig} {line : Text} (hline : '\n' ∉ line)
    (h : machinoLine c line = .ok c') (hc : OneLiners c) : OneLiners c' := by
  unfold machinoLine at h
  dsimp only at h
  split at h
  · exact Except.ok.inj h ▸ hc
  · split at h
    · exact absurd h (by simp)
    · refine oneLiners_machinoSetting h (oneLiner_trim fun hmem => hline ?_) hc
      exact (Text.trim_sublist line).subset
        ((List.dropWhile_suffix _).subset (List.mem_of_mem_tail hmem))

theorem oneLiners_foldlM {ls : List Text} (hls : ∀ l ∈ ls, '\n' ∉ l) {c c' : IpsecConfig}
    (h : ls.foldlM machinoLine c = .ok c') (hc : OneLiners c) : OneLiners c' := by
  induction ls generalizing c with
  | nil => exact Except.ok.inj h ▸ hc
  | cons l ls ih =>
    rw [List.foldlM_cons, except_bind_eq_ok] at h
    obtain ⟨c₁, h₁, h⟩ := h
    exact ih (fun l' hl' => hls l' (List.mem_cons_of_mem _ hl')) h
      (oneLiners_machinoLine (hls l List.mem_cons_self) h₁ hc)

theorem oneLiners_fromMachinoConf {text : Text} {c : IpsecConfig}
    (h : fromMachinoConf text = .ok c) : OneLiners c := by
  unfold fromMachinoConf at h
  obtain ⟨c₁, h₁, h⟩ := except_bind_eq_ok.mp h
  have hc₁ := oneLiners_foldlM (fun _ => not_mem_of_mem_split) h₁ (by decide)
  split at h
  · exact Except.ok.inj h ▸ hc₁
  · split at h
    · exact absurd h (by simp)
    · exact Except.ok.inj h ▸ hc₁

/-- A valid configuration comes back as it was just when the texts that are not checked character
by character each fit a line. -/
theorem fromMachinoConf_toMachinoConf_iff {c : IpsecConfig} (h : validate c = .ok ()) :
    fromMachinoConf (toMachinoConf c) = .ok c ↔ OneLiners c :=
  ⟨oneLiners_fromMachinoConf, fromMachinoConf_of_oneLiners h⟩

/-- A subnet with a blank in front, which `sscanf` skips. -/
def spaced : IpsecConfig :=
  { enabled := true
    gateway := "vpn.example.org".toList
    localSubnet := " 10.0.0.0/8".toList
    remoteSubnet := "192.168.1.0/24".toList }

theorem fromMachinoConf_spaced :
    fromMachinoConf (toMachinoConf spaced) = .ok spaced ↔ OneLiners spaced :=
  fromMachinoConf_toMachinoConf_iff (by decide +kernel)

theorem not_fromMachinoConf_toMachinoConf :
    ¬ ∀ c, validate c = .ok () → fromMachinoConf (toMachinoConf c) = .ok c := by
  intro h
  have hspaced : OneLiners spaced := oneLiners_fromMachinoConf (h spaced (by decide +kernel))
  exact absurd hspaced (by decide +kernel)

open Lines

def requestCp (c : IpsecConfig) : Bool := c.auth = .eapMschapv2 || c.localSubnet = []

/-- The first line of an old file that sets the key, as it stands there. -/
def carryLine (oldConf key : Text) : Text :=
  let sets (line : Text) : Bool :=
    let t := Text.trim line
    '=' ∈ t && Text.trim (t.takeWhile (· ≠ '=')) = key
  match (split '\n' oldConf).find? sets with
  | some line => Text.trim line ++ ['\n']
  | none => []

/-- The key and the new value of the secret that the kind of authentication needs. -/
def activeSecret (c : IpsecConfig) (secrets : IpsecSecrets) : String × Text :=
  match c.auth with
  | .eapMschapv2 => ("eap_password", secrets.eapPassword)
  | .psk => ("psk", secrets.psk)

/-- A new secret goes before the one of the old file. -/
def credLine (c : IpsecConfig) (secrets : IpsecSecrets) (oldConf : Text) : Text :=
  let (key, secret) := activeSecret c secrets
  if secret ≠ [] then assignment key.toList secret ++ ['\n'] else carryLine oldConf key.toList

def optional (b : Bool) (k : String) (v : Text) : List (String × Text) := if b then [(k, v)] else []

def settingsText (kvs : List (String × Text)) : Text :=
  join '\n' (kvs.map fun kv => assignment kv.1.toList kv.2)

/-- The gateway of the file: the address of the session, if there is one. -/
def gatewayOf (c : IpsecConfig) (net : SessionNet) : Text :=
  if net.gatewayIp ≠ [] then net.gatewayIp else c.gateway

/-- What stands before the secret. -/
def headSettings (c : IpsecConfig) (net : SessionNet) : List (String × Text) :=
  [("gateway", gatewayOf c net),
    ("port", Text.ofNat c.port.toNat),
    ("auth", (authName c.auth).toList)] ++
  optional (c.auth = .eapMschapv2 && c.eapUser ≠ []) "eap_user" c.eapUser

/-- What stands behind it. -/
def tailSettings (c : IpsecConfig) (net : SessionNet) (caPemFile extraPemFile : Text) :
    List (String × Text) :=
  optional (c.auth = .eapMschapv2) "trust_mode" (trustModeName c.trustMode).toList ++
  optional (c.auth = .eapMschapv2 && caPemFile ≠ []) "ca_pem_file" caPemFile ++
  optional (c.auth = .eapMschapv2 && extraPemFile ≠ []) "extra_pem_file" extraPemFile ++
  optional (net.bindIp ≠ []) "bind_ip" net.bindIp ++
  optional (net.bindDev ≠ []) "bind_dev" net.bindDev ++
  optional (c.localId ≠ []) "local_id" c.localId ++
  optional (c.remoteId ≠ []) "remote_id" c.remoteId ++
  optional (c.localId ≠ [] && c.localIdType ≠ .fqdn) "local_id_type"
    (idTypeName c.localIdType).toList ++
  optional (c.remoteId ≠ [] && c.remoteIdType ≠ .fqdn) "remote_id_type"
    (idTypeName c.remoteIdType).toList ++
  optional (c.localSubnet ≠ []) "local_subnet" c.localSubnet ++
  optional (requestCp c) "request_cp" "yes".toList ++
  optional (c.remoteSubnet ≠ []) "remote_subnet" c.remoteSubnet ++
  [("nat_t", boolText c.natT),
    ("ike_dh", joinCsv c.ikeDh),
    ("ike_enc", joinCsv c.ikeEnc),
    ("ike_hash", joinCsv c.ikeHash),
    ("esp_enc", joinCsv c.espEnc),
    ("esp_hash", joinCsv c.espHash)] ++
  optional c.pfs "pfs_group" (Text.ofNat (algoSmallestDh c.ikeDh)) ++
  optional (!c.dpd) "dpd" "no".toList ++
  optional (c.dpdRetries ≠ 0) "dpd_retries" (Text.ofInt c.dpdRetries) ++
  optional (c.nattKeepaliveS ≠ 0) "natt_keepalive_s" (Text.ofInt c.nattKeepaliveS) ++
  optional (c.childLifetimeMb ≠ 0) "child_lifetime_kb"
    (Text.ofNat (c.childLifetimeMb.toNat * 1024)) ++
  optional (c.mtu ≠ 1400) "mtu" (Text.ofInt c.mtu) ++
  [("dpd_interval_s", Text.ofInt c.dpdIntervalS)] ++
  optional (c.ikeLifetimeS ≠ 0) "ike_lifetime_s" (Text.ofNat c.ikeLifetimeS.toNat) ++
  optional (c.childLifetimeS ≠ 0) "child_lifetime_s" (Text.ofNat c.childLifetimeS.toNat)

def toWeirdikeConf (c : IpsecConfig) (secrets : IpsecSecrets) (oldConf : Text) (net : SessionNet)
    (caPemFile extraPemFile : Text) : Text :=
  settingsText (headSettings c net) ++ credLine c secrets oldConf ++
    settingsText (tailSettings c net caPemFile extraPemFile)

end Machino.Ipsec
