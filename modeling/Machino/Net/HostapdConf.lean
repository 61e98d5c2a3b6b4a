import Machino.Ipsec.Networks
import Machino.Net.WifiConfig

namespace Machino.Net

open Lines

/-- Four numbers with dots between them and nothing else, as one address. -/
def dottedQuad (s : Text) : Option UInt32 :=
  match Ipsec.scanSeparated ['.', '.', '.'] (Text.cString s) with
  | some ([a, b, c, d], rest) =>
    if (Text.cString s).length - rest.length ≠ s.length then none
    else if 255 < a ∨ 255 < b ∨ 255 < c ∨ 255 < d then none
    else some (a <<< 24 ||| b <<< 16 ||| c <<< 8 ||| d)
  | _ => none

def hostapdValueIsSafe (v : Text) : Bool := v.all fun c => !(c.toNat < 0x20 || c.toNat = 0x7f)

def hostapdBandForChannel (channel : ℤ) : Option Text :=
  if channel = 0 then some ['g']
  else if 1 ≤ channel ∧ channel ≤ 14 then some ['g']
  else if 36 ≤ channel ∧ channel ≤ 196 then some ['a']
  else none

def generatedBy : Text :=
  "# generated by machino -- edits are overwritten when the AP is reconfigured".toList

def hostapdLines (cfg : WifiApConfig) (ifname driver hwMode : Text) : List Text :=
  [generatedBy,
    "interface=".toList ++ ifname,
    "driver=".toList ++ driver,
    "ssid=".toList ++ cfg.ssid,
    "hw_mode=".toList ++ hwMode,
    "channel=".toList ++ Text.ofInt cfg.channel,
    "ctrl_interface=/var/run/hostapd".toList,
    "ignore_broadcast_ssid=0".toList] ++
  if cfg.security = .open then ["auth_algs=1".toList, "wpa=0".toList]
  else
    ["auth_algs=1".toList, "wpa=2".toList,
      "wpa_passphrase=".toList ++ cfg.passphrase,
      "wpa_pairwise=CCMP".toList, "rsn_pairwise=CCMP".toList] ++
    if cfg.security = .wpa3 then ["wpa_key_mgmt=SAE".toList, "ieee80211w=2".toList]
    else if cfg.security = .wpa2Wpa3 then
      ["wpa_key_mgmt=WPA-PSK SAE".toList, "ieee80211w=1".toList]
    else ["wpa_key_mgmt=WPA-PSK".toList]

def hostapdConfFrom (cfg : WifiApConfig) (ifname driver : Text) : Except String Text := do
  ensure (ifname ≠ [] && hostapdValueIsSafe ifname) "the interface name is not usable"
  ensure (driver ≠ [] && hostapdValueIsSafe driver) "the hostapd driver name is not usable"
  ensure (cfg.ssid ≠ []) "an access point needs an ssid"
  ensure (cfg.ssid.length ≤ 32) "an ssid is at most 32 bytes"
  ensure (hostapdValueIsSafe cfg.ssid)
    "the ssid contains a character that cannot be written to hostapd.conf"
  let some hwMode := hostapdBandForChannel cfg.channel
    | throw ("channel " ++ toString cfg.channel ++ " is not a 2.4 GHz or 5 GHz channel")
  if cfg.security ≠ .open then
    ensure (hostapdValueIsSafe cfg.passphrase)
      "the passphrase contains a character that cannot be written to hostapd.conf"
    ensure (8 ≤ cfg.passphrase.length && cfg.passphrase.length ≤ 63)
      "a WPA passphrase is 8 to 63 characters"
  ensure (cfg.security ≠ .wep) "WEP is not offered: it is broken, and hostapd has dropped it"
  ensure (cfg.security ≠ .wpa) "WPA1 is not offered for an access point we create; use wpa2"
  return join '\n' (hostapdLines cfg ifname driver hwMode)

def prefixToNetmask (width : ℤ) : Text :=
  if width < 0 ∨ 32 < width then []
  else
    let v : UInt32 := if width = 0 then 0 else 0xffffffff <<< UInt32.ofNat (32 - width).toNat
    let octet (shift : UInt32) : Text := Text.ofNat (v >>> shift &&& 0xff).toNat
    octet 24 ++ ['.'] ++ octet 16 ++ ['.'] ++ octet 8 ++ ['.'] ++ octet 0

def udhcpdConfFrom (cfg : WifiApConfig) (ifname : Text) : Except String Text := do
  ensure (ifname ≠ [] && hostapdValueIsSafe ifname) "the interface name is not usable"
  let some ip := dottedQuad cfg.ipv4
    | throw "the access point address is not an IPv4 address"
  let some lo := dottedQuad cfg.dhcpStart | throw "dhcpStart is not an IPv4 address"
  let some hi := dottedQuad cfg.dhcpEnd | throw "dhcpEnd is not an IPv4 address"
  ensure (!(hi < lo)) "the DHCP pool starts after it ends"
  ensure (!(lo ≤ ip && ip ≤ hi)) "the access point's own address is inside the DHCP pool"
  ensure (ip &&& 0xffffff00 = lo &&& 0xffffff00 && ip &&& 0xffffff00 = hi &&& 0xffffff00)
    "the DHCP pool is not on the same /24 as the access point"
  return join '\n' [generatedBy,
    "interface ".toList ++ ifname,
    "start ".toList ++ cfg.dhcpStart,
    "end ".toList ++ cfg.dhcpEnd,
    "option subnet ".toList ++ prefixToNetmask 24,
    "option router ".toList ++ cfg.ipv4,
    "option dns ".toList ++ cfg.ipv4,
    "option lease 3600".toList,
    "lease_file /var/run/udhcpd.leases".toList,
    "pidfile /var/run/udhcpd.pid".toList]

example : prefixToNetmask 24 = "255.255.255.0".toList := by decide

/-- The settings of a file of lines `key=value`, without its comments. -/
def directives (text : Text) : List (Text × Text) :=
  ((split '\n' text).filter fun l => l.head? ≠ some '#').map fun l =>
    (l.takeWhile (· ≠ '='), (l.dropWhile (· ≠ '=')).tail)

/-- What the access point is to be set to. -/
def securityDirectives (cfg : WifiApConfig) : List (Text × Text) :=
  let secured := [("auth_algs".toList, ['1']), ("wpa".toList, ['2']),
    ("wpa_passphrase".toList, cfg.passphrase), ("wpa_pairwise".toList, "CCMP".toList),
    ("rsn_pairwise".toList, "CCMP".toList)]
  match cfg.security with
  | .open => [("auth_algs".toList, ['1']), ("wpa".toList, ['0'])]
  | .wpa3 =>
    secured ++ [("wpa_key_mgmt".toList, "SAE".toList), ("ieee80211w".toList, ['2'])]
  | .wpa2Wpa3 =>
    secured ++ [("wpa_key_mgmt".toList, "WPA-PSK SAE".toList), ("ieee80211w".toList, ['1'])]
  | _ => secured ++ [("wpa_key_mgmt".toList, "WPA-PSK".toList)]

def intended (cfg : WifiApConfig) (ifname driver : Text) : List (Text × Text) :=
  [("interface".toList, ifname), ("driver".toList, driver), ("ssid".toList, cfg.ssid),
    ("hw_mode".toList, if cfg.channel ≤ 14 then ['g'] else ['a']),
    ("channel".toList, Text.ofInt cfg.channel),
    ("ctrl_interface".toList, "/var/run/hostapd".toList),
    ("ignore_broadcast_ssid".toList, ['0'])] ++ securityDirectives cfg

def directiveLine (p : Text × Text) : Text := p.1 ++ '=' :: p.2

/-- A key that a line can begin with. -/
def KeyLike (k : Text) : Prop := k ≠ [] ∧ k.head? ≠ some '#' ∧ '=' ∉ k ∧ '\n' ∉ k

instance (k : Text) : Decidable (KeyLike k) := inferInstanceAs (Decidable (_ ∧ _ ∧ _ ∧ _))

theorem directives_join {header : Text} (hhead : header.head? = some '#') (hnl : '\n' ∉ header)
    {ps : List (Text × Text)} (hps : ∀ p ∈ ps, KeyLike p.1 ∧ '\n' ∉ p.2) :
    directives (join '\n' (header :: ps.map directiveLine)) = ps := by
  have hfree : ∀ l ∈ header :: ps.map directiveLine, '\n' ∉ l := by
    refine List.forall_mem_cons.mpr ⟨hnl, fun l hl => ?_⟩
    obtain ⟨p, hp, rfl⟩ := List.mem_map.mp hl
    obtain ⟨⟨-, -, -, hk⟩, hv⟩ := hps p hp
    unfold directiveLine
    rw [List.mem_append, List.mem_cons, not_or, not_or]
    exact ⟨hk, by decide, hv⟩
  unfold directives
  rw [split_join hfree, List.filter_cons_of_neg (by simpa using hhead)]
  clear hfree
  induction ps with
  | nil => rfl
  | cons p ps ih =>
    obtain ⟨⟨hne, hcomment, hassign, -⟩, -⟩ := hps p List.mem_cons_self
    obtain ⟨c, k, hk⟩ := List.exists_cons_of_ne_nil hne
    have hfirst : (directiveLine p).head? ≠ some '#' := by
      rw [hk] at hcomment
      unfold directiveLine
      rw [hk]
      exact hcomment
    have hkey : ∀ c ∈ p.1, decide (c ≠ '=') = true :=
      fun c hc => decide_eq_true fun h => hassign (h ▸ hc)
    rw [List.map_cons, List.filter_cons_of_pos (by simpa using hfirst), List.map_cons,
      ih fun q hq => hps q (List.mem_cons_of_mem _ hq)]
    congr 1
    unfold directiveLine
    rw [List.takeWhile_append_of_pos hkey, List.dropWhile_append_of_pos hkey,
      List.takeWhile_cons_of_neg (by decide), List.dropWhile_cons_of_neg (by decide),
      List.append_nil, List.tail_cons]

structure Usable (name : Text) : Prop where
  ne_nil : name ≠ []
  safe : hostapdValueIsSafe name = true

/-- What an access point has to be for its file to be written. -/
structure Writable (cfg : WifiApConfig) : Prop where
  named : cfg.ssid ≠ [] ∧ cfg.ssid.length ≤ 32
  ssid : hostapdValueIsSafe cfg.ssid = true
  channel : hostapdBandForChannel cfg.channel ≠ none
  secret : cfg.security ≠ .open → hostapdValueIsSafe cfg.passphrase = true ∧
    8 ≤ cfg.passphrase.length ∧ cfg.passphrase.length ≤ 63
  offered : cfg.security ≠ .wep ∧ cfg.security ≠ .wpa

theorem newline_notMem_of_safe {v : Text} (h : hostapdValueIsSafe v = true) : '\n' ∉ v := by
  intro hmem
  exact absurd (List.all_eq_true.mp h _ hmem) (by decide)

theorem hostapdConfFrom_eq_ok {cfg : WifiApConfig} {ifname driver out : Text} :
    hostapdConfFrom cfg ifname driver = .ok out ↔
      Usable ifname ∧ Usable driver ∧ Writable cfg ∧
        ∃ hwMode, hostapdBandForChannel cfg.channel = some hwMode ∧
          out = join '\n' (hostapdLines cfg ifname driver hwMode) := by
  unfold hostapdConfFrom
  simp only [except_check_eq_ok, ensure_eq_ok]
  cases hband : hostapdBandForChannel cfg.channel with
  | none => simp [throw, throwThe, MonadExceptOf.throw]
  | some hwMode =>
    dsimp only
    have hout : (.ok (join '\n' (hostapdLines cfg ifname driver hwMode)) : Except String Text) =
        .ok out ↔ ∃ m, some hwMode = some m ∧
          out = join '\n' (hostapdLines cfg ifname driver m) := by simp [eq_comm]
    by_cases hopen : cfg.security = .open
    · rw [if_neg (by simpa using hopen)]
      simp only [except_check_eq_ok, ensure_eq_ok, Bool.and_eq_true, decide_eq_true_eq]
      constructor
      · rintro ⟨hif, hdr, hne, hlen, hssid, hwep, hwpa, h⟩
        exact ⟨⟨hif.1, hif.2⟩, ⟨hdr.1, hdr.2⟩, ⟨⟨hne, hlen⟩, hssid, by simp [hband],
          fun h => absurd hopen h, hwep, hwpa⟩, hout.mp h⟩
      · rintro ⟨hif, hdr, hcfg, h⟩
        exact ⟨⟨hif.1, hif.2⟩, ⟨hdr.1, hdr.2⟩, hcfg.named.1, hcfg.named.2, hcfg.ssid,
          hcfg.offered.1, hcfg.offered.2, hout.mpr h⟩
    · rw [if_pos (by simpa using hopen)]
      simp only [except_check_eq_ok, ensure_eq_ok, Bool.and_eq_true, decide_eq_true_eq]
      constructor
      · rintro ⟨hif, hdr, hne, hlen, hssid, hpass, hrange, hwep, hwpa, h⟩
        exact ⟨⟨hif.1, hif.2⟩, ⟨hdr.1, hdr.2⟩, ⟨⟨hne, hlen⟩, hssid, by simp [hband],
          fun _ => ⟨hpass, hrange⟩, hwep, hwpa⟩, hout.mp h⟩
      · rintro ⟨hif, hdr, hcfg, h⟩
        obtain ⟨hpass, hrange⟩ := hcfg.secret hopen
        exact ⟨⟨hif.1, hif.2⟩, ⟨hdr.1, hdr.2⟩, hcfg.named.1, hcfg.named.2, hcfg.ssid, hpass, hrange,
          hcfg.offered.1, hcfg.offered.2, hout.mpr h⟩

theorem newline_notMem_ofInt (n : ℤ) : '\n' ∉ Text.ofInt n := by
  have hnat : '\n' ∉ Text.ofNat n.natAbs :=
    fun hmem => absurd (Text.isDigit_of_mem_ofNat hmem) (by decide)
  unfold Text.ofInt
  split
  · rw [List.mem_cons, not_or]
    exact ⟨by decide, hnat⟩
  · exact hnat

/-- No value ends its line. -/
theorem intended_lines {cfg : WifiApConfig} {ifname driver : Text} (hif : Usable ifname)
    (hdr : Usable driver) (hcfg : Writable cfg) :
    ∀ p ∈ intended cfg ifname driver, KeyLike p.1 ∧ '\n' ∉ p.2 := by
  have hmode : '\n' ∉ (if cfg.channel ≤ 14 then ['g'] else ['a'] : Text) := by
    split <;> decide
  unfold intended
  simp only [List.forall_mem_append, List.forall_mem_cons]
  refine ⟨⟨⟨by decide, newline_notMem_of_safe hif.safe⟩,
    ⟨by decide, newline_notMem_of_safe hdr.safe⟩,
    ⟨by decide, newline_notMem_of_safe hcfg.ssid⟩, ⟨by decide, hmode⟩,
    ⟨by decide, newline_notMem_ofInt _⟩, by decide, by decide, List.forall_mem_nil _⟩, ?_⟩
  unfold securityDirectives
  cases hsec : cfg.security with
  | «open» =>
    dsimp only
    decide
  | _ =>
    have hpass : '\n' ∉ cfg.passphrase :=
      newline_notMem_of_safe (hcfg.secret (by simp [hsec])).1
    simp only [List.forall_mem_append, List.forall_mem_cons]
    refine ⟨⟨by decide, by decide, ⟨by decide, hpass⟩, by decide, by decide,
      List.forall_mem_nil _⟩, ?_⟩
    decide

/-- The file says what it is meant to say, each value as it was given. -/
theorem directives_hostapdConfFrom {cfg : WifiApConfig} {ifname driver out : Text}
    (h : hostapdConfFrom cfg ifname driver = .ok out) :
    directives out = intended cfg ifname driver := by
  obtain ⟨hif, hdr, hcfg, hwMode, hband, rfl⟩ := hostapdConfFrom_eq_ok.mp h
  have hmode : hwMode = if cfg.channel ≤ 14 then ['g'] else ['a'] := by
    unfold hostapdBandForChannel at hband
    split at hband
    · rename_i hzero
      rw [if_pos (by omega)]
      exact (Option.some.inj hband).symm
    · split at hband
      · rename_i hlow
        rw [if_pos hlow.2]
        exact (Option.some.inj hband).symm
      · split at hband
        · rename_i hhigh
          rw [if_neg (by omega)]
          exact (Option.some.inj hband).symm
        · cases hband
  have hlines : hostapdLines cfg ifname driver hwMode =
      generatedBy :: (intended cfg ifname driver).map directiveLine := by
    -- the two kinds of security without lines of their own are turned away before
    unfold hostapdLines intended securityDirectives
    rw [hmode]
    obtain ⟨hwep, hwpa⟩ := hcfg.offered
    cases hsec : cfg.security with
    | «open» => rfl
    | wpa2 => rfl
    | wpa3 => rfl
    | wpa2Wpa3 => rfl
    | wep => exact absurd hsec hwep
    | wpa => exact absurd hsec hwpa
  rw [hlines]
  exact directives_join (by decide) (by decide) (intended_lines hif hdr hcfg)

end Machino.Net
