import Mathlib.Algebra.Order.Floor.Ring
import Mathlib.Data.Nat.Bitwise
import Mathlib.Data.Rat.Floor
import Machino.Net.HostapdConf

namespace Machino.Net

open Lines

def memberText (body : Json) (k : String) (default : Text) : Text :=
  match body.get k with
  | some (.string s) => s
  | _ => default

def memberBool (body : Json) (k : String) (default : Bool) : Bool :=
  match body.get k with
  | some (.bool b) => b
  | _ => default

/-- A number without its fraction. -/
def memberInt (body : Json) (k : String) (default : ℤ) : ℤ :=
  match body.get k with
  | some (.number d) => d.num.tdiv d.den
  | _ => default

theorem getString_eq_ok {o : Json} {k : String} {out v : Text} {max : ℕ}
    (h : getString o k out max = .ok v) :
    v = memberText o k out ∧ (v.length ≤ max ∨ v = out) := by
  unfold getString at h
  unfold memberText
  split at h
  · rename_i hget
    rw [hget]
    exact ⟨(Except.ok.inj h).symm, .inr (Except.ok.inj h).symm⟩
  · rename_i s hget
    rw [hget]
    split at h
    · cases h
    · rename_i hle
      obtain rfl := Except.ok.inj h
      exact ⟨rfl, .inl (Nat.not_lt.mp hle)⟩
  · cases h

theorem getBool_eq_ok {o : Json} {k : String} {out v : Bool} (h : getBool o k out = .ok v) :
    v = memberBool o k out := by
  unfold getBool at h
  unfold memberBool
  split at h
  · rename_i hget
    rw [hget]
    exact (Except.ok.inj h).symm
  · rename_i b hget
    rw [hget]
    exact (Except.ok.inj h).symm
  · cases h

/-- The fraction is dropped within the bounds. -/
theorem tdiv_bounds {d : Rat} {lo hi : ℤ} (hlo : (0 : ℤ) ≤ lo) (h : ¬(d < lo ∨ hi < d)) :
    lo ≤ d.num.tdiv d.den ∧ d.num.tdiv d.den ≤ hi := by
  rw [not_or, not_lt, not_lt] at h
  have hden : (0 : ℤ) < d.den := by exact_mod_cast d.pos
  have hnonneg : 0 ≤ d.num := by
    rw [Rat.num_nonneg]
    exact (by exact_mod_cast hlo : (0 : Rat) ≤ lo).trans h.1
  rw [Int.tdiv_eq_ediv_of_nonneg hnonneg]
  have hfloor : d.num / d.den = ⌊d⌋ := (Rat.floor_def d).symm
  rw [hfloor]
  refine ⟨Int.le_floor.mpr h.1, ?_⟩
  have hle := (Int.floor_le d).trans h.2
  exact_mod_cast hle

theorem getInt_eq_ok {o : Json} {k : String} {out lo hi v : ℤ} (hlo : 0 ≤ lo)
    (hout : lo ≤ out ∧ out ≤ hi) (h : getInt o k out lo hi = .ok v) :
    v = memberInt o k out ∧ lo ≤ v ∧ v ≤ hi := by
  unfold getInt at h
  unfold memberInt
  split at h
  · rename_i hget
    rw [hget]
    obtain rfl := Except.ok.inj h
    exact ⟨rfl, hout⟩
  · rename_i d hget
    rw [hget]
    split at h
    · cases h
    · rename_i hbounds
      obtain rfl := Except.ok.inj h
      exact ⟨rfl, tdiv_bounds hlo hbounds⟩
  · cases h

/-- Four octets as one number. -/
def address (s : Text) : ℕ :=
  ((s.splitOn '.').map fun o => Nat.ofDigitChars 10 o 0).foldl (fun n o => 256 * n + o) 0

theorem wdDecimal_of_isOctet {s : Text} (h : isOctet (s.takeWhile Char.isDigit) = true) :
    Ipsec.wdDecimal 3 255 s =
      some (Nat.ofDigitChars 10 (s.takeWhile Char.isDigit) 0, s.dropWhile Char.isDigit) := by
  have hdigits : ∀ c ∈ s.takeWhile Char.isDigit, c.isDigit = true :=
    fun c hc => List.mem_takeWhile_imp hc
  have hdrop : s.drop (s.takeWhile Char.isDigit).length = s.dropWhile Char.isDigit :=
    List.append_cancel_left ((List.prefix_iff_eq_append.mp (List.takeWhile_prefix _)).trans
      List.takeWhile_append_dropWhile.symm)
  unfold isOctet at h
  simp only [Bool.and_eq_true, Bool.or_eq_true, decide_eq_true_eq] at h
  obtain ⟨⟨⟨hne, hlen⟩, hle⟩, hzero⟩ := h
  unfold Ipsec.wdDecimal
  dsimp only
  rw [if_neg, Text.ofDigits_eq_ofDigitChars hdigits, hdrop]
  rintro (hnil | hlong | hbig | ⟨hmore, hhead⟩)
  · exact hne hnil
  · omega
  · rw [Text.ofDigits_eq_ofDigitChars hdigits] at hbig
    omega
  · refine hzero.elim (by omega) fun hz => hz ?_
    cases s with
    | nil => exact absurd rfl hne
    | cons c s =>
      have hc : c.isDigit = true := by
        by_contra hc
        exact hne (List.takeWhile_cons_of_neg hc)
      rw [List.takeWhile_cons_of_pos hc]
      exact hhead

theorem wdOctets_of_dottedOctets {more : ℕ} {s : Text} (h : dottedOctets more s = true) :
    Ipsec.wdOctets more s = some ((s.splitOn '.').map fun o => Nat.ofDigitChars 10 o 0, []) ∧
      ∀ c ∈ s, c.isDigit = true ∨ c = '.' := by
  induction more generalizing s with
  | zero =>
    obtain ⟨hoct, hall⟩ := (Bool.and_eq_true _ _).mp h
    have hdigits : ∀ c ∈ s, c.isDigit = true := List.all_eq_true.mp hall
    have htake : s.takeWhile Char.isDigit = s := List.takeWhile_eq_self_iff.mpr hdigits
    have hdot : '.' ∉ s := fun hmem => absurd (hdigits _ hmem) (by decide)
    refine ⟨?_, fun c hc => .inl (hdigits c hc)⟩
    rw [Ipsec.wdOctets, wdDecimal_of_isOctet (htake.symm ▸ hoct), htake,
      List.splitOn_eq_singleton hdot, List.dropWhile_eq_nil_iff.mpr hdigits]
    rfl
  | succ more ih =>
    obtain ⟨hoct, hrest⟩ := (Bool.and_eq_true _ _).mp h
    split at hrest
    · rename_i rest hdrop
      obtain ⟨hscan, hchars⟩ := ih hrest
      have hs : s = s.takeWhile Char.isDigit ++ '.' :: rest := by
        rw [← hdrop, List.takeWhile_append_dropWhile]
      have hdigits : ∀ c ∈ s.takeWhile Char.isDigit, c.isDigit = true :=
        fun c hc => List.mem_takeWhile_imp hc
      have hdot : '.' ∉ s.takeWhile Char.isDigit :=
        fun hmem => absurd (hdigits _ hmem) (by decide)
      refine ⟨?_, fun c hc => ?_⟩
      · rw [Ipsec.wdOctets, wdDecimal_of_isOctet hoct, hdrop]
        conv_rhs => rw [hs, List.splitOn_append_cons_self_of_not_mem hdot]
        simp [hscan]
      · rw [hs, List.mem_append, List.mem_cons] at hc
        rcases hc with hc | rfl | hc
        · exact .inl (hdigits c hc)
        · exact .inr rfl
        · exact hchars c hc
    · cases hrest

theorem or_octet {n o : ℕ} (k : ℕ) (ho : o < 2 ^ k) : n <<< k ||| o = 2 ^ k * n + o := by
  rw [← Nat.shiftLeft_add_eq_or_of_lt ho, Nat.shiftLeft_eq, Nat.mul_comm]

theorem toNat_quad {a b c d : UInt32} (ha : a.toNat ≤ 255) (hb : b.toNat ≤ 255)
    (hc : c.toNat ≤ 255) (hd : d.toNat ≤ 255) :
    (a <<< 24 ||| b <<< 16 ||| c <<< 8 ||| d).toNat =
      256 * (256 * (256 * a.toNat + b.toNat) + c.toNat) + d.toNat := by
  have hshift {x k : UInt32} (hk : k.toNat ≤ 24) (hx : x.toNat ≤ 255) :
      (x <<< k).toNat = x.toNat <<< k.toNat := by
    rw [UInt32.toNat_shiftLeft, Nat.mod_eq_of_lt (by omega : k.toNat < 32), Nat.mod_eq_of_lt]
    rw [Nat.shiftLeft_eq]
    calc x.toNat * 2 ^ k.toNat ≤ 255 * 2 ^ 24 :=
          Nat.mul_le_mul hx (Nat.pow_le_pow_right (by decide) hk)
      _ < 2 ^ 32 := by decide
  rw [UInt32.toNat_or, UInt32.toNat_or, UInt32.toNat_or, hshift (by decide) ha,
    hshift (by decide) hb, hshift (by decide) hc, Nat.or_assoc, Nat.or_assoc]
  -- the octets do not overlap, so that each or is a sum
  change a.toNat <<< 24 ||| (b.toNat <<< 16 ||| (c.toNat <<< 8 ||| d.toNat)) = _
  rw [or_octet 8 (by omega), or_octet 16 (by omega), or_octet 24 (by omega)]
  omega

/-- A strict address is one for the scan, and the same one. -/
theorem dottedQuad_of_validIpv4 {s : Text} (h : validIpv4 s = true) :
    ∃ a, dottedQuad s = some a ∧ a.toNat = address s := by
  obtain ⟨hoct, hchars⟩ := wdOctets_of_dottedOctets h
  obtain ⟨hscan, hlen, hall⟩ := Ipsec.scanSeparated_of_wdOctets hoct
  have hself : Text.cString s = s := by
    refine Ipsec.cString_eq_self fun hmem => ?_
    rcases hchars _ hmem with h0 | h0
    · exact absurd h0 (by decide)
    · exact absurd h0 (by decide)
  obtain ⟨a, b, c, d, heq⟩ := Ipsec.exists_four hlen
  unfold address
  rw [heq] at hscan hall ⊢
  simp only [List.forall_mem_cons] at hall
  obtain ⟨ha, hb, hc, hd, -⟩ := hall
  have hback {n : ℕ} (hn : n ≤ 255) : (UInt32.ofNat n).toNat = n :=
    UInt32.toNat_ofNat_of_lt' (hn.trans_lt (by decide))
  have hle {n : ℕ} (hn : n ≤ 255) : ¬(255 : UInt32) < .ofNat n := by
    rw [UInt32.lt_iff_toNat_lt, hback hn]
    exact Nat.not_lt.mpr hn
  refine ⟨UInt32.ofNat a <<< 24 ||| UInt32.ofNat b <<< 16 ||| UInt32.ofNat c <<< 8 |||
    UInt32.ofNat d, ?_, ?_⟩
  · have hdots : Ipsec.scanSeparated ['.', '.', '.'] s =
        some ([.ofNat a, .ofNat b, .ofNat c, .ofNat d], []) := hscan
    unfold dottedQuad
    rw [hself, hdots]
    dsimp only
    rw [if_neg (by simp), if_neg (by simp [hle ha, hle hb, hle hc, hle hd])]
  · rw [toNat_quad (by rw [hback ha]; exact ha) (by rw [hback hb]; exact hb)
      (by rw [hback hc]; exact hc) (by rw [hback hd]; exact hd), hback ha, hback hb, hback hc,
      hback hd]
    simp

theorem dottedQuad_nil : dottedQuad [] = none := by decide

theorem and_mask {n : ℕ} (h : n < 2 ^ 32) : n &&& 0xffffff00 = 256 * (n / 256) := by
  have hmask : 0xffffff00 = (2 ^ 24 - 1) * 2 ^ 8 := by decide
  have hmul : 256 * (n / 256) = n / 2 ^ 8 * 2 ^ 8 := Nat.mul_comm _ _
  rw [hmask, hmul]
  -- the mask keeps the bits from the eighth on, and there are none from the thirty-second on
  refine Nat.eq_of_testBit_eq fun i => ?_
  rw [Nat.testBit_and, Nat.testBit_mul_two_pow, Nat.testBit_mul_two_pow,
    Nat.testBit_two_pow_sub_one, Nat.testBit_div_two_pow]
  by_cases hi : 8 ≤ i
  · have hback : i - 8 + 8 = i := by omega
    rw [decide_eq_true hi, Bool.true_and, Bool.true_and, hback]
    by_cases hhi : i - 8 < 24
    · rw [decide_eq_true hhi, Bool.and_true]
    · have hbig : n < 2 ^ i := h.trans_le (Nat.pow_le_pow_right (by decide) (by omega))
      rw [Nat.testBit_lt_two_pow hbig, Bool.false_and]
  · rw [decide_eq_false hi, Bool.false_and, Bool.false_and, Bool.and_false]

/-- The same first three octets. -/
theorem mask_eq_iff (a b : UInt32) :
    a &&& 0xffffff00 = b &&& 0xffffff00 ↔ a.toNat / 256 = b.toNat / 256 := by
  have hmask (x : UInt32) : (x &&& 0xffffff00).toNat = 256 * (x.toNat / 256) := by
    rw [UInt32.toNat_and]
    exact and_mask x.toNat_lt
  rw [← UInt32.toNat_inj, hmask, hmask]
  omega

/-- The pool is in order, in the net of the access point, and does not hold its address. -/
structure PoolOk (ip lo hi : ℕ) : Prop where
  ordered : lo ≤ hi
  apart : ¬(lo ≤ ip ∧ ip ≤ hi)
  sameNet : ip / 256 = lo / 256 ∧ ip / 256 = hi / 256

/-- An optional address that has been checked can be read unless it is empty. -/
theorem dottedQuad_of_checked {s : Text} {field : String}
    (h : checkOptionalIpv4 s field = .ok ()) :
    (s = [] ∧ dottedQuad s = none) ∨
      (s ≠ [] ∧ ∃ a, dottedQuad s = some a ∧ a.toNat = address s) := by
  have hcheck := ensure_eq_ok.mp h
  rw [Bool.or_eq_true, decide_eq_true_eq] at hcheck
  by_cases hs : s = []
  · exact .inl ⟨hs, hs ▸ dottedQuad_nil⟩
  · exact .inr ⟨hs, dottedQuad_of_validIpv4 (hcheck.resolve_left hs)⟩

theorem udhcpdConfFrom_isOk {cfg : WifiApConfig} {ifname : Text} (hif : Usable ifname)
    (hip : checkOptionalIpv4 cfg.ipv4 "ip" = .ok ())
    (hlo : checkOptionalIpv4 cfg.dhcpStart "dhcpStart" = .ok ())
    (hhi : checkOptionalIpv4 cfg.dhcpEnd "dhcpEnd" = .ok ()) :
    (∃ out, udhcpdConfFrom cfg ifname = .ok out) ↔
      cfg.ipv4 ≠ [] ∧ cfg.dhcpStart ≠ [] ∧ cfg.dhcpEnd ≠ [] ∧
        PoolOk (address cfg.ipv4) (address cfg.dhcpStart) (address cfg.dhcpEnd) := by
  have hname : ensure (decide (ifname ≠ []) && hostapdValueIsSafe ifname)
      "the interface name is not usable" = .ok () := by
    rw [ensure_eq_ok, Bool.and_eq_true, decide_eq_true_eq]
    exact ⟨hif.ne_nil, hif.safe⟩
  unfold udhcpdConfFrom
  simp only [except_check_eq_ok, hname, true_and]
  rcases dottedQuad_of_checked hip with ⟨hnil, hnone⟩ | ⟨hne, ip, hsome, hval⟩
  · rw [hnone]
    simp [hnil, throw, throwThe, MonadExceptOf.throw]
  rcases dottedQuad_of_checked hlo with ⟨hnil, hnone⟩ | ⟨hne', lo, hsome', hval'⟩
  · rw [hsome, hnone]
    simp [hnil, throw, throwThe, MonadExceptOf.throw]
  rcases dottedQuad_of_checked hhi with ⟨hnil, hnone⟩ | ⟨hne'', hi, hsome'', hval''⟩
  · rw [hsome, hsome', hnone]
    simp [hnil, throw, throwThe, MonadExceptOf.throw]
  rw [hsome, hsome', hsome'', ← hval, ← hval', ← hval'']
  simp only [except_check_eq_ok, ensure_eq_ok, Bool.not_eq_true', Bool.and_eq_true,
    decide_eq_true_eq, mask_eq_iff]
  constructor
  · rintro ⟨out, hord, hapart, hnet, -⟩
    refine ⟨hne, hne', hne'', ?_, ?_, hnet⟩
    · simpa [UInt32.lt_iff_toNat_lt] using hord
    · simpa [UInt32.le_iff_toNat_le] using hapart
  · rintro ⟨-, -, -, hpool⟩
    refine ⟨_, ?_, ?_, hpool.sameNet, rfl⟩
    · simpa [UInt32.lt_iff_toNat_lt] using hpool.ordered
    · simpa [UInt32.le_iff_toNat_le] using hpool.apart

/-- The facts of an accepted body. -/
structure Accepted (body : Json) (cfg : WifiApConfig) : Prop where
  ssid : cfg.ssid = memberText body "ssid" []
  named : cfg.ssid ≠ [] ∧ cfg.ssid.length ≤ 32
  passphrase : cfg.passphrase = memberText body "passphrase" []
  security : cfg.security =
    (wifiSecurityParse (memberText body "security" [])).getD .wpa2
  secret : cfg.security ≠ .open → cfg.passphrase.length = 64 ∨
    (8 ≤ cfg.passphrase.length ∧ cfg.passphrase.length ≤ 63)
  channel : cfg.channel = memberInt body "channel" 0
  range : 0 ≤ cfg.channel ∧ cfg.channel ≤ 196
  ipv4 : cfg.ipv4 = memberText body "ip" "192.168.4.1".toList
  dhcpStart : cfg.dhcpStart = memberText body "dhcpStart" "192.168.4.20".toList
  dhcpEnd : cfg.dhcpEnd = memberText body "dhcpEnd" "192.168.4.100".toList
  dhcpServer : cfg.dhcpServer = memberBool body "dhcpServer" true
  checked : checkOptionalIpv4 cfg.ipv4 "ip" = .ok () ∧
    checkOptionalIpv4 cfg.dhcpStart "dhcpStart" = .ok () ∧
    checkOptionalIpv4 cfg.dhcpEnd "dhcpEnd" = .ok ()

theorem getWord_security {body : Json} {v : WifiSecurity} {err : String}
    (h : getWord body "security" 16 wifiSecurityParse err .wpa2 = .ok v) :
    v = (wifiSecurityParse (memberText body "security" [])).getD .wpa2 := by
  unfold getWord at h
  obtain ⟨s, hs, h⟩ := except_bind_eq_ok.mp h
  obtain ⟨rfl, -⟩ := getString_eq_ok hs
  split at h
  · rename_i hnil
    rw [hnil]
    exact (Except.ok.inj h).symm
  · split at h
    · rename_i w hw
      rw [hw]
      exact (Except.ok.inj h).symm
    · cases h

theorem checkWifiSecret_required {s : Text} (h : checkWifiSecret s true = .ok ()) :
    s.length = 64 ∨ (8 ≤ s.length ∧ s.length ≤ 63) := by
  unfold checkWifiSecret at h
  split at h
  · exact absurd (ensure_eq_ok.mp h) (by decide)
  · split at h
    · rename_i hlen
      exact .inl hlen
    · have hrange := ensure_eq_ok.mp h
      rw [Bool.and_eq_true, decide_eq_true_eq, decide_eq_true_eq] at hrange
      exact .inr hrange

theorem accepted_of_ok {body : Json} {cfg : WifiApConfig} (h : wifiApFromJson body = .ok cfg) :
    Accepted body cfg := by
  unfold wifiApFromJson at h
  simp only [except_bind_eq_ok] at h
  obtain ⟨-, -, -, -, ssid, hssid, ⟨⟩, hnamed, pass, hpass, sec, hsec, ⟨⟩, hsecret, chan, hchan,
    ip, hip, lo, hlo, hi, hhi, server, hserver, ⟨⟩, hcip, ⟨⟩, hclo, ⟨⟩, hchi, heq⟩ := h
  obtain rfl := Except.ok.inj heq
  have hne : ssid ≠ [] := of_decide_eq_true (ensure_eq_ok.mp hnamed)
  obtain ⟨hssid, hlen⟩ := getString_eq_ok hssid
  obtain ⟨hchan, hrange⟩ := getInt_eq_ok (by decide) (by decide) hchan
  exact {
    ssid := hssid
    named := ⟨hne, hlen.resolve_right hne⟩
    passphrase := (getString_eq_ok hpass).1
    security := getWord_security hsec
    secret := fun hsecured => checkWifiSecret_required (by
      have hrequired : decide (sec ≠ .open) = true := decide_eq_true hsecured
      rwa [hrequired] at hsecret)
    channel := hchan
    range := hrange
    ipv4 := (getString_eq_ok hip).1
    dhcpStart := (getString_eq_ok hlo).1
    dhcpEnd := (getString_eq_ok hhi).1
    dhcpServer := getBool_eq_ok hserver
    checked := ⟨hcip, hclo, hchi⟩ }

/-- The daemons' files can be written, and the first says what it is meant to say. -/
structure Agrees (cfg : WifiApConfig) (ifname driver : Text) : Prop where
  hostapd : ∃ out, hostapdConfFrom cfg ifname driver = .ok out ∧
    directives out = intended cfg ifname driver
  udhcpd : cfg.dhcpServer = true → ∃ out, udhcpdConfFrom cfg ifname = .ok out

/-- What a body must say for that. -/
structure BodyFits (body : Json) : Prop where
  ssid : hostapdValueIsSafe (memberText body "ssid" []) = true
  channel : ¬(15 ≤ memberInt body "channel" 0 ∧ memberInt body "channel" 0 ≤ 35)
  security : memberText body "security" [] ≠ "wep".toList ∧
    memberText body "security" [] ≠ "wpa".toList
  secret : memberText body "security" [] ≠ "open".toList →
    hostapdValueIsSafe (memberText body "passphrase" []) = true ∧
      (memberText body "passphrase" []).length ≠ 64
  pool : memberBool body "dhcpServer" true = true →
    let ip := memberText body "ip" "192.168.4.1".toList
    let lo := memberText body "dhcpStart" "192.168.4.20".toList
    let hi := memberText body "dhcpEnd" "192.168.4.100".toList
    ip ≠ [] ∧ lo ≠ [] ∧ hi ≠ [] ∧ PoolOk (address ip) (address lo) (address hi)

/-- Which word stands for which security. -/
theorem parsed_eq_iff (s : Text) :
    ((wifiSecurityParse s).getD .wpa2 = .open ↔ s = "open".toList) ∧
      ((wifiSecurityParse s).getD .wpa2 = .wep ↔ s = "wep".toList) ∧
      ((wifiSecurityParse s).getD .wpa2 = .wpa ↔ s = "wpa".toList) := by
  unfold wifiSecurityParse
  split_ifs with hopen hwpa hwpa2 hwpa3 hboth hwep
  · subst hopen
    decide
  · subst hwpa
    decide
  · subst hwpa2
    decide
  · subst hwpa3
    decide
  · subst hboth
    decide
  · subst hwep
    decide
  · exact ⟨iff_of_false (by decide) hopen, iff_of_false (by decide) hwep,
      iff_of_false (by decide) hwpa⟩

theorem band_eq_none_iff {channel : ℤ} (h : 0 ≤ channel ∧ channel ≤ 196) :
    hostapdBandForChannel channel = none ↔ 15 ≤ channel ∧ channel ≤ 35 := by
  unfold hostapdBandForChannel
  split_ifs <;> simp <;> omega

/-- For an accepted body both files can be written just when it fits. -/
theorem agrees_iff_fits {body : Json} {cfg : WifiApConfig} (h : wifiApFromJson body = .ok cfg)
    {ifname driver : Text} (hif : Usable ifname) (hdr : Usable driver) :
    Agrees cfg ifname driver ↔ BodyFits body := by
  have ha := accepted_of_ok h
  obtain ⟨hopen, hwep, hwpa⟩ := parsed_eq_iff (memberText body "security" [])
  rw [← ha.security] at hopen hwep hwpa
  have hpool := udhcpdConfFrom_isOk hif ha.checked.1 ha.checked.2.1 ha.checked.2.2
  rw [ha.ipv4, ha.dhcpStart, ha.dhcpEnd] at hpool
  constructor
  · -- what can be written is safe, offered and in order, and so was the body
    rintro ⟨⟨out, hout, -⟩, hudhcpd⟩
    obtain ⟨-, -, hcfg, -⟩ := hostapdConfFrom_eq_ok.mp hout
    refine ⟨ha.ssid ▸ hcfg.ssid, fun hgap => ?_, ⟨?_, ?_⟩, fun hsec => ?_, fun hserver => ?_⟩
    · rw [← ha.channel] at hgap
      exact hcfg.channel ((band_eq_none_iff ha.range).mpr hgap)
    · exact fun heq => hcfg.offered.1 (hwep.mpr heq)
    · exact fun heq => hcfg.offered.2 (hwpa.mpr heq)
    · obtain ⟨hsafe, -, hle⟩ := hcfg.secret fun heq => hsec (hopen.mp heq)
      rw [← ha.passphrase]
      exact ⟨hsafe, by omega⟩
    · exact hpool.mp (hudhcpd (ha.dhcpServer.trans hserver))
  · intro hfits
    have hcfg : Writable cfg := by
      refine ⟨ha.named, ha.ssid ▸ hfits.ssid, fun hnone => hfits.channel ?_, fun hsec => ?_,
        fun heq => hfits.security.1 (hwep.mp heq), fun heq => hfits.security.2 (hwpa.mp heq)⟩
      · rw [← ha.channel]
        exact (band_eq_none_iff ha.range).mp hnone
      · obtain ⟨hsafe, hlen⟩ := hfits.secret fun heq => hsec (hopen.mpr heq)
        rw [← ha.passphrase] at hsafe hlen
        exact ⟨hsafe, (ha.secret hsec).resolve_left hlen⟩
    refine ⟨?_, fun hserver => hpool.mpr (hfits.pool (ha.dhcpServer ▸ hserver))⟩
    obtain ⟨hwMode, hband⟩ := Option.ne_none_iff_exists'.mp hcfg.channel
    have hout := hostapdConfFrom_eq_ok.mpr ⟨hif, hdr, hcfg, hwMode, hband, rfl⟩
    exact ⟨_, hout, directives_hostapdConfFrom hout⟩

def namedBody (passphrase : Text) : Json :=
  .object [("ssid".toList, .string "camera".toList), ("passphrase".toList, .string passphrase)]

theorem agrees_iff_fits_camera :
    Agrees { ssid := "camera".toList, passphrase := "password".toList } "wlan0".toList
      "nl80211".toList ↔ BodyFits (namedBody "password".toList) :=
  agrees_iff_fits rfl ⟨by decide, by decide⟩ ⟨by decide, by decide⟩

/-- A raw key is accepted, and the file is refused for its length. -/
theorem not_agrees : ¬∀ (body : Json) (cfg : WifiApConfig), wifiApFromJson body = .ok cfg →
    ∀ ifname driver, Usable ifname → Usable driver → Agrees cfg ifname driver := by
  intro h
  obtain ⟨out, hout, -⟩ := (h (namedBody (List.replicate 64 'a'))
    { ssid := "camera".toList, passphrase := List.replicate 64 'a' } rfl "wlan0".toList
    "nl80211".toList ⟨by decide, by decide⟩ ⟨by decide, by decide⟩).hostapd
  obtain ⟨-, -, hcfg, -⟩ := hostapdConfFrom_eq_ok.mp hout
  exact absurd (hcfg.secret (by decide)).2.2 (by decide)

end Machino.Net
