import Machino.Ipsec.DaemonValues

namespace Machino.Ipsec

open Lines

/-- What the daemon's configuration should be. -/
def daemonConfig (c : IpsecConfig) (net : SessionNet) (secret caPemFile extraPemFile : Text) :
    WdConfig where
  gateway := gatewayOf c net
  port := c.port
  auth := c.auth
  psk := if c.auth = .psk then secret else []
  eapUser := if c.auth = .eapMschapv2 then c.eapUser else []
  eapPassword := if c.auth = .eapMschapv2 then secret else []
  trustMode := if c.auth = .eapMschapv2 then c.trustMode else .anchorPem
  caPemFile := if c.auth = .eapMschapv2 then caPemFile else []
  extraPemFile := if c.auth = .eapMschapv2 then extraPemFile else []
  localId := c.localId
  remoteId := c.remoteId
  localIdType := if c.localId = [] then .fqdn else c.localIdType
  remoteIdType := if c.remoteId = [] then .fqdn else c.remoteIdType
  requestCp := requestCp c
  pfsGroup := if c.pfs then .ofNat (algoSmallestDh c.ikeDh) else 0
  ikeEnc := c.ikeEnc.filterMap (algoNumbers .ikeEnc)
  ikeHash := c.ikeHash.filterMap (algoNumbers .ikeHash)
  ikeDh := c.ikeDh.filterMap (algoNumbers .dh)
  espEnc := c.espEnc.filterMap (algoNumbers .espEnc)
  espHash := c.espHash.filterMap (algoNumbers .espHash)
  dpdDisable := !c.dpd
  dpdRetries := .ofNat c.dpdRetries.toNat
  nattKeepaliveS := .ofNat c.nattKeepaliveS.toNat
  childLifetimeKb := .ofNat (c.childLifetimeMb.toNat * 1024)
  localTs := if c.localSubnet = [] then none else cidrNet c.localSubnet
  remoteTsList := remoteNets c.remoteSubnet
  natT := c.natT
  childLifetimeS := c.childLifetimeS
  ikeLifetimeS := c.ikeLifetimeS
  dpdIntervalS := .ofNat c.dpdIntervalS.toNat
  mtu := c.mtu
  bindIp := (wdBindIp net.bindIp).toOption
  bindDev := net.bindDev

variable {c : IpsecConfig} {net : SessionNet} {secret caPemFile extraPemFile : Text}

theorem foldlM_append_eq (l l' : List (String × Text)) (w : WdConfig) :
    (l ++ l').foldlM wdRead w =
      match l.foldlM wdRead w with
      | .ok w => l'.foldlM wdRead w
      | .error e => .error e := by
  rw [List.foldlM_append]
  cases l.foldlM wdRead w <;> rfl

theorem foldlM_cons_eq (kv : String × Text) (l : List (String × Text)) (w : WdConfig) :
    (kv :: l).foldlM wdRead w =
      match wdRead w kv with
      | .ok w => l.foldlM wdRead w
      | .error e => .error e := by
  rw [List.foldlM_cons]
  cases wdRead w kv <;> rfl

theorem foldlM_nil_eq (w : WdConfig) : [].foldlM wdRead w = .ok w := rfl

/-- A value that is written unless it is the default. -/
theorem ite_ne_default {α β : Type} [DecidableEq α] (f : α → β) {a d : α} {e : β} (h : f d = e) :
    (if a ≠ d then f a else e) = f a := by
  by_cases ha : a = d
  · simp [ha, h]
  · simp [ha]

theorem ite_and_ne_default {α : Type} [DecidableEq α] (b : Bool) (a d : α) :
    (if (b && decide (a ≠ d)) = true then a else d) = if b = true then a else d := by
  by_cases ha : a = d
  · simp [ha]
  · simp [ha]

theorem foldlM_daemonSettings (h : Valid c) (hr : Readable c) (hnet : Pinned net)
    (hsecret : Accepted secret) (hca : PemFile caPemFile) (hextra : PemFile extraPemFile) :
    (daemonSettings c net secret caPemFile extraPemFile).foldlM wdRead {} =
      .ok (daemonConfig c net secret caPemFile extraPemFile) := by
  unfold daemonSettings headSettings tailSettings
  simp -implicitDefEqProofs only [foldlM_append_eq, foldlM_cons_eq, foldlM_nil_eq,
    wdRead_gateway _ hnet, wdRead_port _ h, wdRead_auth, read_eapUser _ h,
    wdRead_credential _ hsecret, read_trustMode, read_caPemFile _ hca, read_extraPemFile _ hextra,
    read_bindIp _ hnet, read_bindDev _ hnet, read_localId _ h, read_remoteId _ h,
    read_localIdType, read_remoteIdType, read_localSubnet _ h hr, read_requestCp,
    read_remoteSubnet _ h hr, wdRead_natT, wdRead_ikeDh _ h hr, wdRead_ikeEnc _ h hr,
    wdRead_ikeHash _ h hr, wdRead_espEnc _ h hr, wdRead_espHash _ h hr, read_pfsGroup, read_dpd,
    read_dpdRetries _ h, read_nattKeepaliveS _ h, read_childLifetimeKb _ h, read_mtu _ h,
    wdRead_dpdIntervalS _ h, read_ikeLifetimeS _ h, read_childLifetimeS _ h]
  unfold daemonConfig
  have hbind : (wdBindIp []).toOption = none := rfl
  have hremote : remoteNets [] = [] := rfl
  have hretries : (if c.dpdRetries ≠ 0 then UInt32.ofNat c.dpdRetries.toNat else 0) =
      UInt32.ofNat c.dpdRetries.toNat := ite_ne_default (fun n : Int => UInt32.ofNat n.toNat) rfl
  have hnatt : (if c.nattKeepaliveS ≠ 0 then UInt32.ofNat c.nattKeepaliveS.toNat else 0) =
      UInt32.ofNat c.nattKeepaliveS.toNat := ite_ne_default (fun n : Int => UInt32.ofNat n.toNat) rfl
  have hchild : (if c.childLifetimeMb ≠ 0 then UInt32.ofNat (c.childLifetimeMb.toNat * 1024)
      else 0) = UInt32.ofNat (c.childLifetimeMb.toNat * 1024) :=
    ite_ne_default (fun n : UInt32 => UInt32.ofNat (n.toNat * 1024)) rfl
  have hip := ite_ne_default (fun ip => (wdBindIp ip).toOption) (a := net.bindIp) hbind
  have hnets := ite_ne_default remoteNets (a := c.remoteSubnet) hremote
  have hself {α : Type} [DecidableEq α] (a d : α) : (if a ≠ d then a else d) = a :=
    ite_ne_default id rfl
  have hbool (b : Bool) : (if b = true then true else false) = b := by cases b <;> rfl
  have hgiven {α : Type} (a : Text) (t d : α) :
      (if a ≠ [] then t else d) = if a = [] then d else t := ite_not (a = []) t d
  simp only [ite_and_ne_default, decide_eq_true_eq, hself, hbool, hretries, hnatt, hchild, hip,
    hnets, hgiven]

theorem filterMap_ne_nil {g : AlgoGroup} {ids : List Text} (h : OfferedList g ids) :
    ids.filterMap (algoNumbers g) ≠ [] := by
  obtain ⟨id, rest, rfl⟩ := List.exists_cons_of_ne_nil h.1
  obtain ⟨a, -, ha⟩ := (h.2 id List.mem_cons_self).lookup
  rw [List.filterMap_cons_some ha]
  exact List.cons_ne_nil _ _

theorem wdFinish_ok {w : WdConfig} (hgateway : w.gateway ≠ [])
    (hpolicy : [w.ikeDh, w.ikeEnc, w.ikeHash, w.espEnc, w.espHash].countP (· ≠ []) = 5)
    (hlocal : w.localId ≠ [] → w.localIdType = .ipv4 → wdParseIpv4 w.localId = true)
    (hremote : w.remoteId ≠ [] → w.remoteIdType = .ipv4 → wdParseIpv4 w.remoteId = true)
    (heap : w.auth = .eapMschapv2 → w.eapUser ≠ [] ∧ w.eapPassword ≠ [])
    (hpsk : w.auth = .psk → w.psk ≠ []) :
    wdFinish w = .ok { w with havePolicy := true } := by
  unfold wdFinish
  rw [hpolicy]
  simp only [except_check_eq_ok, ensure_eq_ok, decide_eq_true_eq]
  refine ⟨hgateway, .inr trivial, hlocal, hremote, ?_⟩
  cases hauth : w.auth with
  | psk => simp [except_check_eq_ok, ensure_eq_ok, hpsk hauth]
  | eapMschapv2 => simp [except_check_eq_ok, ensure_eq_ok, heap hauth]

theorem wdFinish_daemonConfig (h : Valid c) (henabled : c.enabled = true) (hnet : Pinned net)
    (hsecret : Accepted secret) :
    wdFinish (daemonConfig c net secret caPemFile extraPemFile) =
      .ok { daemonConfig c net secret caPemFile extraPemFile with havePolicy := true } := by
  have hid {id : Text} {t : IdType} (hid : id ≠ [] → t = .ipv4 → ipv4LiteralOk id = true)
      (hne : id ≠ []) (ht : (if id = [] then .fqdn else t) = IdType.ipv4) :
      wdParseIpv4 id = true := by
    rw [if_neg hne] at ht
    exact hid hne ht
  refine wdFinish_ok ?_ ?_ (hid h.localId_ipv4) (hid h.remoteId_ipv4) (fun hauth => ?_)
    fun hauth => ?_
  · obtain ⟨a, b, d, e, hip⟩ := hnet.gatewayIp
    show gatewayOf c net ≠ []
    unfold gatewayOf
    rw [hip, if_pos (dotted_ne_nil a b d e)]
    exact dotted_ne_nil a b d e
  · simp [daemonConfig, filterMap_ne_nil h.ikeDh, filterMap_ne_nil h.ikeEnc,
      filterMap_ne_nil h.ikeHash, filterMap_ne_nil h.espEnc, filterMap_ne_nil h.espHash]
  · have hauth : c.auth = .eapMschapv2 := hauth
    unfold daemonConfig
    dsimp only
    rw [if_pos hauth, if_pos hauth]
    exact ⟨h.eapUser_given hauth henabled, hsecret.1⟩
  · have hauth : c.auth = .psk := hauth
    unfold daemonConfig
    dsimp only
    rw [if_pos hauth]
    exact hsecret.1

/-- An identity with its type; without a text there is none. -/
def identity (id : Text) (t : IdType) : Option (IdType × Text) := if id = [] then none else some (t, id)

/-- The daemon's configuration says what the configuration of the session says. -/
structure Agrees (c : IpsecConfig) (net : SessionNet) (secret : Text) (w : WdConfig) : Prop where
  gateway : w.gateway = gatewayOf c net
  port : w.port = c.port
  auth : w.auth = c.auth
  psk : c.auth = .psk → w.psk = secret
  eap : c.auth = .eapMschapv2 →
    w.eapUser = c.eapUser ∧ w.eapPassword = secret ∧ w.trustMode = c.trustMode
  localId : identity w.localId w.localIdType = identity c.localId c.localIdType
  remoteId : identity w.remoteId w.remoteIdType = identity c.remoteId c.remoteIdType
  localNet : w.localTs = if c.localSubnet = [] then none else cidrNet c.localSubnet
  remoteNets : w.remoteTsList.map some = (splitCsv c.remoteSubnet).map cidrNet
  ikeEnc : w.ikeEnc.map some = c.ikeEnc.map (algoNumbers .ikeEnc)
  ikeHash : w.ikeHash.map some = c.ikeHash.map (algoNumbers .ikeHash)
  ikeDh : w.ikeDh.map some = c.ikeDh.map (algoNumbers .dh)
  espEnc : w.espEnc.map some = c.espEnc.map (algoNumbers .espEnc)
  espHash : w.espHash.map some = c.espHash.map (algoNumbers .espHash)
  pfsGroup : w.pfsGroup.toNat = if c.pfs then algoSmallestDh c.ikeDh else 0
  natT : w.natT = c.natT
  requestCp : w.requestCp = requestCp c
  dpd : w.dpdDisable = !c.dpd
  dpdIntervalS : (w.dpdIntervalS.toNat : Int) = c.dpdIntervalS
  dpdRetries : (w.dpdRetries.toNat : Int) = c.dpdRetries
  nattKeepaliveS : (w.nattKeepaliveS.toNat : Int) = c.nattKeepaliveS
  ikeLifetimeS : w.ikeLifetimeS = c.ikeLifetimeS
  childLifetimeS : w.childLifetimeS = c.childLifetimeS
  childLifetimeKb : w.childLifetimeKb.toNat = c.childLifetimeMb.toNat * 1024
  mtu : w.mtu = c.mtu
  bindIp : w.bindIp = (wdBindIp net.bindIp).toOption
  bindDev : w.bindDev = net.bindDev

theorem map_filterMap_some {α β : Type} {f : α → Option β} {l : List α}
    (h : ∀ a ∈ l, (f a).isSome = true) : (l.filterMap f).map some = l.map f := by
  induction l with
  | nil => rfl
  | cons a l ih =>
    obtain ⟨b, hb⟩ := Option.isSome_iff_exists.mp (h a List.mem_cons_self)
    rw [List.filterMap_cons_some hb, List.map_cons, List.map_cons, hb,
      ih fun a ha => h a (List.mem_cons_of_mem _ ha)]

theorem map_algoNumbers {g : AlgoGroup} {ids : List Text} (h : OfferedList g ids) :
    (ids.filterMap (algoNumbers g)).map some = ids.map (algoNumbers g) := by
  refine map_filterMap_some fun id hid => ?_
  obtain ⟨a, -, ha⟩ := (h.2 id hid).lookup
  rw [ha]
  rfl

theorem agrees_daemonConfig (h : Valid c) (henabled : c.enabled = true) (hr : Readable c) :
    Agrees c net secret
      { daemonConfig c net secret caPemFile extraPemFile with havePolicy := true } := by
  have hsize : UInt32.size = 2 ^ 32 := rfl
  have hint {n : Int} (hlo : 0 ≤ n) (hhi : n ≤ 3600) : ((UInt32.ofNat n.toNat).toNat : Int) = n := by
    rw [UInt32.toNat_ofNat_of_lt' (by omega)]
    omega
  have hid (id : Text) (t : IdType) : identity id (if id = [] then .fqdn else t) = identity id t := by
    unfold identity
    by_cases hid : id = [] <;> simp [hid]
  have hnatt : 0 ≤ c.nattKeepaliveS ∧ c.nattKeepaliveS ≤ 3600 := by
    by_cases h0 : c.nattKeepaliveS = 0
    · omega
    · have := h.nattKeepaliveS h0
      omega
  have hmb := UInt32.le_iff_toNat_le.mp h.childLifetimeMb
  have hnum : (1048576 : UInt32).toNat = 1048576 := rfl
  have hdh := algoSmallestDh_lt c.ikeDh
  obtain ⟨-, hnul, -, hstrict⟩ := hr.remoteSubnet
  obtain ⟨hok, -, -⟩ := cidrListCheck_ok (h.remoteSubnet (h.remoteSubnet_given henabled))
  refine {
    gateway := rfl
    port := rfl
    auth := rfl
    psk := fun hauth => if_pos hauth
    eap := fun hauth => ⟨if_pos hauth, if_pos hauth, if_pos hauth⟩
    localId := hid _ _
    remoteId := hid _ _
    localNet := rfl
    remoteNets := map_filterMap_some fun tok htok => ?_
    ikeEnc := map_algoNumbers h.ikeEnc
    ikeHash := map_algoNumbers h.ikeHash
    ikeDh := map_algoNumbers h.ikeDh
    espEnc := map_algoNumbers h.espEnc
    espHash := map_algoNumbers h.espHash
    pfsGroup := ?_
    natT := rfl
    requestCp := rfl
    dpd := rfl
    dpdIntervalS := hint h.dpdIntervalS.1 h.dpdIntervalS.2
    dpdRetries := hint h.dpdRetries.1 (h.dpdRetries.2.trans (by decide))
    nattKeepaliveS := hint hnatt.1 hnatt.2
    ikeLifetimeS := rfl
    childLifetimeS := rfl
    childLifetimeKb := UInt32.toNat_ofNat_of_lt' (by omega)
    mtu := rfl
    bindIp := rfl
    bindDev := rfl }
  · obtain ⟨n, hn⟩ := Option.isSome_iff_exists.mp (hstrict tok htok)
    rw [cidrNet_of_wdParseCidr hn (hok tok htok) (not_mem_of_mem_splitCsv hnul htok)]
    rfl
  · show (if c.pfs = true then UInt32.ofNat (algoSmallestDh c.ikeDh) else 0).toNat = _
    cases c.pfs with
    | false => rfl
    | true => exact UInt32.toNat_ofNat_of_lt' (by omega)

/-- The daemon takes the file of the session for what the configuration says. -/
def SameMeaning (c : IpsecConfig) (secrets : IpsecSecrets) (oldConf : Text) (net : SessionNet)
    (secret caPemFile extraPemFile : Text) : Prop :=
  ∃ w, wdConfigParse (toWeirdikeConf c secrets oldConf net caPemFile extraPemFile) = .ok w ∧
    Agrees c net secret w

theorem sameMeaning_of_readable {secrets : IpsecSecrets} {oldConf : Text} (h : Valid c)
    (henabled : c.enabled = true) (hcred : Credential c secrets oldConf secret)
    (hnet : Pinned net) (hca : PemFile caPemFile) (hextra : PemFile extraPemFile)
    (hr : Readable c) :
    SameMeaning c secrets oldConf net secret caPemFile extraPemFile := by
  have hfile : wdConfigParse (toWeirdikeConf c secrets oldConf net caPemFile extraPemFile) =
      .ok { daemonConfig c net secret caPemFile extraPemFile with havePolicy := true } := by
    unfold wdConfigParse
    rw [toWeirdikeConf_eq _ _ _ _ _ hcred, foldlM_wdLine (wdKey_daemonSettings _ _ _ _ _)
      (lineOk_daemonSettings h hr hnet hcred.1 hca hextra),
      foldlM_daemonSettings h hr hnet hcred.1 hca hextra]
    exact wdFinish_daemonConfig h henabled hnet hcred.1
  exact ⟨_, hfile, agrees_daemonConfig h henabled hr⟩

/-- A value with a line break puts what stands behind it on a line of its own, which the daemon
refuses where it sets nothing. -/
theorem wdConfigParse_break {kvs : List (String × Text)} {kv : String × Text} (hkv : kv ∈ kvs)
    {x y : Text} (hbreak : kv.2 = x ++ '\n' :: y) {d : Char} (hd : d ∈ y) (hsolid : 0x20 < d.toNat)
    (hassign : '=' ∉ y) (hhash : '#' ∉ y) (hnul : Char.ofNat 0 ∉ y) :
    ∃ e, wdConfigParse (settingsText kvs) = .error e := by
  have hne : d ≠ '\n' := by
    rintro rfl
    exact absurd hsolid (by decide)
  obtain ⟨l, hl, hdl⟩ : ∃ l ∈ split '\n' (y ++ ['\n']), d ∈ l :=
    exists_mem_split (List.mem_append_left _ hd) hne
  have hsub (c : Char) (hc : c ∈ l) (hc' : c ≠ '\n') : c ∈ y := by
    simpa [hc'] using mem_of_mem_split hl hc
  refine wdConfigParse_error (l := l) hkv ?_ fun w => wdLine_error hdl hsolid
    (fun h => hassign (hsub _ h (by decide))) (fun h => hhash (hsub _ h (by decide)))
    (fun h => hnul (hsub _ h (by decide))) w
  have hline : assignment kv.1.toList kv.2 ++ ['\n'] =
      (kv.1.toList ++ " = ".toList ++ x) ++ '\n' :: (y ++ ['\n']) := by
    rw [hbreak]
    simp [assignment]
  rw [hline, split_append_sep]
  exact List.mem_append_right _ hl

/-- A value on one line that does not fit, or that its setting refuses. -/
theorem wdConfigParse_refused {kvs : List (String × Text)} {kv : String × Text} (hkv : kv ∈ kvs)
    (hkey : WdKey kv.1) (hbreak : '\n' ∉ kv.2) (hnul : Char.ofNat 0 ∉ kv.2)
    (hbad : 512 ≤ (assignment kv.1.toList kv.2).length ∨ ∀ w, ∃ e, wdRead w kv = .error e) :
    ∃ e, wdConfigParse (settingsText kvs) = .error e := by
  have hnot : '\n' ∉ assignment kv.1.toList kv.2 := by
    have hkeybreak : '\n' ∉ kv.1.toList := fun hmem => absurd (hkey.solid _ hmem) (by decide)
    simp [assignment, hkeybreak, hbreak]
  refine wdConfigParse_error (l := assignment kv.1.toList kv.2) hkv ?_ fun w => ?_
  · rw [split_append_cons hnot]
    exact List.mem_cons_self
  · by_cases hlen : 512 ≤ (assignment kv.1.toList kv.2).length
    · exact ⟨_, if_pos hlen⟩
    · rw [wdLine_assignment hkey hnul (by omega)]
      exact hbad.resolve_left hlen w

theorem mem_trimFiller {a : Char} {s : Text} (ha : a ∈ s) (hfill : isFiller a = false) :
    a ∈ trimFiller s := by
  obtain ⟨x, y, rfl⟩ := List.append_of_mem ha
  have htrim : trimFiller (x ++ a :: y) = x.dropWhile isFiller ++ a :: y.rdropWhile isFiller :=
    Text.strip_append_cons hfill hfill x y
  rw [htrim]
  exact List.mem_append_right _ List.mem_cons_self

theorem trimFiller_inner (s : Text) : trimFiller s <:+: s :=
  (List.rdropWhile_prefix _ _).isInfix.trans (List.dropWhile_suffix _).isInfix

/-- What a net that passes may hold. -/
def netChar (c : Char) : Bool := Text.numeral c || c = '.' || c = '/' || c = ','

theorem netChar_of_cidrOk {s : Text} (h : cidrOk s = true) (hnul : Char.ofNat 0 ∉ s) :
    ∀ c ∈ s, netChar c = true := by
  obtain ⟨a, d, rfl, hd, ha⟩ := cidrOk_split h hnul
  intro c hc
  rcases List.mem_append.mp hc with hc | hc
  · rcases ha c hc with h | rfl | rfl <;> simp [netChar, *]
  · rw [List.mem_singleton.mp hc]
    simp [netChar, Text.numeral, hd]

theorem netChar_of_cidrListCheck {s : Text} (h : cidrListCheck s = .ok ())
    (hnul : Char.ofNat 0 ∉ s) : ∀ c ∈ s, netChar c = true := by
  obtain ⟨hok, -, -⟩ := cidrListCheck_ok h
  intro c hc
  by_cases hcomma : c = ','
  · rw [hcomma]
    decide
  · obtain ⟨piece, hpiece, hmem⟩ := exists_mem_split hc hcomma
    cases hfill : isFiller c with
    | true =>
      simp only [isFiller, Bool.or_eq_true, decide_eq_true_eq] at hfill
      rcases hfill with rfl | rfl <;> decide
    | false =>
      have htok : trimFiller piece ∈ splitCsv s :=
        mem_splitCsv.mpr ⟨List.ne_nil_of_mem (mem_trimFiller hmem hfill), piece, hpiece, rfl⟩
      exact netChar_of_cidrOk (hok _ htok) (not_mem_of_mem_splitCsv hnul htok) c
        (mem_trimFiller hmem hfill)

/-- A net with a line break has digits behind it. -/
theorem exists_break_of_cidrOk {s : Text} (h : cidrOk s = true) (hnul : Char.ofNat 0 ∉ s)
    (hbreak : '\n' ∈ s) : ∃ x y d, s = x ++ '\n' :: y ∧ d ∈ y ∧ d.isDigit = true := by
  obtain ⟨a, d, rfl, hd, -⟩ := cidrOk_split h hnul
  have hmem : '\n' ∈ a := by
    rcases List.mem_append.mp hbreak with hmem | hmem
    · exact hmem
    · rw [← List.mem_singleton.mp hmem] at hd
      exact absurd hd (by decide)
  obtain ⟨x, y, rfl⟩ := List.append_of_mem hmem
  exact ⟨x, y ++ [d], d, by simp, by simp, hd⟩

theorem solid_of_isDigit {d : Char} (h : d.isDigit = true) : 0x20 < d.toNat :=
  solid_of_all (p := Char.isDigit) (v := [d]) (by decide) (by simpa using h) d (by simp)

section refused

variable {kvs : List (String × Text)} (haccepted : ∃ w, wdConfigParse (settingsText kvs) = .ok w)

include haccepted

theorem not_error : ¬ ∃ e, wdConfigParse (settingsText kvs) = .error e := by
  rintro ⟨e, he⟩
  obtain ⟨w, hw⟩ := haccepted
  rw [hw] at he
  exact absurd he (by simp)

theorem not_break {kv : String × Text} (hkv : kv ∈ kvs) (hall : ∀ c ∈ kv.2, netChar c = true)
    {x y : Text} (hbreak : kv.2 = x ++ '\n' :: y) {d : Char} (hd : d ∈ y)
    (hdigit : d.isDigit = true) : False := by
  have hno {c : Char} (hc : netChar c = false) : c ∉ y := fun hmem => by
    rw [hall c (hbreak ▸ List.mem_append_right _ (List.mem_cons_of_mem _ hmem))] at hc
    exact absurd hc (by decide)
  exact not_error haccepted (wdConfigParse_break hkv hbreak hd (solid_of_isDigit hdigit)
    (hno (by decide)) (hno (by decide)) (hno (by decide)))

theorem not_refused {kv : String × Text} (hkv : kv ∈ kvs) (hkey : WdKey kv.1)
    (hbreak : '\n' ∉ kv.2) (hnul : Char.ofNat 0 ∉ kv.2) :
    (assignment kv.1.toList kv.2).length < 512 ∧ ∃ w w', wdRead w kv = .ok w' := by
  by_contra hno
  refine not_error haccepted (wdConfigParse_refused hkv hkey hbreak hnul ?_)
  rw [not_and_or, not_lt] at hno
  refine hno.imp_right fun hread w => ?_
  cases hw : wdRead w kv with
  | error e => exact ⟨e, rfl⟩
  | ok w' => exact absurd ⟨w, w', hw⟩ hread

end refused

theorem mem_optional {b : Bool} {k : String} {v : Text} (hb : b = true) :
    (k, v) ∈ optional b k v := by
  unfold optional
  rw [if_pos hb]
  exact List.mem_singleton_self _

theorem mem_daemonSettings_tail {kv : String × Text}
    (h : kv ∈ tailSettings c net caPemFile extraPemFile) :
    kv ∈ daemonSettings c net secret caPemFile extraPemFile := List.mem_append_right _ h

theorem mem_lists {k : String} {ids : List Text}
    (h : (k, ids) ∈ [("ike_dh", c.ikeDh), ("ike_enc", c.ikeEnc), ("ike_hash", c.ikeHash),
      ("esp_enc", c.espEnc), ("esp_hash", c.espHash)]) :
    (k, joinCsv ids) ∈ tailSettings c net caPemFile extraPemFile := by
  have hmem : (k, joinCsv ids) ∈ [("nat_t", boolText c.natT), ("ike_dh", joinCsv c.ikeDh),
      ("ike_enc", joinCsv c.ikeEnc), ("ike_hash", joinCsv c.ikeHash),
      ("esp_enc", joinCsv c.espEnc), ("esp_hash", joinCsv c.espHash)] :=
    List.mem_cons_of_mem _ (List.mem_map_of_mem (f := fun kv => (kv.1, joinCsv kv.2)) h)
  unfold tailSettings
  simp only [List.mem_append, hmem, true_or, or_true]

/-- What the daemon accepts of texts without a zero byte is readable. -/
theorem readable_of_accepted (h : Valid c)
    (haccepted : ∃ w, wdConfigParse
      (settingsText (daemonSettings c net secret caPemFile extraPemFile)) = .ok w)
    (hlocal : Char.ofNat 0 ∉ c.localSubnet) (hremote : Char.ofNat 0 ∉ c.remoteSubnet) :
    Readable c where
  localSubnet := by
    intro hne
    have hok := h.localSubnet hne
    have hmem : ("local_subnet", c.localSubnet) ∈
        daemonSettings c net secret caPemFile extraPemFile := by
      have hin := mem_optional (k := "local_subnet") (v := c.localSubnet) (decide_eq_true hne)
      refine mem_daemonSettings_tail ?_
      unfold tailSettings
      simp only [List.mem_append, hin, true_or, or_true]
    have hbreak : '\n' ∉ c.localSubnet := by
      intro hbreak
      obtain ⟨x, y, d, hs, hd, hdigit⟩ := exists_break_of_cidrOk hok hlocal hbreak
      exact not_break haccepted hmem (netChar_of_cidrOk hok hlocal) hs hd hdigit
    obtain ⟨hlen, w, w', hread⟩ := not_refused haccepted hmem
      (wdKey_daemonSettings _ _ _ _ _ _ hmem) hbreak hlocal
    refine ⟨hbreak, hlocal, ?_, ?_⟩
    · have hkey : "local_subnet".toList.length = 12 := rfl
      rw [length_assignment, hkey] at hlen
      dsimp only at hlen
      omega
    · have hk (v : Text) : wdSetting w "local_subnet" v =
          (asNamed wdParseCidr v "bad local_subnet").map fun n => { w with localTs := some n } := rfl
      unfold wdRead at hread
      dsimp only at hread
      rw [hk, except_map_eq_ok] at hread
      obtain ⟨n, hn, -⟩ := hread
      unfold asNamed at hn
      split at hn
      · rename_i hcidr
        rw [hcidr]
        rfl
      · exact absurd hn (by simp)
  remoteSubnet := by
    by_cases hne : c.remoteSubnet = []
    · rw [hne]
      exact ⟨List.not_mem_nil, List.not_mem_nil, by decide, List.forall_mem_nil _⟩
    have hcheck := h.remoteSubnet hne
    obtain ⟨hok, -, -⟩ := cidrListCheck_ok hcheck
    have hmem : ("remote_subnet", c.remoteSubnet) ∈
        daemonSettings c net secret caPemFile extraPemFile := by
      have hin := mem_optional (k := "remote_subnet") (v := c.remoteSubnet) (decide_eq_true hne)
      refine mem_daemonSettings_tail ?_
      unfold tailSettings
      simp only [List.mem_append, hin, true_or, or_true]
    have hbreak : '\n' ∉ c.remoteSubnet := by
      intro hbreak
      obtain ⟨piece, hpiece, hmem'⟩ : ∃ piece ∈ split ',' c.remoteSubnet, '\n' ∈ piece :=
        exists_mem_split hbreak (by decide)
      have htrim : '\n' ∈ trimFiller piece := mem_trimFiller hmem' (by decide)
      have htok : trimFiller piece ∈ splitCsv c.remoteSubnet :=
        mem_splitCsv.mpr ⟨List.ne_nil_of_mem htrim, piece, hpiece, rfl⟩
      obtain ⟨x, y, d, hs, hd, hdigit⟩ :=
        exists_break_of_cidrOk (hok _ htok) (not_mem_of_mem_splitCsv hremote htok) htrim
      obtain ⟨u, v, huv⟩ := (trimFiller_inner piece).trans (isInfix_of_mem_split hpiece)
      refine not_break haccepted hmem (netChar_of_cidrListCheck hcheck hremote) (x := u ++ x)
        (y := y ++ v) ?_ (List.mem_append_left _ hd) hdigit
      dsimp only
      rw [← huv, hs]
      simp
    obtain ⟨hlen, w, w', hread⟩ := not_refused haccepted hmem
      (wdKey_daemonSettings _ _ _ _ _ _ hmem) hbreak hremote
    refine ⟨hbreak, hremote, ?_, fun tok htok => ?_⟩
    · have hkey : "remote_subnet".toList.length = 13 := rfl
      rw [length_assignment, hkey] at hlen
      dsimp only at hlen
      omega
    · have hk (v : Text) : wdSetting w "remote_subnet" v =
          (wdRemoteSubnet v).map fun l => { w with remoteTsList := l } := rfl
      unfold wdRead at hread
      dsimp only at hread
      rw [hk, except_map_eq_ok] at hread
      obtain ⟨l, hl, -⟩ := hread
      by_contra hnone
      rw [Bool.not_eq_true, Option.isSome_eq_false_iff, Option.isNone_iff_eq_none] at hnone
      rw [← splitCsv_wdTrim_of_cidrOk hok hremote] at htok
      obtain ⟨e, he⟩ := wdRemoteSubnet_error htok hnone
      rw [he] at hl
      exact absurd hl (by simp)
  lists := by
    have hlen (k : String) {g : AlgoGroup} {ids : List Text} (hids : OfferedList g ids)
        (hin : (k, ids) ∈ [("ike_dh", c.ikeDh), ("ike_enc", c.ikeEnc), ("ike_hash", c.ikeHash),
          ("esp_enc", c.espEnc), ("esp_hash", c.espHash)])
        (hk : ∀ w v, ∃ set : List WdAlgo → WdConfig,
          wdSetting w k v = (wdParseAlgoList g v).map set) : ids.length ≤ 16 := by
      have hmem : (k, joinCsv ids) ∈ daemonSettings c net secret caPemFile extraPemFile :=
        mem_daemonSettings_tail (mem_lists hin)
      have hsolid := hids.solid
      obtain ⟨-, w, w', hread⟩ := not_refused haccepted hmem (wdKey_daemonSettings _ _ _ _ _ _ hmem)
        (fun hbreak => absurd (hsolid _ hbreak) (by decide))
        (fun hnul => absurd (hsolid _ hnul) (by decide))
      obtain ⟨set, hset⟩ := hk w (wdTrim (joinCsv ids))
      unfold wdRead at hread
      dsimp only at hread
      rw [hset, wdTrim_solid hsolid, except_map_eq_ok] at hread
      obtain ⟨l, hl, -⟩ := hread
      by_contra hno
      obtain ⟨e, he⟩ := wdParseAlgoList_error hids (by omega)
      rw [he] at hl
      exact absurd hl (by simp)
    simp only [List.forall_mem_cons]
    exact ⟨hlen "ike_dh" h.ikeDh (by simp) fun _ _ => ⟨_, rfl⟩,
      hlen "ike_enc" h.ikeEnc (by simp) fun _ _ => ⟨_, rfl⟩,
      hlen "ike_hash" h.ikeHash (by simp) fun _ _ => ⟨_, rfl⟩,
      hlen "esp_enc" h.espEnc (by simp) fun _ _ => ⟨_, rfl⟩,
      hlen "esp_hash" h.espHash (by simp) fun _ _ => ⟨_, rfl⟩, List.forall_mem_nil _⟩

/-- The file means the same and no address has a zero byte exactly where the daemon's stricter
rules hold. Behind a zero byte whole lines of their own could stand. -/
theorem sameMeaning_iff {secrets : IpsecSecrets} {oldConf : Text} (h : validate c = .ok ())
    (henabled : c.enabled = true) (hcred : Credential c secrets oldConf secret)
    (hnet : Pinned net) (hca : PemFile caPemFile) (hextra : PemFile extraPemFile) :
    (SameMeaning c secrets oldConf net secret caPemFile extraPemFile ∧
        Char.ofNat 0 ∉ c.localSubnet ∧ Char.ofNat 0 ∉ c.remoteSubnet) ↔ Readable c := by
  have hvalid := validate_eq_ok.mp h
  constructor
  · rintro ⟨⟨w, hw, -⟩, hlocal, hremote⟩
    rw [toWeirdikeConf_eq _ _ _ _ _ hcred] at hw
    exact readable_of_accepted hvalid ⟨w, hw⟩ hlocal hremote
  · intro hr
    refine ⟨sameMeaning_of_readable hvalid henabled hcred hnet hca hextra hr, ?_,
      hr.remoteSubnet.2.1⟩
    by_cases hne : c.localSubnet = []
    · rw [hne]
      exact List.not_mem_nil
    · exact (hr.localSubnet hne).2.1

def siteToSite (remote : String) : IpsecConfig :=
  { enabled := true, gateway := "vpn.example.org".toList, remoteSubnet := remote.toList }

def siteNet : SessionNet := { gatewayIp := dotted 203 0 113 5 }

def sitePsk : IpsecSecrets := { psk := "correct horse".toList }

theorem credential_sitePsk (remote : String) :
    Credential (siteToSite remote) sitePsk [] "correct horse".toList := by
  have haccepted : Accepted "correct horse".toList := by decide
  exact @credential_new (siteToSite remote) sitePsk haccepted []

theorem pinned_siteNet : Pinned siteNet where
  gatewayIp := ⟨203, 0, 113, 5, rfl⟩
  bindIp := fun h => absurd rfl h
  bindDev := fun h => absurd rfl h

theorem pemFile_nil : PemFile [] := ⟨List.forall_mem_nil _, by decide⟩

theorem readable_site : Readable (siteToSite "192.168.1.0/24") where
  localSubnet := fun h => absurd rfl h
  remoteSubnet := by decide
  lists := by decide

theorem sameMeaning_site :
    SameMeaning (siteToSite "192.168.1.0/24") sitePsk [] siteNet "correct horse".toList [] [] :=
  ((sameMeaning_iff (by decide) rfl (credential_sitePsk _) pinned_siteNet pemFile_nil
    pemFile_nil).mpr readable_site).1

theorem not_sameMeaning_zero :
    ¬ ∀ (c : IpsecConfig) (secrets : IpsecSecrets) (oldConf : Text) (net : SessionNet)
      (secret caPemFile extraPemFile : Text), validate c = .ok () → c.enabled = true →
      Credential c secrets oldConf secret → Pinned net → PemFile caPemFile → PemFile extraPemFile →
      SameMeaning c secrets oldConf net secret caPemFile extraPemFile := by
  intro h
  obtain ⟨w, hw, -⟩ := h (siteToSite "192.168.001.0/24") sitePsk [] siteNet "correct horse".toList
    [] [] (by decide) rfl (credential_sitePsk _) pinned_siteNet pemFile_nil pemFile_nil
  rw [toWeirdikeConf_eq _ _ _ _ _ (credential_sitePsk _)] at hw
  have hr := readable_of_accepted (validate_eq_ok.mp (by decide)) ⟨w, hw⟩ (by decide) (by decide)
  exact absurd (hr.remoteSubnet.2.2.2 _ List.mem_cons_self) (by decide)

end Machino.Ipsec
