import Machino.Ipsec.DaemonLines

namespace Machino.Ipsec

open Lines

/-- The daemon reads these texts: on one line that fits its buffer, without a zero byte, and as
strict addresses. -/
structure Readable (c : IpsecConfig) : Prop where
  localSubnet : c.localSubnet ≠ [] → '\n' ∉ c.localSubnet ∧ Char.ofNat 0 ∉ c.localSubnet ∧
    c.localSubnet.length ≤ 496 ∧ (wdParseCidr (wdTrim c.localSubnet)).isSome = true
  remoteSubnet : '\n' ∉ c.remoteSubnet ∧ Char.ofNat 0 ∉ c.remoteSubnet ∧
    c.remoteSubnet.length ≤ 495 ∧ ∀ net ∈ splitCsv c.remoteSubnet, (wdParseCidr net).isSome = true
  lists : ∀ ids ∈ [c.ikeDh, c.ikeEnc, c.ikeHash, c.espEnc, c.espHash], ids.length ≤ 16

section

variable {c : IpsecConfig} {net : SessionNet} {secret caPemFile extraPemFile : Text}

theorem algoSmallestDh_lt (ids : List Text) : algoSmallestDh ids < 33 := by
  have hall : ∀ a ∈ kDh, a.iana < 33 := by decide
  unfold algoSmallestDh
  refine List.foldlRecOn (motive := (· < 33)) ids _ (by decide) fun best hbest id _ => ?_
  split
  · exact hbest
  · rename_i a ha
    split
    · exact hall a (List.mem_of_find?_eq_some ha)
    · exact hbest

theorem lineOk_daemonSettings (h : Valid c) (hr : Readable c) (hnet : Pinned net)
    (hsecret : Accepted secret) (hca : PemFile caPemFile) (hextra : PemFile extraPemFile) :
    ∀ kv ∈ daemonSettings c net secret caPemFile extraPemFile, LineOk kv := by
  obtain ⟨hlen, -, hbreak, hnul⟩ := hsecret.spec
  have hgateway : Brief (gatewayOf c net) := by
    unfold gatewayOf
    rw [if_pos]
    · exact hnet.gatewayIp.brief
    · obtain ⟨a, b, c, d, hip⟩ := hnet.gatewayIp
      exact hip ▸ dotted_ne_nil a b c d
  have hactive : LineOk (activeKey c, secret) := by
    refine ⟨hbreak, hnul, ?_⟩
    have hkey : (activeKey c).toList.length ≤ 12 := by
      unfold activeKey activeSecret
      cases c.auth <;> decide
    rw [length_assignment]
    dsimp only
    omega
  have hlocal : c.localSubnet ≠ [] → LineOk ("local_subnet", c.localSubnet) := by
    intro hne
    obtain ⟨hbreak, hnul, hlen, -⟩ := hr.localSubnet hne
    refine ⟨hbreak, hnul, ?_⟩
    have hkey : "local_subnet".toList.length = 12 := rfl
    rw [length_assignment, hkey]
    dsimp only
    omega
  have hremote : LineOk ("remote_subnet", c.remoteSubnet) := by
    obtain ⟨hbreak, hnul, hlen, -⟩ := hr.remoteSubnet
    refine ⟨hbreak, hnul, ?_⟩
    have hkey : "remote_subnet".toList.length = 13 := rfl
    rw [length_assignment, hkey]
    dsimp only
    omega
  have hnat {n : ℕ} (hn : n < 2 ^ 60) : Brief (Text.ofNat n) := brief_ofNat (by omega)
  have hd := h.dpdIntervalS
  have hret := h.dpdRetries
  have hnatt := h.nattKeepaliveS
  have hmtu := h.mtu
  have hport := c.port.toNat_lt
  have hike := c.ikeLifetimeS.toNat_lt
  have hchild := c.childLifetimeS.toNat_lt
  have hmb := c.childLifetimeMb.toNat_lt
  have hdh := algoSmallestDh_lt c.ikeDh
  have hlist {g : AlgoGroup} {ids : List Text} (hids : OfferedList g ids)
      (hmem : ids ∈ [c.ikeDh, c.ikeEnc, c.ikeHash, c.espEnc, c.espHash]) : Brief (joinCsv ids) :=
    hids.brief (hr.lists ids hmem)
  unfold daemonSettings headSettings tailSettings
  simp only [List.forall_mem_append, List.forall_mem_cons, forall_mem_optional]
  and_intros
  · exact hgateway.lineOk (by decide)
  · exact (hnat (by omega)).lineOk (by decide)
  · exact (brief_authName _).lineOk (by decide)
  · exact List.forall_mem_nil _
  · intro heap
    simp only [Bool.and_eq_true, decide_eq_true_eq] at heap
    exact (brief_of_idOk (h.eapUser heap.1)).lineOk (by decide)
  · exact hactive
  · exact List.forall_mem_nil _
  · exact fun _ => (brief_trustModeName _).lineOk (by decide)
  · exact fun _ => hca.brief.lineOk (by decide)
  · exact fun _ => hextra.brief.lineOk (by decide)
  · exact fun hne => (hnet.bindIp (of_decide_eq_true hne)).brief.lineOk (by decide)
  · exact fun hne => (brief_of_wdValidIfname (hnet.bindDev (of_decide_eq_true hne))).lineOk (by decide)
  · exact fun _ => (brief_of_idOk h.localId).lineOk (by decide)
  · exact fun _ => (brief_of_idOk h.remoteId).lineOk (by decide)
  · exact fun _ => (brief_idTypeName _).lineOk (by decide)
  · exact fun _ => (brief_idTypeName _).lineOk (by decide)
  · exact fun hne => hlocal (of_decide_eq_true hne)
  · exact fun _ => ⟨by decide, by decide, by decide⟩
  · exact fun _ => hremote
  · exact (brief_boolText _).lineOk (by decide)
  · exact (hlist h.ikeDh (by simp)).lineOk (by decide)
  · exact (hlist h.ikeEnc (by simp)).lineOk (by decide)
  · exact (hlist h.ikeHash (by simp)).lineOk (by decide)
  · exact (hlist h.espEnc (by simp)).lineOk (by decide)
  · exact (hlist h.espHash (by simp)).lineOk (by decide)
  · exact List.forall_mem_nil _
  · exact fun _ => (hnat (by omega)).lineOk (by decide)
  · exact fun _ => ⟨by decide, by decide, by decide⟩
  · exact fun _ => (brief_ofInt (by omega) (by omega)).lineOk (by decide)
  · exact fun _ => (brief_ofInt (by omega) (by omega)).lineOk (by decide)
  · exact fun _ => (hnat (by omega)).lineOk (by decide)
  · exact fun _ => (brief_ofInt (by omega) (by omega)).lineOk (by decide)
  · exact (brief_ofInt (by omega) (by omega)).lineOk (by decide)
  · exact List.forall_mem_nil _
  · exact fun _ => (hnat (by omega)).lineOk (by decide)
  · exact fun _ => (hnat (by omega)).lineOk (by decide)

/-- A setting that may be left out sets its field or leaves it. -/
theorem foldlM_optional {α : Type} (set : WdConfig → α → WdConfig) {w : WdConfig} {old x : α}
    (hold : set w old = w) {b : Bool} {k : String} {v : Text}
    (h : b = true → wdRead w (k, v) = .ok (set w x)) :
    (optional b k v).foldlM wdRead w = .ok (set w (if b then x else old)) := by
  unfold optional
  cases b with
  | false => exact congrArg Except.ok hold.symm
  | true =>
    rw [if_pos rfl, List.foldlM_cons, h rfl]
    rfl

section settings

variable (w : WdConfig)

/-- A setting whose value is read by itself and then put in its field. -/
theorem wdRead_of {α : Type} (set : WdConfig → α → WdConfig) {k : String}
    {read : Text → Except String α} (hk : ∀ v, wdSetting w k v = (read v).map (set w)) {v : Text}
    {x : α} (hread : wdTrim v = v ∧ read v = .ok x) : wdRead w (k, v) = .ok (set w x) := by
  unfold wdRead
  dsimp only
  rw [hk, hread.1, hread.2]
  rfl

theorem foldlM_optional_of {α : Type} (set : WdConfig → α → WdConfig) {k : String}
    {read : Text → Except String α} (hk : ∀ v, wdSetting w k v = (read v).map (set w)) {old x : α}
    (hold : set w old = w) {b : Bool} {v : Text}
    (hread : b = true → wdTrim v = v ∧ read v = .ok x) :
    (optional b k v).foldlM wdRead w = .ok (set w (if b then x else old)) :=
  foldlM_optional set hold fun hb => wdRead_of w set hk (hread hb)

theorem wdRead_gateway (h : Pinned net) :
    wdRead w ("gateway", gatewayOf c net) = .ok { w with gateway := gatewayOf c net } := by
  obtain ⟨a, b, d, e, hip⟩ := h.gatewayIp
  have hgateway : gatewayOf c net = dotted a b d e := by
    unfold gatewayOf
    rw [hip, if_pos (dotted_ne_nil a b d e)]
  have hk (v : Text) : wdSetting w "gateway" v =
      ensure (wdValidHostname v) "bad gateway" >>= fun _ => .ok { w with gateway := v } := rfl
  unfold wdRead
  dsimp only
  rw [hgateway, wdTrim_solid (solid_dotted a b d e), hk, wdValidHostname_dotted]
  rfl

theorem wdRead_port (h : Valid c) :
    wdRead w ("port", Text.ofNat c.port.toNat) = .ok { w with port := c.port } := by
  have hlt : c.port.toNat < UInt32.size := c.port.toNat_lt.trans (by decide)
  have hle : c.port.toNat ≤ 65535 := Nat.le_of_lt_succ c.port.toNat_lt
  have hne : UInt32.ofNat c.port.toNat ≠ 0 := by
    intro h0
    refine h.port (UInt16.toNat_inj.mp ?_)
    have hback := congrArg UInt32.toNat h0
    rwa [UInt32.toNat_ofNat_of_lt' hlt] at hback
  have hport : (UInt32.ofNat c.port.toNat).toUInt16 = c.port := by
    refine UInt16.toNat_inj.mp ?_
    rw [UInt32.toNat_toUInt16, UInt32.toNat_ofNat_of_lt' hlt, Nat.mod_eq_of_lt c.port.toNat_lt]
  have hk (v : Text) : wdSetting w "port" v = asUint v 65535 "bad port" >>= fun x =>
      ensure (x ≠ 0) "bad port" >>= fun _ => .ok { w with port := x.toUInt16 } := rfl
  unfold wdRead
  dsimp only
  rw [wdTrim_solid (solid_ofNat _), hk, asUint_ofNat hle (by decide)]
  simp only [bind, Except.bind, ensure, ne_eq, hne, not_false_eq_true, decide_true, if_true, hport]

theorem wdRead_auth :
    wdRead w ("auth", (authName c.auth).toList) = .ok { w with auth := c.auth } :=
  wdRead_of w (fun w a => { w with auth := a }) (fun _ => rfl)
    ⟨wdTrim_solid (solid_authName _), asNamed_authName _ _⟩

theorem wdRead_credential (h : Accepted secret) :
    wdRead w (activeKey c, secret) =
      .ok { w with
        psk := if c.auth = .psk then secret else w.psk
        eapPassword := if c.auth = .eapMschapv2 then secret else w.eapPassword } := by
  obtain ⟨hlen, htrim, -⟩ := h.spec
  have hok (err : String) : asSecret secret err = .ok secret := by
    unfold asSecret
    rw [if_neg]
    rintro (hnil | hlong)
    · exact h.1 hnil
    · omega
  unfold activeKey activeSecret
  cases c.auth with
  | psk => exact wdRead_of w (fun w s => { w with psk := s }) (fun _ => rfl) ⟨htrim, hok _⟩
  | eapMschapv2 =>
    exact wdRead_of w (fun w s => { w with eapPassword := s }) (fun _ => rfl) ⟨htrim, hok _⟩

/-- A text of at most 127 bytes in a field of its own. -/
theorem foldlM_optional_text (set : WdConfig → Text → WdConfig) {old : Text} (hold : set w old = w)
    {k err : String} (hk : ∀ v, wdSetting w k v = (asText v 128 err).map (set w)) {b : Bool}
    {v : Text} (hv : b = true → Solid v ∧ v.length < 128) :
    (optional b k v).foldlM wdRead w = .ok (set w (if b then v else old)) := by
  refine foldlM_optional_of w set hk hold fun hb => ⟨wdTrim_solid (hv hb).1, ?_⟩
  have hlen := (hv hb).2
  rw [asText, if_neg (by omega)]

theorem length_of_idOk {v : Text} (h : v ≠ [] → idOk v = true) : v.length < 128 := by
  by_cases hv : v = []
  · rw [hv]
    decide
  · have hok := h hv
    simp only [idOk, Bool.and_eq_true, decide_eq_true_eq] at hok
    omega

theorem read_eapUser (h : Valid c) :
    (optional (c.auth = .eapMschapv2 && c.eapUser ≠ []) "eap_user" c.eapUser).foldlM wdRead w =
      .ok { w with
        eapUser := if c.auth = .eapMschapv2 && c.eapUser ≠ [] then c.eapUser else w.eapUser } := by
  refine foldlM_optional_text w (fun w v => { w with eapUser := v }) rfl (fun _ => rfl) fun heap => ?_
  simp only [Bool.and_eq_true, decide_eq_true_eq] at heap
  have hid := h.eapUser heap.1
  exact ⟨solid_of_idOk hid, length_of_idOk hid⟩

theorem read_trustMode :
    (optional (c.auth = .eapMschapv2) "trust_mode" (trustModeName c.trustMode).toList).foldlM
        wdRead w =
      .ok { w with
        trustMode := if decide (c.auth = .eapMschapv2) then c.trustMode else w.trustMode } :=
  foldlM_optional_of w (fun w t => { w with trustMode := t }) (fun _ => rfl) rfl fun _ =>
    ⟨wdTrim_solid (solid_trustModeName _), asNamed_trustModeName _ _⟩

theorem read_caPemFile (h : PemFile caPemFile) :
    (optional (c.auth = .eapMschapv2 && caPemFile ≠ []) "ca_pem_file" caPemFile).foldlM wdRead w =
      .ok { w with
        caPemFile := if c.auth = .eapMschapv2 && caPemFile ≠ [] then caPemFile else w.caPemFile } :=
  foldlM_optional_text w (fun w v => { w with caPemFile := v }) rfl (fun _ => rfl) fun _ => h

theorem read_extraPemFile (h : PemFile extraPemFile) :
    (optional (c.auth = .eapMschapv2 && extraPemFile ≠ []) "extra_pem_file" extraPemFile).foldlM
        wdRead w =
      .ok { w with
        extraPemFile :=
          if c.auth = .eapMschapv2 && extraPemFile ≠ [] then extraPemFile else w.extraPemFile } :=
  foldlM_optional_text w (fun w v => { w with extraPemFile := v }) rfl (fun _ => rfl) fun _ => h

theorem read_bindIp (h : Pinned net) :
    (optional (net.bindIp ≠ []) "bind_ip" net.bindIp).foldlM wdRead w =
      .ok { w with
        bindIp := if decide (net.bindIp ≠ []) then (wdBindIp net.bindIp).toOption else w.bindIp } := by
  refine foldlM_optional (fun w ip => { w with bindIp := ip }) rfl fun hne => ?_
  obtain ⟨a, b, d, e, hip⟩ := h.bindIp (of_decide_eq_true hne)
  rw [hip, wdBindIp_dotted]
  exact wdRead_of w (fun w ip => { w with bindIp := some ip }) (fun _ => rfl)
    ⟨wdTrim_solid (solid_dotted a b d e), wdBindIp_dotted a b d e⟩

theorem read_bindDev (h : Pinned net) :
    (optional (net.bindDev ≠ []) "bind_dev" net.bindDev).foldlM wdRead w =
      .ok { w with bindDev := if decide (net.bindDev ≠ []) then net.bindDev else w.bindDev } := by
  refine foldlM_optional (fun w d => { w with bindDev := d }) rfl fun hne => ?_
  have hdev := h.bindDev (of_decide_eq_true hne)
  have hk (v : Text) : wdSetting w "bind_dev" v =
      ensure (wdValidIfname v) "bad bind_dev" >>= fun _ => .ok { w with bindDev := v } := rfl
  unfold wdRead
  dsimp only
  rw [wdTrim_solid (brief_of_wdValidIfname hdev).1, hk, hdev]
  rfl

theorem read_localId (h : Valid c) :
    (optional (c.localId ≠ []) "local_id" c.localId).foldlM wdRead w =
      .ok { w with localId := if decide (c.localId ≠ []) then c.localId else w.localId } :=
  foldlM_optional_text w (fun w v => { w with localId := v }) rfl (fun _ => rfl) fun _ =>
    ⟨solid_of_idOk h.localId, length_of_idOk h.localId⟩

theorem read_remoteId (h : Valid c) :
    (optional (c.remoteId ≠ []) "remote_id" c.remoteId).foldlM wdRead w =
      .ok { w with remoteId := if decide (c.remoteId ≠ []) then c.remoteId else w.remoteId } :=
  foldlM_optional_text w (fun w v => { w with remoteId := v }) rfl (fun _ => rfl) fun _ =>
    ⟨solid_of_idOk h.remoteId, length_of_idOk h.remoteId⟩

theorem read_localIdType :
    (optional (c.localId ≠ [] && c.localIdType ≠ .fqdn) "local_id_type"
        (idTypeName c.localIdType).toList).foldlM wdRead w =
      .ok { w with
        localIdType :=
          if c.localId ≠ [] && c.localIdType ≠ .fqdn then c.localIdType else w.localIdType } :=
  foldlM_optional_of w (fun w t => { w with localIdType := t }) (fun _ => rfl) rfl fun _ =>
    ⟨wdTrim_solid (solid_idTypeName _), asNamed_idTypeName _ _⟩

theorem read_remoteIdType :
    (optional (c.remoteId ≠ [] && c.remoteIdType ≠ .fqdn) "remote_id_type"
        (idTypeName c.remoteIdType).toList).foldlM wdRead w =
      .ok { w with
        remoteIdType :=
          if c.remoteId ≠ [] && c.remoteIdType ≠ .fqdn then c.remoteIdType else w.remoteIdType } :=
  foldlM_optional_of w (fun w t => { w with remoteIdType := t }) (fun _ => rfl) rfl fun _ =>
    ⟨wdTrim_solid (solid_idTypeName _), asNamed_idTypeName _ _⟩

/-- The scan of a number skips the blanks that the daemon takes off. -/
theorem scanSeparated_dropWhile (seps : List Char) (s : Text) :
    scanSeparated seps (s.dropWhile isFiller) = scanSeparated seps s := by
  have hdrop : (s.dropWhile isFiller).dropWhile Text.isSpace = s.dropWhile Text.isSpace := by
    induction s with
    | nil => rfl
    | cons a s ih =>
      by_cases ha : isFiller a = true
      · have hsp : Text.isSpace a = true := by
          simp only [isFiller, Bool.or_eq_true, decide_eq_true_eq] at ha
          rcases ha with rfl | rfl <;> decide
        rw [List.dropWhile_cons_of_pos ha, ih, List.dropWhile_cons_of_pos hsp]
      · rw [List.dropWhile_cons_of_neg ha]
  have hnum : Text.scanULong (s.dropWhile isFiller) = Text.scanULong s := by
    unfold Text.scanULong Text.scanNumber
    rw [hdrop]
  cases seps with
  | nil => rw [scanSeparated, scanSeparated, hnum]
  | cons sep seps => rw [scanSeparated, scanSeparated, hnum]

/-- A net that passes ends with a digit, so the daemon takes blanks off its front only. -/
theorem wdTrim_of_cidrOk {s : Text} (h : cidrOk s = true) (hnul : Char.ofNat 0 ∉ s) :
    wdTrim s = s.dropWhile isFiller := by
  obtain ⟨a, d, rfl, hd, -⟩ := cidrOk_split h hnul
  have hsolid : 0x20 < d.toNat :=
    solid_of_all (p := Char.isDigit) (v := [d]) (by decide) (by simpa using hd) d (by simp)
  have hdrop := Text.strip_append_cons (not_isFiller hsolid).1 (not_isFiller hsolid).2 a []
  have hfront : (a ++ [d]).dropWhile isFiller = a.dropWhile isFiller ++ [d] := by
    rw [List.dropWhile_append]
    split
    · rename_i hnil
      have hnil' : a.dropWhile isFiller = [] := by simpa using hnil
      rw [hnil', List.dropWhile_cons_of_neg (by simp [(not_isFiller hsolid).1])]
      rfl
    · rfl
  rw [wdTrim_eq, hdrop, hfront, List.rdropWhile_nil]

theorem cidrNet_of_daemon {s : Text} {n : WdCidr} (h : wdParseCidr (wdTrim s) = some n)
    (hok : cidrOk s = true) (hnul : Char.ofNat 0 ∉ s) : cidrNet s = some n := by
  have hsub : (s.dropWhile isFiller).Sublist s := (List.dropWhile_suffix _).sublist
  have hnul' : Char.ofNat 0 ∉ s.dropWhile isFiller := fun hmem => hnul (hsub.subset hmem)
  rw [wdTrim_of_cidrOk hok hnul] at h
  have hscan := scanSeparated_dropWhile ['.', '.', '.', '/'] s
  have hok' : cidrOk (s.dropWhile isFiller) = true := by
    unfold cidrOk at hok ⊢
    rw [cString_eq_self hnul] at hok
    rw [cString_eq_self hnul', hscan]
    exact hok
  have hnet := cidrNet_of_wdParseCidr h hok' hnul'
  unfold cidrNet at hnet ⊢
  rw [cString_eq_self hnul', hscan] at hnet
  rw [cString_eq_self hnul]
  exact hnet

theorem read_localSubnet (h : Valid c) (hr : Readable c) :
    (optional (c.localSubnet ≠ []) "local_subnet" c.localSubnet).foldlM wdRead w =
      .ok { w with
        localTs := if decide (c.localSubnet ≠ []) then cidrNet c.localSubnet else w.localTs } := by
  refine foldlM_optional (fun w n => { w with localTs := n }) rfl fun hne => ?_
  have hne' := of_decide_eq_true hne
  obtain ⟨-, hnul, -, hstrict⟩ := hr.localSubnet hne'
  obtain ⟨n, hn⟩ := Option.isSome_iff_exists.mp hstrict
  have hk (v : Text) : wdSetting w "local_subnet" v =
      (asNamed wdParseCidr v "bad local_subnet").map fun n => { w with localTs := some n } := rfl
  unfold wdRead asNamed at *
  dsimp only
  rw [cidrNet_of_daemon hn (h.localSubnet hne') hnul, hk, hn]
  rfl

theorem read_requestCp :
    (optional (requestCp c) "request_cp" "yes".toList).foldlM wdRead w =
      .ok { w with requestCp := if requestCp c then true else w.requestCp } :=
  foldlM_optional (fun w on => { w with requestCp := on }) rfl fun _ => rfl

/-- What the daemon takes for the nets of the list are those that the configuration means. -/
theorem wdRemoteSubnet_of_readable {s : Text} (h : cidrListCheck s = .ok ())
    (hnul : Char.ofNat 0 ∉ s) (hstrict : ∀ tok ∈ splitCsv s, (wdParseCidr tok).isSome = true) :
    wdRemoteSubnet (wdTrim s) = .ok (remoteNets s) := by
  obtain ⟨hok, hne, hlen⟩ := cidrListCheck_ok h
  have htrim : splitCsv (wdTrim s) = splitCsv s := splitCsv_wdTrim_of_cidrOk hok hnul
  have hnets : (splitCsv s).filterMap wdParseCidr = (splitCsv s).filterMap cidrNet := by
    refine List.filterMap_congr fun tok htok => ?_
    obtain ⟨n, hn⟩ := Option.isSome_iff_exists.mp (hstrict tok htok)
    rw [hn, cidrNet_of_wdParseCidr hn (hok tok htok) (not_mem_of_mem_splitCsv hnul htok)]
  rw [wdRemoteSubnet_ok (htrim ▸ hstrict) (htrim ▸ hne) (htrim ▸ hlen), htrim, hnets]
  rfl

theorem read_remoteSubnet (h : Valid c) (hr : Readable c) :
    (optional (c.remoteSubnet ≠ []) "remote_subnet" c.remoteSubnet).foldlM wdRead w =
      .ok { w with
        remoteTsList :=
          if decide (c.remoteSubnet ≠ []) then remoteNets c.remoteSubnet else w.remoteTsList } := by
  refine foldlM_optional (fun w l => { w with remoteTsList := l }) rfl fun hne => ?_
  obtain ⟨-, hnul, -, hstrict⟩ := hr.remoteSubnet
  have hread := wdRemoteSubnet_of_readable (h.remoteSubnet (of_decide_eq_true hne)) hnul hstrict
  have hk (v : Text) : wdSetting w "remote_subnet" v =
      (wdRemoteSubnet v).map fun l => { w with remoteTsList := l } := rfl
  unfold wdRead
  dsimp only
  rw [hk, hread]
  rfl

theorem wdRead_natT : wdRead w ("nat_t", boolText c.natT) = .ok { w with natT := c.natT } :=
  wdRead_of w (fun w on => { w with natT := on }) (fun _ => rfl)
    ⟨wdTrim_solid (solid_boolText _), asBool_boolText _ _⟩

/-- A list of the policy in its field. -/
theorem wdRead_list {k : String} {g : AlgoGroup} {ids : List Text} (hids : OfferedList g ids)
    (hlen : ids.length ≤ 16) (set : WdConfig → List WdAlgo → WdConfig)
    (hk : ∀ v, wdSetting w k v = (wdParseAlgoList g v).map (set w)) :
    wdRead w (k, joinCsv ids) = .ok (set w (ids.filterMap (algoNumbers g))) :=
  wdRead_of w set hk ⟨wdTrim_solid hids.solid, wdParseAlgoList_joinCsv hids hlen⟩

theorem wdRead_ikeDh (h : Valid c) (hr : Readable c) :
    wdRead w ("ike_dh", joinCsv c.ikeDh) =
      .ok { w with ikeDh := c.ikeDh.filterMap (algoNumbers .dh) } :=
  wdRead_list w h.ikeDh (hr.lists _ (by simp)) (fun w l => { w with ikeDh := l }) fun _ => rfl

theorem wdRead_ikeEnc (h : Valid c) (hr : Readable c) :
    wdRead w ("ike_enc", joinCsv c.ikeEnc) =
      .ok { w with ikeEnc := c.ikeEnc.filterMap (algoNumbers .ikeEnc) } :=
  wdRead_list w h.ikeEnc (hr.lists _ (by simp)) (fun w l => { w with ikeEnc := l }) fun _ => rfl

theorem wdRead_ikeHash (h : Valid c) (hr : Readable c) :
    wdRead w ("ike_hash", joinCsv c.ikeHash) =
      .ok { w with ikeHash := c.ikeHash.filterMap (algoNumbers .ikeHash) } :=
  wdRead_list w h.ikeHash (hr.lists _ (by simp)) (fun w l => { w with ikeHash := l }) fun _ => rfl

theorem wdRead_espEnc (h : Valid c) (hr : Readable c) :
    wdRead w ("esp_enc", joinCsv c.espEnc) =
      .ok { w with espEnc := c.espEnc.filterMap (algoNumbers .espEnc) } :=
  wdRead_list w h.espEnc (hr.lists _ (by simp)) (fun w l => { w with espEnc := l }) fun _ => rfl

theorem wdRead_espHash (h : Valid c) (hr : Readable c) :
    wdRead w ("esp_hash", joinCsv c.espHash) =
      .ok { w with espHash := c.espHash.filterMap (algoNumbers .espHash) } :=
  wdRead_list w h.espHash (hr.lists _ (by simp)) (fun w l => { w with espHash := l }) fun _ => rfl

theorem read_pfsGroup :
    (optional c.pfs "pfs_group" (Text.ofNat (algoSmallestDh c.ikeDh))).foldlM wdRead w =
      .ok { w with
        pfsGroup := if c.pfs then .ofNat (algoSmallestDh c.ikeDh) else w.pfsGroup } :=
  foldlM_optional_of w (fun w x => { w with pfsGroup := x }) (fun _ => rfl) rfl fun _ =>
    ⟨wdTrim_solid (solid_ofNat _),
      asUint_ofNat (Nat.le_of_lt_succ (algoSmallestDh_lt c.ikeDh)) (by decide) _⟩

theorem read_dpd :
    (optional (!c.dpd) "dpd" "no".toList).foldlM wdRead w =
      .ok { w with dpdDisable := if !c.dpd then true else w.dpdDisable } :=
  foldlM_optional (fun w on => { w with dpdDisable := on }) rfl fun _ => rfl

theorem read_dpdRetries (h : Valid c) :
    (optional (c.dpdRetries ≠ 0) "dpd_retries" (Text.ofInt c.dpdRetries)).foldlM wdRead w =
      .ok { w with
        dpdRetries := if decide (c.dpdRetries ≠ 0) then .ofNat c.dpdRetries.toNat else w.dpdRetries } := by
  obtain ⟨hlo, hhi⟩ := h.dpdRetries
  have hle : c.dpdRetries.toNat ≤ 20 := by omega
  exact foldlM_optional_of w (fun w x => { w with dpdRetries := x }) (fun _ => rfl) rfl fun _ =>
    ⟨wdTrim_solid (solid_ofInt _), asUint_ofInt hlo hle (by decide) _⟩

theorem read_nattKeepaliveS (h : Valid c) :
    (optional (c.nattKeepaliveS ≠ 0) "natt_keepalive_s" (Text.ofInt c.nattKeepaliveS)).foldlM wdRead w =
      .ok { w with
        nattKeepaliveS :=
          if decide (c.nattKeepaliveS ≠ 0) then .ofNat c.nattKeepaliveS.toNat
          else w.nattKeepaliveS } := by
  refine foldlM_optional (fun w x => { w with nattKeepaliveS := x }) rfl fun hne => ?_
  obtain ⟨hlo, hhi⟩ := h.nattKeepaliveS (of_decide_eq_true hne)
  have hlo' : 5 ≤ UInt32.ofNat c.nattKeepaliveS.toNat := by
    have hnum : (5 : UInt32).toNat = 5 := rfl
    have hsize : UInt32.size = 2 ^ 32 := rfl
    rw [UInt32.le_iff_toNat_le, UInt32.toNat_ofNat_of_lt' (by omega), hnum]
    omega
  have hle : c.nattKeepaliveS.toNat ≤ 600 := by omega
  have hk (v : Text) : wdSetting w "natt_keepalive_s" v =
      asUint v 600 "bad natt_keepalive_s (0 or 5..600)" >>= fun x =>
        ensure (x ≠ 0 → 5 ≤ x) "bad natt_keepalive_s (0 or 5..600)" >>= fun _ =>
          .ok { w with nattKeepaliveS := x } := rfl
  unfold wdRead
  dsimp only
  rw [wdTrim_solid (solid_ofInt _), hk, asUint_ofInt (by omega) hle (by decide)]
  simp only [bind, Except.bind, ensure, hlo', implies_true, decide_true, if_true]

theorem read_childLifetimeKb (h : Valid c) :
    (optional (c.childLifetimeMb ≠ 0) "child_lifetime_kb"
        (Text.ofNat (c.childLifetimeMb.toNat * 1024))).foldlM wdRead w =
      .ok { w with
        childLifetimeKb :=
          if decide (c.childLifetimeMb ≠ 0) then .ofNat (c.childLifetimeMb.toNat * 1024)
          else w.childLifetimeKb } := by
  have hmb := UInt32.le_iff_toNat_le.mp h.childLifetimeMb
  have hnum : (1048576 : UInt32).toNat = 1048576 := rfl
  have hle : c.childLifetimeMb.toNat * 1024 ≤ 0xffffffff := by omega
  exact foldlM_optional_of w (fun w x => { w with childLifetimeKb := x }) (fun _ => rfl) rfl
    fun _ => ⟨wdTrim_solid (solid_ofNat _), asUint_ofNat hle (by decide) _⟩

theorem read_mtu (h : Valid c) :
    (optional (c.mtu ≠ 1400) "mtu" (Text.ofInt c.mtu)).foldlM wdRead w =
      .ok { w with mtu := if decide (c.mtu ≠ 1400) then c.mtu else w.mtu } := by
  refine foldlM_optional (fun w x => { w with mtu := x }) rfl fun _ => ?_
  obtain ⟨hlo, hhi⟩ := h.mtu
  have hsize : UInt32.size = 2 ^ 32 := rfl
  have hback : (UInt32.ofNat c.mtu.toNat).toNat = c.mtu.toNat :=
    UInt32.toNat_ofNat_of_lt' (by omega)
  have hlo' : 576 ≤ UInt32.ofNat c.mtu.toNat := by
    have hnum : (576 : UInt32).toNat = 576 := rfl
    rw [UInt32.le_iff_toNat_le, hback, hnum]
    omega
  have hmtu : ((UInt32.ofNat c.mtu.toNat).toNat : Int) = c.mtu := by omega
  have hle : c.mtu.toNat ≤ 9000 := by omega
  have hk (v : Text) : wdSetting w "mtu" v = asUint v 9000 "bad mtu" >>= fun x =>
      ensure (576 ≤ x) "bad mtu" >>= fun _ => .ok { w with mtu := x.toNat } := rfl
  unfold wdRead
  dsimp only
  rw [wdTrim_solid (solid_ofInt _), hk, asUint_ofInt (by omega) hle (by decide)]
  simp only [bind, Except.bind, ensure, hlo', decide_true, if_true, hmtu]

theorem wdRead_dpdIntervalS (h : Valid c) :
    wdRead w ("dpd_interval_s", Text.ofInt c.dpdIntervalS) =
      .ok { w with dpdIntervalS := .ofNat c.dpdIntervalS.toNat } := by
  obtain ⟨hlo, hhi⟩ := h.dpdIntervalS
  have hle : c.dpdIntervalS.toNat ≤ 3600 := by omega
  exact wdRead_of w (fun w x => { w with dpdIntervalS := x }) (fun _ => rfl)
    ⟨wdTrim_solid (solid_ofInt _), asUint_ofInt hlo hle (by decide) _⟩

theorem read_ikeLifetimeS (h : Valid c) :
    (optional (c.ikeLifetimeS ≠ 0) "ike_lifetime_s" (Text.ofNat c.ikeLifetimeS.toNat)).foldlM
        wdRead w =
      .ok { w with
        ikeLifetimeS := if decide (c.ikeLifetimeS ≠ 0) then c.ikeLifetimeS else w.ikeLifetimeS } := by
  have hnum : (86400 * 7 : UInt32).toNat = 86400 * 7 := rfl
  have hle := hnum ▸ UInt32.le_iff_toNat_le.mp h.ikeLifetimeS
  have hread := asUint_ofNat hle (by decide) "bad ike_lifetime_s"
  rw [UInt32.ofNat_toNat] at hread
  exact foldlM_optional_of w (fun w x => { w with ikeLifetimeS := x }) (fun _ => rfl) rfl
    fun _ => ⟨wdTrim_solid (solid_ofNat _), hread⟩

theorem read_childLifetimeS (h : Valid c) :
    (optional (c.childLifetimeS ≠ 0) "child_lifetime_s"
        (Text.ofNat c.childLifetimeS.toNat)).foldlM wdRead w =
      .ok { w with
        childLifetimeS :=
          if decide (c.childLifetimeS ≠ 0) then c.childLifetimeS else w.childLifetimeS } := by
  have hnum : (86400 * 7 : UInt32).toNat = 86400 * 7 := rfl
  have hle := hnum ▸ UInt32.le_iff_toNat_le.mp h.childLifetimeS
  have hread := asUint_ofNat hle (by decide) "bad child_lifetime_s"
  rw [UInt32.ofNat_toNat] at hread
  exact foldlM_optional_of w (fun w x => { w with childLifetimeS := x }) (fun _ => rfl) rfl
    fun _ => ⟨wdTrim_solid (solid_ofNat _), hread⟩

end settings

end

end Machino.Ipsec
