import Mathlib.Data.List.DropRight
import Machino.Basic.Lines
import Machino.Core.Number
import Machino.Core.Text
import Machino.Ipsec.IpsecConfig

namespace Machino.Ipsec

inductive AlgoGroup where
  | dh | ikeEnc | ikeHash | espEnc | espHash
  deriving DecidableEq, Repr

/-- An algorithm under its host name: its numbers on the wire, and whether this build can
negotiate it. -/
structure AlgoInfo where
  id : String
  label : String
  iana : ℕ
  iana2 : ℕ
  bits : ℕ
  implemented : Bool
  deriving DecidableEq, Repr

def kDh : List AlgoInfo := [
  ⟨"dh2", "DH2 - MODP-1024", 2, 0, 0, false⟩,
  ⟨"dh5", "DH5 - MODP-1536", 5, 0, 0, false⟩,
  ⟨"dh14", "DH14 - MODP-2048", 14, 0, 0, true⟩,
  ⟨"dh15", "DH15 - MODP-3072", 15, 0, 0, true⟩,
  ⟨"dh16", "DH16 - MODP-4096", 16, 0, 0, true⟩,
  ⟨"dh19", "DH19 - ECP-256", 19, 0, 0, true⟩,
  ⟨"dh20", "DH20 - ECP-384", 20, 0, 0, true⟩,
  ⟨"dh21", "DH21 - ECP-521", 21, 0, 0, true⟩,
  ⟨"dh28", "DH28 - Brainpool-256", 28, 0, 0, true⟩,
  ⟨"dh29", "DH29 - Brainpool-384", 29, 0, 0, true⟩,
  ⟨"dh30", "DH30 - Brainpool-512", 30, 0, 0, true⟩,
  ⟨"dh31", "DH31 - Curve25519", 31, 0, 0, true⟩,
  ⟨"dh32", "DH32 - Curve448", 32, 0, 0, false⟩]

def kIkeEnc : List AlgoInfo := [
  ⟨"aes128cbc", "AES-CBC-128", 12, 0, 128, true⟩,
  ⟨"aes192cbc", "AES-CBC-192", 12, 0, 192, true⟩,
  ⟨"aes256cbc", "AES-CBC-256", 12, 0, 256, true⟩,
  ⟨"aes128gcm", "AES-GCM-128", 20, 0, 128, false⟩,
  ⟨"aes192gcm", "AES-GCM-192", 20, 0, 192, false⟩,
  ⟨"aes256gcm", "AES-GCM-256", 20, 0, 256, false⟩,
  ⟨"3des", "3DES", 3, 0, 0, false⟩,
  ⟨"chacha20", "ChaCha20-Poly1305", 28, 0, 0, false⟩]

/-- `iana` is the PRF, `iana2` the integrity. -/
def kIkeHash : List AlgoInfo := [
  ⟨"sha1", "SHA-1", 2, 2, 0, true⟩,
  ⟨"sha256", "SHA-256", 5, 12, 0, true⟩,
  ⟨"sha384", "SHA-384", 6, 13, 0, true⟩,
  ⟨"sha512", "SHA-512", 7, 14, 0, true⟩,
  ⟨"md5", "MD5", 1, 1, 0, false⟩]

def kEspEnc : List AlgoInfo :=
  kIkeEnc ++ [⟨"null", "NULL (keine Verschluesselung)", 11, 0, 0, false⟩]

/-- `iana` is the integrity. -/
def kEspHash : List AlgoInfo := [
  ⟨"sha1", "SHA-1", 2, 0, 0, true⟩,
  ⟨"sha256", "SHA-256", 12, 0, 0, true⟩,
  ⟨"sha384", "SHA-384", 13, 0, 0, true⟩,
  ⟨"sha512", "SHA-512", 14, 0, 0, true⟩,
  ⟨"md5", "MD5", 1, 0, 0, false⟩,
  ⟨"null", "NULL (nur mit AEAD, z.B. AES-GCM)", 0, 0, 0, false⟩]

namespace AlgoGroup

def field : AlgoGroup → String
  | .dh => "ikeDh"
  | .ikeEnc => "ikeEnc"
  | .ikeHash => "ikeHash"
  | .espEnc => "espEnc"
  | .espHash => "espHash"

def table : AlgoGroup → List AlgoInfo
  | .dh => kDh
  | .ikeEnc => kIkeEnc
  | .ikeHash => kIkeHash
  | .espEnc => kEspEnc
  | .espHash => kEspHash

end AlgoGroup

def algoFind (g : AlgoGroup) (id : Text) : Option AlgoInfo := g.table.find? fun a => a.id.toList = id

/-- The check of one name of a list. -/
def algoCheck (g : AlgoGroup) (id : Text) : Except String Unit :=
  match algoFind g id with
  | none => .error (g.field ++ ": unbekannt: '" ++ String.ofList id ++
      "' ('ipsec algos' zeigt den Katalog)")
  | some a =>
    ensure a.implemented (g.field ++ ": " ++ a.label ++ " ('" ++ String.ofList id ++
      "') ist in diesem Build nicht implementiert")

def algoListCheck (g : AlgoGroup) (ids : List Text) : Except String Unit :=
  if ids = [] then .error (g.field ++ ": leere Liste (mindestens ein Algorithmus)")
  else forM ids (algoCheck g)

/-- The smallest group that is allowed, zero where there is none. -/
def algoSmallestDh (ids : List Text) : ℕ :=
  ids.foldl (fun best id =>
    match algoFind .dh id with
    | none => best
    | some a => if best = 0 ∨ a.iana < best then a.iana else best) 0

/-- An algorithm of the catalogue that this build has. -/
def Offered (g : AlgoGroup) (id : Text) : Prop :=
  ∃ a, algoFind g id = some a ∧ a.implemented = true

theorem algoCheck_eq_ok {g : AlgoGroup} {id : Text} : algoCheck g id = .ok () ↔ Offered g id := by
  unfold algoCheck Offered
  cases algoFind g id with
  | none => simp
  | some a => simp [ensure_eq_ok]

theorem algoListCheck_eq_ok {g : AlgoGroup} {ids : List Text} :
    algoListCheck g ids = .ok () ↔ ids ≠ [] ∧ ∀ id ∈ ids, Offered g id := by
  have hall (l : List Text) : forM l (algoCheck g) = .ok () ↔ ∀ id ∈ l, Offered g id := by
    induction l with
    | nil => simp [pure, Except.pure]
    | cons id l ih =>
      rw [List.forM_cons, except_check_eq_ok, List.forall_mem_cons, ih, algoCheck_eq_ok]
  unfold algoListCheck
  split
  · rename_i h
    simp [h]
  · rename_i h
    simp [h, hall]

/-- A name of the catalogue is made of letters and digits. -/
theorem Offered.alnum {g : AlgoGroup} {id : Text} (h : Offered g id) :
    id ≠ [] ∧ id.length ≤ 9 ∧ ∀ c ∈ id, c.isAlphanum = true := by
  obtain ⟨a, ha, -⟩ := h
  have hid : a.id.toList = id := by simpa using List.find?_some ha
  have hmem : a ∈ g.table := List.mem_of_find?_eq_some ha
  have hall : ∀ g : AlgoGroup, ∀ a ∈ g.table, a.id.toList ≠ [] ∧ a.id.toList.length ≤ 9 ∧
      a.id.toList.all Char.isAlphanum = true := by
    intro g
    cases g <;> decide
  obtain ⟨hne, hlen, hchars⟩ := hall g a hmem
  exact hid ▸ ⟨hne, hlen, List.all_eq_true.mp hchars⟩

open Lines

def hostChar (ch : Char) : Bool := ch.isAlphanum || ch = '.' || ch = '-'

def idChar (ch : Char) : Bool :=
  ch.isAlphanum || ch = '.' || ch = '-' || ch = '_' || ch = '@'

def hostOk (s : Text) : Bool := s ≠ [] && s.length ≤ 253 && s.all hostChar

def idOk (s : Text) : Bool := s.length ≤ 63 && s.all idChar

/-- Numbers with these separators between them, as `sscanf` reads them, and what is left. -/
def scanSeparated : List Char → Text → Option (List UInt32 × Text)
  | [], s => (Text.scanULong s).map fun (n, rest) => ([n], rest)
  | sep :: seps, s =>
    (Text.scanULong s).bind fun (n, rest) =>
      if rest.head? = some sep then
        (scanSeparated seps rest.tail).map fun (ns, rest) => (n :: ns, rest)
      else none

def cidrOk (s : Text) : Bool :=
  match scanSeparated ['.', '.', '.', '/'] (Text.cString s) with
  | some ([a, b, c, d, p], []) => a < 256 && b < 256 && c < 256 && d < 256 && p ≤ 32
  | _ => false

def ipv4LiteralOk (s : Text) : Bool :=
  match scanSeparated ['.', '.', '.'] (Text.cString s) with
  | some ([a, b, c, d], []) =>
    s.all (fun ch => ch.isDigit || ch = '.') && a < 256 && b < 256 && c < 256 && d < 256
  | _ => false

def isFiller (ch : Char) : Bool := ch = ' ' || ch = '\t'

def trimFiller (s : Text) : Text := (s.dropWhile isFiller).rdropWhile isFiller

/-- The nets of a list that are not blank, counted. -/
def cidrCount : ℕ → List Text → Except String ℕ
  | n, [] => .ok n
  | n, tok :: toks =>
    let tok := trimFiller tok
    if tok = [] then cidrCount n toks
    else if !cidrOk tok then
      .error ("remoteSubnet: '" ++ String.ofList tok ++ "' ist kein gueltiges CIDR (a.b.c.d/n)")
    else if 4 < n + 1 then .error "remoteSubnet: hoechstens 4 Netze"
    else cidrCount (n + 1) toks

def cidrListCheck (s : Text) : Except String Unit := do
  let n ← cidrCount 0 (split ',' s)
  ensure (n ≠ 0) "remoteSubnet: leer"

def validate (c : IpsecConfig) : Except String Unit := do
  ensure (c.gateway ≠ [] → hostOk c.gateway)
    "gateway: unzulaessige Zeichen (erlaubt: Buchstaben, Ziffern, '.', '-')"
  ensure (c.enabled → c.gateway ≠ []) "gateway: erforderlich, wenn enabled=true"
  ensure (c.port ≠ 0) "port: 1..65535"
  ensure (c.localId ≠ [] → idOk c.localId) "localId: unzulaessige Zeichen"
  ensure (c.remoteId ≠ [] → idOk c.remoteId) "remoteId: unzulaessige Zeichen"
  ensure (c.localId ≠ [] → c.localIdType = .ipv4 → ipv4LiteralOk c.localId)
    "localId: bei localIdType=ipv4 muss der Wert eine IPv4-Adresse sein"
  ensure (c.remoteId ≠ [] → c.remoteIdType = .ipv4 → ipv4LiteralOk c.remoteId)
    "remoteId: bei remoteIdType=ipv4 muss der Wert eine IPv4-Adresse sein"
  ensure (c.localSubnet ≠ [] → cidrOk c.localSubnet) "localSubnet: kein gueltiges CIDR (a.b.c.d/n)"
  (if c.remoteSubnet = [] then .ok () else cidrListCheck c.remoteSubnet)
  ensure (c.enabled → c.remoteSubnet ≠ [])
    "remoteSubnet: erforderlich (AP6: 1..4 Split-Netze, komma-getrennt)"
  ensure (c.auth = .eapMschapv2 → c.enabled → c.eapUser ≠ [])
    "eapUser: erforderlich fuer eap-mschapv2"
  ensure (c.auth = .eapMschapv2 → c.eapUser ≠ [] → idOk c.eapUser) "eapUser: unzulaessige Zeichen"
  ensure (0 ≤ c.dpdIntervalS ∧ c.dpdIntervalS ≤ 3600) "dpdInterval: 0..3600"
  ensure (c.ikeLifetimeS ≤ 86400 * 7) "ikeLifetime: 0..604800"
  ensure (c.childLifetimeS ≤ 86400 * 7) "childLifetime: 0..604800"
  algoListCheck .ikeEnc c.ikeEnc
  algoListCheck .ikeHash c.ikeHash
  algoListCheck .dh c.ikeDh
  algoListCheck .espEnc c.espEnc
  algoListCheck .espHash c.espHash
  ensure (0 ≤ c.dpdRetries ∧ c.dpdRetries ≤ 20) "dpdRetries: 0..20 (0 = Vorgabe)"
  ensure (c.nattKeepaliveS ≠ 0 → 5 ≤ c.nattKeepaliveS ∧ c.nattKeepaliveS ≤ 600)
    "nattKeepaliveS: 0 (Vorgabe) oder 5..600"
  ensure (c.childLifetimeMb ≤ 1048576) "childLifetimeMb: 0..1048576"
  ensure (576 ≤ c.mtu ∧ c.mtu ≤ 9000) "mtu: 576..9000"

/-- A list of algorithms that this build can negotiate. -/
def OfferedList (g : AlgoGroup) (ids : List Text) : Prop := ids ≠ [] ∧ ∀ id ∈ ids, Offered g id

structure Valid (c : IpsecConfig) : Prop where
  gateway : c.gateway ≠ [] → hostOk c.gateway = true
  gateway_given : c.enabled = true → c.gateway ≠ []
  port : c.port ≠ 0
  localId : c.localId ≠ [] → idOk c.localId = true
  remoteId : c.remoteId ≠ [] → idOk c.remoteId = true
  localId_ipv4 : c.localId ≠ [] → c.localIdType = .ipv4 → ipv4LiteralOk c.localId = true
  remoteId_ipv4 : c.remoteId ≠ [] → c.remoteIdType = .ipv4 → ipv4LiteralOk c.remoteId = true
  localSubnet : c.localSubnet ≠ [] → cidrOk c.localSubnet = true
  remoteSubnet : c.remoteSubnet ≠ [] → cidrListCheck c.remoteSubnet = .ok ()
  remoteSubnet_given : c.enabled = true → c.remoteSubnet ≠ []
  eapUser_given : c.auth = .eapMschapv2 → c.enabled = true → c.eapUser ≠ []
  eapUser : c.auth = .eapMschapv2 → c.eapUser ≠ [] → idOk c.eapUser = true
  dpdIntervalS : 0 ≤ c.dpdIntervalS ∧ c.dpdIntervalS ≤ 3600
  ikeLifetimeS : c.ikeLifetimeS ≤ 86400 * 7
  childLifetimeS : c.childLifetimeS ≤ 86400 * 7
  ikeEnc : OfferedList .ikeEnc c.ikeEnc
  ikeHash : OfferedList .ikeHash c.ikeHash
  ikeDh : OfferedList .dh c.ikeDh
  espEnc : OfferedList .espEnc c.espEnc
  espHash : OfferedList .espHash c.espHash
  dpdRetries : 0 ≤ c.dpdRetries ∧ c.dpdRetries ≤ 20
  nattKeepaliveS : c.nattKeepaliveS ≠ 0 → 5 ≤ c.nattKeepaliveS ∧ c.nattKeepaliveS ≤ 600
  childLifetimeMb : c.childLifetimeMb ≤ 1048576
  mtu : 576 ≤ c.mtu ∧ c.mtu ≤ 9000

theorem validate_eq_ok {c : IpsecConfig} : validate c = .ok () ↔ Valid c := by
  have hremote : (if c.remoteSubnet = [] then .ok () else cidrListCheck c.remoteSubnet) =
      .ok () ↔ (c.remoteSubnet ≠ [] → cidrListCheck c.remoteSubnet = .ok ()) := by
    by_cases h : c.remoteSubnet = [] <;> simp [h]
  unfold validate
  simp only [except_check_eq_ok, ensure_eq_ok, algoListCheck_eq_ok, hremote, decide_eq_true_eq]
  constructor
  · rintro ⟨hgw, hgw', hport, hlid, hrid, hlid', hrid', hlocal, hremote, hremote', heap, heap',
      hdpd, hike, hchild, hie, hih, hdh, hee, heh, hret, hnatt, hmb, hmtu⟩
    exact ⟨hgw, hgw', hport, hlid, hrid, hlid', hrid', hlocal, hremote, hremote', heap, heap',
      hdpd, hike, hchild, hie, hih, hdh, hee, heh, hret, hnatt, hmb, hmtu⟩
  · intro h
    exact ⟨h.gateway, h.gateway_given, h.port, h.localId, h.remoteId, h.localId_ipv4,
      h.remoteId_ipv4, h.localSubnet, h.remoteSubnet, h.remoteSubnet_given, h.eapUser_given,
      h.eapUser, h.dpdIntervalS, h.ikeLifetimeS, h.childLifetimeS, h.ikeEnc, h.ikeHash, h.ikeDh,
      h.espEnc, h.espHash, h.dpdRetries, h.nattKeepaliveS, h.childLifetimeMb, h.mtu⟩

end Machino.Ipsec
