import Machino.Ipsec.Validate

namespace Machino.Ipsec

open Lines

/-- Like the checks behind it, of texts without a zero byte, where strings of the daemon end. -/
def wdValidHostname (s : Text) : Bool :=
  s ≠ [] && s.length < 128 && s.all hostChar && s.head? ≠ some '-' && s.head? ≠ some '.' &&
    s.getLast? ≠ some '.'

def wdValidIfname (s : Text) : Bool :=
  s ≠ [] && s.length < 16 && s.all fun c => c.isAlphanum || c = '-' || c = '_'

/-- The two identifiers of an algorithm on the wire, and the length of its key. -/
structure WdAlgo where
  id : ℕ
  id2 : ℕ
  bits : ℕ
  deriving DecidableEq, Repr

def wdDh : List (String × WdAlgo) := [
  ("dh2", ⟨2, 0, 0⟩), ("dh5", ⟨5, 0, 0⟩), ("dh14", ⟨14, 0, 0⟩), ("dh15", ⟨15, 0, 0⟩),
  ("dh16", ⟨16, 0, 0⟩), ("dh19", ⟨19, 0, 0⟩), ("dh20", ⟨20, 0, 0⟩), ("dh21", ⟨21, 0, 0⟩),
  ("dh28", ⟨28, 0, 0⟩), ("dh29", ⟨29, 0, 0⟩), ("dh30", ⟨30, 0, 0⟩), ("dh31", ⟨31, 0, 0⟩),
  ("dh32", ⟨32, 0, 0⟩)]

def wdEnc : List (String × WdAlgo) := [
  ("aes128cbc", ⟨12, 0, 128⟩), ("aes192cbc", ⟨12, 0, 192⟩), ("aes256cbc", ⟨12, 0, 256⟩),
  ("aes128gcm", ⟨20, 0, 128⟩), ("aes192gcm", ⟨20, 0, 192⟩), ("aes256gcm", ⟨20, 0, 256⟩),
  ("3des", ⟨3, 0, 0⟩), ("chacha20", ⟨28, 0, 0⟩), ("null", ⟨11, 0, 0⟩)]

def wdIkeHash : List (String × WdAlgo) := [
  ("sha1", ⟨2, 2, 0⟩), ("sha256", ⟨5, 12, 0⟩), ("sha384", ⟨6, 13, 0⟩), ("sha512", ⟨7, 14, 0⟩),
  ("md5", ⟨1, 1, 0⟩)]

def wdEspHash : List (String × WdAlgo) := [
  ("sha1", ⟨2, 0, 0⟩), ("sha256", ⟨12, 0, 0⟩), ("sha384", ⟨13, 0, 0⟩), ("sha512", ⟨14, 0, 0⟩),
  ("md5", ⟨1, 0, 0⟩), ("null", ⟨0, 0, 0⟩)]

def wdAlgoTable : AlgoGroup → List (String × WdAlgo)
  | .dh => wdDh
  | .ikeEnc => wdEnc
  | .ikeHash => wdIkeHash
  | .espEnc => wdEnc
  | .espHash => wdEspHash

def wdAlgoLookup (g : AlgoGroup) (name : Text) : Option WdAlgo :=
  ((wdAlgoTable g).find? fun a => a.1.toList = name).map Prod.snd

def wdAlgoEntry (g : AlgoGroup) (out : List WdAlgo) (piece : Text) : Except String (List WdAlgo) :=
  let name := trimFiller piece
  if name = [] then .ok out
  else if 24 ≤ name.length then .error "bad algorithm name"
  else
    match wdAlgoLookup g name with
    | none => .error ("unknown algorithm: " ++ String.ofList name)
    | some a => if 16 ≤ out.length then .error "too many algorithms in one list" else .ok (out ++ [a])

/-- Commas and blanks are skipped before each name, which leaves out the empty pieces. -/
def wdParseAlgoList (g : AlgoGroup) (csv : Text) : Except String (List WdAlgo) := do
  let out ← (split ',' csv).foldlM (wdAlgoEntry g) []
  if out = [] then .error "empty algorithm list" else .ok out

def wdParseIpv4 (s : Text) : Bool := ipv4LiteralOk s

structure WdCidr where
  ip : List ℕ
  prefixLength : ℕ
  deriving DecidableEq, Repr

/-- A number of so many digits at most, without a zero in front. -/
def wdDecimal (width bound : ℕ) (s : Text) : Option (ℕ × Text) :=
  let digits := s.takeWhile Char.isDigit
  let n := Text.ofDigits 10 digits
  if digits = [] ∨ width < digits.length ∨ bound < n ∨ (1 < digits.length ∧ s.head? = some '0') then
    none
  else some (n, s.drop digits.length)

/-- The octets with a dot behind each but the last, and what is left. -/
def wdOctets : ℕ → Text → Option (List ℕ × Text)
  | 0, s => (wdDecimal 3 255 s).map fun (n, rest) => ([n], rest)
  | more + 1, s =>
    (wdDecimal 3 255 s).bind fun (n, rest) =>
      if rest.head? = some '.' then
        (wdOctets more rest.tail).map fun (ns, rest) => (n :: ns, rest)
      else none

def wdParseCidr (s : Text) : Option WdCidr :=
  if s = [] ∨ 18 < s.length then none
  else
    match wdOctets 3 s with
    | none => none
    | some (ip, []) => some ⟨ip, 32⟩
    | some (ip, c :: rest) =>
      if c ≠ '/' then none
      else
        match wdDecimal 2 32 rest with
        | some (p, []) => some ⟨ip, p⟩
        | _ => none

/-- A carriage return is taken off at the end only. -/
def wdTrim (s : Text) : Text := (s.dropWhile isFiller).rdropWhile fun c => isFiller c || c = '\r'

def asUint (v : Text) (bound : ℕ) (err : String) : Except String UInt32 :=
  match Text.scanULong v with
  | some (n, []) => if n.toNat ≤ bound then .ok n else .error err
  | _ => .error err

def asBool (v : Text) (err : String) : Except String Bool :=
  match String.ofList v with
  | "1" => .ok true
  | "yes" => .ok true
  | "true" => .ok true
  | "0" => .ok false
  | "no" => .ok false
  | "false" => .ok false
  | _ => .error err

/-- A text that fits a buffer of this size. -/
def asText (v : Text) (size : ℕ) (err : String) : Except String Text :=
  if size ≤ v.length then .error err else .ok v

/-- A secret of at most 128 bytes that is not empty. -/
def asSecret (v : Text) (err : String) : Except String Text :=
  if v = [] ∨ 128 < v.length then .error err else .ok v

/-- What has a name of its own, or the complaint. -/
def asNamed {α : Type} (names : Text → Option α) (v : Text) (err : String) : Except String α :=
  match names v with
  | some a => .ok a
  | none => .error err

def wdNet (out : List WdCidr) (piece : Text) : Except String (List WdCidr) :=
  let e := trimFiller piece
  if e = [] then .ok out
  else if 4 ≤ out.length then .error "too many remote_subnet entries (max 4)"
  else
    match wdParseCidr e with
    | some c => .ok (out ++ [c])
    | none => .error "bad remote_subnet"

def wdRemoteSubnet (v : Text) : Except String (List WdCidr) := do
  let out ← (split ',' v).foldlM wdNet []
  if out = [] then .error "empty remote_subnet" else .ok out

/-- A plain address counts as one with all bits of the prefix; it is tried with that in a buffer of
24 bytes. -/
def wdBindIp (v : Text) : Except String (List ℕ) :=
  match (wdParseCidr v).filter (·.prefixLength = 32) with
  | some c => .ok c.ip
  | none =>
    match wdParseCidr ((v ++ "/32".toList).take 23) with
    | some c => .ok c.ip
    | none => .error "bad bind_ip"

structure WdConfig where
  gateway : Text := []
  port : UInt16 := 500
  ifname : Text := "ipsec0".toList
  auth : Auth := .psk
  psk : Text := []
  eapUser : Text := []
  eapPassword : Text := []
  trustMode : TrustMode := .anchorPem
  caPemFile : Text := []
  extraPemFile : Text := []
  localId : Text := []
  remoteId : Text := []
  localIdType : IdType := .fqdn
  remoteIdType : IdType := .fqdn
  requestCp : Bool := false
  pfsGroup : UInt32 := 0
  havePolicy : Bool := false
  ikeEnc : List WdAlgo := []
  ikeHash : List WdAlgo := []
  ikeDh : List WdAlgo := []
  espEnc : List WdAlgo := []
  espHash : List WdAlgo := []
  dpdDisable : Bool := false
  dpdRetries : UInt32 := 0
  nattKeepaliveS : UInt32 := 0
  childLifetimeKb : UInt32 := 0
  localTs : Option WdCidr := none
  remoteTsList : List WdCidr := []
  natT : Bool := true
  childLifetimeS : UInt32 := 0
  ikeLifetimeS : UInt32 := 0
  dpdIntervalS : UInt32 := 0
  mtu : Int := 1400
  bindIp : Option (List ℕ) := none
  bindDev : Text := []
  deriving DecidableEq, Repr

def wdSetting (w : WdConfig) (k : String) (v : Text) : Except String WdConfig :=
  match k with
  | "gateway" => do
    ensure (wdValidHostname v) "bad gateway"
    .ok { w with gateway := v }
  | "port" => do
    let x ← asUint v 65535 "bad port"
    ensure (x ≠ 0) "bad port"
    .ok { w with port := x.toUInt16 }
  | "interface" => do
    ensure (wdValidIfname v) "bad interface name"
    .ok { w with ifname := v }
  | "psk" => (asSecret v "psk missing or too long").map fun s => { w with psk := s }
  | "auth" => (asNamed authFromName v "bad auth (psk|eap-mschapv2)").map fun a => { w with auth := a }
  | "eap_user" => (asText v 128 "eap_user too long").map fun u => { w with eapUser := u }
  | "eap_password" =>
    (asSecret v "eap_password missing or too long").map fun s => { w with eapPassword := s }
  | "trust_mode" =>
    (asNamed trustModeFromName v "bad trust_mode").map fun t => { w with trustMode := t }
  | "ca_pem_file" =>
    (asText v 128 "ca_pem_file path too long").map fun p => { w with caPemFile := p }
  | "extra_pem_file" =>
    (asText v 128 "extra_pem_file path too long").map fun p => { w with extraPemFile := p }
  | "local_id" => (asText v 128 "local_id too long").map fun i => { w with localId := i }
  | "remote_id" => (asText v 128 "remote_id too long").map fun i => { w with remoteId := i }
  | "local_id_type" =>
    (asNamed idTypeFromName v "bad local_id_type (fqdn|rfc822|ipv4|keyid)").map fun t =>
      { w with localIdType := t }
  | "remote_id_type" =>
    (asNamed idTypeFromName v "bad remote_id_type (fqdn|rfc822|ipv4|keyid)").map fun t =>
      { w with remoteIdType := t }
  | "ike_dh" => (wdParseAlgoList .dh v).map fun l => { w with ikeDh := l }
  | "ike_enc" => (wdParseAlgoList .ikeEnc v).map fun l => { w with ikeEnc := l }
  | "ike_hash" => (wdParseAlgoList .ikeHash v).map fun l => { w with ikeHash := l }
  | "esp_enc" => (wdParseAlgoList .espEnc v).map fun l => { w with espEnc := l }
  | "esp_hash" => (wdParseAlgoList .espHash v).map fun l => { w with espHash := l }
  | "dpd" => (asBool v "bad dpd").map fun on => { w with dpdDisable := !on }
  | "dpd_retries" =>
    (asUint v 20 "bad dpd_retries (0..20)").map fun x => { w with dpdRetries := x }
  | "natt_keepalive_s" => do
    let x ← asUint v 600 "bad natt_keepalive_s (0 or 5..600)"
    ensure (x ≠ 0 → 5 ≤ x) "bad natt_keepalive_s (0 or 5..600)"
    .ok { w with nattKeepaliveS := x }
  | "child_lifetime_kb" =>
    (asUint v 0xffffffff "bad child_lifetime_kb").map fun x => { w with childLifetimeKb := x }
  | "request_cp" => (asBool v "bad request_cp").map fun on => { w with requestCp := on }
  | "pfs_group" =>
    (asUint v 32 "bad pfs_group (0 = off, else the D-H group number)").map fun x =>
      { w with pfsGroup := x }
  | "local_subnet" =>
    (asNamed wdParseCidr v "bad local_subnet").map fun c => { w with localTs := some c }
  | "remote_subnet" => (wdRemoteSubnet v).map fun l => { w with remoteTsList := l }
  | "nat_t" => (asBool v "bad nat_t").map fun on => { w with natT := on }
  | "child_lifetime_s" =>
    (asUint v (86400 * 7) "bad child_lifetime_s").map fun x => { w with childLifetimeS := x }
  | "ike_lifetime_s" =>
    (asUint v (86400 * 7) "bad ike_lifetime_s").map fun x => { w with ikeLifetimeS := x }
  | "dpd_interval_s" =>
    (asUint v 3600 "bad dpd_interval_s").map fun x => { w with dpdIntervalS := x }
  | "mtu" => do
    let x ← asUint v 9000 "bad mtu"
    ensure (576 ≤ x) "bad mtu"
    .ok { w with mtu := x.toNat }
  | "bind_ip" => (wdBindIp v).map fun ip => { w with bindIp := some ip }
  | "bind_dev" => do
    ensure (wdValidIfname v) "bad bind_dev"
    .ok { w with bindDev := v }
  | _ => .error ("unknown key: " ++ k)

/-- A line goes through a buffer of 512 bytes. -/
def wdLine (w : WdConfig) (line : Text) : Except String WdConfig :=
  if 512 ≤ line.length then .error "line too long"
  else
    let s := wdTrim (Text.cString line)
    if s = [] ∨ s.head? = some '#' then .ok w
    else if '=' ∉ s then .error ("not key = value: " ++ String.ofList s)
    else
      wdSetting w (String.ofList (wdTrim (s.takeWhile (· ≠ '='))))
        (wdTrim (s.dropWhile (· ≠ '=')).tail)

/-- The checks at the end; the five lists are a policy together. -/
def wdFinish (w : WdConfig) : Except String WdConfig := do
  ensure (w.gateway ≠ []) "gateway is required"
  let given := [w.ikeDh, w.ikeEnc, w.ikeHash, w.espEnc, w.espHash].countP (· ≠ [])
  ensure (given = 0 ∨ given = 5)
    "proposal policy needs all five lists (ike_dh, ike_enc, ike_hash, esp_enc, esp_hash)"
  let w := { w with havePolicy := given = 5 }
  ensure (w.localId ≠ [] → w.localIdType = .ipv4 → wdParseIpv4 w.localId)
    "local_id_type=ipv4 needs a dotted-quad local_id"
  ensure (w.remoteId ≠ [] → w.remoteIdType = .ipv4 → wdParseIpv4 w.remoteId)
    "remote_id_type=ipv4 needs a dotted-quad remote_id"
  match w.auth with
  | .eapMschapv2 => do
    ensure (w.eapUser ≠ []) "eap_user is required for eap-mschapv2"
    ensure (w.eapPassword ≠ []) "eap_password is required for eap-mschapv2"
  | .psk => ensure (w.psk ≠ []) "psk is required"
  .ok w

def wdConfigParse (text : Text) : Except String WdConfig := do
  let w ← (split '\n' text).foldlM wdLine {}
  wdFinish w

end Machino.Ipsec
