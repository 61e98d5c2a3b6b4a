import Mathlib.Algebra.Order.Ring.Int
import Machino.Core.Text

namespace Machino.Rtsp

structure RtspAuthConfig where
  enabled : Bool := true
  offerBasic : Bool := true
  offerDigest : Bool := false
  realm : Text := "Machino".toList
  nonceLifetimeS : ℤ := 300

/-- The settings, and what the credential sources answer at the time of a request. -/
structure RtspAuth where
  cfg : RtspAuthConfig
  check : Option (Text → Text → Bool) := none
  ha1 : Option (Text → Text → Text) := none
  claim : Option Bool := none
  systemUnsafe : Bool := false

/-- The state of a connection. -/
structure Ctx where
  nonce : Text := []
  issuedMs : ℤ := 0
  authed : Bool := false
  deriving DecidableEq

inductive Verdict where
  | ok | missing | bad | stale
  deriving DecidableEq

def b64Value (c : Char) : Option ℕ :=
  if 'A' ≤ c ∧ c ≤ 'Z' then some (c.toNat - 'A'.toNat)
  else if 'a' ≤ c ∧ c ≤ 'z' then some (c.toNat - 'a'.toNat + 26)
  else if '0' ≤ c ∧ c ≤ '9' then some (c.toNat - '0'.toNat + 52)
  else if c = '+' then some 62
  else if c = '/' then some 63
  else none

/-- The loop over the signs, with the bits that have not become a byte. -/
def b64Loop (acc : BitVec 32) (bits : ℕ) (out : Text) : Text → Option Text
  | [] => some out
  | c :: s =>
    if c = '=' ∨ c = '\r' ∨ c = '\n' ∨ c = ' ' then b64Loop acc bits out s
    else
      match b64Value c with
      | none => none
      | some v =>
        let acc := acc <<< 6 ||| BitVec.ofNat 32 v
        if 8 ≤ bits + 6 then
          let bits := bits + 6 - 8
          b64Loop acc bits (out ++ [Char.ofNat ((acc.sshiftRight bits).toNat % 256)]) s
        else b64Loop acc (bits + 6) out s

def b64Decode (s : Text) : Option Text := b64Loop 0 0 [] s

def tolower (c : Char) : Char := if 'A' ≤ c ∧ c ≤ 'Z' then Char.ofNat (c.toNat + 32) else c

def startsCi (s p : Text) : Bool := (s.take p.length).map tolower = p.map tolower

/-- The value behind the equals sign, quoted or up to the next separator. -/
def paramValue : Text → Text
  | '"' :: s => if '"' ∈ s then s.takeWhile (· ≠ '"') else []
  | s => s.takeWhile fun c => !(c = ',' || c = ' ' || c = '\t' || c = '\r' || c = '\n')

/-- A parameter starts the header or stands behind a comma or a space. -/
def atBoundary : Option Char → Bool
  | none => true
  | some c => c = ',' || c = ' '

/-- The search behind `skip` signs and `prev`, for the first key at a boundary. -/
def paramFrom (key : Text) : ℕ → Option Char → Text → Text
  | _, _, [] => []
  | skip + 1, _, c :: s => paramFrom key skip (some c) s
  | 0, prev, c :: s =>
    if key.isPrefixOf (c :: s) then
      if atBoundary prev then paramValue ((c :: s).drop key.length)
      else paramFrom key (key.length - 1) (some c) s
    else paramFrom key 0 (some c) s

def authParam (header : Text) (name : String) : Text := paramFrom (name.toList ++ ['=']) 0 none header

namespace RtspAuth

variable (a : RtspAuth)

def claimed : Bool := a.claim.getD true

def digestUsable : Bool := a.cfg.offerDigest && a.ha1.isSome

def required : Bool :=
  if a.systemUnsafe then false
  else if !a.claimed then true
  else a.cfg.enabled && (a.digestUsable || a.cfg.offerBasic)

end RtspAuth

/-- `md5Hex` is the digest of the third-party library, in hexadecimal. -/
def responseOf (md5Hex : Text → Text) (ha1 nonce nc cnonce qop method uri : Text) : Text :=
  let ha2 := md5Hex (method ++ ':' :: uri)
  if qop = [] then md5Hex (ha1 ++ ':' :: nonce ++ ':' :: ha2)
  else md5Hex (ha1 ++ ':' :: nonce ++ ':' :: nc ++ ':' :: cnonce ++ ':' :: qop ++ ':' :: ha2)

def ha1Hex (md5Hex : Text → Text) (user realm password : Text) : Text :=
  md5Hex (user ++ ':' :: realm ++ ':' :: password)

def digestResponse (md5Hex : Text → Text)
    (user pass realm nonce method uri nc cnonce qop : Text) : Text :=
  responseOf md5Hex (ha1Hex md5Hex user realm pass) nonce nc cnonce qop method uri

def quoted (s : Text) : Text := '"' :: s ++ ['"']

/-- A nonce is made and told; `nonce` is what the random source gave. -/
def challenge (a : RtspAuth) (ctx : Ctx) (nonce : Text) (nowMs : ℤ) (stale : Bool) : Ctx × Text :=
  let digest :=
    if a.digestUsable then
      "Digest realm=".toList ++ quoted a.cfg.realm ++ ", nonce=".toList ++ quoted nonce ++
        ", qop=\"auth\"".toList ++ if stale then ", stale=true".toList else []
    else []
  let basic :=
    if a.cfg.offerBasic then
      (if digest = [] then [] else ['\n']) ++ "Basic realm=".toList ++ quoted a.cfg.realm
    else []
  ({ ctx with nonce := nonce, issuedMs := nowMs }, digest ++ basic)

def checkBasic (check : Text → Text → Bool) (ctx : Ctx) (authz : Text) : Ctx × Verdict :=
  match b64Decode (authz.drop 6) with
  | none => (ctx, .bad)
  | some dec =>
    if ':' ∉ dec then (ctx, .bad)
    else if check (dec.takeWhile (· ≠ ':')) ((dec.dropWhile (· ≠ ':')).drop 1) then
      ({ ctx with authed := true }, .ok)
    else (ctx, .bad)

/-- The URI that the header names, or else the one of the request. -/
def namedUri (uri authz : Text) : Text :=
  if authParam authz "uri" = [] then uri else authParam authz "uri"

def checkDigest (md5Hex : Text → Text) (ha1Of : Text → Text → Text) (cfg : RtspAuthConfig)
    (ctx : Ctx) (method uri authz : Text) (nowMs : ℤ) : Ctx × Verdict :=
  let user := authParam authz "username"
  let nonce := authParam authz "nonce"
  let resp := authParam authz "response"
  if user = [] ∨ nonce = [] ∨ resp = [] then (ctx, .bad)
  else if ctx.nonce = [] ∨ nonce ≠ ctx.nonce then (ctx, .stale)
  else if 0 < cfg.nonceLifetimeS ∧ cfg.nonceLifetimeS * 1000 < nowMs - ctx.issuedMs then (ctx, .stale)
  else
    let ha1 := ha1Of user cfg.realm
    if ha1 = [] then (ctx, .bad)
    else
      let want := responseOf md5Hex ha1 nonce (authParam authz "nc") (authParam authz "cnonce")
        (authParam authz "qop") method (namedUri uri authz)
      if want ≠ resp then (ctx, .bad) else ({ ctx with authed := true }, .ok)

def takesBasic (a : RtspAuth) (authz : Text) : Bool :=
  a.cfg.offerBasic && startsCi authz "Basic ".toList

def takesDigest (a : RtspAuth) (authz : Text) : Bool :=
  a.digestUsable && startsCi authz "Digest ".toList

/-- The schemes; `accepts` is the credential source. -/
def checkScheme (md5Hex : Text → Text) (a : RtspAuth) (accepts : Text → Text → Bool) (ctx : Ctx)
    (method uri authz : Text) (nowMs : ℤ) : Ctx × Verdict :=
  if takesBasic a authz then checkBasic accepts ctx authz
  else if takesDigest a authz then
    checkDigest md5Hex (a.ha1.getD fun _ _ => []) a.cfg ctx method uri authz nowMs
  else (ctx, .bad)

def check (md5Hex : Text → Text) (a : RtspAuth) (ctx : Ctx) (method uri authz : Text) (nowMs : ℤ) :
    Ctx × Verdict :=
  if !a.required then (ctx, .ok)
  else if !a.claimed then (ctx, .bad)
  else if authz = [] then (ctx, .missing)
  else
    match a.check with
    | none => (ctx, .bad)
    | some accepts => checkScheme md5Hex a accepts ctx method uri authz nowMs

end Machino.Rtsp
