import Machino.Core.Json
import Mathlib.Tactic.Common

namespace Machino.Cellular

inductive PdpType where
  | ipv4 | ipv4v6
  deriving DecidableEq, Repr

inductive AuthMode where
  | none | pap | chap
  deriving DecidableEq, Repr

inductive DataLinkKind where
  | ecm | ppp
  deriving DecidableEq, Repr

inductive NetMode where
  | auto | lteOnly | gsmOnly
  deriving DecidableEq, Repr

inductive BandProfile where
  | auto | mid | low | custom
  deriving DecidableEq, Repr

def pdpTypeName : PdpType → Text
  | .ipv4v6 => "IPV4V6".toList
  | .ipv4 => "IP".toList

def pdpTypeParse (s : Text) : Option PdpType :=
  if s = "IP".toList ∨ s = "ip".toList then some .ipv4
  else if s = "IPV4V6".toList ∨ s = "ipv4v6".toList then some .ipv4v6
  else none

def authModeName : AuthMode → Text
  | .pap => "pap".toList
  | .chap => "chap".toList
  | .none => "none".toList

def authModeParse (s : Text) : Option AuthMode :=
  if s = "none".toList ∨ s = "NONE".toList then some .none
  else if s = "pap".toList ∨ s = "PAP".toList then some .pap
  else if s = "chap".toList ∨ s = "CHAP".toList then some .chap
  else Option.none

def dataLinkKindParse (s : Text) : Option DataLinkKind :=
  if s = "ecm".toList then some .ecm
  else if s = "ppp".toList then some .ppp
  else none

def netModeName : NetMode → Text
  | .lteOnly => "lte".toList
  | .gsmOnly => "gsm".toList
  | .auto => "auto".toList

def netModeParse (s : Text) : Option NetMode :=
  if s = "auto".toList then some .auto
  else if s = "lte".toList then some .lteOnly
  else if s = "gsm".toList then some .gsmOnly
  else none

def bandProfileName : BandProfile → Text
  | .mid => "mid".toList
  | .low => "low".toList
  | .custom => "custom".toList
  | .auto => "auto".toList

def bandProfileParse (s : Text) : Option BandProfile :=
  if s = "auto".toList then some .auto
  else if s = "mid".toList then some .mid
  else if s = "low".toList then some .low
  else if s = "custom".toList then some .custom
  else none

@[simp] theorem pdpTypeParse_name (t : PdpType) : pdpTypeParse (pdpTypeName t) = some t := by
  cases t <;> decide

@[simp] theorem authModeParse_name (a : AuthMode) : authModeParse (authModeName a) = some a := by
  cases a <;> decide

@[simp] theorem netModeParse_name (m : NetMode) : netModeParse (netModeName m) = some m := by
  cases m <;> decide

@[simp] theorem bandProfileParse_name (p : BandProfile) :
    bandProfileParse (bandProfileName p) = some p := by
  cases p <;> decide

/-- A band of the modem, its frequency, and its place in the mask. -/
structure LteBand where
  num : Int
  mhz : Int
  bit : UInt64
  deriving DecidableEq, Repr

def lteBands : List LteBand :=
  [⟨1, 2100, 0⟩, ⟨3, 1800, 2⟩, ⟨5, 850, 4⟩, ⟨7, 2600, 6⟩, ⟨8, 900, 7⟩, ⟨20, 800, 19⟩,
    ⟨28, 700, 27⟩, ⟨38, 2600, 37⟩, ⟨40, 2300, 39⟩, ⟨41, 2500, 40⟩]

def lteBandByNumber (num : Int) : Option LteBand := lteBands.find? fun b => b.num = num

def bandBit (n : UInt64) : UInt64 := (1 : UInt64) <<< n

def allSupportedMask : UInt64 := lteBands.foldl (fun all b => all ||| bandBit b.bit) 0

def profileMask (p : BandProfile) (customMask : UInt64) : UInt64 :=
  match p with
  | .mid => bandBit 2
  | .low => bandBit 19 ||| bandBit 7 ||| bandBit 27 ||| bandBit 4
  | .custom => customMask &&& allSupportedMask
  | .auto => allSupportedMask

/-- The mask of a list of bands, or the first band that is not in the table. -/
def maskFromBands (bands : List Int) : Except Int UInt64 :=
  bands.foldlM (fun m n =>
    match lteBandByNumber n with
    | none => .error n
    | some b => .ok (m ||| bandBit b.bit)) 0

structure CellularConfig where
  enabled : Bool := false
  apn : Text := []
  pdp : PdpType := .ipv4
  auth : AuthMode := .none
  username : Text := []
  password : Text := []
  autoConnect : Bool := false
  simPin : Text := []
  nicMode : Bool := true
  dataLink : Text := "ecm".toList
  dial : Text := "*99***1#".toList
  netMode : NetMode := .auto
  bandProfile : BandProfile := .auto
  bandMask : UInt64 := 0
  deriving DecidableEq, Repr

/-- A quote of either kind, a backslash or a control character. -/
def breaksConfig (c : Char) : Bool :=
  c.toNat = 34 || c.toNat = 39 || c.toNat = 92 || c.toNat < 32

/-- A value that goes into a configuration file ends no line and opens no quote there. -/
def configSafe (s : Text) (field : String) : Except String Unit :=
  if s.any breaksConfig then
    .error (field ++ " must not contain quotes, backslashes or line breaks")
  else .ok ()

def checkPin (pin : Text) : Except String Unit :=
  if pin = [] then .ok ()
  else if pin.length < 4 then .error "a SIM PIN is 4 to 8 digits"
  else if !pin.all Char.isDigit then .error "a SIM PIN is digits only"
  else .ok ()

/-- One entry of a band list, as the `int` it is cast to. -/
def bandNumber : Json → Except String Int
  | .number n =>
    if Json.isInteger n then .ok (n.num.bmod (2 ^ 32))
    else .error "bands must be a list of band numbers"
  | _ => .error "bands must be a list of band numbers"

def getBands (body : Json) (out : UInt64) : Except String UInt64 :=
  match body.get "bands" with
  | none => .ok out
  | some (.array items) => do
    match maskFromBands (← items.mapM bandNumber) with
    | .ok mask => return mask
    | .error bad => throw ("band " ++ toString bad ++ " is not in the EC200A-EU band set")
  | some _ => .error "bands must be a list of band numbers"

def cellularFields : List String :=
  ["apn", "pdpType", "authMode", "username", "password", "autoConnect", "simPin", "nicMode",
    "dataLink", "dial", "netMode", "bandProfile", "bands"]

/-- A change of the configuration: what is not in the body stays, and what comes out of it has
to pass as a whole. -/
def cellularConfigFromJson (body : Json) (cfg : CellularConfig) :
    Except String CellularConfig := do
  ensure body.isObject "body must be an object"
  ensure (body.get "enabled").isNone ("enabled is not set here - the USB port carries one device, "
    ++ "so it is chosen with usb.mode (off, wifi or cellular)")
  rejectUnknown body cellularFields
  let autoConnect ← getBool body "autoConnect" cfg.autoConnect
  let nicMode ← getBool body "nicMode" cfg.nicMode
  let apn ← getString body "apn" cfg.apn 100
  let dial ← getString body "dial" cfg.dial 32
  let dataLink ← getString body "dataLink" cfg.dataLink 8
  ensure (dataLinkKindParse dataLink).isSome "dataLink must be ecm or ppp"
  let username ← getString body "username" cfg.username 64
  let password ← getString body "password" cfg.password 128
  let simPin ← getString body "simPin" cfg.simPin 8
  checkPin simPin
  let pdp ← getWord body "pdpType" 16 pdpTypeParse "pdpType must be IP or IPV4V6" cfg.pdp
  let auth ← getWord body "authMode" 16 authModeParse "authMode must be none, pap or chap" cfg.auth
  ensure (auth = .none || username ≠ []) "PAP or CHAP needs a username"
  let netMode ← getWord body "netMode" 8 netModeParse "netMode must be auto, lte or gsm" cfg.netMode
  let bandProfile ← getWord body "bandProfile" 8 bandProfileParse
    "bandProfile must be auto, mid, low or custom" cfg.bandProfile
  let bandMask ← getBands body cfg.bandMask
  ensure (bandProfile ≠ .custom || profileMask bandProfile bandMask ≠ 0)
    "the custom band profile needs at least one band"
  configSafe apn "apn"
  configSafe dial "dial"
  configSafe username "username"
  configSafe password "password"
  return { cfg with
    autoConnect, nicMode, apn, dial, dataLink, username, password, simPin, pdp, auth, netMode,
    bandProfile, bandMask }

/-- The change of `cfg` by `body` is `n`: each field is what its reader gives, and the checks
hold of the result. -/
structure Patched (body : Json) (cfg n : CellularConfig) : Prop where
  object : body.isObject = true
  derived : (body.get "enabled").isNone = true
  known : rejectUnknown body cellularFields = .ok ()
  enabled : n.enabled = cfg.enabled
  autoConnect : getBool body "autoConnect" cfg.autoConnect = .ok n.autoConnect
  nicMode : getBool body "nicMode" cfg.nicMode = .ok n.nicMode
  apn : getString body "apn" cfg.apn 100 = .ok n.apn
  dial : getString body "dial" cfg.dial 32 = .ok n.dial
  dataLink : getString body "dataLink" cfg.dataLink 8 = .ok n.dataLink
  link : (dataLinkKindParse n.dataLink).isSome = true
  username : getString body "username" cfg.username 64 = .ok n.username
  password : getString body "password" cfg.password 128 = .ok n.password
  simPin : getString body "simPin" cfg.simPin 8 = .ok n.simPin
  pin : checkPin n.simPin = .ok ()
  pdp : getWord body "pdpType" 16 pdpTypeParse "pdpType must be IP or IPV4V6" cfg.pdp = .ok n.pdp
  auth : getWord body "authMode" 16 authModeParse "authMode must be none, pap or chap" cfg.auth =
    .ok n.auth
  user : (n.auth = .none || n.username ≠ []) = true
  netMode : getWord body "netMode" 8 netModeParse "netMode must be auto, lte or gsm" cfg.netMode =
    .ok n.netMode
  bandProfile : getWord body "bandProfile" 8 bandProfileParse
    "bandProfile must be auto, mid, low or custom" cfg.bandProfile = .ok n.bandProfile
  bandMask : getBands body cfg.bandMask = .ok n.bandMask
  bands : (n.bandProfile ≠ .custom || profileMask n.bandProfile n.bandMask ≠ 0) = true
  safeApn : configSafe n.apn "apn" = .ok ()
  safeDial : configSafe n.dial "dial" = .ok ()
  safeUser : configSafe n.username "username" = .ok ()
  safePassword : configSafe n.password "password" = .ok ()

theorem getBands_again {body : Json} {c v c' : UInt64} (h : getBands body c = .ok v)
    (hc : c = v → c' = v) : getBands body c' = .ok v := by
  unfold getBands at h ⊢
  split at h
  · rw [hc (Except.ok.inj h)]
  · exact h
  · exact absurd h (by simp)

theorem cellularConfigFromJson_ok {body : Json} {cfg n : CellularConfig} :
    cellularConfigFromJson body cfg = .ok n ↔ Patched body cfg n := by
  unfold cellularConfigFromJson
  simp only [except_bind_eq_ok, ensure_eq_ok]
  constructor
  · rintro ⟨-, hobj, -, hen, _, hknown, a, ha, b, hb, c, hc, d, hd, e, he, -, hlink, f, hf, g, hg,
      p, hp, _, hpin, t, ht, u, hu, -, huser, v, hv, w, hw, x, hx, -, hbands, _, h1, _, h2, _, h3,
      _, h4, h⟩
    obtain rfl := Except.ok.inj h
    exact ⟨hobj, hen, hknown, rfl, ha, hb, hc, hd, he, hlink, hf, hg, hp, hpin, ht, hu, huser, hv,
      hw, hx, hbands, h1, h2, h3, h4⟩
  · intro h
    refine ⟨(), h.object, (), h.derived, (), h.known, _, h.autoConnect, _, h.nicMode, _, h.apn, _,
      h.dial, _, h.dataLink, (), h.link, _, h.username, _, h.password, _, h.simPin, (), h.pin, _,
      h.pdp, _, h.auth, (), h.user, _, h.netMode, _, h.bandProfile, _, h.bandMask, (), h.bands,
      (), h.safeApn, (), h.safeDial, (), h.safeUser, (), h.safePassword, ?_⟩
    rw [← h.enabled]
    rfl

end Machino.Cellular
