import Machino.Core.Text

namespace Machino.Ipsec

inductive Underlay where
  | auto | ethernet | wifi | cellular
  deriving DecidableEq, Repr

def underlayName : Underlay → String
  | .auto => "auto"
  | .ethernet => "ethernet"
  | .wifi => "wifi"
  | .cellular => "cellular"

def underlayFromName (s : Text) : Option Underlay :=
  match String.ofList s with
  | "auto" => some .auto
  | "ethernet" => some .ethernet
  | "wifi" => some .wifi
  | "cellular" => some .cellular
  | _ => none

inductive Auth where
  | psk | eapMschapv2
  deriving DecidableEq, Repr

def authName : Auth → String
  | .psk => "psk"
  | .eapMschapv2 => "eap-mschapv2"

def authFromName (s : Text) : Option Auth :=
  match String.ofList s with
  | "psk" => some .psk
  | "eap-mschapv2" => some .eapMschapv2
  | _ => none

inductive TrustMode where
  | anchorPem | hostStore | hostStorePlusPem | none
  deriving DecidableEq, Repr

def trustModeName : TrustMode → String
  | .anchorPem => "anchor-pem"
  | .hostStore => "host-store"
  | .hostStorePlusPem => "host-store-plus-pem"
  | .none => "none"

def trustModeFromName (s : Text) : Option TrustMode :=
  match String.ofList s with
  | "anchor-pem" => some .anchorPem
  | "host-store" => some .hostStore
  | "host-store-plus-pem" => some .hostStorePlusPem
  | "none" => some .none
  | _ => Option.none

inductive IdType where
  | fqdn | rfc822 | ipv4 | keyId
  deriving DecidableEq, Repr

def idTypeName : IdType → String
  | .fqdn => "fqdn"
  | .rfc822 => "rfc822"
  | .ipv4 => "ipv4"
  | .keyId => "keyid"

def idTypeFromName (s : Text) : Option IdType :=
  match String.ofList s with
  | "fqdn" => some .fqdn
  | "rfc822" => some .rfc822
  | "ipv4" => some .ipv4
  | "keyid" => some .keyId
  | _ => none

structure IpsecConfig where
  enabled : Bool := false
  gateway : Text := []
  port : UInt16 := 500
  underlay : Underlay := .auto
  localId : Text := []
  remoteId : Text := []
  localIdType : IdType := .fqdn
  remoteIdType : IdType := .fqdn
  localSubnet : Text := []
  remoteSubnet : Text := []
  natT : Bool := true
  pfs : Bool := false
  autoConnect : Bool := true
  dpdIntervalS : Int := 30
  ikeLifetimeS : UInt32 := 0
  childLifetimeS : UInt32 := 0
  auth : Auth := .psk
  eapUser : Text := []
  trustMode : TrustMode := .hostStore
  ikeEnc : List Text := ["aes256cbc".toList]
  ikeHash : List Text := ["sha256".toList]
  ikeDh : List Text := ["dh14".toList]
  espEnc : List Text := ["aes256cbc".toList]
  espHash : List Text := ["sha256".toList]
  dpd : Bool := true
  dpdRetries : Int := 0
  nattKeepaliveS : Int := 0
  childLifetimeMb : UInt32 := 0
  mtu : Int := 1400
  deriving DecidableEq, Repr

/-- The secrets of a save, each empty to leave the stored one as it is. -/
structure IpsecSecrets where
  psk : Text := []
  eapPassword : Text := []
  caPem : Text := []
  extraPem : Text := []
  deriving DecidableEq, Repr

/-- What a connection is pinned to for its time: the resolved gateway and the underlay. -/
structure SessionNet where
  gatewayIp : Text := []
  bindIp : Text := []
  bindDev : Text := []
  deriving DecidableEq, Repr

/-- Why a secret cannot be stored. An empty one is none at all. -/
def secretFault (secret : Text) : Option String :=
  if secret = [] then none
  else if 64 < secret.length then some "laenger als 64 Bytes (WeirdIKE-Core-Limit)"
  else if secret.any fun ch => ch ≠ ' ' && (ch.toNat < 0x21 || 0x7e < ch.toNat) then
    some "nur druckbares ASCII (keine Zeilenumbrueche/Steuerzeichen)"
  else if secret.head? = some ' ' ∨ secret.getLast? = some ' ' then
    some ("fuehrende/abschliessende Leerzeichen wuerden vom Daemon entfernt " ++
      "-- abgelehnt statt still veraendert")
  else none

/-- `psk_check`, under the name of the field it is asked for. -/
def pskCheck (field : String) (secret : Text) : String :=
  match secretFault secret with
  | none => ""
  | some fault => field ++ ": " ++ fault

end Machino.Ipsec
