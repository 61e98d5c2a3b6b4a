import Machino.Core.Json

namespace Machino.Net

inductive WifiSecurity where
  | «open» | wpa | wpa2 | wpa3 | wpa2Wpa3 | wep
  deriving DecidableEq, Repr

def wifiSecurityParse (s : Text) : Option WifiSecurity :=
  if s = "open".toList then some .open
  else if s = "wpa".toList then some .wpa
  else if s = "wpa2".toList then some .wpa2
  else if s = "wpa3".toList then some .wpa3
  else if s = "wpa2-wpa3".toList then some .wpa2Wpa3
  else if s = "wep".toList then some .wep
  else none

structure WifiStationConfig where
  ssid : Text := []
  passphrase : Text := []
  dhcp : Bool := true
  staticIp : Text := []
  netmask : Text := []
  gateway : Text := []
  dns : Text := []
  deriving DecidableEq, Repr

structure WifiApConfig where
  ssid : Text := []
  passphrase : Text := []
  security : WifiSecurity := .wpa2
  channel : Int := 0
  ipv4 : Text := "192.168.4.1".toList
  dhcpStart : Text := "192.168.4.20".toList
  dhcpEnd : Text := "192.168.4.100".toList
  dhcpServer : Bool := true
  deriving DecidableEq, Repr

/-- One to three digits without a leading zero, at most 255. -/
def isOctet (d : Text) : Bool :=
  d ≠ [] && d.length ≤ 3 && Nat.ofDigitChars 10 d 0 ≤ 255 && (d.length ≤ 1 || d.head? ≠ some '0')

/-- An octet with `more` behind it, each after a dot, and nothing after the last. -/
def dottedOctets : (more : ℕ) → Text → Bool
  | 0, s => isOctet s && s.all Char.isDigit
  | more + 1, s =>
    isOctet (s.takeWhile Char.isDigit) &&
      match s.dropWhile Char.isDigit with
      | '.' :: rest => dottedOctets more rest
      | _ => false

def validIpv4 (s : Text) : Bool := dottedOctets 3 s

def checkOptionalIpv4 (v : Text) (field : String) : Except String Unit :=
  ensure (v = [] || validIpv4 v) (field ++ " is not an IPv4 address")

def checkWifiSecret (s : Text) (required : Bool) : Except String Unit :=
  if s = [] then ensure (!required) "a secured network needs a passphrase"
  else if s.length = 64 then
    ensure (s.all Text.isHexDigit) "a 64-character key must be a hexadecimal PSK"
  else
    ensure (8 ≤ s.length && s.length ≤ 63)
      "a passphrase must be 8 to 63 characters, or a 64-digit hexadecimal PSK"

def wifiStationFromJson (body : Json) : Except String WifiStationConfig := do
  ensure body.isObject "body must be an object"
  let next : WifiStationConfig := {}
  rejectUnknown body ["ssid", "passphrase", "dhcp", "ip", "netmask", "gateway", "dns"]
  let ssid ← getString body "ssid" next.ssid 32
  ensure (ssid ≠ []) "ssid is required"
  let passphrase ← getString body "passphrase" next.passphrase 64
  checkWifiSecret passphrase false
  let dhcp ← getBool body "dhcp" true
  let staticIp ← getString body "ip" next.staticIp 45
  let netmask ← getString body "netmask" next.netmask 45
  let gateway ← getString body "gateway" next.gateway 45
  let dns ← getString body "dns" next.dns 45
  ensure (dhcp || staticIp ≠ []) "a static configuration needs an ip"
  checkOptionalIpv4 staticIp "ip"
  checkOptionalIpv4 netmask "netmask"
  checkOptionalIpv4 gateway "gateway"
  checkOptionalIpv4 dns "dns"
  return { ssid, passphrase, dhcp, staticIp, netmask, gateway, dns }

def wifiApFromJson (body : Json) : Except String WifiApConfig := do
  ensure body.isObject "body must be an object"
  let next : WifiApConfig := {}
  rejectUnknown body ["ssid", "passphrase", "security", "channel", "ip", "dhcpStart", "dhcpEnd",
    "dhcpServer"]
  let ssid ← getString body "ssid" next.ssid 32
  ensure (ssid ≠ []) "ssid is required"
  let passphrase ← getString body "passphrase" next.passphrase 64
  let security ← getWord body "security" 16 wifiSecurityParse
    "security must be open, wpa2, wpa3, wpa2-wpa3 or wep" next.security
  checkWifiSecret passphrase (security ≠ .open)
  let channel ← getInt body "channel" next.channel 0 196
  let ipv4 ← getString body "ip" next.ipv4 45
  let dhcpStart ← getString body "dhcpStart" next.dhcpStart 45
  let dhcpEnd ← getString body "dhcpEnd" next.dhcpEnd 45
  let dhcpServer ← getBool body "dhcpServer" next.dhcpServer
  checkOptionalIpv4 ipv4 "ip"
  checkOptionalIpv4 dhcpStart "dhcpStart"
  checkOptionalIpv4 dhcpEnd "dhcpEnd"
  return { ssid, passphrase, security, channel, ipv4, dhcpStart, dhcpEnd, dhcpServer }

example : validIpv4 "192.168.4.20".toList = true := by decide

example : validIpv4 "192.168.04.20".toList = false := by decide

end Machino.Net
