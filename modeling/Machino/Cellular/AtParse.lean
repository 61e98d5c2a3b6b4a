import Machino.Core.Text

namespace Machino.Cellular

inductive AtResult where
  | pending | ok | error
  deriving DecidableEq, Repr

/-- One command's answer: the result line, the lines before it, and all that was read. -/
structure AtExchange where
  result : AtResult := .pending
  payload : Text := []
  raw : Text := []
  timedOut : Bool := false
  deviceGone : Bool := false
  deriving DecidableEq, Repr

def AtExchange.ok (x : AtExchange) : Bool := x.result = .ok

inductive SimState where
  | unknown | ready | pinRequired | pukRequired | notInserted | error
  deriving DecidableEq, Repr

inductive RegState where
  | unknown | notRegistered | registeredHome | searching | denied | registeredRoaming
  deriving DecidableEq, Repr

/-- A space, a tab or the end of a line. -/
def isBlank (c : Char) : Bool := c = ' ' || c = '\t' || c = '\r' || c = '\n'

def trim (s : Text) : Text := ((s.dropWhile isBlank).reverse.dropWhile isBlank).reverse

def linesOf (raw : Text) : List Text := (raw.splitOn '\n').map trim

/-- The number a field is, in the range of a `long`, if it is one. -/
def asInt (field : Text) : Option Int :=
  let s := trim field
  let digits := match s with
    | '-' :: t | '+' :: t => t
    | t => t
  if digits = [] then none
  else if !digits.all Char.isDigit then none
  else
    let n : Int := Nat.ofDigitChars 10 digits 0
    some (if s.head? = some '-' then max (-n) (-2147483648) else min n 2147483647)

/-- The text behind the prefix, up to the end of the line. -/
def atExtract (raw : Text) (pre : String) : Text :=
  match Text.find pre.toList raw with
  | none => []
  | some p => trim ((raw.drop (p + pre.toList.length)).takeWhile (· ≠ '\n'))

/-- A quotation mark keeps commas from ending a field. -/
def csvFieldFrom (idx : ℕ) : Text → (field : ℕ) → (quoted : Bool) → (cur : Text) → Text
  | [], field, _, cur => if field = idx then trim cur else []
  | c :: s, field, quoted, cur =>
    if c.toNat = 34 then csvFieldFrom idx s field (!quoted) cur
    else if c = ',' ∧ !quoted then
      if field = idx then trim cur else csvFieldFrom idx s (field + 1) quoted []
    else csvFieldFrom idx s field quoted (cur ++ [c])

def csvField (line : Text) (idx : ℕ) : Text := csvFieldFrom idx line 0 false []

/-- The first line of digits only that is at least six of them long. -/
def firstNumericLine (raw : Text) : Text :=
  ((linesOf raw).find? fun l => 6 ≤ l.length && l.all Char.isDigit).getD []

structure ModemIdentity where
  manufacturer : Text := []
  model : Text := []
  firmware : Text := []
  deriving DecidableEq, Repr

/-- The line that names the manufacturer, and the next one as the model. -/
def parseAti (raw : Text) : ModemIdentity :=
  let firmware := atExtract raw "Revision:"
  match (linesOf raw).dropWhile fun l => !Text.contains l "Quectel" with
  | [] => { firmware := firmware }
  | manufacturer :: rest =>
    let model := match rest.find? (· ≠ []) with
      | some l => if "Revision:".toList.isPrefixOf l then [] else l
      | none => []
    { manufacturer := manufacturer, model := model, firmware := firmware }

def parseCpin (raw : Text) : SimState :=
  if Text.contains raw "READY" then .ready
  else if Text.contains raw "SIM PUK2" then .unknown
  else if Text.contains raw "SIM PIN2" then .unknown
  else if Text.contains raw "SIM PUK" then .pukRequired
  else if Text.contains raw "SIM PIN" then .pinRequired
  else if Text.contains raw "CME ERROR" then .notInserted
  else if raw = [] then .unknown
  else .error

def regStateName : RegState → String
  | .notRegistered => "not_registered"
  | .registeredHome => "registered_home"
  | .searching => "searching"
  | .denied => "registration_denied"
  | .registeredRoaming => "registered_roaming"
  | .unknown => "unknown"

def regIsRegistered (s : RegState) : Bool := s = .registeredHome || s = .registeredRoaming

def parseCereg (raw : Text) : RegState :=
  let body := atExtract raw "+CEREG:"
  if body = [] then .unknown
  else
    match asInt (csvField body 1) with
    | some 0 => .notRegistered
    | some 1 => .registeredHome
    | some 2 => .searching
    | some 3 => .denied
    | some 5 => .registeredRoaming
    | _ => .unknown

/-- An address with its mask behind it is eight numbers, without it is four. -/
def splitAddrMask (field : Text) : Text × Text :=
  let parts := field.splitOn '.'
  let parts := if parts.getLast? = some [] then parts.dropLast else parts
  let join (ps : List Text) : Text := ps.foldl (fun s p => if s = [] then p else s ++ '.' :: p) []
  if parts.length = 8 then (join (parts.take 4), join (parts.drop 4))
  else if parts.length = 4 then (join parts, [])
  else ([], [])

structure PdpContextParams where
  apn : Text := []
  ipv4 : Text := []
  netmask : Text := []
  gateway : Text := []
  dns1 : Text := []
  dns2 : Text := []
  deriving DecidableEq, Repr

/-- The fields are counted by commas, the first one is the context's number. -/
def parseCgcontrdp (raw : Text) : PdpContextParams :=
  let body := atExtract raw "+CGCONTRDP:"
  if body = [] then {}
  else
    let (addr, mask) := splitAddrMask (csvField body 3)
    let gateway := csvField body 4
    { apn := csvField body 2
      ipv4 := if addr = "0.0.0.0".toList then [] else addr
      netmask := mask
      gateway := if gateway = "0.0.0.0".toList then [] else gateway
      dns1 := csvField body 5
      dns2 := csvField body 6 }

/-- The value of the setting, when the answer is about it and has a number. -/
def parseQcfgInt (raw : Text) (name : String) : Option Int :=
  let body := atExtract raw "+QCFG:"
  if body = [] then none
  else if csvField body 0 ≠ name.toList then none
  else asInt (csvField body 1)

/-- Whether the card asks for a PIN: 1 or 0. -/
def parseClck (raw : Text) : Option Int :=
  let body := atExtract raw "+CLCK:"
  if body = [] then none
  else (asInt (csvField body 0)).filter fun v => v = 0 || v = 1

/-- The attempts that the card has left. -/
structure PinCounters where
  pinLeft : Option Int := none
  pukLeft : Option Int := none
  deriving DecidableEq, Repr

def parseQpinc (raw : Text) : PinCounters :=
  let body := atExtract raw "+QPINC:"
  if body = [] then {}
  else if csvField body 0 ≠ "SC".toList then {}
  else { pinLeft := asInt (csvField body 1), pukLeft := asInt (csvField body 2) }

example : parseCereg "\r\n+CEREG: 0,5\r\n\r\nOK\r\n".toList = .registeredRoaming := by decide

end Machino.Cellular
