import Machino.Basic.Effects
import Machino.Core.Result
import Machino.Net.WifiConfig

namespace Machino.Net

open Effects

def kHex (n : ℕ) : Char := Nat.digitChar (n % 16)

def wpaHex (raw : Text) : Text := raw.flatMap fun c => [kHex (c.toNat / 16), kHex c.toNat]

/-- A control character is refused. -/
def isControl (c : Char) : Bool := c.toNat < 0x20 || c.toNat = 0x7f

def isEscaped (c : Char) : Bool := c = '"' || c = '\\'

def wpaEscape : Text → Text
  | [] => []
  | c :: s => if isEscaped c then '\\' :: c :: wpaEscape s else c :: wpaEscape s

def wpaQuote (raw : Text) : Option Text :=
  if raw.any isControl then none else some ('"' :: (wpaEscape raw ++ ['"']))

inductive CtrlCall where
  | available
  | request (cmd : Text)
  deriving DecidableEq

/-- A request is answered with its reply, or with nothing in time. -/
abbrev CtrlAnswer : CtrlCall → Type
  | .available => Bool
  | .request _ => Option Text

abbrev Ctrl := Prog CtrlCall CtrlAnswer

def available : Ctrl Bool := Prog.perform CtrlCall.available

def request (cmd : Text) : Ctrl (Option Text) := Prog.perform (CtrlCall.request cmd)

/-- Without the line ends behind it. -/
def stripEnds (reply : Text) : Text :=
  (reply.reverse.dropWhile fun c => c = '\n' || c = '\r').reverse

def isOkReply (reply : Option Text) : Bool := reply.map stripEnds = some "OK".toList

def okRequest (cmd : Text) : Ctrl Bool := do
  return isOkReply (← request cmd)

def setCommand (id kv : Text) : Text := "SET_NETWORK".toList ++ ' ' :: (id ++ ' ' :: kv)

def removeCommand (id : Text) : Text := "REMOVE_NETWORK".toList ++ ' ' :: id

def enableCommand (id : Text) : Text := "ENABLE_NETWORK".toList ++ ' ' :: id

def selectCommand (id : Text) : Text := "SELECT_NETWORK".toList ++ ' ' :: id

/-- What the passphrase is sent as: 64 digits as they are, anything else quoted. -/
def keySetting (passphrase pskArg : Text) : Text :=
  if passphrase = [] then "key_mgmt".toList ++ ' ' :: "NONE".toList
  else if passphrase.length = 64 ∧ passphrase.all Text.isHexDigit = true then
    "psk".toList ++ ' ' :: passphrase
  else "psk".toList ++ ' ' :: pskArg

/-- The network is taken back. -/
def giveUp (id : Text) : Ctrl Result := do
  let _ ← okRequest (removeCommand id)
  return .error

/-- The rest only where the command is answered with OK. -/
def orGiveUp (id cmd : Text) (rest : Ctrl Result) : Ctrl Result := do
  if !(← okRequest cmd) then
    return ← giveUp id
  rest

/-- The settings of the new network, and then it is chosen. -/
def configure (id : Text) (cfg : WifiStationConfig) (pskArg : Text) : Ctrl Result :=
  orGiveUp id (setCommand id ("ssid".toList ++ ' ' :: wpaHex cfg.ssid)) do
    let _ ← okRequest (setCommand id "scan_ssid 1".toList)
    orGiveUp id (setCommand id (keySetting cfg.passphrase pskArg))
      (orGiveUp id (enableCommand id) (orGiveUp id (selectCommand id) (return .ok)))

def startStation (cfg : WifiStationConfig) : Ctrl Result := do
  if !(← available) then
    return .unsupported
  if cfg.ssid = [] then
    return .error
  if cfg.passphrase ≠ [] ∧ wpaQuote cfg.passphrase = none then
    return .error
  let _ ← okRequest "REMOVE_NETWORK all".toList
  match ← request "ADD_NETWORK".toList with
  | none => return .error
  | some reply =>
    let id := stripEnds reply
    if id = [] ∨ id = "FAIL".toList ∨ id.all Char.isDigit = false then
      return .error
    configure id cfg ((wpaQuote cfg.passphrase).getD [])

/-- The key material of a network. -/
inductive WifiKey where
  | «open»
  | passphrase (s : Text)
  | raw (digits : Text)
  deriving DecidableEq

/-- Quoted text counts verbatim between the first and the last quote, 64 digits are a key. -/
def readPsk (value : Text) : Option WifiKey :=
  match value with
  | '"' :: s => if '"' ∈ s then
      some (.passphrase ((s.reverse.dropWhile (· ≠ '"')).tail.reverse)) else none
  | s => if s.length = 64 ∧ s.all Text.isHexDigit = true then some (.raw s) else none

structure Supplicant where
  keys : Text → Option WifiKey := fun _ => none
  selected : Option Text := none

def word (s : Text) : Text := s.takeWhile (· ≠ ' ')

def behind (s : Text) : Text := (s.dropWhile (· ≠ ' ')).tail

/-- A setting that was taken. -/
def Supplicant.set (sup : Supplicant) (id name value : Text) : Supplicant :=
  if name = "psk".toList then { sup with keys := Function.update sup.keys id (readPsk value) }
  else if name = "key_mgmt".toList ∧ value = "NONE".toList then
    { sup with keys := Function.update sup.keys id (some .open) }
  else sup

/-- A command that was answered. -/
def Supplicant.serve (sup : Supplicant) (cmd reply : Text) : Supplicant :=
  let verb := word cmd
  let rest := behind cmd
  if verb = "ADD_NETWORK".toList then
    { sup with keys := Function.update sup.keys (stripEnds reply) none }
  else if stripEnds reply ≠ "OK".toList then sup
  else if verb = "SET_NETWORK".toList then
    sup.set (word rest) (word (behind rest)) (behind (behind rest))
  else if verb = "SELECT_NETWORK".toList then { sup with selected := some rest }
  else if verb = "REMOVE_NETWORK".toList then
    if rest = "all".toList then { keys := fun _ => none, selected := none }
    else { sup with keys := Function.update sup.keys rest none }
  else sup

/-- The key of the network that is chosen. -/
def Supplicant.key (sup : Supplicant) : Option WifiKey := sup.selected.bind sup.keys

/-- The supplicant, and how the next requests are answered. -/
structure Link where
  sup : Supplicant := {}
  up : Bool := true
  replies : List (Option Text) := []

def Link.answer (link : Link) (cmd : Text) : Link :=
  { link with
    sup := match link.replies.head?.join with
      | some reply => link.sup.serve cmd reply
      | none => link.sup
    replies := link.replies.tail }

def execCtrl : (e : CtrlCall) → Link → CtrlAnswer e × Link
  | .available, link => (link.up, link)
  | .request cmd, link => (link.replies.head?.join, link.answer cmd)

/-- What the configuration asks for. -/
def keyOf (passphrase : Text) : WifiKey :=
  if passphrase = [] then .open
  else if passphrase.length = 64 then .raw passphrase
  else .passphrase passphrase

theorem word_append {w : Text} (h : ' ' ∉ w) (r : Text) : word (w ++ ' ' :: r) = w := by
  have hpass : ∀ c ∈ w, decide (c ≠ ' ') = true := fun c hc =>
    decide_eq_true fun heq => h (heq ▸ hc)
  unfold word
  rw [List.takeWhile_append_of_pos hpass, List.takeWhile_cons_of_neg (by simp), List.append_nil]

theorem behind_append {w : Text} (h : ' ' ∉ w) (r : Text) : behind (w ++ ' ' :: r) = r := by
  have hpass : ∀ c ∈ w, decide (c ≠ ' ') = true := fun c hc =>
    decide_eq_true fun heq => h (heq ▸ hc)
  unfold behind
  rw [List.dropWhile_append_of_pos hpass, List.dropWhile_cons_of_neg (by simp), List.tail_cons]

theorem serve_set {id name value reply : Text} (sup : Supplicant)
    (hreply : stripEnds reply = "OK".toList) (hid : ' ' ∉ id) (hname : ' ' ∉ name) :
    sup.serve (setCommand id (name ++ ' ' :: value)) reply = sup.set id name value := by
  unfold Supplicant.serve setCommand
  dsimp only
  rw [word_append (by decide), behind_append (by decide), word_append hid, behind_append hid,
    word_append hname, behind_append hname, if_neg (by decide), if_neg (not_not.mpr hreply),
    if_pos rfl]

theorem serve_enable (id reply : Text) (sup : Supplicant) :
    sup.serve (enableCommand id) reply = sup := by
  unfold Supplicant.serve enableCommand
  dsimp only
  rw [word_append (by decide)]
  split_ifs with h₁ h₂ h₃ h₄ h₅
  · exact absurd h₁ (by decide)
  · rfl
  · exact absurd h₃ (by decide)
  · exact absurd h₄ (by decide)
  · exact absurd h₅ (by decide)
  · exact absurd h₅ (by decide)
  · rfl

theorem serve_select {reply : Text} (id : Text) (sup : Supplicant)
    (hreply : stripEnds reply = "OK".toList) :
    sup.serve (selectCommand id) reply = { sup with selected := some id } := by
  unfold Supplicant.serve selectCommand
  dsimp only
  rw [word_append (by decide), behind_append (by decide), if_neg (by decide),
    if_neg (not_not.mpr hreply), if_neg (by decide), if_pos rfl]

/-- Quoted text is what stands between the quotes. -/
theorem readPsk_quoted (s : Text) : readPsk ('"' :: (s ++ ['"'])) = some (.passphrase s) := by
  simp [readPsk]

theorem readPsk_raw {s : Text} (hlen : s.length = 64) (hhex : s.all Text.isHexDigit = true) :
    readPsk s = some (.raw s) := by
  unfold readPsk
  split
  · rename_i t
    rw [List.all_cons] at hhex
    simp [Text.isHexDigit] at hhex
  · rw [if_pos ⟨hlen, hhex⟩]

/-- How the next request is answered. -/
def Link.next (link : Link) : Option Text := link.replies.head?.join

@[simp] theorem eval_okRequest (cmd : Text) (link : Link) :
    (okRequest cmd).eval execCtrl link = (isOkReply link.next, link.answer cmd) := rfl

@[simp] theorem eval_request (cmd : Text) (link : Link) :
    (request cmd).eval execCtrl link = (link.next, link.answer cmd) := rfl

@[simp] theorem eval_giveUp (id : Text) (link : Link) :
    (giveUp id).eval execCtrl link = (.error, link.answer (removeCommand id)) := rfl

theorem answer_of_ok {link : Link} (h : isOkReply link.next = true) (cmd : Text) :
    ∃ reply, stripEnds reply = "OK".toList ∧
      (link.answer cmd).sup = link.sup.serve cmd reply := by
  unfold isOkReply at h
  cases hnext : link.next with
  | none => simp [hnext] at h
  | some reply =>
    refine ⟨reply, by simpa [hnext] using h, ?_⟩
    unfold Link.next at hnext
    unfold Link.answer
    rw [hnext]

theorem orGiveUp_ok {id cmd : Text} {rest : Ctrl Result} {link : Link}
    (h : ((orGiveUp id cmd rest).eval execCtrl link).1 = .ok) :
    isOkReply link.next = true ∧ (orGiveUp id cmd rest).eval execCtrl link =
      rest.eval execCtrl (link.answer cmd) := by
  unfold orGiveUp at h ⊢
  rw [Prog.eval_bind, eval_okRequest] at h ⊢
  dsimp only at h ⊢
  by_cases hok : isOkReply link.next = true
  · rw [hok]
    exact ⟨rfl, rfl⟩
  · rw [Bool.of_not_eq_true hok] at h
    have herr : Result.error = Result.ok := h
    exact absurd herr (by decide)

/-- A configured network is the chosen one, and its key is the last thing set of it. -/
theorem configure_ok {id : Text} {cfg : WifiStationConfig} {pskArg : Text} {link : Link}
    (hid : ' ' ∉ id) {name value : Text} (hname : ' ' ∉ name)
    (hkey : keySetting cfg.passphrase pskArg = name ++ ' ' :: value)
    (h : ((configure id cfg pskArg).eval execCtrl link).1 = .ok) :
    ∃ sup : Supplicant, ((configure id cfg pskArg).eval execCtrl link).2.sup =
      { sup.set id name value with selected := some id } := by
  unfold configure at h ⊢
  obtain ⟨-, heq⟩ := orGiveUp_ok h
  rw [heq, Prog.eval_bind, eval_okRequest] at h ⊢
  obtain ⟨hset, heq⟩ := orGiveUp_ok h
  rw [heq] at h ⊢
  obtain ⟨henable, heq⟩ := orGiveUp_ok h
  rw [heq] at h ⊢
  obtain ⟨hselect, heq⟩ := orGiveUp_ok h
  rw [heq, Prog.eval_pure]
  -- From the last command back to the one that sets the key.
  obtain ⟨reply, hreply, hsup⟩ := answer_of_ok hselect (selectCommand id)
  obtain ⟨reply', hreply', hsup'⟩ := answer_of_ok henable (enableCommand id)
  obtain ⟨reply'', hreply'', hsup''⟩ := answer_of_ok hset
    (setCommand id (keySetting cfg.passphrase pskArg))
  rw [hkey] at hsup''
  dsimp only at hsup ⊢
  rw [hsup, serve_select id _ hreply, hsup', serve_enable, hkey, hsup'',
    serve_set _ hreply'' hid hname]
  exact ⟨_, rfl⟩

/-- A start that goes well has chosen a network with a number for its name. -/
theorem startStation_ok {cfg : WifiStationConfig} {link : Link}
    (h : ((startStation cfg).eval execCtrl link).1 = .ok) :
    (cfg.passphrase = [] ∨ ∃ pskArg, wpaQuote cfg.passphrase = some pskArg) ∧
      ∃ id link', ' ' ∉ id ∧
        ((configure id cfg ((wpaQuote cfg.passphrase).getD [])).eval execCtrl link').1 = .ok ∧
        ((startStation cfg).eval execCtrl link).2 =
          ((configure id cfg ((wpaQuote cfg.passphrase).getD [])).eval execCtrl link').2 := by
  have hfail {r : Result} {link' : Link} (hr : r ≠ .ok) :
      ¬ ((pure r : Ctrl Result).eval execCtrl link').1 = .ok := hr
  unfold startStation at h ⊢
  rw [Prog.eval_bind] at h ⊢
  split_ifs at h ⊢ with hup hssid hquote
  · exact absurd h (hfail (by decide))
  · exact absurd h (hfail (by decide))
  · exact absurd h (hfail (by decide))
  · refine ⟨?_, ?_⟩
    · rw [not_and_or, not_not, ← Option.ne_none_iff_exists'] at *
      exact hquote
    · rw [Prog.eval_bind, eval_okRequest, Prog.eval_bind, eval_request] at h ⊢
      dsimp only at h ⊢
      cases hreply : (Link.answer _ "REMOVE_NETWORK all".toList).next with
      | none =>
        rw [hreply] at h
        exact absurd h (hfail (by decide))
      | some reply =>
        rw [hreply] at h
        dsimp only at h ⊢
        split_ifs at h ⊢ with hid
        · exact absurd h (hfail (by decide))
        · refine ⟨stripEnds reply, _, fun hspace => hid (.inr (.inr ?_)), h, rfl⟩
          rw [List.all_eq_false]
          exact ⟨' ', hspace, by decide⟩

theorem length_wpaEscape (s : Text) : (wpaEscape s).length = s.length + s.countP isEscaped := by
  induction s with
  | nil => rfl
  | cons c s ih =>
    rw [wpaEscape, List.countP_cons]
    split_ifs
    · rw [List.length_cons, List.length_cons, List.length_cons, ih]
      omega
    · rw [List.length_cons, List.length_cons, ih]
      omega

theorem wpaEscape_of_plain {s : Text} (h : ∀ c ∈ s, ¬ isEscaped c = true) : wpaEscape s = s := by
  induction s with
  | nil => rfl
  | cons c s ih =>
    rw [List.forall_mem_cons] at h
    rw [wpaEscape, if_neg h.1, ih h.2]

/-- Text is quoted as it is if and only if there is nothing in it to escape. -/
theorem wpaEscape_eq_self_iff {s : Text} : wpaEscape s = s ↔ '"' ∉ s ∧ '\\' ∉ s := by
  have hplain : '"' ∉ s ∧ '\\' ∉ s ↔ ∀ c ∈ s, ¬ isEscaped c = true := by
    simp only [isEscaped, Bool.or_eq_true, decide_eq_true_eq, not_or]
    exact ⟨fun h c hc => ⟨fun heq => h.1 (heq ▸ hc), fun heq => h.2 (heq ▸ hc)⟩,
      fun h => ⟨fun hc => (h _ hc).1 rfl, fun hc => (h _ hc).2 rfl⟩⟩
  rw [hplain]
  refine ⟨fun heq => ?_, wpaEscape_of_plain⟩
  have hlen := length_wpaEscape s
  rw [heq] at hlen
  exact List.countP_eq_zero.mp (by omega)

/-- Of 64 signs the body takes hexadecimal digits only. -/
theorem secret_of_ok {body : Json} {cfg : WifiStationConfig}
    (h : wifiStationFromJson body = .ok cfg) (hlen : cfg.passphrase.length = 64) :
    cfg.passphrase.all Text.isHexDigit = true := by
  unfold wifiStationFromJson at h
  simp only [except_bind_eq_ok] at h
  obtain ⟨-, -, -, -, ssid, -, ⟨⟩, -, pass, -, ⟨⟩, hsecret, dhcp, -, ip, -, mask, -, gw, -, dns, -,
    ⟨⟩, -, ⟨⟩, -, ⟨⟩, -, ⟨⟩, -, ⟨⟩, -, heq⟩ := h
  obtain rfl := Except.ok.inj heq
  unfold checkWifiSecret at hsecret
  have hne : pass ≠ [] := fun hnil => by simp [hnil] at hlen
  rw [if_neg hne, if_pos hlen] at hsecret
  exact ensure_eq_ok.mp hsecret

/-- The key that is set, read by the supplicant. -/
theorem key_of_set {passphrase pskArg : Text}
    (hquote : passphrase = [] ∨ wpaQuote passphrase = some pskArg)
    (hraw : passphrase.length = 64 → passphrase.all Text.isHexDigit = true) :
    ∃ name value, ' ' ∉ name ∧ keySetting passphrase pskArg = name ++ ' ' :: value ∧
      ∀ (sup : Supplicant) id, (sup.set id name value).keys id = some (keyOf passphrase) ↔
        '"' ∉ passphrase ∧ '\\' ∉ passphrase := by
  unfold keySetting keyOf
  by_cases hopen : passphrase = []
  · refine ⟨"key_mgmt".toList, "NONE".toList, by decide, by rw [if_pos hopen],
      fun sup id => ?_⟩
    have hset : (sup.set id "key_mgmt".toList "NONE".toList).keys id = some .open := by
      unfold Supplicant.set
      rw [if_neg (by decide), if_pos ⟨rfl, rfl⟩]
      exact Function.update_self ..
    rw [hset, if_pos hopen, hopen]
    simp
  · have hset (sup : Supplicant) (id value : Text) :
        (sup.set id "psk".toList value).keys id = readPsk value := by
      unfold Supplicant.set
      rw [if_pos rfl]
      exact Function.update_self ..
    -- Sixty-four digits are the key itself and go without quotes.
    by_cases hlen : passphrase.length = 64
    · have hhex := hraw hlen
      refine ⟨"psk".toList, passphrase, by decide, by rw [if_neg hopen, if_pos ⟨hlen, hhex⟩],
        fun sup id => ?_⟩
      rw [hset, readPsk_raw hlen hhex, if_neg hopen, if_pos hlen]
      refine iff_of_true rfl ⟨fun hmem => ?_, fun hmem => ?_⟩
      · exact absurd (List.all_eq_true.mp hhex _ hmem) (by decide)
      · exact absurd (List.all_eq_true.mp hhex _ hmem) (by decide)
    · have hargs := hquote.resolve_left hopen
      unfold wpaQuote at hargs
      split_ifs at hargs with hcontrol
      obtain rfl := Option.some.inj hargs
      refine ⟨"psk".toList, _, by decide, by rw [if_neg hopen, if_neg fun h => hlen h.1],
        fun sup id => ?_⟩
      rw [hset, readPsk_quoted, if_neg hopen, if_neg hlen, Option.some.injEq,
        WifiKey.passphrase.injEq, wpaEscape_eq_self_iff]

/-- The key of a started station is the one asked for if and only if nothing in it had to be
escaped. -/
theorem startStation_key_iff {body : Json} {cfg : WifiStationConfig} {link : Link}
    (hbody : wifiStationFromJson body = .ok cfg)
    (hstart : ((startStation cfg).eval execCtrl link).1 = .ok) :
    ((startStation cfg).eval execCtrl link).2.sup.key = some (keyOf cfg.passphrase) ↔
      '"' ∉ cfg.passphrase ∧ '\\' ∉ cfg.passphrase := by
  obtain ⟨hquote, id, link', hid, hconf, heq⟩ := startStation_ok hstart
  have hargs : cfg.passphrase = [] ∨
      wpaQuote cfg.passphrase = some ((wpaQuote cfg.passphrase).getD []) := by
    refine hquote.imp_right ?_
    rintro ⟨pskArg, hpsk⟩
    rw [hpsk, Option.getD_some]
  obtain ⟨name, value, hname, hkey, hiff⟩ := key_of_set hargs (secret_of_ok hbody)
  obtain ⟨sup, hsup⟩ := configure_ok hid hname hkey hconf
  have hchosen : ((startStation cfg).eval execCtrl link).2.sup.key =
      (sup.set id name value).keys id := by
    rw [heq, hsup]
    rfl
  rw [hchosen]
  exact hiff sup id

def stationBody (passphrase : Text) : Json :=
  .object [("ssid".toList, .string "home".toList), ("passphrase".toList, .string passphrase)]

def willingLink : Link :=
  { replies := [some "OK\n".toList, some "0\n".toList] ++ List.replicate 5 (some "OK\n".toList) }

/-- A plain passphrase arrives. -/
theorem startStation_key_plain :
    ((startStation { ssid := "home".toList, passphrase := "geheimnis".toList }).eval execCtrl
      willingLink).2.sup.key = some (.passphrase "geheimnis".toList) := by
  have hbody : wifiStationFromJson (stationBody "geheimnis".toList) =
      .ok { ssid := "home".toList, passphrase := "geheimnis".toList } := rfl
  have hstart : ((startStation { ssid := "home".toList, passphrase := "geheimnis".toList }).eval
      execCtrl willingLink).1 = .ok := by decide
  have hplain : '"' ∉ "geheimnis".toList ∧ '\\' ∉ "geheimnis".toList := by decide
  exact (startStation_key_iff hbody hstart).mpr hplain

/-- A quote arrives with a backslash in front of it. -/
theorem startStation_key_quoted :
    wifiStationFromJson (stationBody "a\"b12345".toList) =
      .ok { ssid := "home".toList, passphrase := "a\"b12345".toList } ∧
    ((startStation { ssid := "home".toList, passphrase := "a\"b12345".toList }).eval execCtrl
      willingLink).1 = .ok ∧
    ((startStation { ssid := "home".toList, passphrase := "a\"b12345".toList }).eval execCtrl
      willingLink).2.sup.key ≠ some (keyOf "a\"b12345".toList) := by
  refine ⟨rfl, by decide, ?_⟩
  decide

end Machino.Net
