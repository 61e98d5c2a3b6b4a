import Mathlib.Data.List.Perm.Basic
import Machino.Http.HttpParse

namespace Machino.Http

def hexval (c : Char) : Option ℕ :=
  if '0' ≤ c ∧ c ≤ '9' then some (c.toNat - '0'.toNat)
  else if 'a' ≤ c ∧ c ≤ 'f' then some (c.toNat - 'a'.toNat + 10)
  else if 'A' ≤ c ∧ c ≤ 'F' then some (c.toNat - 'A'.toNat + 10)
  else none

/-- A plus sign is a blank, and what is no escape stays as it is. -/
def formDecode : Text → Text
  | [] => []
  | '+' :: s => ' ' :: formDecode s
  | '%' :: a :: b :: s =>
    match hexval a, hexval b with
    | some h, some l => Char.ofNat (h * 16 + l) :: formDecode s
    | _, _ => '%' :: formDecode (a :: b :: s)
  | c :: s => c :: formDecode s

/-- What stands behind the first equals sign, where the name stands in front of it. -/
def valueOf (name part : Text) : Option Text :=
  if (cut '=' part).1 = name then (cut '=' part).2 else none

def formValue (body key : Text) : Text :=
  (((body.splitOn '&').findSome? (valueOf key)).map formDecode).getD []

def cookieValue (h name : Text) : Text :=
  ((h.splitOn ';').findSome? fun part => valueOf name (part.dropWhile (· = ' '))).getD []

/-- A session: its token, and the time up to which it is good. -/
abbrev Session := Text × Int64

/-- Each token has one entry. -/
structure Tokens where
  entries : List Session := []
  distinct : (entries.map Prod.fst).Nodup := by decide

/-- In which order a hash map is run through. -/
structure HashOrder where
  arrange : List Session → List Session
  perm : ∀ es, (arrange es).Perm es

namespace Tokens

def find (t : Tokens) (tok : Text) : Option Int64 :=
  (t.entries.find? fun e => e.1 = tok).map Prod.snd

def filter (p : Session → Bool) (t : Tokens) : Tokens where
  entries := t.entries.filter p
  distinct := t.distinct.sublist (List.filter_sublist.map _)

def erase (tok : Text) (t : Tokens) : Tokens := t.filter fun e => e.1 ≠ tok

theorem mem_erase {tok : Text} {t : Tokens} {e : Session} :
    e ∈ (t.erase tok).entries ↔ e ∈ t.entries ∧ e.1 ≠ tok := by
  simp [erase, filter]

def insert (tok : Text) (expiry : Int64) (t : Tokens) : Tokens where
  entries := (tok, expiry) :: (t.erase tok).entries
  distinct := by
    rw [List.map_cons, List.nodup_cons]
    refine ⟨?_, (t.erase tok).distinct⟩
    intro h
    obtain ⟨e, he, htok⟩ := List.mem_map.mp h
    exact (mem_erase.mp he).2 htok

def arranged (o : HashOrder) (t : Tokens) : Tokens where
  entries := o.arrange t.entries
  distinct := (((o.perm t.entries).map Prod.fst).nodup_iff).mpr t.distinct

end Tokens

/-- The first of the entries that expire first. -/
def earliest : Session → List Session → Session
  | oldest, [] => oldest
  | oldest, e :: es => earliest (if e.2 < oldest.2 then e else oldest) es

theorem earliest_mem (e : Session) (es : List Session) : earliest e es ∈ e :: es := by
  induction es generalizing e with
  | nil => exact List.mem_singleton_self e
  | cons f es ih =>
    unfold earliest
    rcases List.mem_cons.mp (ih (if f.2 < e.2 then f else e)) with h | h
    · rw [h]
      split_ifs
      · exact List.mem_cons_of_mem _ List.mem_cons_self
      · exact List.mem_cons_self
    · exact List.mem_cons_of_mem _ (List.mem_cons_of_mem _ h)

theorem Tokens.length_erase_lt {t : Tokens} {e : Session} (h : e ∈ t.entries) :
    (t.erase e.1).entries.length < t.entries.length := by
  unfold Tokens.erase Tokens.filter
  exact List.length_filter_lt_length_iff_exists.mpr ⟨e, h, by simp⟩

def maxSessions : ℕ := 32

/-- As long as the table is full, the entry goes that expires first. -/
def Tokens.shrink (t : Tokens) : Tokens :=
  match _h : t.entries with
  | [] => t
  | e :: es =>
    if maxSessions ≤ t.entries.length then (t.erase (earliest e es).1).shrink else t
termination_by t.entries.length
decreasing_by exact Tokens.length_erase_lt (_h ▸ earliest_mem e es)

/-- The check of a name and a password, where there is one. -/
structure SessionGate where
  check : Option (Text → Text → Bool)
  tokens : Tokens := {}

structure LoginResult where
  status : ℕ
  setCookie : Text := []
  deriving DecidableEq

def sessionMs : Int64 := 12 * 3600 * 1000
def rememberMs : Int64 := 30 * 24 * 3600 * 1000
def cookieName : Text := "session".toList

def sessionCookie (tok : Text) : Text :=
  "Set-Cookie: ".toList ++ cookieName ++ "=".toList ++ tok ++
    "; Path=/; HttpOnly; SameSite=Strict".toList

namespace SessionGate

/-- Whether the cookie is that of a session; one that has expired goes. -/
def authed (cookieHeader : Text) (nowMs : Int64) (g : SessionGate) : Bool × SessionGate :=
  let tok := cookieValue cookieHeader cookieName
  if tok = [] then (false, g)
  else
    match g.tokens.find tok with
    | none => (false, g)
    | some expiry =>
      if expiry < nowMs then (false, { g with tokens := g.tokens.erase tok }) else (true, g)

def evict (nowMs : Int64) (order : HashOrder) (g : SessionGate) : SessionGate :=
  { g with tokens := ((g.tokens.arranged order).filter fun e => !(e.2 < nowMs)).shrink }

def remembered (body : Text) : Bool := formValue body "remember".toList = ['1']

/-- `tok` is what `new_token` returns: nothing where there is no randomness. -/
def login (body : Text) (nowMs : Int64) (tok : Text) (order : HashOrder) (g : SessionGate) :
    LoginResult × SessionGate :=
  let user := formValue body "username".toList
  let pass := formValue body "password".toList
  let remember := remembered body
  if user = [] then (⟨400, []⟩, g)
  else if user ≠ "root".toList then (⟨403, []⟩, g)
  else if !(g.check.map fun check => check user pass).getD false then (⟨403, []⟩, g)
  else
    let g := g.evict nowMs order
    if tok = [] then (⟨500, []⟩, g)
    else
      let span := if remember then rememberMs else sessionMs
      let age := if remember then "; Max-Age=2592000".toList else []
      (⟨200, sessionCookie tok ++ age ++ crlf⟩,
        { g with tokens := g.tokens.insert tok (nowMs + span) })

def mint (nowMs : Int64) (tok : Text) (order : HashOrder) (g : SessionGate) : Text × SessionGate :=
  let g := g.evict nowMs order
  if tok = [] then ([], g)
  else (sessionCookie tok ++ crlf, { g with tokens := g.tokens.insert tok (nowMs + sessionMs) })

def logout (cookieHeader : Text) (g : SessionGate) : SessionGate :=
  let tok := cookieValue cookieHeader cookieName
  if tok = [] then g else { g with tokens := g.tokens.erase tok }

end SessionGate

example : formValue "username=root&password=a%40b+c".toList "password".toList =
    "a@b c".toList := by decide +kernel

example : cookieValue "a=1; session=tok123; b=2".toList cookieName = "tok123".toList := by decide

end Machino.Http
