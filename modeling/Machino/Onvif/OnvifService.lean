import Machino.Basic.Recent
import Machino.Onvif.Elements

namespace Machino.Onvif

inductive AuthResult where
  | ok | missing | bad | stale | unverifiable | unclaimed
  deriving DecidableEq

structure OnvifConfig where
  enabled : Bool := false
  username : Text := "root".toList
  /-- In clear; empty where only the shadow file knows it. -/
  password : Text := []

structure OnvifService where
  cfg : OnvifConfig
  /-- Against the shadow file, where there is one. -/
  check : Option (Text → Text → Bool)
  nonceSecret : Text
  claimed : Bool := true
  systemUnsafe : Bool := false

structure Request where
  path : Text := []
  body : Text := []
  authorization : Text := []
  method : Text := "POST".toList

def clockSkewS : ℤ := 300

def maxNonces : ℕ := 256

def digestRealm : Text := "Machino".toList

/-- The memory of the digests that were accepted, the oldest first. -/
abbrev Nonces := List (Text × ℤ)

def seenNonce (key : Text) (now : ℤ) (nonces : Nonces) : Bool × Nonces :=
  Recent.look clockSkewS maxNonces key now nonces

def hexByte (b : UInt8) : Text := [Nat.digitChar (b.toNat / 16), Nat.digitChar (b.toNat % 16)]

namespace OnvifService

variable (md5Hex : Text → Text) (o : OnvifService)

/-- The time in clear, and what binds it to the secret. -/
def makeNonce (now : ℤ) : Text :=
  let material := Text.ofInt now ++ ':' :: digestRealm ++ ':' :: o.nonceSecret
  Text.ofInt now ++ '.' :: ((Ws.sha1 (octets material)).take 16).flatMap hexByte

def skew (a b : ℤ) : ℤ := if b < a then a - b else b - a

/-- The time in a nonce. -/
def issuedAt (nonce : Text) : ℤ := Text.ofDigits 10 (nonce.takeWhile (· ≠ '.'))

def nonceOk (nonce : Text) (now : ℤ) : Bool :=
  let ts := nonce.takeWhile (· ≠ '.')
  if ts.length = nonce.length ∨ ts = [] then false
  else if !ts.all Char.isDigit then false
  else if 18 < ts.length then false
  else if clockSkewS < skew (issuedAt nonce) now then false
  else o.makeNonce (issuedAt nonce) = nonce

def digestAvailable : Bool := o.cfg.password ≠ [] && o.nonceSecret ≠ []

/-- A password in clear, against either source. -/
def checkText (user password : Text) : AuthResult :=
  if o.cfg.password ≠ [] then
    if secureEquals password o.cfg.password then .ok else .bad
  else
    match o.check with
    | some check => if check user password then .ok else .bad
    | none => .bad

/-- The digest of a token. What is to be unique is returned only behind a digest that is right. -/
def wsseDigest (tok : WsseToken) (now : ℤ) : Except AuthResult Text :=
  if o.cfg.password = [] then .error .unverifiable
  else if tok.created = [] ∨ tok.nonceB64 = [] then .error .bad
  else
    match parseUtcDatetime tok.created with
    | none => .error .bad
    | some created =>
      if clockSkewS < skew created now then .error .stale
      else
        match b64Decode tok.nonceB64 with
        | none => .error .bad
        | some nonceRaw =>
          if secureEquals (passwordDigest nonceRaw tok.created o.cfg.password) tok.password then
            .ok tok.nonceB64
          else .error .bad

def otherPath (path uri : Text) : Bool :=
  path ≠ [] && uri ≠ path && !(path.length < uri.length && path.isSuffixOf uri)

/-- The digest of the header. -/
def httpDigest (req : Request) (now : ℤ) : Except AuthResult Text :=
  if !o.digestAvailable then .error .unverifiable
  else
    let param := Rtsp.authParam req.authorization
    let user := param "username"
    let realm := param "realm"
    let nonce := param "nonce"
    let uri := param "uri"
    let resp := param "response"
    let nc := param "nc"
    if user ≠ o.cfg.username then .error .bad
    else if realm ≠ digestRealm then .error .bad
    else if resp = [] ∨ uri = [] then .error .bad
    else if otherPath req.path uri then .error .bad
    else if !o.nonceOk nonce now then .error .stale
    else if !secureEquals (Rtsp.digestResponse md5Hex user o.cfg.password realm nonce req.method uri
        nc (param "cnonce") (param "qop")) resp then .error .bad
    else .ok ("d:".toList ++ nonce ++ ':' :: nc)

def basic (req : Request) : AuthResult :=
  match b64Decode (req.authorization.drop 6) with
  | none => .bad
  | some plain =>
    let user := plain.takeWhile (· ≠ ':')
    if user.length = plain.length then .bad
    else if user ≠ o.cfg.username then .bad
    else o.checkText user (plain.drop (user.length + 1))

/-- What a request is to be judged by, before the memory of the digests is asked. -/
inductive Judged where
  | final (r : AuthResult)
  | once (key : Except AuthResult Text)

def judge (req : Request) (now : ℤ) : Judged :=
  if o.systemUnsafe then .final .ok
  else if !o.claimed then .final .unclaimed
  else
    match wsseToken req.body with
    | some tok =>
      if tok.username ≠ o.cfg.username then .final .bad
      else if !tok.digest then .final (o.checkText tok.username tok.password)
      else .once (o.wsseDigest tok now)
    | none =>
      if "Digest ".toList.isPrefixOf req.authorization then .once (o.httpDigest md5Hex req now)
      else if "Basic ".toList.isPrefixOf req.authorization then .final (o.basic req)
      else .final .missing

def authenticate (nonces : Nonces) (req : Request) (now : ℤ) : AuthResult × Nonces :=
  match o.judge md5Hex req now with
  | .final r => (r, nonces)
  | .once (.error r) => (r, nonces)
  | .once (.ok key) =>
    let (seen, nonces) := seenNonce key now nonces
    (if seen then .stale else .ok, nonces)

/-- The memory behind some requests, each with the time of the clock. -/
def run (nonces : Nonces) (evs : List (Request × ℤ)) : Nonces :=
  evs.foldl (fun n e => (o.authenticate md5Hex n e.1 e.2).2) nonces

/-- The request is accepted for a digest that is remembered under this key. -/
def Accepts (nonces : Nonces) (e : Request × ℤ) (key : Text) : Prop :=
  o.judge md5Hex e.1 e.2 = .once (.ok key) ∧ (o.authenticate md5Hex nonces e.1 e.2).1 = .ok

/-- What a request asks the memory for. -/
def asked (e : Request × ℤ) : Option (Text × ℤ) :=
  match o.judge md5Hex e.1 e.2 with
  | .once (.ok key) => some (key, e.2)
  | _ => none

/-- How many of the requests are accepted for a digest. -/
def digests : Nonces → List (Request × ℤ) → ℕ
  | _, [] => 0
  | n, e :: evs =>
    (if (o.asked md5Hex e).isSome ∧ (o.authenticate md5Hex n e.1 e.2).1 = .ok then 1 else 0) +
      digests (o.authenticate md5Hex n e.1 e.2).2 evs

/-- The time that a digest itself is from. -/
def stampOf (req : Request) : Option ℤ :=
  match wsseToken req.body with
  | some tok => parseUtcDatetime tok.created
  | none => some (issuedAt (Rtsp.authParam req.authorization "nonce"))

theorem asked_eq_some_iff {e : Request × ℤ} {key : Text} {t : ℤ} :
    o.asked md5Hex e = some (key, t) ↔ o.judge md5Hex e.1 e.2 = .once (.ok key) ∧ e.2 = t := by
  unfold asked
  split
  · rename_i k hjudge
    rw [hjudge]
    simp
  · rename_i hother
    simp only [reduceCtorEq, false_iff, not_and]
    intro hjudge
    exact absurd hjudge (hother key)

/-- The memory is asked for nothing, or once, and only a digest that is not remembered is accepted
by it. -/
theorem authenticate_cases (nonces : Nonces) (e : Request × ℤ) :
    (o.asked md5Hex e = none ∧ (o.authenticate md5Hex nonces e.1 e.2).2 = nonces) ∨
    ∃ key, o.asked md5Hex e = some (key, e.2) ∧
      (o.authenticate md5Hex nonces e.1 e.2).2 = (seenNonce key e.2 nonces).2 ∧
      ((o.authenticate md5Hex nonces e.1 e.2).1 = .ok ↔ (seenNonce key e.2 nonces).1 = false) := by
  unfold asked authenticate
  cases o.judge md5Hex e.1 e.2 with
  | final r => exact .inl ⟨rfl, rfl⟩
  | once k =>
    cases k with
    | error r => exact .inl ⟨rfl, rfl⟩
    | ok key =>
      refine .inr ⟨key, rfl, rfl, ?_⟩
      show (if (seenNonce key e.2 nonces).1 = true then AuthResult.stale else .ok) = .ok ↔ _
      split
      · simp [*]
      · simp [*]

theorem run_eq (nonces : Nonces) (evs : List (Request × ℤ)) : o.run md5Hex nonces evs =
    Recent.run clockSkewS maxNonces nonces (evs.filterMap (o.asked md5Hex)) := by
  induction evs generalizing nonces with
  | nil => rfl
  | cons e evs ih =>
    show o.run md5Hex (o.authenticate md5Hex nonces e.1 e.2).2 evs = _
    rw [ih]
    obtain ⟨hnone, hsame⟩ | ⟨key, hkey, hmem, _⟩ := o.authenticate_cases md5Hex nonces e
    · rw [hsame, List.filterMap_cons_none hnone]
    · rw [hmem, List.filterMap_cons_some hkey]
      rfl

theorem digests_eq (nonces : Nonces) (evs : List (Request × ℤ)) : o.digests md5Hex nonces evs =
    Recent.news clockSkewS maxNonces nonces (evs.filterMap (o.asked md5Hex)) := by
  induction evs generalizing nonces with
  | nil => rfl
  | cons e evs ih =>
    rw [digests, ih]
    obtain ⟨hnone, hsame⟩ | ⟨key, hkey, hmem, hok⟩ := o.authenticate_cases md5Hex nonces e
    · rw [hsame, List.filterMap_cons_none hnone, hnone, if_neg (by simp), Nat.zero_add]
    · rw [hmem, List.filterMap_cons_some hkey, hkey, Recent.news]
      congr 1
      show _ = if (seenNonce key e.2 nonces).1 = true then 0 else 1
      by_cases hseen : (seenNonce key e.2 nonces).1 = true
      · rw [if_pos hseen, if_neg]
        rintro ⟨_, hno⟩
        rw [hok.mp hno] at hseen
        exact Bool.false_ne_true hseen
      · rw [if_neg hseen, if_pos ⟨rfl, hok.mpr (Bool.eq_false_iff.mpr hseen)⟩]

theorem stamp_of_wsseDigest {tok : WsseToken} {now : ℤ} {key : Text}
    (h : o.wsseDigest tok now = .ok key) :
    ∃ stamp, parseUtcDatetime tok.created = some stamp ∧ skew stamp now ≤ clockSkewS := by
  unfold wsseDigest at h
  split_ifs at h
  split at h
  · cases h
  · rename_i stamp hstamp
    split_ifs at h with hskew
    exact ⟨stamp, hstamp, Int.not_lt.mp hskew⟩

theorem skew_of_nonceOk {nonce : Text} {now : ℤ} (h : o.nonceOk nonce now = true) :
    skew (issuedAt nonce) now ≤ clockSkewS := by
  unfold nonceOk at h
  dsimp only at h
  split_ifs at h with _ _ _ hskew
  exact Int.not_lt.mp hskew

theorem skew_of_httpDigest {req : Request} {now : ℤ} {key : Text}
    (h : o.httpDigest md5Hex req now = .ok key) :
    skew (issuedAt (Rtsp.authParam req.authorization "nonce")) now ≤ clockSkewS := by
  unfold httpDigest at h
  dsimp only at h
  split_ifs at h with _ _ _ _ _ hnonce
  exact o.skew_of_nonceOk (by simpa using hnonce)

/-- A digest is let through to the memory only close to its own time. -/
theorem stamp_of_judge {req : Request} {now : ℤ} {key : Text}
    (h : o.judge md5Hex req now = .once (.ok key)) :
    ∃ stamp, stampOf req = some stamp ∧ skew stamp now ≤ clockSkewS := by
  unfold judge at h
  unfold stampOf
  cases htok : wsseToken req.body with
  | some tok =>
    rw [htok] at h
    dsimp only at h ⊢
    split_ifs at h
    exact o.stamp_of_wsseDigest (Judged.once.inj h)
  | none =>
    rw [htok] at h
    dsimp only at h ⊢
    split_ifs at h
    exact ⟨_, rfl, o.skew_of_httpDigest md5Hex (Judged.once.inj h)⟩

/-- Over this run a digest that was accepted is accepted again only when as many others were
accepted as the memory holds, when the clock went back, or when the digest itself is from a time
behind its first acceptance. -/
def ReplayGuarded (evs : List (Request × ℤ)) : Prop :=
  ∀ before first between second rest key,
    evs = before ++ first :: (between ++ second :: rest) →
    o.Accepts md5Hex (o.run md5Hex [] before) first key →
    o.Accepts md5Hex (o.run md5Hex [] (before ++ first :: between)) second key →
    maxNonces ≤ o.digests md5Hex (o.run md5Hex [] (before ++ [first])) between ∨
    (∃ e ∈ between, second.2 < e.2) ∨
    ∃ stamp, stampOf second.1 = some stamp ∧ first.2 < stamp ∧ first.2 + clockSkewS < second.2

theorem length_run_le (evs : List (Request × ℤ)) : (o.run md5Hex [] evs).length ≤ maxNonces := by
  rw [run_eq]
  induction evs.filterMap (o.asked md5Hex) using List.reverseRecOn with
  | nil => exact Nat.zero_le _
  | append_singleton evs e ih =>
    rw [Recent.run, List.foldl_append]
    exact Recent.length_look_le clockSkewS maxNonces (by decide) ih e.1 e.2

theorem replay_guarded (evs : List (Request × ℤ)) : o.ReplayGuarded md5Hex evs := by
  intro before first between second rest key _ ⟨hjudge₁, hok₁⟩ ⟨hjudge₂, hok₂⟩
  have hasked₁ : o.asked md5Hex first = some (key, first.2) :=
    (o.asked_eq_some_iff md5Hex).mpr ⟨hjudge₁, rfl⟩
  have hnew (nonces : Nonces) (e : Request × ℤ) (hasked : o.asked md5Hex e = some (key, e.2))
      (hok : (o.authenticate md5Hex nonces e.1 e.2).1 = .ok) :
      (o.authenticate md5Hex nonces e.1 e.2).2 = (seenNonce key e.2 nonces).2 ∧
        (seenNonce key e.2 nonces).1 = false := by
    obtain ⟨hnone, _⟩ | ⟨k, hk, hmem, hiff⟩ := o.authenticate_cases md5Hex nonces e
    · rw [hnone] at hasked
      cases hasked
    · rw [hasked] at hk
      cases hk
      exact ⟨hmem, hiff.mp hok⟩
  obtain ⟨hmem, hfirst⟩ := hnew _ first hasked₁ hok₁
  have hbehind : o.run md5Hex [] (before ++ [first]) =
      (seenNonce key first.2 (o.run md5Hex [] before)).2 := by
    rw [← hmem, run, List.foldl_append]
    rfl
  have hrun : o.run md5Hex [] (before ++ first :: between) =
      o.run md5Hex (o.run md5Hex [] (before ++ [first])) between := by
    rw [run, run, run, ← List.foldl_append, List.append_assoc]
    rfl
  rw [hrun, hbehind, run_eq] at hok₂
  obtain ⟨_, hsecond⟩ := hnew _ second ((o.asked_eq_some_iff md5Hex).mpr ⟨hjudge₂, rfl⟩) hok₂
  rw [hbehind, digests_eq]
  obtain ⟨e, he, hold⟩ | hfull := Recent.second_record clockSkewS maxNonces _ hfirst hsecond
  · right
    obtain ⟨stamp, hstamp, hskew⟩ := o.stamp_of_judge md5Hex hjudge₂
    by_cases hback : ∃ e ∈ between, second.2 < e.2
    · exact .inl hback
    · right
      have hlate : first.2 + clockSkewS < second.2 := by
        rcases List.mem_append.mp he with hbetween | hlast
        · obtain ⟨e', he', hasked⟩ := List.mem_filterMap.mp hbetween
          have htime := ((o.asked_eq_some_iff md5Hex).mp hasked).2
          have hle : e'.2 ≤ second.2 := Int.not_lt.mp fun h => hback ⟨e', he', h⟩
          omega
        · rw [List.mem_singleton.mp hlast] at hold
          omega
      refine ⟨stamp, hstamp, ?_, hlate⟩
      unfold skew at hskew
      split_ifs at hskew <;> omega
  · exact .inl hfull

end OnvifService

end Machino.Onvif
