import Machino.Basic.Runs
import Machino.Rtsp.RtspAuth

namespace Machino.Rtsp

/-- What happens on a connection: a nonce is handed out, or a request is checked. -/
inductive Event where
  | challenged (a : RtspAuth) (nonce : Text) (nowMs : ℤ) (stale : Bool)
  | checked (a : RtspAuth) (method uri authz : Text) (nowMs : ℤ)

variable {md5Hex : Text → Text}

def step (md5Hex : Text → Text) (ctx : Ctx) : Event → Ctx
  | .challenged a nonce nowMs stale => (challenge a ctx nonce nowMs stale).1
  | .checked a method uri authz nowMs => (check md5Hex a ctx method uri authz nowMs).1

/-- The request is let through by the Digest of its header. -/
def AcceptsDigest (md5Hex : Text → Text) (ctx : Ctx) : Event → Prop
  | .challenged .. => False
  | .checked a method uri authz nowMs => a.required = true ∧ takesBasic a authz = false ∧
      (check md5Hex a ctx method uri authz nowMs).2 = .ok

/-- The latest nonce that was handed out, and when. -/
def latest : List Event → Option (Text × ℤ)
  | [] => none
  | .challenged _ nonce nowMs _ :: evs => (latest evs).or (some (nonce, nowMs))
  | .checked .. :: evs => latest evs

/-- The response was computed over a method and a URI with the secret there is for the user. -/
def ComputedOver (md5Hex : Text → Text) (a : RtspAuth) (method uri authz : Text) : Prop :=
  ∃ ha1Of, a.ha1 = some ha1Of ∧ ha1Of (authParam authz "username") a.cfg.realm ≠ [] ∧
    authParam authz "response" =
      responseOf md5Hex (ha1Of (authParam authz "username") a.cfg.realm) (authParam authz "nonce")
        (authParam authz "nc") (authParam authz "cnonce") (authParam authz "qop") method uri

/-- The header answers the nonce that the connection holds, in its lifetime, with the response that
the secret gives for the URI it names. -/
structure Answers (md5Hex : Text → Text) (a : RtspAuth) (ctx : Ctx) (method uri authz : Text)
    (nowMs : ℤ) : Prop where
  required : a.required = true
  claimed : a.claimed = true
  source : a.check.isSome = true
  digest : takesBasic a authz = false ∧ takesDigest a authz = true
  username : authParam authz "username" ≠ []
  response : authParam authz "response" ≠ []
  held : ctx.nonce ≠ []
  nonce : authParam authz "nonce" = ctx.nonce
  lifetime : 0 < a.cfg.nonceLifetimeS → nowMs - ctx.issuedMs ≤ a.cfg.nonceLifetimeS * 1000
  computed : ComputedOver md5Hex a method (namedUri uri authz) authz

theorem checkDigest_ok_iff {ha1Of : Text → Text → Text} {cfg : RtspAuthConfig} {ctx : Ctx}
    {method uri authz : Text} {nowMs : ℤ} :
    (checkDigest md5Hex ha1Of cfg ctx method uri authz nowMs).2 = .ok ↔
      authParam authz "username" ≠ [] ∧ authParam authz "response" ≠ [] ∧ ctx.nonce ≠ [] ∧
        authParam authz "nonce" = ctx.nonce ∧
        (0 < cfg.nonceLifetimeS → nowMs - ctx.issuedMs ≤ cfg.nonceLifetimeS * 1000) ∧
        ha1Of (authParam authz "username") cfg.realm ≠ [] ∧
        authParam authz "response" =
          responseOf md5Hex (ha1Of (authParam authz "username") cfg.realm) (authParam authz "nonce")
            (authParam authz "nc") (authParam authz "cnonce") (authParam authz "qop") method
            (namedUri uri authz) := by
  unfold checkDigest
  dsimp only
  constructor
  · intro h
    split_ifs at h with hempty hnonce hold hha1 hresp
    rw [not_or, not_or] at hempty
    rw [not_or, ne_eq, not_not] at hnonce
    exact ⟨hempty.1, hempty.2.2, hnonce.1, hnonce.2,
      fun hpos => not_lt.mp fun hlt => hold ⟨hpos, hlt⟩, hha1, (not_not.mp hresp).symm⟩
  · rintro ⟨huser, hresp, hheld, hnonce, hlife, hha1, hcomputed⟩
    rw [if_neg (by rw [hnonce]; simp [huser, hresp, hheld]), if_neg (by simp [hnonce, hheld]),
      if_neg (fun hold => absurd (hlife hold.1) (not_le.mpr hold.2)), if_neg hha1,
      if_neg (not_not.mpr hcomputed.symm)]

/-- A Digest lets a request through just where it answers. -/
theorem acceptsDigest_iff {a : RtspAuth} {ctx : Ctx} {method uri authz : Text} {nowMs : ℤ} :
    AcceptsDigest md5Hex ctx (.checked a method uri authz nowMs) ↔
      Answers md5Hex a ctx method uri authz nowMs := by
  unfold AcceptsDigest check
  constructor
  · rintro ⟨hreq, hbasic, hok⟩
    rw [hreq, if_neg (by simp)] at hok
    split_ifs at hok with hclaimed hempty
    · cases hcheck : a.check with
      | none => simp [hcheck] at hok
      | some accepts =>
        simp only [hcheck] at hok
        rw [checkScheme, hbasic, if_neg Bool.false_ne_true] at hok
        split_ifs at hok with hdigest
        obtain ⟨ha1Of, hha1⟩ := Option.isSome_iff_exists.mp
          (Bool.and_eq_true_iff.mp (Bool.and_eq_true_iff.mp hdigest).1).2
        rw [hha1, Option.getD_some] at hok
        obtain ⟨huser, hresp, hheld, hnonce, hlife, hsecret, hcomputed⟩ := checkDigest_ok_iff.mp hok
        exact ⟨hreq, by simpa using hclaimed, Option.isSome_iff_exists.mpr ⟨accepts, hcheck⟩,
          ⟨hbasic, hdigest⟩, huser, hresp, hheld, hnonce, hlife, ha1Of, hha1, hsecret, hcomputed⟩
  · intro h
    obtain ⟨accepts, hcheck⟩ := Option.isSome_iff_exists.mp h.source
    obtain ⟨ha1Of, hha1, hsecret, hcomputed⟩ := h.computed
    have hne : authz ≠ [] := by
      rintro rfl
      exact h.username rfl
    refine ⟨h.required, h.digest.1, ?_⟩
    rw [h.required, h.claimed, if_neg (by simp), if_neg (by simp), if_neg hne, hcheck]
    dsimp only
    rw [checkScheme, h.digest.1, h.digest.2, if_neg Bool.false_ne_true, if_pos rfl, hha1]
    exact checkDigest_ok_iff.mpr ⟨h.username, h.response, h.held, h.nonce, h.lifetime, hsecret,
      hcomputed⟩

/-- No check touches the nonce. -/
theorem nonce_check (a : RtspAuth) (ctx : Ctx) (method uri authz : Text) (nowMs : ℤ) :
    (check md5Hex a ctx method uri authz nowMs).1.nonce = ctx.nonce ∧
      (check md5Hex a ctx method uri authz nowMs).1.issuedMs = ctx.issuedMs := by
  have hbasic (accepts : Text → Text → Bool) : (checkBasic accepts ctx authz).1.nonce = ctx.nonce ∧
      (checkBasic accepts ctx authz).1.issuedMs = ctx.issuedMs := by
    unfold checkBasic
    split
    · exact ⟨rfl, rfl⟩
    · split_ifs <;> exact ⟨rfl, rfl⟩
  have hdigest (ha1Of : Text → Text → Text) :
      (checkDigest md5Hex ha1Of a.cfg ctx method uri authz nowMs).1.nonce = ctx.nonce ∧
      (checkDigest md5Hex ha1Of a.cfg ctx method uri authz nowMs).1.issuedMs = ctx.issuedMs := by
    unfold checkDigest
    dsimp only
    split_ifs <;> exact ⟨rfl, rfl⟩
  unfold check
  split_ifs
  · exact ⟨rfl, rfl⟩
  · exact ⟨rfl, rfl⟩
  · exact ⟨rfl, rfl⟩
  · cases a.check with
    | none => exact ⟨rfl, rfl⟩
    | some accepts =>
      dsimp only
      unfold checkScheme
      split_ifs
      · exact hbasic accepts
      · exact hdigest _
      · exact ⟨rfl, rfl⟩

/-- What the connection holds is the nonce that was handed out last. -/
theorem nonce_run (ctx : Ctx) (evs : List Event) :
    ((Runs.run (step md5Hex) ctx evs).nonce, (Runs.run (step md5Hex) ctx evs).issuedMs) =
      (latest evs).getD (ctx.nonce, ctx.issuedMs) := by
  induction evs generalizing ctx with
  | nil => rfl
  | cons ev evs ih =>
    rw [Runs.run_cons, ih]
    cases ev with
    | challenged a nonce nowMs stale =>
      rw [latest]
      cases latest evs <;> rfl
    | checked a method uri authz nowMs =>
      obtain ⟨hnonce, hissued⟩ := @nonce_check md5Hex a ctx method uri authz nowMs
      rw [latest, step, hnonce, hissued]

/-- A Digest that is accepted names the nonce that the connection was given last, in its lifetime,
and was computed with the present secret over the method of the request and the URI it names. -/
theorem acceptsDigest_bound {evs : List Event} {a : RtspAuth} {method uri authz : Text} {nowMs : ℤ}
    (h : AcceptsDigest md5Hex (Runs.run (step md5Hex) {} evs)
      (.checked a method uri authz nowMs)) :
    (∃ issuedMs, latest evs = some (authParam authz "nonce", issuedMs) ∧
      (0 < a.cfg.nonceLifetimeS → nowMs - issuedMs ≤ a.cfg.nonceLifetimeS * 1000)) ∧
      ComputedOver md5Hex a method (namedUri uri authz) authz := by
  have hanswers := acceptsDigest_iff.mp h
  have hrun := @nonce_run md5Hex {} evs
  refine ⟨?_, hanswers.computed⟩
  cases hlatest : latest evs with
  | none =>
    rw [hlatest, Option.getD_none] at hrun
    exact absurd (congrArg Prod.fst hrun) hanswers.held
  | some p =>
    rw [hlatest, Option.getD_some] at hrun
    refine ⟨(Runs.run (step md5Hex) {} evs).issuedMs, ?_, hanswers.lifetime⟩
    rw [hanswers.nonce, ← hrun]

instance (md5Hex : Text → Text) (ctx : Ctx) (ev : Event) :
    Decidable (AcceptsDigest md5Hex ctx ev) :=
  match ev with
  | .challenged .. => .isFalse id
  | .checked .. => inferInstanceAs (Decidable (_ ∧ _ ∧ _))

/-- The nonce and the count that a header names. -/
def Event.pair : Event → List (Text × Text)
  | .challenged .. => []
  | .checked _ _ _ authz _ => [(authParam authz "nonce", authParam authz "nc")]

instance (a : RtspAuth) (ctx : Ctx) (method uri authz : Text) (nowMs : ℤ) :
    Decidable (Answers md5Hex a ctx method uri authz nowMs) :=
  decidable_of_iff (AcceptsDigest md5Hex ctx (.checked a method uri authz nowMs)) acceptsDigest_iff

/-- The nonce and the count of each header that lets a request through, in order. -/
def acceptedPairs (md5Hex : Text → Text) : Ctx → List Event → List (Text × Text)
  | _, [] => []
  | ctx, ev :: evs =>
    (if AcceptsDigest md5Hex ctx ev then ev.pair else []) ++
      acceptedPairs md5Hex (step md5Hex ctx ev) evs

def SingleUse (md5Hex : Text → Text) (evs : List Event) : Prop :=
  (acceptedPairs md5Hex {} evs).Nodup

/-- Every response that is accepted was computed over the URI of its request. -/
def BoundToUri (md5Hex : Text → Text) (evs : List Event) : Prop :=
  ∀ pre a method uri authz nowMs, pre ++ [.checked a method uri authz nowMs] <+: evs →
    AcceptsDigest md5Hex (Runs.run (step md5Hex) {} pre) (.checked a method uri authz nowMs) →
      ComputedOver md5Hex a method uri authz

/-- A connection, and the nonces and counts that the headers on it have answered with. -/
structure Session where
  ctx : Ctx := {}
  used : List (Text × Text) := []

def Session.answered (md5Hex : Text → Text) (s : Session) : Event → List (Text × Text)
  | .challenged .. => []
  | .checked a method uri authz nowMs =>
    if Answers md5Hex a s.ctx method uri authz nowMs then
      [(authParam authz "nonce", authParam authz "nc")]
    else []

def Session.step (md5Hex : Text → Text) (s : Session) (ev : Event) : Session where
  ctx := Rtsp.step md5Hex s.ctx ev
  used := s.used ++ s.answered md5Hex ev

/-- A header that answers names the URI of its request or none, with a count that has not been used
with its nonce. -/
def Session.Fresh (md5Hex : Text → Text) (s : Session) : Event → Prop
  | .challenged .. => True
  | .checked a method uri authz nowMs => Answers md5Hex a s.ctx method uri authz nowMs →
      (authParam authz "uri" = [] ∨ authParam authz "uri" = uri) ∧
        (authParam authz "nonce", authParam authz "nc") ∉ s.used

instance (s : Session) : (ev : Event) → Decidable (s.Fresh md5Hex ev)
  | .challenged .. => .isTrue trivial
  | .checked .. => inferInstanceAs (Decidable (_ → _))

/-- Who answers is let through, and no one else is. -/
theorem Session.answered_eq (s : Session) (ev : Event) :
    s.answered md5Hex ev = if AcceptsDigest md5Hex s.ctx ev then ev.pair else [] := by
  cases ev with
  | challenged a nonce nowMs stale =>
    have hnot : ¬ AcceptsDigest md5Hex s.ctx (.challenged a nonce nowMs stale) := id
    exact (if_neg hnot).symm
  | checked a method uri authz nowMs =>
    rw [answered, Event.pair]
    by_cases hanswers : Answers md5Hex a s.ctx method uri authz nowMs
    · rw [if_pos hanswers, if_pos (acceptsDigest_iff.mpr hanswers)]
    · rw [if_neg hanswers, if_neg fun h => hanswers (acceptsDigest_iff.mp h)]

theorem session_run (s : Session) (evs : List Event) :
    Runs.run (Session.step md5Hex) s evs =
      ⟨Runs.run (step md5Hex) s.ctx evs, s.used ++ acceptedPairs md5Hex s.ctx evs⟩ := by
  induction evs generalizing s with
  | nil =>
    rw [acceptedPairs, List.append_nil]
    rfl
  | cons ev evs ih =>
    rw [Runs.run_cons, ih, acceptedPairs, Runs.run_cons, ← s.answered_eq, ← List.append_assoc]
    rfl

theorem Session.nodup_step {s : Session} {ev : Event} (h : s.used.Nodup)
    (hfresh : s.Fresh md5Hex ev) : (s.step md5Hex ev).used.Nodup := by
  unfold Session.step
  dsimp only
  cases ev with
  | challenged a nonce nowMs stale =>
    rw [answered, List.append_nil]
    exact h
  | checked a method uri authz nowMs =>
    rw [answered]
    split_ifs with hanswers
    · have hnew := (hfresh hanswers).2
      exact List.nodup_append.mpr ⟨h, List.pairwise_singleton _ _, fun x hx y hy hxy =>
        hnew (List.mem_singleton.mp hy ▸ hxy ▸ hx)⟩
    · rw [List.append_nil]
      exact h

/-- Where each header that answers names its own request and a count that is new, what is accepted
is bound to its request and used once. -/
theorem fresh_run {evs : List Event}
    (h : Runs.Along (Session.step md5Hex) (Session.Fresh md5Hex) {} evs) :
    SingleUse md5Hex evs ∧ BoundToUri md5Hex evs := by
  constructor
  -- what has been answered with is what has been accepted
  · have hnodup := Runs.always_of_along (P := fun s : Session => s.used.Nodup)
      (fun _ _ => Session.nodup_step) List.nodup_nil h evs List.prefix_rfl
    rw [session_run] at hnodup
    exact hnodup
  · rintro pre a method uri authz nowMs ⟨post, rfl⟩ haccepts
    have hcomputed := (acceptsDigest_bound haccepts).2
    rw [List.append_assoc] at h
    -- the condition at the request, behind what came before it
    have hfresh := (Runs.Along.append.mp h).2.1
    rw [session_run] at hfresh
    have hnamed : namedUri uri authz = uri := by
      unfold namedUri
      rcases (hfresh (acceptsDigest_iff.mp haccepts)).1 with hnone | hown
      · exact if_pos hnone
      · rw [hown, ite_self]
    rwa [hnamed] at hcomputed

def secret : Text := "faac89bfc073d43a12986eb9d3401e59".toList
def nonce : Text := "00112233445566778899aabbccddeeff".toList
def secretPart (nc : String) : Text :=
  secret ++ ':' :: nonce ++ ':' :: nc.toList ++ ":cn:auth:".toList

/-- MD5 on the texts of the runs below. -/
def md5Table (s : Text) : Text :=
  if s = "PLAY:/ch0".toList then "9d22b5ab1b3c6a7d0ca1a64fae520a5d".toList
  else if s = "PLAY:/ch1".toList then "ed11139d2b384e961d4eaa72ee9ad7df".toList
  else if s = "PAUSE:/ch0".toList then "d908632b9112c9f09ded1cbd4101baf7".toList
  else if s = secretPart "00000001" ++ "9d22b5ab1b3c6a7d0ca1a64fae520a5d".toList then
    "d97edbe8075e5337184d3e872e9a340f".toList
  else if s = secretPart "00000001" ++ "ed11139d2b384e961d4eaa72ee9ad7df".toList then
    "b1a6a7dfdfee6a40ef33eddfa44b4a9b".toList
  else if s = secretPart "00000002" ++ "d908632b9112c9f09ded1cbd4101baf7".toList then
    "54bf05ffc2b53e7462a0629f5f0e6fa5".toList
  else []

def storedSecret : RtspAuth where
  cfg := { offerDigest := true }
  check := some fun _ _ => false
  ha1 := some fun _ _ => secret

def digestHeader (nc response : String) : Text :=
  "Digest username=\"root\", realm=\"Machino\", uri=\"/ch0\", qop=auth, nc=".toList ++ nc.toList ++
    ", cnonce=\"cn\", response=\"".toList ++ response.toList ++ "\", nonce=\"".toList ++ nonce ++
    ['"']

/-- The header of a request to play /ch0. -/
def playHeader : Text := digestHeader "00000001" "d97edbe8075e5337184d3e872e9a340f"

/-- The header of a request to pause it, the next one. -/
def pauseHeader : Text := digestHeader "00000002" "54bf05ffc2b53e7462a0629f5f0e6fa5"

def counted : List Event :=
  [.challenged storedSecret nonce 0 false,
    .checked storedSecret "PLAY".toList "/ch0".toList playHeader 1000,
    .checked storedSecret "PAUSE".toList "/ch0".toList pauseHeader 2000]

theorem fresh_run_counted :
    acceptedPairs md5Table {} counted =
        [(nonce, "00000001".toList), (nonce, "00000002".toList)] ∧
      SingleUse md5Table counted ∧ BoundToUri md5Table counted :=
  ⟨by decide +kernel, fresh_run (by decide +kernel)⟩

def playsOther : Event := .checked storedSecret "PLAY".toList "/ch1".toList playHeader 1000

def replay : List Event := [.challenged storedSecret nonce 0 false, playsOther, playsOther]

theorem acceptsDigest_playsOther :
    AcceptsDigest md5Table (Runs.run (step md5Table) {} [.challenged storedSecret nonce 0 false])
      playsOther := by
  decide +kernel

/-- One header lets two requests through, and neither is for the URI it was computed over. -/
theorem not_singleUse_replay :
    ¬ SingleUse md5Table replay ∧ ¬ BoundToUri md5Table replay := by
  constructor
  · unfold SingleUse
    decide +kernel
  · intro h
    obtain ⟨ha1Of, hha1, -, hresp⟩ := h _ storedSecret "PLAY".toList "/ch1".toList playHeader 1000
      ⟨[playsOther], rfl⟩ acceptsDigest_playsOther
    obtain rfl := Option.some.inj hha1
    exact absurd hresp (by decide +kernel)

end Machino.Rtsp
