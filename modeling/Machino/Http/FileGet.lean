import Machino.Core.JsonUnicode
import Machino.Core.Number
import Machino.Http.Base64
import Machino.Http.HttpParse

namespace Machino.Http

/-- An escape is an octet, and what is no escape stays as it is. -/
def percentDecode : Text → Text
  | '%' :: a :: b :: s =>
    if Text.isHexDigit a && Text.isHexDigit b then
      Char.ofNat (Text.ofDigits 16 [a, b]) :: percentDecode s
    else '%' :: percentDecode (a :: b :: s)
  | c :: s => c :: percentDecode s
  | [] => []

/-- What `percent_encode_path` leaves as it is. -/
def isPathChar (c : Char) : Bool :=
  ('A' ≤ c && c ≤ 'Z') || ('a' ≤ c && c ≤ 'z') || ('0' ≤ c && c ≤ '9') ||
    c = '-' || c = '.' || c = '_' || c = '~' || c = '/'

def hexSign (d : ℕ) : Char := "0123456789ABCDEF".toList.getD d '0'

def escape (c : Char) : Text := ['%', hexSign (c.toNat / 16), hexSign (c.toNat % 16)]

def percentEncodePath (s : Text) : Text := s.flatMap fun c => if isPathChar c then [c] else escape c

/-- What a probe of the file system finds at a path. -/
inductive Probe where
  | absent
  | regular
  | other
  deriving DecidableEq

/-- A path that is not in the web root and is a regular file goes to the script that sends it; none
where the request stays as it is. -/
def fileGetRewrite (req : Request) (webRoot : Text) (probe : Text → Probe) : Option Request :=
  if req.method ≠ "GET".toList ∨ req.path.length < 2 ∨ req.path.head? ≠ some '/' then none
  else if "/a/".toList.isPrefixOf req.path || "/cgi-bin/".toList.isPrefixOf req.path then none
  else
    let fs := percentDecode req.path
    if (Text.find ['.', '.'] fs).isSome || (Text.find [Char.ofNat 0] fs).isSome then none
    else if fs.getLast? = some '/' then none
    -- what is in the web root is served by the other server
    else if probe (webRoot ++ fs) ≠ .absent then none
    else if probe fs ≠ .regular then none
    else some { req with
      path := "/cgi-bin/machino-file-get.cgi".toList
      query := "path=".toList ++ percentEncodePath fs }

theorem hexSign_spec :
    ∀ d < 16, Text.isHexDigit (hexSign d) = true ∧ Text.digitValue (hexSign d) = d := by
  decide

theorem percentDecode_cons {c : Char} (h : c ≠ '%') (s : Text) :
    percentDecode (c :: s) = c :: percentDecode s := by
  rw [percentDecode]
  rintro a b t hc -
  exact h hc

theorem ofDigits_pair (a b : Char) :
    Text.ofDigits 16 [a, b] = 16 * Text.digitValue a + Text.digitValue b := by
  show 16 * (16 * 0 + Text.digitValue a) + Text.digitValue b = _
  rw [Nat.mul_zero, Nat.zero_add]

theorem percentDecode_escape {c : Char} (h : c.toNat < 256) (s : Text) :
    percentDecode (escape c ++ s) = c :: percentDecode s := by
  obtain ⟨hhigh, hvhigh⟩ := hexSign_spec (c.toNat / 16) (by omega)
  obtain ⟨hlow, hvlow⟩ := hexSign_spec (c.toNat % 16) (by omega)
  have hvalue : Text.ofDigits 16 [hexSign (c.toNat / 16), hexSign (c.toNat % 16)] = c.toNat := by
    rw [ofDigits_pair, hvhigh, hvlow]
    omega
  show percentDecode ('%' :: hexSign (c.toNat / 16) :: hexSign (c.toNat % 16) :: s) = _
  rw [percentDecode, hhigh, hlow, hvalue, Char.ofNat_toNat]
  rfl

/-- The decoder undoes the encoder on every text of octets. -/
theorem percentDecode_percentEncodePath {s : Text} (h : ∀ c ∈ s, c.toNat < 256) :
    percentDecode (percentEncodePath s) = s := by
  induction s with
  | nil => rfl
  | cons c s ih =>
    rw [List.forall_mem_cons] at h
    unfold percentEncodePath at ih ⊢
    rw [List.flatMap_cons]
    split_ifs with hkept
    -- a sign that is kept is no percent sign
    · have hc : c ≠ '%' := by
        rintro rfl
        exact absurd hkept (by decide)
      rw [List.singleton_append, percentDecode_cons hc, ih h.2]
    · rw [percentDecode_escape h.1, ih h.2]

theorem lt_of_mem_byteText {bs : List UInt8} {c : Char} (hc : c ∈ byteText bs) : c.toNat < 256 := by
  obtain ⟨b, -, rfl⟩ := List.mem_map.mp hc
  rw [Json.toNat_byte b.toNat_lt]
  exact b.toNat_lt

theorem digitValue_lt {c : Char} (h : Text.isHexDigit c = true) : Text.digitValue c < 16 := by
  simp only [Text.isHexDigit, Char.isDigit, Bool.or_eq_true, Bool.and_eq_true, decide_eq_true_eq,
    Char.le_def, UInt32.le_iff_toNat_le, ge_iff_le] at h
  simp only [Text.digitValue, Char.isDigit, Bool.and_eq_true, decide_eq_true_eq, Char.le_def,
    UInt32.le_iff_toNat_le, ge_iff_le, Char.toNat]
  revert h
  generalize c.val.toNat = n
  intro h
  split_ifs <;> simp at * <;> omega

/-- What is decoded are octets again. -/
theorem lt_of_mem_percentDecode {s : Text} (h : ∀ c ∈ s, c.toNat < 256) :
    ∀ c ∈ percentDecode s, c.toNat < 256 := by
  fun_induction percentDecode s with
  | case1 a b s hhex ih =>
    rw [Bool.and_eq_true] at hhex
    have hhigh := digitValue_lt hhex.1
    have hlow := digitValue_lt hhex.2
    rw [List.forall_mem_cons]
    rw [ofDigits_pair, Json.toNat_byte (by omega)]
    refine ⟨by omega, ih ?_⟩
    intro c hc
    exact h c (by simp [hc])
  | case2 a b s hhex ih =>
    rw [List.forall_mem_cons] at h ⊢
    exact ⟨h.1, ih h.2⟩
  | case3 c s hnot ih =>
    rw [List.forall_mem_cons] at h ⊢
    exact ⟨h.1, ih h.2⟩
  | case4 => exact h

/-- No component of a path leads out of its directory. -/
def NoParent (path : Text) : Prop := ['.', '.'] ∉ path.splitOn '/'

theorem noParent_of_not_infix {path : Text} (h : ¬ ['.', '.'] <:+: path) : NoParent path := by
  intro hmem
  have hwhole : ['.', '.'] <:+: ['/'].intercalate (path.splitOn '/') := Text.infix_intercalate hmem
  rw [List.intercalate_splitOn] at hwhole
  exact h hwhole

/-- What has been checked of the decoded path of a request that is rewritten. -/
theorem fileGetRewrite_eq_some {req req' : Request} {webRoot : Text} {probe : Text → Probe}
    (h : fileGetRewrite req webRoot probe = some req') :
    let fs := percentDecode req.path
    ¬ ['.', '.'] <:+: fs ∧ probe (webRoot ++ fs) = .absent ∧ probe fs = .regular ∧
      req' = { req with
        path := "/cgi-bin/machino-file-get.cgi".toList
        query := "path=".toList ++ percentEncodePath fs } := by
  intro fs
  unfold fileGetRewrite at h
  dsimp only at h
  split_ifs at h with _ _ hbad _ hroot hfile
  rw [Bool.or_eq_true, not_or, Text.find_isSome_iff] at hbad
  exact ⟨hbad.1, not_not.mp hroot, not_not.mp hfile, (Option.some.inj h).symm⟩

/-- The script is given the very path that has been checked. -/
theorem fileGetRewrite_query {req req' : Request} {webRoot : Text} {probe : Text → Probe}
    (hpath : ∀ c ∈ req.path, c.toNat < 256) (h : fileGetRewrite req webRoot probe = some req') :
    ∃ q, req'.query = "path=".toList ++ q ∧ percentDecode q = percentDecode req.path := by
  obtain ⟨-, -, -, rfl⟩ := fileGetRewrite_eq_some h
  exact ⟨_, rfl, percentDecode_percentEncodePath (lt_of_mem_percentDecode hpath)⟩

/-- A path goes through the coding as it is, and no path that is accepted leaves its directory. -/
theorem percent_coding :
    (∀ bs : List UInt8, percentDecode (percentEncodePath (byteText bs)) = byteText bs) ∧
      ∀ (req req' : Request) (webRoot : Text) (probe : Text → Probe),
        fileGetRewrite req webRoot probe = some req' → NoParent (percentDecode req.path) := by
  constructor
  · intro bs
    exact percentDecode_percentEncodePath fun c hc => lt_of_mem_byteText hc
  · intro req req' webRoot probe h
    exact noParent_of_not_infix (fileGetRewrite_eq_some h).1

/-- A recording with a blank in its name. -/
def recording : Request where
  method := "GET".toList
  path := "/mnt/a%20b.bin".toList
  query := []
  headers := []

/-- The card that it is on. -/
def card (p : Text) : Probe := if p = "/mnt/a b.bin".toList then .regular else .absent

theorem percent_coding_recording :
    ∃ req', fileGetRewrite recording "/var/www".toList card = some req' ∧
      NoParent (percentDecode recording.path) := by
  have haccepted : (fileGetRewrite recording "/var/www".toList card).isSome = true := by decide
  obtain ⟨req', h⟩ := Option.isSome_iff_exists.mp haccepted
  exact ⟨req', h, percent_coding.2 recording req' _ card h⟩

end Machino.Http
