import Mathlib.Data.List.Nodup
import Machino.Rtp.RtpPacket

namespace Machino.Webrtc

open Bytes

def stunMagic : ℕ := 0x2112A442

def isStun (p : Bytes) : Bool :=
  20 ≤ p.length && byte p 0 &&& 0xc0 = 0 && be32 p 4 = stunMagic

structure StunRequest where
  ok : Bool := false
  tid : Bytes := List.replicate 12 0
  username : Bytes := []
  useCandidate : Bool := false
  /-- The last message integrity was verified. -/
  integrityOk : Bool := false
  deriving DecidableEq

def attrType (p : Bytes) (pos : ℕ) : ℕ := be16 p pos

def attrLen (p : Bytes) (pos : ℕ) : ℕ := be16 p (pos + 2)

def attrValue (p : Bytes) (pos : ℕ) : Bytes := (p.drop (pos + 4)).take (attrLen p pos)

/-- Behind the attribute and what fills it up to 32 bits. -/
def nextAttr (p : Bytes) (pos : ℕ) : ℕ :=
  pos + (4 + attrLen p pos) + (4 - attrLen p pos % 4) % 4

/-- The message up to an integrity attribute, its length as if it ended behind that. -/
def signedPart (p : Bytes) (pos : ℕ) : Bytes :=
  let adj := (pos + 24 - 20) % 2 ^ 16
  ((p.take pos).set 2 (UInt8.ofNat (adj / 2 ^ 8))).set 3 (UInt8.ofNat adj)

def isUsername (p : Bytes) (pos : ℕ) : Bool := attrType p pos = 0x0006

def isCandidate (p : Bytes) (pos : ℕ) : Bool := attrType p pos = 0x0025

def isIntegrity (p : Bytes) (pos : ℕ) : Bool := attrType p pos = 0x0008 && attrLen p pos = 20

section

variable (hmacSha1 : Bytes → Bytes → Vector UInt8 20) (pwd : Bytes)

def verifies (p : Bytes) (pos : ℕ) : Bool :=
  (hmacSha1 pwd (signedPart p pos)).toList = attrValue p pos

def takeAttr (p : Bytes) (r : StunRequest) (pos : ℕ) : StunRequest :=
  if isUsername p pos then { r with username := attrValue p pos }
  else if isCandidate p pos then { r with useCandidate := true }
  else if isIntegrity p pos then { r with integrityOk := verifies hmacSha1 pwd p pos }
  else r

/-- The loop over the attributes. Each takes four bytes at least. -/
def attributes (p : Bytes) (stop : ℕ) : ℕ → ℕ → StunRequest → StunRequest
  | 0, _, r => r
  | n + 1, pos, r =>
    if pos + 4 ≤ stop then
      if stop < pos + 4 + attrLen p pos then r
      else attributes p stop n (nextAttr p pos) (takeAttr hmacSha1 pwd p r pos)
    else r

/-- Where the attributes end that the length field speaks of. -/
def stopOf (p : Bytes) : ℕ := 20 + be16 p 2

def parseBindingRequest (p : Bytes) : StunRequest :=
  if isStun p = false ∨ be16 p 0 ≠ 0x0001 ∨ p.length < stopOf p then {}
  else
    { attributes hmacSha1 pwd p (stopOf p) (stopOf p) 20 { tid := (p.drop 8).take 12 } with
      ok := true }

end

/-- Where the loop finds an attribute. -/
def attrsFrom (p : Bytes) (stop : ℕ) : ℕ → ℕ → List ℕ
  | 0, _ => []
  | n + 1, pos =>
    if pos + 4 ≤ stop ∧ pos + 4 + attrLen p pos ≤ stop then
      pos :: attrsFrom p stop n (nextAttr p pos)
    else []

def attrsOf (p : Bytes) : List ℕ := attrsFrom p (stopOf p) (stopOf p) 20

theorem attributes_eq_foldl (hmacSha1 : Bytes → Bytes → Vector UInt8 20) (pwd p : Bytes)
    (stop n pos : ℕ) (r : StunRequest) : attributes hmacSha1 pwd p stop n pos r =
      (attrsFrom p stop n pos).foldl (takeAttr hmacSha1 pwd p) r := by
  induction n generalizing pos r with
  | zero => rfl
  | succ n ih =>
    rw [attributes, attrsFrom]
    by_cases hroom : pos + 4 ≤ stop
    · by_cases hfits : pos + 4 + attrLen p pos ≤ stop
      · rw [if_pos hroom, if_neg (Nat.not_lt.mpr hfits), if_pos ⟨hroom, hfits⟩, ih,
          List.foldl_cons]
      · rw [if_pos hroom, if_pos (Nat.lt_of_not_le hfits), if_neg fun h => hfits h.2]
        rfl
    · rw [if_neg hroom, if_neg fun h => hroom h.1]
      rfl

/-- The value of the last username among these attributes. -/
def usernameOf (p : Bytes) (l : List ℕ) : Bytes :=
  ((l.filter (isUsername p)).getLast?.map (attrValue p)).getD []

theorem getLast?_cons_getD {α β : Type} (g : α → β) (a : α) (l : List α) (d : β) :
    ((a :: l).getLast?.map g).getD d = (l.getLast?.map g).getD (g a) := by
  rw [List.getLast?_cons]
  cases l.getLast? with
  | none => rfl
  | some b => rfl

/-- Of usernames and integrities the last one counts, of candidates any. -/
theorem foldl_takeAttr (hmacSha1 : Bytes → Bytes → Vector UInt8 20) (pwd p : Bytes) (l : List ℕ)
    (r : StunRequest) : l.foldl (takeAttr hmacSha1 pwd p) r =
      { ok := r.ok
        tid := r.tid
        username := ((l.filter (isUsername p)).getLast?.map (attrValue p)).getD r.username
        useCandidate := r.useCandidate || l.any (isCandidate p)
        integrityOk := ((l.filter (isIntegrity p)).getLast?.map
          (verifies hmacSha1 pwd p)).getD r.integrityOk } := by
  induction l generalizing r with
  | nil => simp
  | cons a l ih =>
    rw [List.foldl_cons, ih, takeAttr]
    by_cases huser : isUsername p a = true
    · have hcand : isCandidate p a = false := by
        rw [isUsername, decide_eq_true_eq] at huser
        simp [isCandidate, huser]
      have hint : isIntegrity p a = false := by
        rw [isUsername, decide_eq_true_eq] at huser
        simp [isIntegrity, huser]
      simp [huser, hcand, hint, getLast?_cons_getD]
    · by_cases hcand : isCandidate p a = true
      · have hint : isIntegrity p a = false := by
          rw [isCandidate, decide_eq_true_eq] at hcand
          simp [isIntegrity, hcand]
        simp [huser, hcand, hint]
      · by_cases hint : isIntegrity p a = true
        · simp [huser, hcand, hint, getLast?_cons_getD]
        · simp [huser, hcand, hint]

theorem byte_agree {p q : Bytes} {e i : ℕ} (h : q.take e = p.take e) (hi : i < e) :
    byte q i = byte p i := by
  have hget := congrArg (·[i]?) h
  simp only [List.getElem?_take, if_pos hi] at hget
  rw [byte, byte, List.getD_eq_getElem?_getD, List.getD_eq_getElem?_getD, hget]

theorem be16_agree {p q : Bytes} {e i : ℕ} (h : q.take e = p.take e) (hi : i + 1 < e) :
    be16 q i = be16 p i := by
  rw [be16, be16, byte_agree h (by omega), byte_agree h hi]

theorem take_agree {p q : Bytes} {e i : ℕ} (h : q.take e = p.take e) (hi : i ≤ e) :
    q.take i = p.take i := by
  have htake := congrArg (List.take i) h
  rwa [List.take_take, List.take_take, Nat.min_eq_left hi] at htake

theorem slice_agree {p q : Bytes} {e i n : ℕ} (h : q.take e = p.take e) (hi : i + n ≤ e) :
    (q.drop i).take n = (p.drop i).take n := by
  rw [List.take_drop, List.take_drop, take_agree h hi]

theorem attrLen_agree {p q : Bytes} {e pos : ℕ} (h : q.take e = p.take e) (hpos : pos + 4 ≤ e) :
    attrLen q pos = attrLen p pos := be16_agree h (by omega)

theorem attrType_agree {p q : Bytes} {e pos : ℕ} (h : q.take e = p.take e) (hpos : pos + 4 ≤ e) :
    attrType q pos = attrType p pos := be16_agree h (by omega)

theorem nextAttr_agree {p q : Bytes} {e pos : ℕ} (h : q.take e = p.take e) (hpos : pos + 4 ≤ e) :
    nextAttr q pos = nextAttr p pos := by
  rw [nextAttr, nextAttr, attrLen_agree h hpos]

/-- An attribute in front of the place is taken alike. -/
theorem takeAttr_agree (hmacSha1 : Bytes → Bytes → Vector UInt8 20) (pwd : Bytes) {p q : Bytes}
    {e pos : ℕ} (h : q.take e = p.take e) (hpos : pos + 4 + attrLen p pos ≤ e) (r : StunRequest) :
    takeAttr hmacSha1 pwd q r pos = takeAttr hmacSha1 pwd p r pos := by
  have hlen := attrLen_agree h (by omega : pos + 4 ≤ e)
  have htype := attrType_agree h (by omega : pos + 4 ≤ e)
  have hvalue : attrValue q pos = attrValue p pos := by
    rw [attrValue, attrValue, hlen]
    exact slice_agree h hpos
  have hsigned : signedPart q pos = signedPart p pos := by
    rw [signedPart, signedPart, take_agree h (by omega)]
  unfold takeAttr isUsername isCandidate isIntegrity verifies
  rw [htype, hlen, hvalue, hsigned]

theorem le_nextAttr (p : Bytes) (pos : ℕ) : pos + 4 + attrLen p pos ≤ nextAttr p pos := by
  unfold nextAttr
  omega

theorem le_of_mem_attrsFrom {p : Bytes} {stop n start pos : ℕ}
    (h : pos ∈ attrsFrom p stop n start) : start ≤ pos := by
  induction n generalizing start with
  | zero => exact absurd h List.not_mem_nil
  | succ n ih =>
    rw [attrsFrom] at h
    split_ifs at h with hfits
    · rcases List.mem_cons.mp h with rfl | h
      · exact le_rfl
      · have hnext := le_nextAttr p start
        have hle := ih h
        omega
    · exact absurd h List.not_mem_nil

/-- The loop comes to each of its places the same way in a datagram that agrees up to there, and
with rounds enough for the rest. -/
theorem attrsFrom_split {p : Bytes} {stop n start pos : ℕ} (h : pos ∈ attrsFrom p stop n start) :
    ∃ before m, (∀ b ∈ before, nextAttr p b ≤ pos) ∧ pos + 4 + attrLen p pos ≤ stop ∧
      (stop ≤ start + 4 * n → stop ≤ nextAttr p pos + 4 * m) ∧
      ∀ q : Bytes, q.take (pos + 4) = p.take (pos + 4) → attrsFrom q stop n start =
        before ++ pos :: attrsFrom q stop m (nextAttr p pos) := by
  induction n generalizing start with
  | zero => exact absurd h List.not_mem_nil
  | succ n ih =>
    rw [attrsFrom] at h
    split_ifs at h with hfits
    · have hnext := le_nextAttr p start
      rcases List.mem_cons.mp h with rfl | h
      · refine ⟨[], n, by simp, hfits.2, fun hn => by omega, fun q hq => ?_⟩
        rw [attrsFrom, attrLen_agree hq le_rfl, if_pos hfits, nextAttr_agree hq le_rfl]
        rfl
      · obtain ⟨before, m, hbefore, hstop, hfuel, hsplit⟩ := ih h
        have hle := le_of_mem_attrsFrom h
        refine ⟨start :: before, m, ?_, hstop, fun hn => hfuel (by omega), fun q hq => ?_⟩
        · rw [List.forall_mem_cons]
          exact ⟨hle, hbefore⟩
        · rw [attrsFrom, attrLen_agree hq (by omega), if_pos hfits,
            nextAttr_agree hq (by omega), hsplit q hq]
          rfl
    · exact absurd h List.not_mem_nil

/-- The integrity attribute that decides: the last one. -/
def verified (p : Bytes) : Option ℕ := ((attrsOf p).filter (isIntegrity p)).getLast?

/-- Datagrams that agree up to the end of the attribute at `pos`, and are as long as they say,
report the same. -/
def Covered (hmacSha1 : Bytes → Bytes → Vector UInt8 20) (pwd p : Bytes) (pos : ℕ) : Prop :=
  ∀ q : Bytes, q.take (pos + 24) = p.take (pos + 24) →
    (parseBindingRequest hmacSha1 pwd q).ok = true →
    parseBindingRequest hmacSha1 pwd q = parseBindingRequest hmacSha1 pwd p

/-- No attribute follows, or an empty one that can change nothing: a candidate has been seen, and
the username is empty. -/
def NothingBehind (p : Bytes) (pos : ℕ) : Prop :=
  stopOf p < pos + 28 ∨
    stopOf p = pos + 28 ∧ ((attrsOf p).filter (· < pos)).any (isCandidate p) = true ∧
      usernameOf p ((attrsOf p).filter (· < pos)) = []

/-- A datagram that is taken is a binding request and as long as it says. -/
theorem parseBindingRequest_ok {hmacSha1 : Bytes → Bytes → Vector UInt8 20} {pwd p : Bytes}
    (h : (parseBindingRequest hmacSha1 pwd p).ok = true) :
    isStun p = true ∧ be16 p 0 = 0x0001 ∧ stopOf p ≤ p.length := by
  unfold parseBindingRequest at h
  split_ifs at h with hbad
  simpa [not_or] using hbad

theorem parseBindingRequest_eq (hmacSha1 : Bytes → Bytes → Vector UInt8 20) (pwd : Bytes)
    {p : Bytes} (hstun : isStun p = true) (htype : be16 p 0 = 0x0001)
    (hlen : stopOf p ≤ p.length) : parseBindingRequest hmacSha1 pwd p =
      (attrsOf p).foldl (takeAttr hmacSha1 pwd p) { ok := true, tid := (p.drop 8).take 12 } := by
  have hgood : ¬ (isStun p = false ∨ be16 p 0 ≠ 0x0001 ∨ p.length < stopOf p) := by
    simp [hstun, htype, hlen]
  unfold parseBindingRequest
  rw [if_neg hgood, attributes_eq_foldl, foldl_takeAttr]
  unfold attrsOf
  rw [foldl_takeAttr]

/-- What the loop has collected once it is past the integrity at `pos`. -/
def reportAt (hmacSha1 : Bytes → Bytes → Vector UInt8 20) (pwd p : Bytes) (pos : ℕ) : StunRequest :=
  (((attrsOf p).filter (· < pos)) ++ [pos]).foldl (takeAttr hmacSha1 pwd p)
    { ok := true, tid := (p.drop 8).take 12 }

theorem nextAttr_of_isIntegrity {p : Bytes} {pos : ℕ} (h : isIntegrity p pos = true) :
    attrLen p pos = 20 ∧ nextAttr p pos = pos + 24 := by
  have hlen : attrLen p pos = 20 := by
    simp only [isIntegrity, Bool.and_eq_true, decide_eq_true_eq] at h
    exact h.2
  refine ⟨hlen, ?_⟩
  rw [nextAttr, hlen]

/-- What the loop comes to in front of a place is what it comes to below it. -/
theorem filter_before {p : Bytes} {before : List ℕ} {pos start stop m : ℕ}
    (hbefore : ∀ b ∈ before, nextAttr p b ≤ pos) (hstart : pos ≤ start) :
    (before ++ pos :: attrsFrom p stop m start).filter (· < pos) = before := by
  have hall : before.filter (· < pos) = before := by
    rw [List.filter_eq_self]
    intro b hb
    have hle := hbefore b hb
    have hlt := le_nextAttr p b
    exact decide_eq_true (by omega)
  have hnone : (pos :: attrsFrom p stop m start).filter (· < pos) = [] := by
    rw [List.filter_eq_nil_iff, List.forall_mem_cons]
    refine ⟨by simp, fun b hb => ?_⟩
    have hle := le_of_mem_attrsFrom hb
    simpa using (by omega : pos ≤ b)
  rw [List.filter_append, hall, hnone, List.append_nil]

theorem isStun_agree {p q : Bytes} {e : ℕ} (h : q.take e = p.take e) (he : 20 ≤ e)
    (hp : isStun p = true) : isStun q = true := by
  simp only [isStun, Bool.and_eq_true, decide_eq_true_eq] at hp ⊢
  have hlen : 20 ≤ q.length := by
    have hroom := congrArg List.length h
    rw [List.length_take, List.length_take] at hroom
    omega
  rw [be32, be16_agree (i := 4) h (by omega), be16_agree (i := 6) h (by omega),
    byte_agree (i := 0) h (by omega)]
  exact ⟨⟨hlen, hp.1.2⟩, hp.2⟩

theorem foldl_takeAttr_agree (hmacSha1 : Bytes → Bytes → Vector UInt8 20) (pwd : Bytes)
    {p q : Bytes} {e : ℕ} (h : q.take e = p.take e) {l : List ℕ}
    (hl : ∀ b ∈ l, b + 4 + attrLen p b ≤ e) (r : StunRequest) :
    l.foldl (takeAttr hmacSha1 pwd q) r = l.foldl (takeAttr hmacSha1 pwd p) r := by
  induction l generalizing r with
  | nil => rw [List.foldl_nil, List.foldl_nil]
  | cons b l ih =>
    rw [List.forall_mem_cons] at hl
    rw [List.foldl_cons, List.foldl_cons, takeAttr_agree hmacSha1 pwd h hl.1, ih hl.2]

/-- A datagram that agrees up to the end of the integrity, and is taken, goes on from the same
report. -/
theorem parse_agree (hmacSha1 : Bytes → Bytes → Vector UInt8 20) (pwd : Bytes) {p : Bytes}
    {pos : ℕ} (hpos : pos ∈ attrsOf p) (hint : isIntegrity p pos = true) (hstun : isStun p = true)
    (htype : be16 p 0 = 0x0001) :
    pos + 24 ≤ stopOf p ∧ ∃ m, stopOf p ≤ pos + 24 + 4 * m ∧
      ∀ q : Bytes, q.take (pos + 24) = p.take (pos + 24) → stopOf p ≤ q.length →
        stopOf q = stopOf p ∧
        attrsOf q = (attrsOf p).filter (· < pos) ++ pos :: attrsFrom q (stopOf p) m (pos + 24) ∧
        parseBindingRequest hmacSha1 pwd q = (attrsFrom q (stopOf p) m (pos + 24)).foldl
          (takeAttr hmacSha1 pwd q) (reportAt hmacSha1 pwd p pos) := by
  obtain ⟨hlen, hnext⟩ := nextAttr_of_isIntegrity hint
  have hlow : 20 ≤ pos := le_of_mem_attrsFrom hpos
  obtain ⟨before, m, hbefore, hstop, hfuel, hsplit⟩ := attrsFrom_split hpos
  rw [hlen] at hstop
  rw [hnext] at hfuel hsplit
  refine ⟨hstop, m, hfuel (by omega), fun q hq hql => ?_⟩
  have hfilter : (attrsOf p).filter (· < pos) = before := by
    rw [attrsOf, hsplit p rfl]
    exact filter_before hbefore (by omega)
  have hstopq : stopOf q = stopOf p := by
    rw [stopOf, stopOf, be16_agree (i := 2) hq (by omega)]
  have hattrs : attrsOf q = before ++ pos :: attrsFrom q (stopOf p) m (pos + 24) := by
    rw [attrsOf, hstopq]
    exact hsplit q (take_agree hq (by omega))
  have hstunq : isStun q = true := isStun_agree hq (by omega) hstun
  have htypeq : be16 q 0 = 0x0001 := (be16_agree hq (by omega)).trans htype
  have hlong : stopOf q ≤ q.length := by
    rw [hstopq]
    exact hql
  rw [hfilter]
  refine ⟨hstopq, hattrs, ?_⟩
  have hfront : ∀ b ∈ before ++ [pos], b + 4 + attrLen p b ≤ pos + 24 := by
    intro b hb
    rcases List.mem_append.mp hb with hb | hb
    · have hle := hbefore b hb
      have hlt := le_nextAttr p b
      omega
    · obtain rfl := List.mem_singleton.mp hb
      omega
  rw [parseBindingRequest_eq hmacSha1 pwd hstunq htypeq hlong, hattrs, ← List.singleton_append,
    ← List.append_assoc, List.foldl_append, foldl_takeAttr_agree hmacSha1 pwd hq hfront,
    slice_agree (i := 8) (n := 12) hq (by omega), reportAt, hfilter]

/-- What is reported of the part under the integrity. -/
theorem reportAt_eq (hmacSha1 : Bytes → Bytes → Vector UInt8 20) (pwd : Bytes) {p : Bytes} {pos : ℕ}
    (hint : isIntegrity p pos = true) : reportAt hmacSha1 pwd p pos =
      { ok := true
        tid := (p.drop 8).take 12
        username := usernameOf p ((attrsOf p).filter (· < pos))
        useCandidate := ((attrsOf p).filter (· < pos)).any (isCandidate p)
        integrityOk := verifies hmacSha1 pwd p pos } := by
  have htype : attrType p pos = 0x0008 := by
    simp only [isIntegrity, Bool.and_eq_true, decide_eq_true_eq] at hint
    exact hint.1
  have huser : isUsername p pos = false := by simp [isUsername, htype]
  have hcand : isCandidate p pos = false := by simp [isCandidate, htype]
  rw [reportAt, foldl_takeAttr]
  simp [usernameOf, List.filter_append, huser, hcand, hint]

/-- An attribute of no bytes sets the candidate, empties the username or does nothing. -/
theorem takeAttr_empty (hmacSha1 : Bytes → Bytes → Vector UInt8 20) (pwd : Bytes) {q : Bytes}
    {pos : ℕ} (hlen : attrLen q pos = 0) {r : StunRequest} (hcand : r.useCandidate = true)
    (huser : r.username = []) : takeAttr hmacSha1 pwd q r pos = r := by
  have hint : isIntegrity q pos = false := by simp [isIntegrity, hlen]
  have hvalue : attrValue q pos = [] := by simp [attrValue, hlen]
  obtain ⟨ok, tid, username, useCandidate, integrityOk⟩ := r
  obtain rfl : username = [] := huser
  obtain rfl : useCandidate = true := hcand
  unfold takeAttr
  rw [hvalue, if_neg (by simp [hint] : ¬ isIntegrity q pos = true)]
  split_ifs <;> rfl

/-- Behind the integrity there is no attribute, or one that is empty. -/
theorem foldl_nothingBehind {hmacSha1 : Bytes → Bytes → Vector UInt8 20} {pwd p q : Bytes}
    {pos m : ℕ} (hint : isIntegrity p pos = true) (h : NothingBehind p pos) :
    (attrsFrom q (stopOf p) m (pos + 24)).foldl (takeAttr hmacSha1 pwd q)
      (reportAt hmacSha1 pwd p pos) = reportAt hmacSha1 pwd p pos := by
  cases m with
  | zero => rw [attrsFrom, List.foldl_nil]
  | succ m =>
    rw [attrsFrom]
    split_ifs with hfits
    · rcases h with hend | ⟨hend, hcand, huser⟩
      · omega
      · have hempty : attrLen q (pos + 24) = 0 := by omega
        have hrest : attrsFrom q (stopOf p) m (nextAttr q (pos + 24)) = [] := by
          cases m with
          | zero => rfl
          | succ m =>
            have hnext := le_nextAttr q (pos + 24)
            rw [attrsFrom, if_neg (by omega)]
        rw [hrest, List.foldl_cons, List.foldl_nil]
        rw [reportAt_eq hmacSha1 pwd hint]
        exact takeAttr_empty hmacSha1 pwd hempty hcand huser
    · rw [List.foldl_nil]

theorem be16_lt (p : Bytes) (i : ℕ) : be16 p i < 2 ^ 16 := by
  have hhigh : byte p i < 2 ^ 8 := UInt8.toNat_lt _
  have hlow : byte p (i + 1) < 2 ^ 8 := UInt8.toNat_lt _
  unfold be16
  omega

/-- An attribute of any type and value can be put behind the integrity, up to the end of the
message. -/
theorem exists_appended (hmacSha1 : Bytes → Bytes → Vector UInt8 20) (pwd : Bytes) {p : Bytes}
    {pos : ℕ} (hpos : pos ∈ attrsOf p) (hint : isIntegrity p pos = true) (hstun : isStun p = true)
    (htype : be16 p 0 = 0x0001) (hlen : stopOf p ≤ p.length) {t : ℕ} (ht : t < 2 ^ 16) {v : Bytes}
    (hv : stopOf p = pos + 28 + v.length) :
    ∃ q, q.take (pos + 24) = p.take (pos + 24) ∧ attrType q (pos + 24) = t ∧
      attrLen q (pos + 24) = v.length ∧ attrValue q (pos + 24) = v ∧
      parseBindingRequest hmacSha1 pwd q =
        takeAttr hmacSha1 pwd q (reportAt hmacSha1 pwd p pos) (pos + 24) := by
  obtain ⟨hstop, m, hfuel, hparse⟩ := parse_agree hmacSha1 pwd hpos hint hstun htype
  have hlow : 20 ≤ pos := le_of_mem_attrsFrom hpos
  have hshort : v.length < 2 ^ 16 := by
    have hlt := be16_lt p 2
    unfold stopOf at hv
    omega
  have hfront : (p.take (pos + 24)).length = pos + 24 := by
    rw [List.length_take]
    omega
  let q := p.take (pos + 24) ++ (ofBe16 t ++ ofBe16 v.length ++ v)
  have hq : q.take (pos + 24) = p.take (pos + 24) := List.take_left' hfront
  have hqlen : q.length = stopOf p := by
    simp only [q, List.length_append, hfront, length_ofBe16]
    omega
  have hqtype : attrType q (pos + 24) = t := by
    have hread := be16_ofBe16 (p.take (pos + 24)) (ofBe16 v.length ++ v) t
    rw [hfront, Nat.mod_eq_of_lt ht] at hread
    simpa [attrType, q] using hread
  have hqattr : attrLen q (pos + 24) = v.length := by
    have hread := be16_ofBe16 (p.take (pos + 24) ++ ofBe16 t) v v.length
    rw [List.length_append, hfront, length_ofBe16, Nat.mod_eq_of_lt hshort] at hread
    simpa [attrLen, q] using hread
  have hqvalue : attrValue q (pos + 24) = v := by
    have hskip : (p.take (pos + 24) ++ ofBe16 t ++ ofBe16 v.length).length = pos + 24 + 4 := by
      simp only [List.length_append, hfront, length_ofBe16]
    have htail : q.drop (pos + 24 + 4) = v := by
      have hdrop : (p.take (pos + 24) ++ ofBe16 t ++ ofBe16 v.length ++ v).drop
          (pos + 24 + 4) = v := List.drop_left' hskip
      simpa [q] using hdrop
    rw [attrValue, htail, hqattr, List.take_length]
  refine ⟨q, hq, hqtype, hqattr, hqvalue, ?_⟩
  obtain ⟨-, -, hrun⟩ := hparse q hq hqlen.ge
  rw [hrun]
  cases m with
  | zero => omega
  | succ m =>
    have hrest : attrsFrom q (stopOf p) m (nextAttr q (pos + 24)) = [] := by
      have hnext := le_nextAttr q (pos + 24)
      cases m with
      | zero => rfl
      | succ m => rw [attrsFrom, if_neg (by omega)]
    rw [attrsFrom, if_pos (by omega), hrest, List.foldl_cons, List.foldl_nil]

theorem takeAttr_ok (hmacSha1 : Bytes → Bytes → Vector UInt8 20) (pwd p : Bytes) (r : StunRequest)
    (pos : ℕ) : (takeAttr hmacSha1 pwd p r pos).ok = r.ok := by
  unfold takeAttr
  split_ifs <;> rfl

theorem takeAttr_username (hmacSha1 : Bytes → Bytes → Vector UInt8 20) (pwd : Bytes) {p : Bytes}
    (r : StunRequest) {pos : ℕ} (h : attrType p pos = 0x0006) :
    (takeAttr hmacSha1 pwd p r pos).username = attrValue p pos := by
  rw [takeAttr, if_pos (by simp [isUsername, h])]

theorem takeAttr_candidate (hmacSha1 : Bytes → Bytes → Vector UInt8 20) (pwd : Bytes) {p : Bytes}
    (r : StunRequest) {pos : ℕ} (h : attrType p pos = 0x0025) :
    (takeAttr hmacSha1 pwd p r pos).useCandidate = true := by
  rw [takeAttr, if_neg (by simp [isUsername, h]), if_pos (by simp [isCandidate, h])]

theorem takeAttr_other (hmacSha1 : Bytes → Bytes → Vector UInt8 20) (pwd : Bytes) {p : Bytes}
    (r : StunRequest) {pos : ℕ} (h : attrType p pos = 0) :
    takeAttr hmacSha1 pwd p r pos = r := by
  simp [takeAttr, isUsername, isCandidate, isIntegrity, h]

/-- A verified request has an integrity attribute that decides. -/
theorem exists_verified {hmacSha1 : Bytes → Bytes → Vector UInt8 20} {pwd p : Bytes}
    (h : (parseBindingRequest hmacSha1 pwd p).integrityOk = true) :
    (isStun p = true ∧ be16 p 0 = 0x0001 ∧ stopOf p ≤ p.length) ∧
      ∃ pos ∈ attrsOf p, verified p = some pos ∧ isIntegrity p pos = true ∧
        verifies hmacSha1 pwd p pos = true := by
  have hgood : isStun p = true ∧ be16 p 0 = 0x0001 ∧ stopOf p ≤ p.length := by
    by_contra hbad
    unfold parseBindingRequest at h
    rw [if_pos (by grind)] at h
    exact absurd h (by simp)
  rw [parseBindingRequest_eq hmacSha1 pwd hgood.1 hgood.2.1 hgood.2.2, foldl_takeAttr] at h
  refine ⟨hgood, ?_⟩
  unfold verified
  cases hlast : ((attrsOf p).filter (isIntegrity p)).getLast? with
  | none => simp [hlast] at h
  | some pos =>
    have hmem := List.mem_filter.mp (List.mem_of_getLast? hlast)
    exact ⟨pos, hmem.1, rfl, hmem.2, by simpa [hlast] using h⟩

/-- What is reported of a verified request is covered by its integrity if and only if nothing can
stand behind that. -/
theorem covered_iff (hmacSha1 : Bytes → Bytes → Vector UInt8 20) (pwd : Bytes) {p : Bytes}
    (h : (parseBindingRequest hmacSha1 pwd p).integrityOk = true) :
    ∃ pos, verified p = some pos ∧ verifies hmacSha1 pwd p pos = true ∧
      (Covered hmacSha1 pwd p pos ↔ NothingBehind p pos) := by
  obtain ⟨⟨hstun, htype, hlen⟩, pos, hpos, hverified, hint, htag⟩ := exists_verified h
  refine ⟨pos, hverified, htag, fun hcov => ?_, fun hnone q hq hok => ?_⟩
  · by_contra hbehind
    unfold NothingBehind at hbehind
    rw [not_or] at hbehind
    have hok (q : Bytes) : (takeAttr hmacSha1 pwd q (reportAt hmacSha1 pwd p pos) (pos + 24)).ok =
        true := by
      rw [takeAttr_ok, reportAt_eq hmacSha1 pwd hint]
    -- Whatever is put behind the integrity has to give what is reported now.
    have hput {t : ℕ} (ht : t < 2 ^ 16) {v : Bytes} (hv : stopOf p = pos + 28 + v.length) :
        ∃ q, attrType q (pos + 24) = t ∧ attrValue q (pos + 24) = v ∧
          takeAttr hmacSha1 pwd q (reportAt hmacSha1 pwd p pos) (pos + 24) =
            parseBindingRequest hmacSha1 pwd p := by
      obtain ⟨q, hq, hqtype, -, hqvalue, hparse⟩ := exists_appended hmacSha1 pwd hpos hint hstun
        htype hlen ht hv
      refine ⟨q, hqtype, hqvalue, ?_⟩
      rw [← hparse]
      exact hcov q hq (hparse ▸ hok q)
    -- Room for an empty attribute: each kind of it must change nothing. With more room there are
    -- two usernames to tell apart.
    by_cases hend : stopOf p = pos + 28
    · obtain ⟨q₀, ht₀, -, h₀⟩ := hput (t := 0) (by omega) (v := []) hend
      obtain ⟨q₁, ht₁, hv₁, h₁⟩ := hput (t := 0x0006) (by omega) (v := []) hend
      obtain ⟨q₂, ht₂, -, h₂⟩ := hput (t := 0x0025) (by omega) (v := []) hend
      rw [takeAttr_other _ _ _ ht₀, reportAt_eq hmacSha1 pwd hint] at h₀
      have huser := congrArg StunRequest.username h₁
      have hcand := congrArg StunRequest.useCandidate h₂
      rw [takeAttr_username _ _ _ ht₁, hv₁, ← h₀] at huser
      rw [takeAttr_candidate _ _ _ ht₂, ← h₀] at hcand
      exact hbehind.2 ⟨hend, hcand.symm, huser.symm⟩
    · obtain ⟨n, hn⟩ := Nat.exists_eq_add_of_lt (by omega : pos + 28 < stopOf p)
      have hvalue (b : UInt8) : List.replicate (n + 1) b =
          (parseBindingRequest hmacSha1 pwd p).username := by
        obtain ⟨q, ht, hv, heq⟩ := hput (t := 0x0006) (by omega) (v := List.replicate (n + 1) b)
          (by rw [List.length_replicate]; omega)
        rw [← heq, takeAttr_username _ _ _ ht, hv]
      have htwo := (hvalue 0).trans (hvalue 1).symm
      rw [List.replicate_succ, List.replicate_succ] at htwo
      exact absurd (List.cons.inj htwo).1 (by decide)
  · obtain ⟨-, m, -, hparse⟩ := parse_agree hmacSha1 pwd hpos hint hstun htype
    have hql : stopOf p ≤ q.length := by
      obtain ⟨-, -, hql⟩ := parseBindingRequest_ok hok
      have hlow : 20 ≤ pos := le_of_mem_attrsFrom hpos
      rwa [stopOf, be16_agree (i := 2) hq (by omega)] at hql
    rw [(hparse q hq hql).2.2, (hparse p rfl hlen).2.2, foldl_nothingBehind hint hnone,
      foldl_nothingBehind hint hnone]

/-- A binding request of one verified integrity attribute, with these bytes behind it. -/
def requestWith (behind : Bytes) : Bytes :=
  [0, 1, 0, UInt8.ofNat (24 + behind.length), 0x21, 0x12, 0xA4, 0x42] ++ List.replicate 12 7 ++
    ([0, 8, 0, 20] ++ List.replicate 20 9) ++ behind

def sameTag : Bytes → Bytes → Vector UInt8 20 := fun _ _ => Vector.replicate 20 9

/-- A username of three bytes, filled up, and a use-candidate, with the integrity behind them. -/
def namedRequest : Bytes :=
  [0, 1, 0, 36, 0x21, 0x12, 0xA4, 0x42] ++ List.replicate 12 7 ++
    ([0, 6, 0, 3, 0x61, 0x3a, 0x62, 0] ++ [0, 0x25, 0, 0]) ++ ([0, 8, 0, 20] ++ List.replicate 20 9)

/-- Nothing stands behind the integrity of a request that ends with it. -/
theorem covered_named :
    (parseBindingRequest sameTag [] namedRequest).username = [0x61, 0x3a, 0x62] ∧
      (parseBindingRequest sameTag [] namedRequest).useCandidate = true ∧
      Covered sameTag [] namedRequest 32 := by
  have hok : (parseBindingRequest sameTag [] namedRequest).integrityOk = true := by decide
  obtain ⟨pos, hverified, -, hiff⟩ := covered_iff sameTag [] hok
  have hpos : verified namedRequest = some 32 := by decide
  obtain rfl : pos = 32 := Option.some.inj (hverified.symm.trans hpos)
  exact ⟨by decide, by decide, hiff.mpr (.inl (by decide))⟩

/-- A candidate flag behind the integrity is reported with it. -/
theorem not_covered_candidate :
    (parseBindingRequest sameTag [] (requestWith [0, 0x25, 0, 0])).integrityOk = true ∧
    verified (requestWith [0, 0x25, 0, 0]) = some 20 ∧
    ¬ Covered sameTag [] (requestWith [0, 0x25, 0, 0]) 20 := by
  refine ⟨by decide, by decide, fun h => ?_⟩
  have hsame := h (requestWith [0, 0, 0, 0]) (by decide) (by decide)
  exact absurd hsame (by decide)

end Machino.Webrtc
