import Machino.Rtp.RtpPacket

/-! What of a JPEG goes over RTP, RFC 2435. -/
namespace Machino.Rtsp

/-- A file is refused for a reason; nothing outside it is read. -/
inductive Fault where
  | outside
  | refused (why : String)
  deriving DecidableEq

abbrev Reads := Except Fault

def refuse {α : Type} (why : String) : Reads α := .error (.refused why)

def peek (p : Bytes) (i : ℕ) : Reads UInt8 :=
  match p[i]? with
  | some b => .ok b
  | none => .error .outside

def peekBe16 (p : Bytes) (i : ℕ) : Reads ℕ := do
  let a ← peek p i
  let b ← peek p (i + 1)
  return a.toNat * 256 + b.toNat

/-- The 64 factors of a quantisation table. -/
abbrev QTable := {t : Bytes // t.length = 64}

theorem QTable.length_append (y c : QTable) : (y.val ++ c.val).length = 128 := by
  rw [List.length_append, y.property, c.property]

def peekTable (p : Bytes) (i : ℕ) : Reads QTable :=
  if h : i + 64 ≤ p.length then
    .ok ⟨(p.drop i).take 64, by rw [List.length_take, List.length_drop]; omega⟩
  else .error .outside

/-- The bytes from `start` up to `stop`. -/
def peekRange (p : Bytes) (start stop : ℕ) : Reads Bytes :=
  if start ≤ stop ∧ stop ≤ p.length then .ok ((p.take stop).drop start) else .error .outside

/-- The scan of an accepted file, and what the rebuilt headers must say. -/
structure JpegFrame where
  width : ℕ
  height : ℕ
  type : UInt8
  restartInterval : ℕ
  qtables : Bytes
  scan : Bytes
  width_le : width ≤ 2040
  height_le : height ≤ 2040
  tables : qtables.length = 128
  scan_ne : scan ≠ []

/-- What the segments in front of the scan have said so far. -/
structure Segments where
  width : ℕ := 0
  height : ℕ := 0
  restartInterval : ℕ := 0
  qt : ℕ → Option QTable := fun _ => none
  compQ : List ℕ := [0, 0, 0]
  samp0 : UInt8 := 0
  sof : Bool := false

/-- The tables of a segment that starts at `s` and is `sl` bytes long. -/
def readDqt (p : Bytes) (s sl k : ℕ) (qt : ℕ → Option QTable) : Reads (ℕ → Option QTable) :=
  if k < sl then do
    let b ← peek p (s + k)
    if b >>> 4 ≠ 0 then refuse "16-bit quantisation tables"
    else
      let tq := (b &&& 0x0f).toNat
      if 3 < tq ∨ sl < k + 65 then refuse "bad DQT"
      else do
        let table ← peekTable p (s + k + 1)
        readDqt p s sl (k + 65) fun j => if j = tq then some table else qt j
  else .ok qt
termination_by sl - k

def readSelector (p : Bytes) (s c : ℕ) : Reads ℕ := do
  let q ← peek p (s + 6 + 3 * c + 2)
  if 3 < q then refuse "bad quantisation table selector" else return q.toNat

def readSof0 (p : Bytes) (s sl : ℕ) (st : Segments) : Reads Segments := do
  if sl < 6 + 9 then refuse "not 8-bit"
  else
    let precision ← peek p s
    if precision ≠ 8 then refuse "not 8-bit"
    else
      let height ← peekBe16 p (s + 1)
      let width ← peekBe16 p (s + 3)
      let comps ← peek p (s + 5)
      if comps ≠ 3 ∨ sl < 6 + 3 * comps.toNat then refuse "not 3-component YCbCr"
      else
        let samp0 ← peek p (s + 7)
        let compQ ← [0, 1, 2].mapM (readSelector p s)
        let cb ← peek p (s + 6 + 3 + 1)
        if cb ≠ 0x11 then refuse "unsupported chroma sampling"
        else
          let cr ← peek p (s + 6 + 6 + 1)
          if cr ≠ 0x11 then refuse "unsupported chroma sampling"
          else return { st with width, height, samp0, compQ, sof := true }

def isNotBaseline (m : UInt8) : Bool :=
  0xc1 ≤ m && m ≤ 0xcf && m ≠ 0xc4 && m ≠ 0xc8 && m ≠ 0xcc

def readSegment (p : Bytes) (m : UInt8) (s sl : ℕ) (st : Segments) : Reads Segments := do
  -- DQT, SOF0, the other frame types, and DRI
  if m = 0xdb then
    let qt ← readDqt p s sl 0 st.qt
    return { st with qt }
  else if m = 0xc0 then readSof0 p s sl st
  else if isNotBaseline m then refuse "not baseline JPEG"
  else if m = 0xdd then
    if sl < 2 then refuse "bad DRI"
    else
      let restartInterval ← peekBe16 p s
      return { st with restartInterval }
  else return st

/-- Where the scan ends: at the end of the file, or in front of an end marker there. -/
def scanEnd (p : Bytes) (start : ℕ) : Reads ℕ := do
  if p.length < start + 2 then return p.length
  else
    let a ← peek p (p.length - 2)
    if a ≠ 0xff then return p.length
    else
      let b ← peek p (p.length - 1)
      return if b = 0xd9 then p.length - 2 else p.length

def lumaType (samp0 : UInt8) : Reads UInt8 :=
  if samp0 = 0x21 then .ok 0
  else if samp0 = 0x22 then .ok 1
  else refuse "unsupported luma sampling"

/-- The scan behind its header, with what the segments have said. -/
def readSos (p : Bytes) (start : ℕ) (st : Segments) : Reads JpegFrame := do
  if !st.sof then refuse "SOS before SOF"
  else
    let stop ← scanEnd p start
    let scan ← peekRange p start stop
    let luma ← lumaType st.samp0
    if h : st.width = 0 ∨ st.height = 0 ∨ 2040 < st.width ∨ 2040 < st.height then
      refuse "over 2040 pixels (RFC 2435 limit)"
    else
      match st.qt (st.compQ.getD 0 0), st.qt (st.compQ.getD 1 0) with
      | some y, some c =>
        if hscan : scan = [] then refuse "empty scan"
        else
          return {
            width := st.width
            height := st.height
            type := if st.restartInterval ≠ 0 then luma + 64 else luma
            restartInterval := st.restartInterval
            qtables := y.val ++ c.val
            scan := scan
            width_le := by omega
            height_le := by omega
            tables := y.length_append c
            scan_ne := hscan }
      | _, _ => refuse "missing quantisation table"

/-- The loop over the segments. -/
def parseFrom (p : Bytes) (i : ℕ) (st : Segments) : Reads JpegFrame :=
  if i + 4 ≤ p.length then do
    let c ← peek p i
    if c ≠ 0xff then refuse "corrupt marker sequence"
    else
      let m ← peek p (i + 1)
      -- a fill byte
      if m = 0xff then parseFrom p (i + 1) st
      else
        let len ← peekBe16 p (i + 2)
        if len < 2 ∨ p.length < i + 2 + len then refuse "truncated segment"
        -- SOS: the scan is all that follows
        else if m = 0xda then readSos p (i + 2 + len) st
        else
          let st ← readSegment p m (i + 4) (len - 2) st
          parseFrom p (i + 2 + len) st
  else refuse "no SOS"
termination_by p.length - i

def parseJpeg (p : Bytes) : Reads JpegFrame := do
  if p.length < 4 then refuse "not a JPEG (no SOI)"
  else
    let a ← peek p 0
    if a ≠ 0xff then refuse "not a JPEG (no SOI)"
    else
      let b ← peek p 1
      if b ≠ 0xd8 then refuse "not a JPEG (no SOI)"
      else parseFrom p 2 {}

def Inside {α : Type} (x : Reads α) : Prop := x ≠ .error .outside

section

variable {α β : Type}

theorem inside_ok (a : α) : Inside (.ok a : Reads α) := nofun

theorem inside_refuse (why : String) : Inside (refuse why : Reads α) := nofun

theorem inside_bind {x : Reads α} {f : α → Reads β} (hx : Inside x)
    (hf : ∀ a, x = .ok a → Inside (f a)) : Inside (x >>= f) := by
  cases x with
  | error e =>
    intro h
    have he : e = .outside := Except.error.inj (show (.error e : Reads β) = .error .outside from h)
    exact hx (congrArg Except.error he)
  | ok a => exact hf a rfl

theorem inside_ite {c : Prop} [Decidable c] {x y : Reads α} (hx : c → Inside x)
    (hy : ¬ c → Inside y) : Inside (if c then x else y) := by
  split_ifs with hc
  · exact hx hc
  · exact hy hc

/-- Behind a check that refuses the file. -/
theorem inside_check {c : Prop} [Decidable c] {why : String} {x : Reads α}
    (hx : ¬ c → Inside x) : Inside (if c then refuse why else x) :=
  inside_ite (fun _ => inside_refuse why) hx

end

variable {p : Bytes}

theorem inside_peek {i : ℕ} (h : i < p.length) : Inside (peek p i) := by
  unfold peek
  rw [List.getElem?_eq_getElem h]
  exact inside_ok _

theorem inside_peekBe16 {i : ℕ} (h : i + 1 < p.length) : Inside (peekBe16 p i) := by
  apply inside_bind (inside_peek (by omega))
  intro a _
  apply inside_bind (inside_peek h)
  intro b _
  exact inside_ok _

theorem inside_peekTable {i : ℕ} (h : i + 64 ≤ p.length) : Inside (peekTable p i) := by
  unfold peekTable
  rw [dif_pos h]
  exact inside_ok _

theorem inside_readDqt {s sl : ℕ} (h : s + sl ≤ p.length) (k : ℕ) (qt : ℕ → Option QTable) :
    Inside (readDqt p s sl k qt) := by
  induction hn : sl - k using Nat.strong_induction_on generalizing k qt with
  | _ n ih =>
    -- the length of the segment is checked before its tables are read
    unfold readDqt
    apply inside_ite
    · intro hk
      apply inside_bind (inside_peek (by omega))
      intro b _
      apply inside_check
      intro _
      apply inside_check
      intro hroom
      apply inside_bind (inside_peekTable (by omega))
      intro table _
      exact ih _ (by omega) _ _ rfl
    · exact fun _ => inside_ok _

theorem inside_mapM {f : ℕ → Reads ℕ} {cs : List ℕ} (h : ∀ c ∈ cs, Inside (f c)) :
    Inside (cs.mapM f) := by
  induction cs with
  | nil => exact inside_ok _
  | cons c cs ih =>
    rw [List.forall_mem_cons] at h
    rw [List.mapM_cons]
    apply inside_bind h.1
    intro a _
    apply inside_bind (ih h.2)
    intro as _
    exact inside_ok _

theorem inside_readSof0 {s sl : ℕ} (h : s + sl ≤ p.length) (st : Segments) :
    Inside (readSof0 p s sl st) := by
  unfold readSof0
  apply inside_check
  intro hsl
  apply inside_bind (inside_peek (by omega))
  intro precision _
  apply inside_check
  intro _
  apply inside_bind (inside_peekBe16 (by omega))
  intro height _
  apply inside_bind (inside_peekBe16 (by omega))
  intro width _
  apply inside_bind (inside_peek (by omega))
  intro comps _
  apply inside_check
  intro _
  apply inside_bind (inside_peek (by omega))
  intro samp0 _
  apply inside_bind
  · apply inside_mapM
    intro c hc
    have hle : c ≤ 2 := by
      simp only [List.mem_cons, List.not_mem_nil, or_false] at hc
      omega
    apply inside_bind (inside_peek (by omega))
    intro q _
    exact inside_check fun _ => inside_ok _
  intro compQ _
  apply inside_bind (inside_peek (by omega))
  intro cb _
  apply inside_check
  intro _
  apply inside_bind (inside_peek (by omega))
  intro cr _
  exact inside_check fun _ => inside_ok _

theorem inside_readSegment {s sl : ℕ} (h : s + sl ≤ p.length) (m : UInt8) (st : Segments) :
    Inside (readSegment p m s sl st) := by
  unfold readSegment
  apply inside_ite
  · intro _
    apply inside_bind (inside_readDqt h 0 st.qt)
    intro qt _
    exact inside_ok _
  intro _
  apply inside_ite
  · exact fun _ => inside_readSof0 h st
  intro _
  apply inside_check
  intro _
  apply inside_ite
  · intro _
    apply inside_check
    intro hsl
    apply inside_bind (inside_peekBe16 (by omega))
    intro restartInterval _
    exact inside_ok _
  · exact fun _ => inside_ok _

/-- Where the scan ends, it has begun. -/
theorem scanEnd_spec {start : ℕ} (h : start ≤ p.length) :
    ∃ stop, scanEnd p start = .ok stop ∧ start ≤ stop ∧ stop ≤ p.length := by
  have hread {i : ℕ} (hi : i < p.length) : peek p i = .ok p[i] := by
    unfold peek
    rw [List.getElem?_eq_getElem hi]
  unfold scanEnd
  by_cases hshort : p.length < start + 2
  · rw [if_pos hshort]
    exact ⟨p.length, rfl, h, Nat.le_refl _⟩
  rw [if_neg hshort, hread (by omega), hread (by omega)]
  by_cases ha : p[p.length - 2] ≠ 0xff
  · refine ⟨p.length, ?_, h, Nat.le_refl _⟩
    exact if_pos ha
  · refine ⟨_, if_neg ha, ?_, ?_⟩
    · split_ifs
      · omega
      · exact h
    · split_ifs
      · omega
      · exact Nat.le_refl _

theorem inside_readSos {start : ℕ} (h : start ≤ p.length) (st : Segments) :
    Inside (readSos p start st) := by
  obtain ⟨stop, hstop, hle, hlen⟩ := scanEnd_spec h
  unfold readSos
  apply inside_check
  intro _
  rw [hstop]
  apply inside_bind (inside_ok stop)
  rintro _ ⟨⟩
  apply inside_bind
  · unfold peekRange
    rw [if_pos ⟨hle, hlen⟩]
    exact inside_ok _
  intro scan _
  apply inside_bind
  · unfold lumaType
    exact inside_ite (fun _ => inside_ok _) fun _ =>
      inside_ite (fun _ => inside_ok _) fun _ => inside_refuse _
  intro luma _
  by_cases hdim : st.width = 0 ∨ st.height = 0 ∨ 2040 < st.width ∨ 2040 < st.height
  · rw [dif_pos hdim]
    exact inside_refuse _
  rw [dif_neg hdim]
  cases st.qt (st.compQ.getD 0 0) with
  | none => exact inside_refuse _
  | some y =>
    cases st.qt (st.compQ.getD 1 0) with
    | none => exact inside_refuse _
    | some c =>
      by_cases hscan : scan = []
      · simp only [dif_pos hscan]
        exact inside_refuse _
      · simp only [dif_neg hscan]
        exact inside_ok _

theorem inside_parseFrom (i : ℕ) (st : Segments) : Inside (parseFrom p i st) := by
  induction hn : p.length - i using Nat.strong_induction_on generalizing i st with
  | _ n ih =>
    unfold parseFrom
    apply inside_ite
    · intro hi
      apply inside_bind (inside_peek (by omega))
      intro c _
      apply inside_check
      intro _
      apply inside_bind (inside_peek (by omega))
      intro m _
      apply inside_ite
      · exact fun _ => ih _ (by omega) _ _ rfl
      intro _
      apply inside_bind (inside_peekBe16 (by omega))
      intro len _
      apply inside_check
      intro hlen
      apply inside_ite
      · exact fun _ => inside_readSos (by omega) st
      intro _
      apply inside_bind (inside_readSegment (by omega) m st)
      intro st' _
      exact ih _ (by omega) _ _ rfl
    · exact fun _ => inside_refuse _

/-- Whatever the file is. -/
theorem inside_parseJpeg (p : Bytes) : Inside (parseJpeg p) := by
  unfold parseJpeg
  apply inside_check
  intro hlen
  apply inside_bind (inside_peek (by omega))
  intro a _
  apply inside_check
  intro _
  apply inside_bind (inside_peek (by omega))
  intro b _
  exact inside_check fun _ => inside_parseFrom 2 {}

end Machino.Rtsp
