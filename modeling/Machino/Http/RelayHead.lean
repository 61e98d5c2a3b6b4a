import Machino.Core.Number
import Machino.Basic.Lines
import Machino.Http.HttpParse

namespace Machino.Http

open Text

/-- Where the head ends, and the length of what ends it: two line ends of two signs, or two line
feeds. -/
def relayHeadEnd (buf : Text) : Option (ℕ × ℕ) :=
  match find (crlf ++ crlf) buf, find ['\n', '\n'] buf with
  | some crlf, some lf => if crlf ≤ lf then some (crlf, 4) else some (lf, 2)
  | some crlf, none => some (crlf, 4)
  | none, some lf => some (lf, 2)
  | none, none => none

/-- Without the carriage return behind it. -/
def dropReturn (l : Text) : Text := if l.getLast? = some '\r' then l.dropLast else l

/-- The lines in front of the head's end, none where it is at the start; they may end in one sign or
in two. -/
def headLines (head : Text) (stop : ℕ) : List Text :=
  if stop = 0 then [] else (Lines.split '\n' (head.take stop)).map dropReturn

/-- What is in front of the colon, all of the line where there is none. -/
def fieldName (line : Text) : Text := lower (line.takeWhile (· ≠ ':'))

/-- What `strtoul` is given: behind the colon, and all of the line where there is none. -/
def fieldText (line : Text) : Text :=
  if ':' ∈ line then (line.dropWhile (· ≠ ':')).tail else line

def contentLength : Text := "content-length".toList

def transferEncoding : Text := "transfer-encoding".toList

/-- The fields of one hop, which the relay decides itself. -/
def hopFields : List Text :=
  ["connection".toList, "keep-alive".toList, "proxy-connection".toList]

structure Rebuild where
  haveLen : Bool := false
  bodyLen : UInt32 := 0
  chunked : Bool := false
  rebuilt : Text
  deriving DecidableEq

def Rebuild.line (r : Rebuild) (line : Text) : Rebuild :=
  if line = [] then r
  else if fieldName line = contentLength then
    { r with
      haveLen := true
      bodyLen := strtoul (fieldText line)
      rebuilt := r.rebuilt ++ line ++ crlf }
  else if fieldName line = transferEncoding then { r with chunked := true }
  else if fieldName line ∈ hopFields then r
  else { r with rebuilt := r.rebuilt ++ line ++ crlf }

/-- The first line is kept whatever it is. -/
def rebuild : List Text → Rebuild
  | [] => { rebuilt := [] }
  | first :: lines => lines.foldl Rebuild.line { rebuilt := first ++ crlf }

/-- Without a body by definition. -/
def bodyless (status : Int) : Bool :=
  (100 ≤ status && status < 200) || status = 204 || status = 304

structure Rewritten where
  keepalive : Bool
  out : Text
  bodyLen : UInt32
  deriving DecidableEq

/-- The number behind the first space, where three signs and one more are left. -/
def relayStatus (head : Text) : Option Int :=
  (find [' '] head).bind fun sp =>
    if head.length < sp + 4 then none else some (atoi (head.drop (sp + 1)))

/-- What cannot be framed exactly is left as it came, and its connection closes. -/
def relayHeadKeepalive (head : Text) : Rewritten :=
  let closes : Rewritten := { keepalive := false, out := head, bodyLen := 0 }
  match relayHeadEnd head, relayStatus head with
  | some (stop, _), some status =>
    let r := rebuild (headLines head stop)
    if status < 100 ∨ r.chunked = true then closes
    else if bodyless status = false ∧ r.haveLen = false then closes
    else
      { keepalive := true
        out := r.rebuilt ++ "Connection: keep-alive".toList ++ crlf ++ crlf
        bodyLen := if bodyless status then 0 else r.bodyLen }
  | _, _ => closes

def LineStart (s : Text) (p : ℕ) : Prop := p = 0 ∨ s[p - 1]? = some '\n'

/-- From `p` to `q` stands a line end, of one sign or of two, and nothing else of its line. -/
def EmptyLine (s : Text) (p q : ℕ) : Prop :=
  LineStart s p ∧ (['\n'] <+: s.drop p ∧ q = p + 1 ∨ crlf <+: s.drop p ∧ q = p + 2)

def FirstEmptyLine (s : Text) (p q : ℕ) : Prop :=
  EmptyLine s p q ∧ ∀ p' q', EmptyLine s p' q' → p ≤ p'

/-- The end of the head is the end of the first empty line, and there is one where there is such a
line. -/
def FindsHeadEnd (buf : Text) : Prop :=
  match relayHeadEnd buf with
  | some (pos, sepLen) => ∃ p, FirstEmptyLine buf p (pos + sepLen)
  | none => ∀ p q, ¬ EmptyLine buf p q

theorem crlf_prefix_drop_iff {s : Text} {i : ℕ} :
    crlf <+: s.drop i ↔ s[i]? = some '\r' ∧ s[i + 1]? = some '\n' := by
  unfold crlf
  simp [cons_prefix_drop_iff]

theorem feed_prefix_drop_iff {s : Text} {i : ℕ} : ['\n'] <+: s.drop i ↔ s[i]? = some '\n' := by
  simp [cons_prefix_drop_iff]

/-- A line has one end. -/
theorem EmptyLine.exists_first {s : Text} {p q : ℕ} (h : EmptyLine s p q) :
    ∃ p' q', FirstEmptyLine s p' q' ∧ p' ≤ p := by
  induction p using Nat.strong_induction_on generalizing q with
  | _ p ih =>
    by_cases hfirst : ∀ p' q', EmptyLine s p' q' → p ≤ p'
    · exact ⟨p, q, ⟨h, hfirst⟩, le_rfl⟩
    · push Not at hfirst
      obtain ⟨p', q', h', hlt⟩ := hfirst
      obtain ⟨p₀, q₀, hp₀, hle⟩ := ih p' hlt h'
      exact ⟨p₀, q₀, hp₀, hle.trans hlt.le⟩

/-- What is searched for stands at `j`, in the length it is reported with. -/
def EndsAt (s : Text) (j k : ℕ) : Prop :=
  crlf ++ crlf <+: s.drop j ∧ k = 4 ∨ ['\n', '\n'] <+: s.drop j ∧ k = 2

theorem endsAt_iff {s : Text} {j k : ℕ} : EndsAt s j k ↔
    (s[j]? = some '\r' ∧ s[j + 1]? = some '\n' ∧ s[j + 2]? = some '\r' ∧ s[j + 3]? = some '\n') ∧
      k = 4 ∨ (s[j]? = some '\n' ∧ s[j + 1]? = some '\n') ∧ k = 2 := by
  unfold EndsAt crlf
  simp [cons_prefix_drop_iff]

theorem relayHeadEnd_eq_some {buf : Text} {pos sepLen : ℕ}
    (h : relayHeadEnd buf = some (pos, sepLen)) :
    EndsAt buf pos sepLen ∧ ∀ j < pos, ∀ k, ¬ EndsAt buf j k := by
  unfold relayHeadEnd at h
  unfold EndsAt
  cases hcrlf : find (crlf ++ crlf) buf with
  | none =>
    have hnone := find_eq_none_iff.mp hcrlf
    cases hlf : find ['\n', '\n'] buf with
    | none => simp [hcrlf, hlf] at h
    | some lf =>
      have hfind := find_eq_some_iff.mp hlf
      simp only [hcrlf, hlf, Option.some.injEq, Prod.mk.injEq] at h
      grind
  | some c =>
    have hfind := find_eq_some_iff.mp hcrlf
    cases hlf : find ['\n', '\n'] buf with
    | none =>
      have hnone := find_eq_none_iff.mp hlf
      simp only [hcrlf, hlf, Option.some.injEq, Prod.mk.injEq] at h
      grind
    | some lf =>
      have hfind' := find_eq_some_iff.mp hlf
      simp only [hcrlf, hlf] at h
      split_ifs at h with hle
      · simp only [Option.some.injEq, Prod.mk.injEq] at h
        grind
      · simp only [Option.some.injEq, Prod.mk.injEq] at h
        grind

theorem relayHeadEnd_eq_none {buf : Text} (h : relayHeadEnd buf = none) (j k : ℕ) :
    ¬ EndsAt buf j k := by
  unfold relayHeadEnd at h
  cases hcrlf : find (crlf ++ crlf) buf with
  | some c => cases hlf : find ['\n', '\n'] buf <;> simp [hcrlf, hlf] at h; split_ifs at h
  | none =>
    cases hlf : find ['\n', '\n'] buf with
    | some lf => simp [hcrlf, hlf] at h
    | none =>
      rintro (⟨hend, -⟩ | ⟨hend, -⟩)
      · exact find_eq_none_iff.mp hcrlf j hend
      · exact find_eq_none_iff.mp hlf j hend

/-- The second half of what is found is an empty line. -/
theorem EndsAt.emptyLine {s : Text} {j k : ℕ} (h : EndsAt s j k) :
    EmptyLine s (j + k / 2) (j + k) := by
  rw [endsAt_iff] at h
  unfold EmptyLine LineStart
  rw [crlf_prefix_drop_iff, feed_prefix_drop_iff]
  rcases h with ⟨⟨-, h1, h2, h3⟩, rfl⟩ | ⟨⟨h0, h1⟩, rfl⟩
  · exact ⟨.inr h1, .inr ⟨⟨h2, h3⟩, rfl⟩⟩
  · exact ⟨.inr h0, .inl ⟨h1, rfl⟩⟩

/-- An empty line behind another line is found unless it ends in two signs and that line in one. -/
theorem EmptyLine.endsAt {s : Text} {p q : ℕ} (h : EmptyLine s p q) (hpos : 0 < p)
    (hends : crlf <+: s.drop p → 2 ≤ p ∧ crlf <+: s.drop (p - 2)) :
    ∃ j k, EndsAt s j k ∧ p = j + k / 2 ∧ q = j + k := by
  obtain ⟨hstart, hline⟩ := h
  have hprev := hstart.resolve_left hpos.ne'
  rcases hline with ⟨hfeed, rfl⟩ | ⟨hcrlf, rfl⟩
  · refine ⟨p - 1, 2, ?_, by omega, by omega⟩
    rw [feed_prefix_drop_iff] at hfeed
    rw [endsAt_iff, Nat.sub_add_cancel hpos]
    exact .inr ⟨⟨hprev, hfeed⟩, rfl⟩
  · obtain ⟨htwo, hbefore⟩ := hends hcrlf
    refine ⟨p - 2, 4, ?_, by omega, by omega⟩
    obtain ⟨i, rfl⟩ := Nat.exists_eq_add_of_le' htwo
    rw [Nat.add_sub_cancel, crlf_prefix_drop_iff] at hbefore
    rw [crlf_prefix_drop_iff] at hcrlf
    rw [Nat.add_sub_cancel, endsAt_iff]
    exact .inl ⟨⟨hbefore.1, hbefore.2, hcrlf.1, hcrlf.2⟩, rfl⟩

/-- Of two that are found the earlier one holds the first empty line. -/
theorem EndsAt.end_eq {s : Text} {i j k l : ℕ} (h : EndsAt s i k) (h' : EndsAt s j l)
    (hij : i ≤ j) (hle : j + l / 2 ≤ i + k / 2) : j + l = i + k := by
  rw [endsAt_iff] at h h'
  rcases h with ⟨h, rfl⟩ | ⟨h, rfl⟩ <;> rcases h' with ⟨h', rfl⟩ | ⟨h', rfl⟩ <;> grind

/-- The head's end is found if and only if its empty line is not the first of all lines and does not
end in two signs behind a line that ends in one. -/
theorem findsHeadEnd_iff (buf : Text) : FindsHeadEnd buf ↔ ∀ p q, FirstEmptyLine buf p q →
    0 < p ∧ (crlf <+: buf.drop p → 2 ≤ p ∧ crlf <+: buf.drop (p - 2)) := by
  unfold FindsHeadEnd
  cases hend : relayHeadEnd buf with
  | none =>
    have hnone := relayHeadEnd_eq_none hend
    refine ⟨fun h p q hfirst => absurd hfirst.1 (h p q), fun h p q hline => ?_⟩
    obtain ⟨p', q', hfirst, -⟩ := hline.exists_first
    obtain ⟨hpos, hends⟩ := h p' q' hfirst
    obtain ⟨j, k, hj, -⟩ := hfirst.1.endsAt hpos hends
    exact hnone j k hj
  | some found =>
    obtain ⟨pos, sepLen⟩ := found
    obtain ⟨hat, hbefore⟩ := relayHeadEnd_eq_some hend
    constructor
    · rintro ⟨p₀, hp₀⟩ p q hfirst
      obtain rfl : p₀ = p := le_antisymm (hp₀.2 p q hfirst.1) (hfirst.2 _ _ hp₀.1)
      have hle := hp₀.2 _ _ hat.emptyLine
      obtain ⟨-, hline⟩ := hp₀.1
      rw [endsAt_iff] at hat
      rw [crlf_prefix_drop_iff, feed_prefix_drop_iff] at *
      rcases hat with ⟨hat, rfl⟩ | ⟨hat, rfl⟩
      -- The empty line begins behind the end of the line before it, one byte or two.
      · obtain rfl : p₀ = pos + 2 := by grind
        exact ⟨by omega, fun _ => ⟨by omega, crlf_prefix_drop_iff.mpr ⟨hat.1, hat.2.1⟩⟩⟩
      · obtain rfl : p₀ = pos + 1 := by grind
        exact ⟨by omega, fun h => absurd (hat.2.symm.trans h.1) (by simp)⟩
    · intro h
      -- An earlier empty line would have ended the head before.
      obtain ⟨p, q, hfirst, hle⟩ := hat.emptyLine.exists_first
      obtain ⟨hpos, hends⟩ := h p q hfirst
      obtain ⟨j, k, hj, rfl, rfl⟩ := hfirst.1.endsAt hpos hends
      have hnot : pos ≤ j := Nat.le_of_not_lt fun hlt => hbefore j hlt k hj
      rw [hat.end_eq hj hnot hle] at hfirst
      exact ⟨_, hfirst⟩

/-- The lines of a CGI end in one sign, the empty line in two. -/
theorem not_findsHeadEnd_mixed :
    ¬ FindsHeadEnd "HTTP/1.1 200 OK\r\nContent-type: text/html\n\r\nhi".toList := by
  intro h
  have hend :
      relayHeadEnd "HTTP/1.1 200 OK\r\nContent-type: text/html\n\r\nhi".toList = none := by decide
  unfold FindsHeadEnd at h
  rw [hend] at h
  exact h 41 43 ⟨.inr (by decide), .inr ⟨by decide, rfl⟩⟩

end Machino.Http
