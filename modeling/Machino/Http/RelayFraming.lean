import Machino.Http.Relay
import Machino.Http.RelayHead

namespace Machino.Http

open Text

/-- The line goes on with the field in front of it. -/
def isFold (l : Text) : Bool := l.head?.any isBlank

/-- Without the blanks at both ends. -/
def stripBlanks (s : Text) : Text :=
  ((s.dropWhile isBlank).reverse.dropWhile isBlank).reverse

/-- The name without blanks in front of the colon; without a colon all of the line is the name. -/
def clientName (l : Text) : Text := ((fieldName l).reverse.dropWhile isBlank).reverse

def fieldValue (l : Text) : Text := (l.dropWhile (· ≠ ':')).tail

/-- A field is a line and the lines that go on with it. -/
def clientFields : List Text → List Field
  | [] => []
  | l :: ls =>
    if isFold l then clientFields ls
    else
      (clientName l, stripBlanks (fieldValue l ++ (ls.takeWhile isFold).flatten)) ::
        clientFields ls

structure ClientHead where
  status : Text
  fields : List Field
  deriving DecidableEq

/-- The lines behind the status line up to the empty one. -/
def readHead (out : Text) : ClientHead :=
  match (Lines.split '\n' out).map dropReturn with
  | [] => ⟨[], []⟩
  | status :: lines => ⟨status, clientFields (lines.takeWhile (· ≠ []))⟩

def lengths (fields : List Field) : List Text :=
  (fields.filter (·.1 = contentLength)).map Prod.snd

/-- Digits and nothing else. -/
def plainNumber (v : Text) : Option ℕ :=
  if v ≠ [] ∧ v.all Char.isDigit then some (ofDigits 10 v) else none

/-- The status line says that there is no body. -/
def noBody (status : Text) : Bool :=
  ((find [' '] status).map fun sp => atoi (status.drop (sp + 1))).any bodyless

/-- The client sees the end of the body where the relay does. -/
def SameFraming (r : Rewritten) : Prop :=
  let head := readHead r.out
  (∀ f ∈ head.fields, f.1 ≠ transferEncoding) ∧
    (noBody head.status = true ∨
      ∃ v, lengths head.fields = [v] ∧ plainNumber v = some r.bodyLen.toNat)

def stays (l : Text) : Bool :=
  decide (l ≠ [] ∧ fieldName l ≠ transferEncoding ∧ fieldName l ∉ hopFields)

def isLength (l : Text) : Bool := decide (fieldName l = contentLength)

/-- The head's lines, the status line in front. -/
def linesOf (head : Text) : List Text :=
  match relayHeadEnd head with
  | some (stop, _) => headLines head stop
  | none => []

def isCoding (l : Text) : Bool := decide (fieldName l = transferEncoding)

/-- What one line does to each of the four. -/
theorem Rebuild.line_eq (r : Rebuild) (l : Text) : r.line l =
    { haveLen := r.haveLen || isLength l
      bodyLen := if isLength l then strtoul (fieldText l) else r.bodyLen
      chunked := r.chunked || isCoding l
      rebuilt := r.rebuilt ++ if stays l then l ++ crlf else [] } := by
  have hnil : fieldName [] ≠ contentLength ∧ fieldName [] ≠ transferEncoding := by decide
  have hother : contentLength ≠ transferEncoding ∧ contentLength ∉ hopFields := by decide
  have hcoding : transferEncoding ∉ hopFields := by decide
  unfold Rebuild.line isLength isCoding stays
  by_cases h : l = []
  · simp [h, hnil]
  · by_cases hlen : fieldName l = contentLength
    · simp [h, hlen, hother]
    · by_cases hte : fieldName l = transferEncoding
      · simp [h, hte, hother.1.symm]
      · by_cases hhop : fieldName l ∈ hopFields
        · simp [h, hlen, hte, hhop]
        · simp [h, hlen, hte, hhop]

/-- All lines stay but those of the hop; of the lengths the last one counts. -/
theorem Rebuild.foldl_line (ls : List Text) (r : Rebuild) : ls.foldl Rebuild.line r =
    { haveLen := r.haveLen || ls.any isLength
      bodyLen :=
        ((ls.filter isLength).getLast?.map fun l => strtoul (fieldText l)).getD r.bodyLen
      chunked := r.chunked || ls.any isCoding
      rebuilt := r.rebuilt ++ (ls.filter stays).flatMap (· ++ crlf) } := by
  induction ls generalizing r with
  | nil => simp
  | cons l ls ih =>
    rw [List.foldl_cons, ih, Rebuild.line_eq]
    congr 1
    · rw [List.any_cons, Bool.or_assoc]
    · cases hl : isLength l with
      | false => simp [hl]
      | true =>
        rw [List.filter_cons_of_pos hl, List.getLast?_cons]
        cases (ls.filter isLength).getLast? with
        | none => simp
        | some k => simp
    · rw [List.any_cons, Bool.or_assoc]
    · cases hl : stays l with
      | true => simp [hl]
      | false => simp [hl]

theorem isSpace_of_isBlank {c : Char} (h : isBlank c = true) : isSpace c = true := by
  have hc : c = ' ' ∨ c = '\t' := by simpa [isBlank] using h
  rcases hc with rfl | rfl
  · decide
  · decide

theorem not_isDigit_of_isBlank {c : Char} (h : isBlank c = true) : c.isDigit = false := by
  have hc : c = ' ' ∨ c = '\t' := by simpa [isBlank] using h
  rcases hc with rfl | rfl
  · decide
  · decide

theorem ten_le_digitValue_of_isBlank {c : Char} (h : isBlank c = true) : ¬ digitValue c < 10 := by
  have hc : c = ' ' ∨ c = '\t' := by simpa [isBlank] using h
  rcases hc with rfl | rfl
  · decide
  · decide

/-- Blanks, digits, and what is no digit. -/
theorem strtoul_digits {b d rest : Text} (hb : ∀ c ∈ b, isBlank c = true) (hne : d ≠ [])
    (hd : ∀ c ∈ d, c.isDigit = true) (hrest : ∀ c ∈ rest.head?, ¬ digitValue c < 10) :
    strtoul (b ++ (d ++ rest)) =
      if 2 ^ 32 ≤ ofDigits 10 d then 0xffffffff else UInt32.ofNat (ofDigits 10 d) := by
  obtain ⟨c, d', rfl⟩ := List.exists_cons_of_ne_nil hne
  have hc := hd c List.mem_cons_self
  have hskip : (b ++ (c :: d' ++ rest)).dropWhile isSpace = c :: d' ++ rest := by
    rw [List.dropWhile_append_of_pos fun x hx => isSpace_of_isBlank (hb x hx), List.cons_append,
      List.dropWhile_cons_of_neg (by simp [not_isSpace_of_isDigit hc])]
  have hstop : rest.takeWhile (digitValue · < 10) = [] := by
    cases rest with
    | nil => rfl
    | cons x rest => simpa using hrest x rfl
  have htake : (c :: d' ++ rest).takeWhile (digitValue · < 10) = c :: d' := by
    rw [List.takeWhile_append_of_pos fun x hx =>
      decide_eq_true (digitValue_lt_of_isDigit (hd x hx)), hstop, List.append_nil]
  have hbase (s : Text) : prefixBase 10 s = (10, s) := rfl
  unfold strtoul scanULong scanNumber scanDigits
  rw [hskip, List.cons_append, sign_of_isDigit hc, ← List.cons_append]
  simp only [hbase, htake, if_neg hne, Option.map_some, Option.getD_some]
  rfl

/-- Where nothing can be read the number is zero. -/
theorem strtoul_eq_zero {s : Text} (h : ∀ c ∈ (sign (s.dropWhile isSpace)).2.head?,
    ¬ digitValue c < 10) : strtoul s = 0 := by
  have htake : (sign (s.dropWhile isSpace)).2.takeWhile (digitValue · < 10) = [] := by
    cases hs : (sign (s.dropWhile isSpace)).2 with
    | nil => rfl
    | cons x t => simpa using h x (by simp [hs])
  have hbase (s : Text) : prefixBase 10 s = (10, s) := rfl
  unfold strtoul scanULong scanNumber scanDigits
  simp [hbase, htake]

theorem strtoul_blanks {b : Text} (hb : ∀ c ∈ b, isBlank c = true) : strtoul b = 0 := by
  apply strtoul_eq_zero
  rw [List.dropWhile_eq_nil_iff.mpr fun c hc => isSpace_of_isBlank (hb c hc)]
  simp [sign]

theorem lowerChar_eq_c {c : Char} (h : lowerChar c = 'c') : c = 'c' ∨ c = 'C' := by
  by_cases hup : 'A' ≤ c ∧ c ≤ 'Z'
  · refine .inr (Char.toNat_inj.mp ?_)
    have hnat := toNat_lowerChar hup
    rw [h] at hnat
    have hc : 'c'.toNat = 'C'.toNat + 32 := rfl
    omega
  · rw [lowerChar, if_neg hup] at h
    exact .inl h

/-- A length line without a colon holds no number. -/
theorem strtoul_of_isLength {l : Text} (h : isLength l = true) (hcolon : ':' ∉ l) : strtoul l = 0 := by
  have hall : l.takeWhile (· ≠ ':') = l := by
    rw [List.takeWhile_eq_self_iff]
    exact fun c hc => decide_eq_true fun heq => hcolon (heq ▸ hc)
  have hname : lower l = contentLength := by
    have h := of_decide_eq_true h
    rwa [fieldName, hall] at h
  cases l with
  | nil => exact absurd hname (by decide)
  | cons c l =>
    apply strtoul_eq_zero
    have hc : lowerChar c = 'c' := (List.cons.inj hname).1
    rcases lowerChar_eq_c hc with rfl | rfl
    · simp [sign, isSpace, digitValue]
    · simp [sign, isSpace, digitValue]

/-- A text is its stripped part with blanks around it. -/
theorem stripBlanks_spec (s : Text) : ∃ a b : Text, s = a ++ (stripBlanks s ++ b) ∧
    (∀ c ∈ a, isBlank c = true) ∧ ∀ c ∈ b, isBlank c = true := by
  refine ⟨s.takeWhile isBlank, ((s.dropWhile isBlank).reverse.takeWhile isBlank).reverse, ?_, ?_,
    ?_⟩
  · unfold stripBlanks
    rw [← List.reverse_append, List.takeWhile_append_dropWhile, List.reverse_reverse,
      List.takeWhile_append_dropWhile]
  · exact fun c hc => List.mem_takeWhile_imp hc
  · exact fun c hc => List.mem_takeWhile_imp (List.mem_reverse.mp hc)

theorem plainNumber_eq_some {v : Text} {n : ℕ} : plainNumber v = some n ↔
    v ≠ [] ∧ (∀ c ∈ v, c.isDigit = true) ∧ ofDigits 10 v = n := by
  unfold plainNumber
  split_ifs with h
  · simpa [h.1] using fun _ => List.all_eq_true.mp h.2
  · refine ⟨fun hn => absurd hn (by simp), fun hv => absurd ⟨hv.1, ?_⟩ h⟩
    exact List.all_eq_true.mpr hv.2.1

/-- The digits of a continued value stand on its first line unless that is blank. -/
theorem strtoul_own_line {v more : Text} {n : ℕ} (hmore : ∀ c ∈ more.head?, isBlank c = true)
    (hn : plainNumber (stripBlanks (v ++ more)) = some n) : strtoul v =
      if v.all isBlank then 0 else if 2 ^ 32 ≤ n then 0xffffffff else UInt32.ofNat n := by
  obtain ⟨a, b, hsplit, ha, hb⟩ := stripBlanks_spec (v ++ more)
  obtain ⟨hne, hdigits, rfl⟩ := plainNumber_eq_some.mp hn
  generalize stripBlanks (v ++ more) = d at *
  have hnot (c : Char) (hc : c ∈ d) : isBlank c = false := by
    by_contra hblank
    have hd := hdigits c hc
    rw [not_isDigit_of_isBlank (by simpa using hblank)] at hd
    exact absurd hd (by simp)
  by_cases hall : v.all isBlank = true
  · rw [if_pos hall]
    exact strtoul_blanks (List.all_eq_true.mp hall)
  · rw [if_neg hall]
    -- The digits are all in the first line: they have no blank, and a fold starts with one.
    obtain ⟨u, rfl, hu⟩ : ∃ u, v = a ++ (d ++ u) ∧ ∀ c ∈ u, isBlank c = true := by
      obtain ⟨w, rfl, -⟩ | ⟨w, rfl, hw⟩ := List.append_eq_append_iff.mp hsplit
      · exact absurd (List.all_eq_true.mpr fun c hc => ha c (List.mem_append_left w hc)) hall
      · obtain ⟨u, rfl, rfl⟩ | ⟨u, rfl, rfl⟩ := List.append_eq_append_iff.mp hw
        · exact ⟨u, rfl, fun c hc => hb c (List.mem_append_left more hc)⟩
        · cases u with
          | nil => exact ⟨[], by simp, by simp⟩
          | cons c u =>
            have hblank := hmore c rfl
            rw [hnot c (List.mem_append_right w List.mem_cons_self)] at hblank
            exact absurd hblank (by simp)
    refine strtoul_digits ha hne hdigits fun c hc => ?_
    exact ten_le_digitValue_of_isBlank (hu c (List.mem_of_head? hc))

theorem flatten_takeWhile_head (ls : List Text) :
    ∀ c ∈ ((ls.takeWhile isFold).flatten).head?, isBlank c = true := by
  intro c hc
  cases ls with
  | nil => exact absurd hc (by simp)
  | cons l ls =>
    cases hl : isFold l with
    | false => simp [hl] at hc
    | true =>
      cases l with
      | nil => simp [isFold] at hl
      | cons d l =>
        rw [List.takeWhile_cons_of_pos hl, List.flatten_cons, List.cons_append] at hc
        obtain rfl := Option.some.inj hc
        simpa [isFold] using hl

theorem forall_mem_clientFields {ls : List Text} {name : Text} :
    (∀ f ∈ clientFields ls, f.1 ≠ name) ↔ ∀ l ∈ ls, isFold l = false → clientName l ≠ name := by
  induction ls with
  | nil => simp [clientFields]
  | cons l ls ih =>
    rw [clientFields, List.forall_mem_cons, ← ih]
    cases isFold l with
    | true => simp
    | false => simp

theorem lengths_eq_nil_iff {fields : List Field} :
    lengths fields = [] ↔ ∀ f ∈ fields, f.1 ≠ contentLength := by
  unfold lengths
  simp [List.filter_eq_nil_iff]

theorem lengths_cons (f : Field) (fields : List Field) :
    lengths (f :: fields) =
      if f.1 = contentLength then f.2 :: lengths fields else lengths fields := by
  unfold lengths
  split_ifs with h
  · simp [h]
  · simp [h]

/-- A line that gives the length, and no other line that does. -/
def OnlyLength (before : List Text) (l : Text) (after : List Text) : Prop :=
  isFold l = false ∧ clientName l = contentLength ∧
    ∀ k ∈ before ++ after, isFold k = false → clientName k ≠ contentLength

theorem lengths_eq_singleton_iff {ls : List Text} {v : Text} : lengths (clientFields ls) = [v] ↔
    ∃ before l after, ls = before ++ l :: after ∧ OnlyLength before l after ∧
      v = stripBlanks (fieldValue l ++ (after.takeWhile isFold).flatten) := by
  induction ls with
  | nil => simp [clientFields, lengths]
  | cons k ks ih =>
    rw [clientFields]
    by_cases hk : isFold k = false ∧ clientName k = contentLength
    -- This line is the length: none may follow.
    · rw [if_neg (by simp [hk.1]), lengths_cons, if_pos hk.2, List.cons.injEq,
        lengths_eq_nil_iff, forall_mem_clientFields]
      constructor
      · rintro ⟨rfl, hks⟩
        exact ⟨[], k, ks, rfl, ⟨hk.1, hk.2, hks⟩, rfl⟩
      · rintro ⟨before, l, after, heq, ⟨-, -, hother⟩, rfl⟩
        cases before with
        | nil =>
          obtain ⟨rfl, rfl⟩ := List.cons.inj heq
          exact ⟨rfl, hother⟩
        | cons k' before =>
          obtain ⟨rfl, -⟩ := List.cons.inj heq
          exact absurd hk.2 (hother k List.mem_cons_self hk.1)
    -- This line is another field, or goes on with the one before it.
    · have hskip : lengths (if isFold k = true then clientFields ks else
          (clientName k, stripBlanks (fieldValue k ++ (ks.takeWhile isFold).flatten)) ::
            clientFields ks) = lengths (clientFields ks) := by
        split_ifs with hfold
        · rfl
        · rw [lengths_cons, if_neg fun hname => hk ⟨by simpa using hfold, hname⟩]
      rw [hskip, ih]
      constructor
      · rintro ⟨before, l, after, rfl, ⟨hfold, hname, hother⟩, hv⟩
        refine ⟨k :: before, l, after, rfl, ⟨hfold, hname, ?_⟩, hv⟩
        rw [List.cons_append, List.forall_mem_cons]
        exact ⟨fun hf hn => hk ⟨hf, hn⟩, hother⟩
      · rintro ⟨before, l, after, heq, ⟨hfold, hname, hother⟩, hv⟩
        cases before with
        | nil =>
          obtain ⟨rfl, rfl⟩ := List.cons.inj heq
          exact absurd ⟨hfold, hname⟩ hk
        | cons k' before =>
          obtain ⟨rfl, rfl⟩ := List.cons.inj heq
          rw [List.cons_append, List.forall_mem_cons] at hother
          exact ⟨before, l, after, rfl, ⟨hfold, hname, hother.2⟩, hv⟩

def connectionLine : Text := "Connection: keep-alive".toList

theorem dropReturn_append (l : Text) : dropReturn (l ++ ['\r']) = l := by
  unfold dropReturn
  simp

/-- The lines come back as they were put together. -/
theorem readHead_lines {first : Text} {kept : List Text} (hfirst : '\n' ∉ first)
    (hkept : ∀ l ∈ kept, l ≠ [] ∧ '\n' ∉ l) :
    readHead (first ++ crlf ++ kept.flatMap (· ++ crlf) ++ connectionLine ++ crlf ++ crlf) =
      ⟨first, clientFields (kept ++ [connectionLine])⟩ := by
  have htext : first ++ crlf ++ kept.flatMap (· ++ crlf) ++ connectionLine ++ crlf ++ crlf =
      Lines.join '\n' ((first :: (kept ++ [connectionLine, []])).map (· ++ ['\r'])) := by
    simp [Lines.join, crlf, List.flatMap_map]
  have hno : ∀ l ∈ (first :: (kept ++ [connectionLine, []])).map (· ++ ['\r']), '\n' ∉ l := by
    intro l hl
    obtain ⟨k, hk, rfl⟩ := List.mem_map.mp hl
    have hfeed : '\n' ∉ k := by
      rcases List.mem_cons.mp hk with rfl | hk
      · exact hfirst
      · rcases List.mem_append.mp hk with hk | hk
        · exact (hkept k hk).2
        · have hown : ∀ k ∈ [connectionLine, []], '\n' ∉ k := by decide
          exact hown k hk
    simp [hfeed]
  have hback : ((first :: (kept ++ [connectionLine, []])).map (· ++ ['\r'])).map dropReturn =
      first :: (kept ++ [connectionLine, []]) := by
    rw [List.map_map]
    exact List.map_id'' (fun l => dropReturn_append l) _
  have hbody : (kept ++ [connectionLine, []]).takeWhile (· ≠ []) = kept ++ [connectionLine] := by
    rw [List.takeWhile_append_of_pos fun l hl => decide_eq_true (hkept l hl).1]
    rfl
  unfold readHead
  rw [htext, Lines.split_join hno, hback]
  dsimp only
  rw [hbody]

/-- A line that starts a field leaves those in front of it as they are. -/
theorem clientFields_concat {l : Text} (hl : isFold l = false) (ls : List Text) :
    clientFields (ls ++ [l]) = clientFields ls ++ [(clientName l, stripBlanks (fieldValue l))] := by
  induction ls with
  | nil => simp [clientFields, hl]
  | cons k ks ih =>
    have htake : (ks ++ [l]).takeWhile isFold = ks.takeWhile isFold := by
      rw [List.takeWhile_append, List.takeWhile_cons_of_neg (by simp [hl])]
      split_ifs with hall
      · rw [List.append_nil]
        exact ((List.takeWhile_prefix isFold).eq_of_length hall).symm
      · rfl
    rw [List.cons_append, clientFields, clientFields, ih, htake]
    split_ifs <;> rfl

theorem lengths_concat_connection (ls : List Text) :
    lengths (clientFields (ls ++ [connectionLine])) = lengths (clientFields ls) := by
  have hname : clientName connectionLine ≠ contentLength := by decide
  rw [clientFields_concat (by decide)]
  unfold lengths
  simp [List.filter_append, hname]

theorem coding_concat_connection (ls : List Text) :
    (∀ f ∈ clientFields (ls ++ [connectionLine]), f.1 ≠ transferEncoding) ↔
      ∀ l ∈ ls, isFold l = false → clientName l ≠ transferEncoding := by
  have hname : clientName connectionLine ≠ transferEncoding := by decide
  rw [forall_mem_clientFields, List.forall_mem_append]
  simp [hname]

/-- One line gives the length, and what it is continued to is a plain number: zero, or one of 32
bits that stands on the line itself, under a status the relay takes to have a body. -/
def PlainLength (hasBody : Bool) (lines : List Text) : Prop :=
  ∃ before l after n, lines = before ++ l :: after ∧ OnlyLength before l after ∧
    plainNumber (stripBlanks (fieldValue l ++ (after.takeWhile isFold).flatten)) = some n ∧
    (n = 0 ∨ n < 2 ^ 32 ∧ (fieldValue l).all isBlank = false ∧ hasBody = true)

/-- Of the lines that stay none names a transfer coding, also with blanks in front of the colon, and
the status line says that there is no body or one of them gives the length plainly. -/
def PlainlyFramed (head : Text) : Prop :=
  match linesOf head with
  | [] => False
  | status :: lines =>
    (∀ l ∈ lines.filter stays, isFold l = false → clientName l ≠ transferEncoding) ∧
      (noBody status = true ∨
        PlainLength (!(relayStatus head).any bodyless) (lines.filter stays))

theorem relayHeadKeepalive_kept {head : Text} (h : (relayHeadKeepalive head).keepalive = true) :
    ∃ status, relayStatus head = some status ∧
      (bodyless status = true ∨ (rebuild (linesOf head)).haveLen = true) ∧
      relayHeadKeepalive head =
        { keepalive := true
          out := (rebuild (linesOf head)).rebuilt ++ connectionLine ++ crlf ++ crlf
          bodyLen := if bodyless status then 0 else (rebuild (linesOf head)).bodyLen } := by
  unfold relayHeadKeepalive at h ⊢
  unfold linesOf
  cases hend : relayHeadEnd head with
  | none => simp [hend] at h
  | some found =>
    cases hstatus : relayStatus head with
    | none => simp [hend, hstatus] at h
    | some status =>
      simp only [hend, hstatus] at h ⊢
      by_cases hlow : status < 100 ∨ (rebuild (headLines head found.1)).chunked = true
      · simp [hlow] at h
      · by_cases hlen : bodyless status = false ∧ (rebuild (headLines head found.1)).haveLen = false
        · simp [hlow, hlen] at h
        · rw [if_neg hlow, if_neg hlen]
          refine ⟨status, rfl, ?_, rfl⟩
          rw [not_and, Bool.not_eq_false] at hlen
          cases hbody : bodyless status with
          | true => exact .inl rfl
          | false => exact .inr (hlen hbody)

theorem noFeed_of_mem_headLines {head l : Text} {stop : ℕ} (h : l ∈ headLines head stop) :
    '\n' ∉ l := by
  unfold headLines at h
  split_ifs at h with hstop
  · simp at h
  · obtain ⟨k, hk, rfl⟩ := List.mem_map.mp h
    have hfeed := Lines.not_mem_of_mem_split hk
    unfold dropReturn
    split_ifs
    · exact fun hmem => hfeed (List.dropLast_subset k hmem)
    · exact hfeed

theorem noFeed_of_mem_linesOf {head l : Text} (h : l ∈ linesOf head) : '\n' ∉ l := by
  unfold linesOf at h
  cases hend : relayHeadEnd head with
  | none => simp [hend] at h
  | some found =>
    simp only [hend] at h
    exact noFeed_of_mem_headLines h

/-- A line the relay reads the length from starts a field of that name. -/
theorem isFold_of_isLength {l : Text} (h : isLength l = true) :
    isFold l = false ∧ clientName l = contentLength := by
  have hname : fieldName l = contentLength := of_decide_eq_true h
  refine ⟨?_, by rw [clientName, hname]; rfl⟩
  cases l with
  | nil => simp [isFold]
  | cons c l =>
    have hhead : (fieldName (c :: l)).head? = some 'c' := by
      rw [hname]
      decide
    by_cases hcolon : c = ':'
    · rw [fieldName, List.takeWhile_cons_of_neg (by simpa using hcolon)] at hhead
      exact absurd hhead (by decide)
    · have hc : lowerChar c = 'c' := by
        rw [fieldName, List.takeWhile_cons_of_pos (by simpa using hcolon)] at hhead
        exact Option.some.inj hhead
      rcases lowerChar_eq_c hc with rfl | rfl
      · simp [isFold, isBlank]
      · simp [isFold, isBlank]

theorem stays_of_isLength {l : Text} (h : isLength l = true) : stays l = true := by
  have hname : fieldName l = contentLength := of_decide_eq_true h
  have hother : contentLength ≠ transferEncoding ∧ contentLength ∉ hopFields := by decide
  unfold stays
  rw [hname]
  refine decide_eq_true ⟨?_, hother⟩
  rintro rfl
  exact absurd hname (by decide)

/-- The only line of a client that gives the length is the one the relay reads, if it reads any. -/
theorem filter_isLength_eq {ls before after : List Text} {l : Text}
    (hls : ls.filter stays = before ++ l :: after) (honly : OnlyLength before l after)
    (hany : ls.any isLength = true) : ls.filter isLength = [l] := by
  obtain ⟨-, -, hother⟩ := honly
  have hnot : ∀ k ∈ before ++ after, isLength k = false := by
    intro k hk
    by_contra hlen
    obtain ⟨hfold, hname⟩ := isFold_of_isLength (Bool.of_not_eq_false hlen)
    exact hother k hk hfold hname
  have hstay : ls.filter isLength = (before ++ l :: after).filter isLength := by
    rw [← hls, List.filter_filter]
    refine List.filter_congr fun k _ => ?_
    cases hk : isLength k with
    | true => simp [stays_of_isLength hk]
    | false => simp
  rw [List.forall_mem_append] at hnot
  have hsides : (before ++ l :: after).filter isLength = if isLength l then [l] else [] := by
    rw [List.filter_append, List.filter_eq_nil_iff.mpr (by simpa using hnot.1), List.nil_append,
      List.filter_cons, List.filter_eq_nil_iff.mpr (by simpa using hnot.2)]
  rw [hstay, hsides, if_pos]
  obtain ⟨k, hk, hlen⟩ := List.any_eq_true.mp hany
  have hmem : k ∈ ls.filter isLength := List.mem_filter.mpr ⟨hk, hlen⟩
  rw [hstay, hsides] at hmem
  split_ifs at hmem with h
  · exact h
  · exact absurd hmem (by simp)

/-- What the relay reads from the line a client reads. -/
theorem strtoul_fieldText {l more : Text} {n : ℕ} (hl : isLength l = true)
    (hmore : ∀ c ∈ more.head?, isBlank c = true)
    (hn : plainNumber (stripBlanks (fieldValue l ++ more)) = some n) : strtoul (fieldText l) =
      if (fieldValue l).all isBlank then 0 else if 2 ^ 32 ≤ n then 0xffffffff
      else UInt32.ofNat n := by
  unfold fieldText
  by_cases hcolon : ':' ∈ l
  · rw [if_pos hcolon]
    exact strtoul_own_line hmore hn
  · have hvalue : fieldValue l = [] := by
      unfold fieldValue
      rw [List.dropWhile_eq_nil_iff.mpr]
      · rfl
      · intro c hc
        simpa using fun heq : c = ':' => hcolon (heq ▸ hc)
    rw [if_neg hcolon, hvalue]
    exact strtoul_of_isLength hl hcolon

/-- The length the relay goes by, from the lines behind the status line. -/
def relayedLength (status : Int) (ls : List Text) : UInt32 :=
  if bodyless status then 0
  else ((ls.filter isLength).getLast?.map fun l => strtoul (fieldText l)).getD 0

/-- The relay goes by the number on the only length line when that is plain. -/
theorem relayedLength_eq_iff {status : Int} {ls before after : List Text} {l : Text} {n : ℕ}
    (hlen : bodyless status = true ∨ ls.any isLength = true)
    (hls : ls.filter stays = before ++ l :: after) (honly : OnlyLength before l after)
    (hn : plainNumber (stripBlanks (fieldValue l ++ (after.takeWhile isFold).flatten)) = some n) :
    n = (relayedLength status ls).toNat ↔
      n = 0 ∨ n < 2 ^ 32 ∧ (fieldValue l).all isBlank = false ∧ bodyless status = false := by
  unfold relayedLength
  cases hbody : bodyless status with
  | true => simp
  | false =>
    have hfilter := filter_isLength_eq hls honly (hlen.resolve_left (by simp [hbody]))
    have hl : isLength l = true := by
      have hmem : l ∈ ls.filter isLength := hfilter ▸ List.mem_singleton_self l
      exact (List.mem_filter.mp hmem).2
    have hread := strtoul_fieldText hl (flatten_takeWhile_head after) hn
    rw [hfilter]
    simp only [List.getLast?_singleton, Option.map_some, Option.getD_some, hread]
    cases hblank : (fieldValue l).all isBlank with
    | true => simp
    | false =>
      -- What does not fit the number is read as the largest one.
      by_cases hwide : 2 ^ 32 ≤ n
      · have hmax : (0xffffffff : UInt32).toNat = 2 ^ 32 - 1 := rfl
        simp only [Bool.false_eq_true, if_false, if_pos hwide, hmax]
        omega
      · have hnat : (UInt32.ofNat n).toNat = n := by
          rw [UInt32.toNat_ofNat']
          exact Nat.mod_eq_of_lt (Nat.lt_of_not_le hwide)
        simp only [Bool.false_eq_true, if_false, if_neg hwide, hnat]
        simpa using .inr (Nat.lt_of_not_le hwide)

theorem exists_length_iff {status : Int} {ls : List Text}
    (hlen : bodyless status = true ∨ ls.any isLength = true) :
    (∃ v, lengths (clientFields (ls.filter stays)) = [v] ∧
      plainNumber v = some (relayedLength status ls).toNat) ↔
      PlainLength (!bodyless status) (ls.filter stays) := by
  constructor
  · rintro ⟨v, hv, hn⟩
    obtain ⟨before, l, after, hls, honly, rfl⟩ := lengths_eq_singleton_iff.mp hv
    refine ⟨before, l, after, _, hls, honly, hn, ?_⟩
    simpa using (relayedLength_eq_iff hlen hls honly hn).mp rfl
  · rintro ⟨before, l, after, n, hls, honly, hn, hplain⟩
    refine ⟨_, lengths_eq_singleton_iff.mpr ⟨before, l, after, hls, honly, rfl⟩, ?_⟩
    rw [hn, (relayedLength_eq_iff hlen hls honly hn).mpr (by simpa using hplain)]

/-- A kept connection has the same framing at both ends if and only if the head gave the length
plainly. -/
theorem sameFraming_iff {head : Text} (h : (relayHeadKeepalive head).keepalive = true) :
    SameFraming (relayHeadKeepalive head) ↔ PlainlyFramed head := by
  obtain ⟨status, hstatus, hlen, heq⟩ := relayHeadKeepalive_kept h
  have hfeed : ∀ l ∈ linesOf head, '\n' ∉ l := fun l => noFeed_of_mem_linesOf
  rw [heq]
  unfold SameFraming PlainlyFramed
  cases hlines : linesOf head with
  | nil =>
    have hread : readHead ([] ++ connectionLine ++ crlf ++ crlf) = ⟨connectionLine, []⟩ := by decide
    have hbody : noBody connectionLine = false := by decide
    simp only [rebuild, hread, hbody]
    simp [lengths]
  | cons first lines =>
    rw [hlines, List.forall_mem_cons] at hfeed
    have hkept : ∀ l ∈ lines.filter stays, l ≠ [] ∧ '\n' ∉ l := by
      intro l hl
      obtain ⟨hmem, hstay⟩ := List.mem_filter.mp hl
      exact ⟨(of_decide_eq_true hstay).1, hfeed.2 l hmem⟩
    rw [hlines, rebuild, Rebuild.foldl_line] at hlen
    rw [rebuild, Rebuild.foldl_line]
    dsimp only
    rw [readHead_lines hfeed.1 hkept]
    dsimp only
    rw [coding_concat_connection, lengths_concat_connection, hstatus, Option.any_some]
    exact and_congr_right fun _ => or_congr_right (exists_length_iff (by simpa using hlen))

/-- A static file. -/
theorem sameFraming_static :
    SameFraming (relayHeadKeepalive
      "HTTP/1.0 200 OK\r\nContent-type: text/css\r\nContent-Length: 14\r\n\r\n".toList) := by
  refine (sameFraming_iff (by decide)).mpr ?_
  refine ⟨by decide, .inr ⟨["Content-type: text/css".toList], "Content-Length: 14".toList, [], 14,
    by decide, ⟨by decide, by decide, by decide⟩, by decide,
    .inr ⟨by decide, by decide, by decide⟩⟩⟩

/-- Both lengths are handed on, and the relay goes by the second. -/
theorem not_sameFraming_repeated :
    (relayHeadKeepalive
      "HTTP/1.0 200 OK\r\nContent-Length: 5\r\nContent-Length: 7\r\n\r\n".toList).keepalive = true ∧
    ¬ SameFraming (relayHeadKeepalive
      "HTTP/1.0 200 OK\r\nContent-Length: 5\r\nContent-Length: 7\r\n\r\n".toList) := by
  have hread : lengths (readHead (relayHeadKeepalive
      "HTTP/1.0 200 OK\r\nContent-Length: 5\r\nContent-Length: 7\r\n\r\n".toList).out).fields =
        [['5'], ['7']] := by decide
  refine ⟨by decide, ?_⟩
  rintro ⟨-, hbody | ⟨v, hv, -⟩⟩
  · exact absurd hbody (by decide)
  · rw [hread] at hv
    exact absurd (List.cons.inj hv).2 (List.cons_ne_nil _ _)

end Machino.Http
