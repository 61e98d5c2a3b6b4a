import Machino.Http.HttpParse
import Machino.Http.Relay

namespace Machino.Http

def relayLine (r : Request) : Text :=
  r.method ++ ' ' ::
    ((if r.query = [] then relayedPath r else relayedPath r ++ '?' :: r.query) ++ ' ' :: http10)

/-- The fields that the relay sets itself. -/
def ownFields (r : Request) (upstreamHost : Text) : List Field :=
  [("Host".toList, upstreamHost), ("Connection".toList, "close".toList)] ++
    if r.body = [] then [] else [("Content-Length".toList, Nat.toDigits 10 r.body.length)]

def fieldLine (h : Field) : Text := h.1 ++ ": ".toList ++ h.2

/-- The lines in front of the body. -/
def relayLines (r : Request) (upstreamHost : Text) : List Text :=
  relayLine r :: (r.headers.filter isKept ++ ownFields r upstreamHost).map fieldLine

/-- The fields as the upstream server reads them. -/
def relayedFields (r : Request) (upstreamHost : Text) : List Field :=
  r.headers.filter isKept ++
    ([("host".toList, trim (' ' :: upstreamHost)), ("connection".toList, "close".toList)] ++
      if r.body = [] then [] else [(contentLengthName, Nat.toDigits 10 r.body.length)])

/-- The limits of the reader leave room for the text that is relayed. -/
structure Room (r : Request) (upstreamHost : Text) (lim : Limits) : Prop where
  /-- A path that is not rewritten has had room already. -/
  line : relayedPath r = r.path ∨ (relayLine r).length ≤ 2048
  head : (PairLines.join '\r' '\n' (relayLines r upstreamHost)).length ≤ lim.maxHead
  fields : (relayedFields r upstreamHost).length ≤ lim.maxHeaders
  body : r.body.length ≤ lim.maxBody
  whole : lim.headOnly = false

theorem join_append_sep {α : Type*} {a b : α} (ls : List (List α)) (hne : ls ≠ []) :
    PairLines.join a b ls ++ [a, b] = ls.flatMap (· ++ [a, b]) := by
  induction ls with
  | nil => exact absurd rfl hne
  | cons l ls ih =>
    cases ls with
    | nil => simp [PairLines.join]
    | cons l' ls =>
      rw [PairLines.join_cons l (List.cons_ne_nil l' ls), List.append_assoc, List.cons_append,
        List.cons_append, ih (List.cons_ne_nil l' ls), List.flatMap_cons]
      simp

theorem forwardRequest_eq (r : Request) (host : Text) :
    forwardRequest r host =
      PairLines.join '\r' '\n' (relayLines r host) ++ crlf ++ crlf ++ r.body := by
  have hjoin := join_append_sep (a := '\r') (b := '\n') (relayLines r host) (List.cons_ne_nil _ _)
  change PairLines.join '\r' '\n' (relayLines r host) ++ crlf = _ at hjoin
  rw [hjoin, relayLines, List.flatMap_cons, List.map_append, List.flatMap_append, List.flatMap_map,
    List.flatMap_map]
  unfold forwardRequest relayLine ownFields printField fieldLine crlf
  split_ifs <;> simp

/-- The second sign of a line, or the sign behind a line of one sign, is no line feed. -/
theorem not_starts_crlf {c : Char} {l : Text} (hl : '\n' ∉ l) (s : Text) :
    ¬ crlf <+: c :: (l ++ '\r' :: s) := by
  intro h
  have hsecond := (List.cons_prefix_cons.mp h).2
  cases l with
  | nil => exact absurd (List.cons_prefix_cons.mp hsecond).1 (by decide)
  | cons d l => exact hl ((List.cons_prefix_cons.mp hsecond).1 ▸ List.mem_cons_self)

theorem find_cons_of_not_crlf {c : Char} {s : Text} (h : ¬ crlf <+: c :: s) :
    Text.find (crlf ++ crlf) (c :: s) = (Text.find (crlf ++ crlf) s).map (· + 1) := by
  rw [Text.find, if_neg]
  intro hpre
  exact h ((List.prefix_append crlf crlf).trans (List.isPrefixOf_iff_prefix.mp hpre))

/-- Behind a line the head goes on unless another line end follows. -/
theorem find_line {l : Text} (hl : '\n' ∉ l) (s : Text) :
    Text.find (crlf ++ crlf) (l ++ '\r' :: '\n' :: s) =
      if crlf <+: s then some l.length
      else (Text.find (crlf ++ crlf) s).map (· + (l.length + 2)) := by
  induction l with
  | nil =>
    have hfront : (crlf ++ crlf).isPrefixOf ('\r' :: '\n' :: s) = true ↔ crlf <+: s := by
      rw [List.isPrefixOf_iff_prefix]
      exact List.prefix_append_right_inj ['\r', '\n']
    have hfeed : ¬ crlf <+: '\n' :: s := fun h =>
      absurd (List.cons_prefix_cons.mp h).1 (by decide)
    rw [List.nil_append, Text.find]
    by_cases hs : crlf <+: s
    · rw [if_pos (hfront.mpr hs), if_pos hs]
      rfl
    · rw [if_neg fun h => hs (hfront.mp h), if_neg hs, find_cons_of_not_crlf hfeed,
        Option.map_map]
      rfl
  | cons c l ih =>
    rw [List.mem_cons, not_or] at hl
    rw [List.cons_append, find_cons_of_not_crlf (not_starts_crlf hl.2 _), ih hl.2]
    by_cases hs : crlf <+: s
    · rw [if_pos hs, if_pos hs, Option.map_some, List.length_cons]
    · rw [if_neg hs, if_neg hs, Option.map_map]
      rfl

theorem headEnd_join {ls : List Text} (hne : ls ≠ []) (hls : ∀ l ∈ ls, l ≠ [] ∧ '\n' ∉ l)
    (rest : Text) :
    headEnd (PairLines.join '\r' '\n' ls ++ crlf ++ crlf ++ rest) =
      some (PairLines.join '\r' '\n' ls).length := by
  unfold headEnd
  induction ls with
  | nil => exact absurd rfl hne
  | cons l ls ih =>
    have hl := (hls l List.mem_cons_self).2
    cases ls with
    | nil =>
      have htext : PairLines.join '\r' '\n' [l] ++ crlf ++ crlf ++ rest =
          l ++ '\r' :: '\n' :: (crlf ++ rest) := by simp [PairLines.join, crlf]
      rw [htext, find_line hl, if_pos (List.prefix_append _ _)]
      rfl
    | cons l' ls =>
      have hrest : ∀ k ∈ l' :: ls, k ≠ [] ∧ '\n' ∉ k :=
        fun k hk => hls k (List.mem_cons_of_mem l hk)
      have htext : PairLines.join '\r' '\n' (l :: l' :: ls) ++ crlf ++ crlf ++ rest =
          l ++ '\r' :: '\n' ::
            (PairLines.join '\r' '\n' (l' :: ls) ++ crlf ++ crlf ++ rest) := by
        rw [PairLines.join_cons l (List.cons_ne_nil l' ls)]
        simp
      have hnext : ¬ crlf <+: PairLines.join '\r' '\n' (l' :: ls) ++ crlf ++ crlf ++ rest := by
        obtain ⟨hne', hl'⟩ := hrest l' List.mem_cons_self
        obtain ⟨c, k, rfl⟩ := List.exists_cons_of_ne_nil hne'
        have hk : '\n' ∉ k := fun h => hl' (List.mem_cons_of_mem c h)
        cases ls with
        | nil => simpa [PairLines.join, crlf] using not_starts_crlf hk ('\n' :: (crlf ++ rest))
        | cons l'' ls =>
          rw [PairLines.join_cons _ (List.cons_ne_nil l'' ls)]
          simpa using not_starts_crlf hk _
      rw [htext, find_line hl, if_neg hnext, ih (List.cons_ne_nil l' ls) hrest, Option.map_some,
        PairLines.join_cons l (List.cons_ne_nil l' ls)]
      congr 1
      simp only [List.length_append, List.length_cons]
      omega

structure RequestRead (r : Request) : Prop where
  method : r.method.all isUpper = true
  path : PathRead r.path
  query : r.query.all isVchar = true
  fields : ∀ h ∈ r.headers, FieldRead h
  short : r.method.length + r.path.length + (if r.query = [] then 0 else r.query.length + 1) + 10
    ≤ 2048

theorem requestRead_of_accepted {buf : Text} {lim : Limits} {n : ℕ} {r : Request} {stop : ℕ}
    {l : Text} {ls : List Text} {line : RequestLine}
    (h : Accepted buf lim n r stop l ls line) : RequestRead r := by
  obtain ⟨m, t, v, -, -, hl, hlen, hparse⟩ := exists_of_parseRequestLine h.parsed
  obtain ⟨hv, hpath, hquery, hm, hupper, htarget⟩ := parseTarget_spec hparse
  have hfields := parseFields_eq_some h.fields
  rw [List.nil_append] at hfields
  have hr := h.request
  have hmethod : r.method = line.method := by rw [hr]; rfl
  have hrpath : r.path = line.path := by rw [hr]; rfl
  have hrquery : r.query = line.query := by rw [hr]; rfl
  refine ⟨by rw [hmethod, hm, hupper], hrpath ▸ hpath, hrquery ▸ hquery, ?_, ?_⟩
  · intro f hf
    rw [hfields] at hf
    obtain ⟨l', -, hl'⟩ := List.mem_filterMap.mp hf
    exact FieldRead.of_parseField hl'
  · rw [hmethod, hrpath, hrquery, hm]
    rw [hl] at hlen
    simp only [List.length_append, List.length_cons] at hlen
    omega

variable {r : Request} {host : Text} {lim : Limits}

theorem length_relayLine (h : RequestRead r) (hroom : Room r host lim) :
    (relayLine r).length ≤ 2048 := by
  rcases hroom.line with hpath | hline
  · have hshort := h.short
    have hversion : http10.length = 8 := rfl
    unfold relayLine
    rw [hpath]
    split_ifs at hshort ⊢ with hq
    · simp only [List.length_append, List.length_cons]
      omega
    · simp only [List.length_append, List.length_cons]
      omega
  · exact hline

/-- The line reads as the method, the path and the query. -/
theorem parseRequestLine_relayLine (h : RequestRead r) (hroom : Room r host lim) :
    parseRequestLine (relayLine r) = some ⟨r.method, relayedPath r, r.query, false⟩ := by
  have hspace : ' ' ∉ r.method := fun hmem =>
    absurd (List.all_eq_true.mp h.method ' ' hmem) (by decide)
  rw [relayLine, parseRequestLine_append hspace (by decide) (length_relayLine h hroom)]
  exact parseTarget_target h.path.relayed h.query h.method

theorem newline_notMem_of_isVchar {s : Text} (h : s.all isVchar = true) : '\n' ∉ s :=
  fun hmem => absurd (List.all_eq_true.mp h '\n' hmem) (by decide)

theorem newline_notMem_of_plain {s : Text} (h : s.any isControl = false) : '\n' ∉ s :=
  fun hmem => absurd (List.any_eq_false.mp h '\n' hmem) (by decide)

theorem newline_notMem_relayLine (h : RequestRead r) : '\n' ∉ relayLine r := by
  have hmethod : '\n' ∉ r.method := fun hmem =>
    absurd (List.all_eq_true.mp h.method '\n' hmem) (by decide)
  have hpath := newline_notMem_of_isVchar h.path.relayed.visible
  have hquery := newline_notMem_of_isVchar h.query
  have hversion : '\n' ∉ http10 := by decide
  unfold relayLine
  split_ifs
  · simp [hmethod, hpath, hversion]
  · simp [hmethod, hpath, hquery, hversion]

/-- What is asked of a field before it is written. -/
structure Printable (h : Field) : Prop where
  noColon : ':' ∉ h.1
  plainName : h.1.any isControl = false
  plainValue : h.2.any isControl = false
  name : trim (lower h.1) ≠ []

def reread (h : Field) : Field := (trim (lower h.1), trim (' ' :: h.2))

theorem Printable.parseField (h : Field) (hp : Printable h) :
    parseField (fieldLine h) = some (reread h) :=
  parseField_line hp.noColon hp.plainName hp.plainValue hp.name

theorem parseFields_map {m : ℕ} {hs gs : List Field} (hgs : ∀ g ∈ gs, Printable g)
    (hm : hs.length + gs.length ≤ m) :
    parseFields m hs (gs.map fieldLine) = some (hs ++ gs.map reread) := by
  induction gs generalizing hs with
  | nil => simp [parseFields]
  | cons g gs ih =>
    rw [List.length_cons] at hm
    have hlen : (hs ++ [reread g]).length + gs.length ≤ m := by
      rw [List.length_append, List.length_singleton]
      omega
    rw [List.map_cons, parseFields, (hgs g List.mem_cons_self).parseField]
    dsimp only
    rw [if_neg (by omega), ih (fun g' hg' => hgs g' (List.mem_cons_of_mem g hg')) hlen,
      List.append_assoc, List.map_cons, List.singleton_append]

theorem FieldRead.reread {h : Field} (hread : FieldRead h) (hsolid : h.1.all isEdge = false) :
    reread h = h := by
  have hname : trim (lower h.1) = h.1 := by
    rw [hread.lowered, trim_of_trimmed hread.trimmedName hsolid]
  exact Prod.ext hname (trim_blank_cons hread.trimmedValue)

theorem FieldRead.printable {h : Field} (hread : FieldRead h) (hsolid : h.1.all isEdge = false) :
    Printable h where
  noColon := hread.noColon
  plainName := hread.plainName
  plainValue := hread.plainValue
  name hnil := hread.name ((congrArg Prod.fst (hread.reread hsolid)).symm.trans hnil)

theorem trimmed_of_no_edge {s : Text} (h : ∀ c ∈ s, isEdge c = false) : Trimmed s := by
  refine ⟨fun c hc => ?_, .inr fun c hc => h c (List.mem_of_getLast? hc)⟩
  exact (Bool.or_eq_false_iff.mp (h c (List.mem_of_head? hc))).1

theorem isEdge_of_isDigit {c : Char} (h : c.isDigit = true) : isEdge c = false := by
  refine Bool.eq_false_iff.mpr fun hedge => ?_
  simp only [isEdge, isBlank, Bool.or_eq_true, decide_eq_true_eq] at hedge
  rcases hedge with (rfl | rfl) | rfl <;> exact absurd h (by decide)

theorem isControl_of_isDigit {c : Char} (h : c.isDigit = true) : isControl c = false := by
  have hlow : 48 ≤ c.toNat := (Char.isDigit_iff_toNat.mp h).1
  have hnot : ¬ c.toNat < 0x20 := by omega
  simp [isControl, hnot]

theorem isDigit_of_mem_toDigits {n : ℕ} {c : Char} (h : c ∈ Nat.toDigits 10 n) :
    c.isDigit = true := Nat.isDigit_of_mem_toDigits (by decide) (by decide) h

theorem isDecimal_toDigits (n : ℕ) : isDecimal (Nat.toDigits 10 n) = true := by
  refine List.all_eq_true.mpr fun c hc => ?_
  obtain ⟨hlow, hhigh⟩ := Char.isDigit_iff_toNat.mp (isDigit_of_mem_toDigits hc)
  exact Bool.and_eq_true_iff.mpr ⟨decide_eq_true hlow, decide_eq_true hhigh⟩

/-- Every field that is kept has a name with more than blanks and carriage returns in it. -/
def NamesSolid (r : Request) : Prop := ∀ h ∈ r.headers, isKept h = true → h.1.all isEdge = false

theorem printable_relayed (hread : RequestRead r) (hnames : NamesSolid r)
    (hhost : host.any isControl = false) :
    ∀ g ∈ r.headers.filter isKept ++ ownFields r host, Printable g := by
  intro g hg
  rcases List.mem_append.mp hg with hkept | hown
  · obtain ⟨hmem, hkeep⟩ := List.mem_filter.mp hkept
    exact (hread.fields g hmem).printable (hnames g hmem hkeep)
  · have hdigits : (Nat.toDigits 10 r.body.length).any isControl = false :=
      List.any_eq_false.mpr fun c hc => by simp [isControl_of_isDigit (isDigit_of_mem_toDigits hc)]
    have hown' : g = ("Host".toList, host) ∨ g = ("Connection".toList, "close".toList) ∨
        g = ("Content-Length".toList, Nat.toDigits 10 r.body.length) := by
      unfold ownFields at hown
      split_ifs at hown
      · rcases List.mem_cons.mp hown with rfl | hown
        · exact .inl rfl
        · exact .inr (.inl (List.mem_singleton.mp hown))
      · rcases List.mem_cons.mp hown with rfl | hown
        · exact .inl rfl
        · rcases List.mem_cons.mp hown with rfl | hown
          · exact .inr (.inl rfl)
          · exact .inr (.inr (List.mem_singleton.mp hown))
    have hnames : ∀ n ∈ ["Host".toList, "Connection".toList, "Content-Length".toList],
        ':' ∉ n ∧ n.any isControl = false ∧ trim (lower n) ≠ [] := by decide
    rcases hown' with rfl | rfl | rfl
    · obtain ⟨hcolon, hplain, hname⟩ := hnames "Host".toList (by simp)
      exact ⟨hcolon, hplain, hhost, hname⟩
    · obtain ⟨hcolon, hplain, hname⟩ := hnames "Connection".toList (by simp)
      exact ⟨hcolon, hplain, by decide, hname⟩
    · obtain ⟨hcolon, hplain, hname⟩ := hnames "Content-Length".toList (by simp)
      exact ⟨hcolon, hplain, hdigits, hname⟩

theorem map_reread (hread : RequestRead r) (hnames : NamesSolid r) (host : Text) :
    (r.headers.filter isKept ++ ownFields r host).map reread = relayedFields r host := by
  have hkept : (r.headers.filter isKept).map reread = r.headers.filter isKept := by
    refine (List.map_congr_left fun g hg => ?_).trans (List.map_id _)
    obtain ⟨hmem, hkeep⟩ := List.mem_filter.mp hg
    exact (hread.fields g hmem).reread (hnames g hmem hkeep)
  have hdigits : trim (' ' :: Nat.toDigits 10 r.body.length) = Nat.toDigits 10 r.body.length :=
    trim_blank_cons (trimmed_of_no_edge fun c hc => isEdge_of_isDigit (isDigit_of_mem_toDigits hc))
  have hown : (ownFields r host).map reread =
      [("host".toList, trim (' ' :: host)), ("connection".toList, "close".toList)] ++
        if r.body = [] then [] else [(contentLengthName, Nat.toDigits 10 r.body.length)] := by
    unfold ownFields
    split_ifs
    · rfl
    · show [_, _, (contentLengthName, trim (' ' :: Nat.toDigits 10 r.body.length))] = _
      rw [hdigits]
      rfl
  rw [List.map_append, hkept, hown, relayedFields]

/-- The lookup of a name that is not kept passes over what is kept. -/
theorem header_append_kept {n : Text} (hn : droppedNames.contains n = true) (hs own : List Field) :
    header (hs.filter isKept ++ own) n = header own n := by
  have hnone : (hs.filter isKept).find? (fun h => h.1 = n) = none := by
    refine List.find?_eq_none.mpr fun h hh => ?_
    have hkept := (List.mem_filter.mp hh).2
    rintro heq
    rw [isKept, of_decide_eq_true heq, hn] at hkept
    exact absurd hkept (by decide)
  unfold header
  rw [List.find?_append, hnone, Option.none_or]

theorem countP_kept {n : Text} (hn : droppedNames.contains n = true) (hs : List Field) :
    (hs.filter isKept).countP (fun h => h.1 = n) = 0 := by
  refine List.countP_eq_zero.mpr fun h hh heq => ?_
  have hkept := (List.mem_filter.mp hh).2
  rw [isKept, of_decide_eq_true heq, hn] at hkept
  exact absurd hkept (by decide)

theorem header_relayedFields_length (r : Request) (host : Text) :
    header (relayedFields r host) contentLengthName =
      if r.body = [] then [] else Nat.toDigits 10 r.body.length := by
  rw [relayedFields, header_append_kept (by decide)]
  split_ifs <;> rfl

theorem header_relayedFields_encoding (r : Request) (host : Text) :
    header (relayedFields r host) transferEncodingName = [] := by
  rw [relayedFields, header_append_kept (by decide)]
  split_ifs <;> rfl

theorem declaredLength_relayedFields (hroom : Room r host lim) :
    declaredLength lim (relayedFields r host) = .ok r.body.length := by
  rw [declaredLength_eq_ok, header_relayedFields_length]
  have hcount : (relayedFields r host).countP (fun h => h.1 = contentLengthName) ≤ 1 := by
    rw [relayedFields, List.countP_append, countP_kept (by decide), Nat.zero_add]
    split_ifs
    · exact Nat.zero_le 1
    · exact le_refl 1
  refine ⟨hcount, ?_⟩
  by_cases hbody : r.body = []
  · rw [if_pos hbody, hbody]
    exact .inl ⟨rfl, rfl⟩
  · rw [if_neg hbody]
    have hlong : r.body.length ≤ lim.longest := by
      rw [Limits.longest, hroom.whole, if_neg Bool.false_ne_true]
      exact hroom.body
    have hsize := lim.room
    have hmax := hroom.body
    refine .inr ⟨Nat.toDigits_ne_nil, isDecimal_toDigits _, ?_, hlong⟩
    rw [toNat_strtoull_of_isDecimal (isDecimal_toDigits _), Nat.ofDigitChars_ten_toDigits]
    omega

/-- The request as the upstream server reads it. -/
def relayed (r : Request) (host : Text) : Request where
  method := r.method
  path := relayedPath r
  query := r.query
  headers := relayedFields r host
  body := r.body
  contentLength := r.body.length
  keepAlive := false

/-- One message is relayed, and it is the one that was parsed, but for the path of the stock scripts
and for the fields that the relay answers for. -/
theorem parseRequest_forwardRequest {buf : Text} {limIn : Limits} {n : ℕ}
    (h : parseRequest buf limIn = .ok n r) (hnames : NamesSolid r)
    (hhost : host.any isControl = false) (hroom : Room r host lim) :
    parseRequest (forwardRequest r host) lim =
      .ok (forwardRequest r host).length (relayed r host) := by
  obtain ⟨stop, l, ls, line, hacc⟩ := parseRequest_eq_ok.mp h
  have hread := requestRead_of_accepted hacc
  have hprint := printable_relayed hread hnames hhost
  have hlines : ∀ k ∈ relayLines r host, k ≠ [] ∧ '\n' ∉ k := by
    intro k hk
    rcases List.mem_cons.mp hk with rfl | hk
    · exact ⟨by simp [relayLine], newline_notMem_relayLine hread⟩
    · obtain ⟨g, hg, rfl⟩ := List.mem_map.mp hk
      have hname := newline_notMem_of_plain (hprint g hg).plainName
      have hvalue := newline_notMem_of_plain (hprint g hg).plainValue
      exact ⟨by simp [fieldLine], by simp [fieldLine, hname, hvalue]⟩
  have hfields := map_reread hread hnames host
  have htext := forwardRequest_eq r host
  refine parseRequest_eq_ok.mpr ⟨(PairLines.join '\r' '\n' (relayLines r host)).length, relayLine r,
    (r.headers.filter isKept ++ ownFields r host).map fieldLine,
    ⟨r.method, relayedPath r, r.query, false⟩, ?_⟩
  constructor
  · rw [htext]
    exact headEnd_join (List.cons_ne_nil _ _) hlines r.body
  · exact hroom.head
  · rw [htext, List.append_assoc, List.append_assoc, List.take_left]
    exact PairLines.lines_join (by decide) (List.cons_ne_nil _ _) fun k hk => (hlines k hk).2
  · exact parseRequestLine_relayLine hread hroom
  · have hlen : ([] : List Field).length + (r.headers.filter isKept ++ ownFields r host).length ≤
        lim.maxHeaders := by
      rw [List.length_nil, Nat.zero_add, ← List.length_map reread, hfields]
      exact hroom.fields
    rw [parseFields_map hprint hlen, List.nil_append, hfields]
    rfl
  · exact declaredLength_relayedFields hroom
  · exact header_relayedFields_encoding r host
  · have hbody : ((forwardRequest r host).drop
        ((PairLines.join '\r' '\n' (relayLines r host)).length + 4)).take r.body.length = r.body := by
      rw [htext, List.append_assoc, List.append_assoc, List.drop_length_add_append]
      exact List.take_length
    have hclose : keepAlive ⟨r.method, relayedPath r, r.query, false⟩ (relayedFields r host) =
        false := by
      have hconn : header (relayedFields r host) "connection".toList = "close".toList := by
        rw [relayedFields, header_append_kept (by decide)]
        rfl
      unfold keepAlive
      rw [hconn]
      rfl
    unfold relayed requestOf
    rw [hroom.whole, hclose]
    simp only [Bool.false_eq_true, if_false, hbody]
  · rw [hroom.whole, htext]
    simp only [List.length_append, relayed, Bool.false_eq_true, if_false]
    rfl
  · exact .inr le_rfl

def pageGet : Text := "GET /a?b HTTP/1.1\r\nHost: c\r\nAccept: d\r\n\r\n".toList

def pageRequest : Request where
  method := "GET".toList
  path := "/a".toList
  query := ['b']
  headers := [("host".toList, ['c']), ("accept".toList, ['d'])]

theorem parseRequest_forwardRequest_pageGet :
    parseRequest (forwardRequest pageRequest ['u']) {} =
      .ok (forwardRequest pageRequest ['u']).length (relayed pageRequest ['u']) :=
  @parseRequest_forwardRequest pageRequest ['u'] {} pageGet {} 41 (by decide +kernel)
    (by unfold NamesSolid; decide +kernel) (by decide)
    ⟨.inl (by decide +kernel), by decide +kernel, by decide +kernel, by decide, rfl⟩

/-- A script of the stock interface, which runs below a shim. -/
def scriptGet : Text := "GET /cgi-bin/j/a.cgi HTTP/1.1\r\n\r\n".toList

def scriptRequest : Request where
  method := "GET".toList
  path := "/cgi-bin/j/a.cgi".toList
  query := []
  headers := []

/-- The relayed text reads as the request itself. -/
def RelaysAsParsed (r : Request) (host : Text) (lim : Limits) : Prop :=
  ∃ r', parseRequest (forwardRequest r host) lim = .ok (forwardRequest r host).length r' ∧
    r'.method = r.method ∧ r'.path = r.path ∧ r'.query = r.query ∧ r'.body = r.body ∧
    r'.headers.filter isKept = r.headers.filter isKept

theorem not_relaysAsParsed_scriptGet :
    ¬ ∀ (buf : Text) (lim : Limits) (n : ℕ) (r : Request), parseRequest buf lim = .ok n r →
      ∀ host, RelaysAsParsed r host lim := by
  intro h
  obtain ⟨r', hparse, -, hpath, -⟩ :=
    h scriptGet {} 33 scriptRequest (by decide +kernel) ['u']
  have hshim : parseRequest (forwardRequest scriptRequest ['u']) {} =
      .ok (forwardRequest scriptRequest ['u']).length (relayed scriptRequest ['u']) := by
    decide +kernel
  rw [hshim] at hparse
  obtain rfl := (Parse.ok.inj hparse).2
  exact absurd hpath (by decide +kernel)

end Machino.Http
