import Mathlib.Data.List.Chain
import Machino.Http.HttpParse

namespace Machino.Http

def stockJson : Text := "/cgi-bin/j/".toList
def shimJson : Text := "/cgi-bin/machino-cgi-run.cgi/j/".toList

/-- `isalnum` in the C locale. -/
def isAlnum (c : Char) : Bool :=
  ('0' ≤ c && c ≤ '9') || ('A' ≤ c && c ≤ 'Z') || ('a' ≤ c && c ≤ 'z')

/-- The script behind the directory of the stock JSON scripts, where the path names one. -/
def isStockJsonCgi (path : Text) : Option Text :=
  if !stockJson.isPrefixOf path then none
  else
    let tail := path.drop stockJson.length
    if tail.length < 5 ∨ !".cgi".toList.isSuffixOf tail then none
    else if tail.all fun c => isAlnum c || c = '.' || c = '_' || c = '-' then some tail
    else none

/-- The path that is asked of the upstream server: the stock scripts run below a shim. -/
def relayedPath (r : Request) : Text :=
  match isStockJsonCgi r.path with
  | some tail => if r.method ≠ "OPTIONS".toList then shimJson ++ tail else r.path
  | none => r.path

/-- Fields that are not handed on: those of one hop, and those that are set anew. -/
def droppedNames : List Text :=
  ["host", "connection", "keep-alive", "proxy-connection", "transfer-encoding", "upgrade",
    "content-length", "te"].map String.toList

def isKept (h : Field) : Bool := !droppedNames.contains h.1

def printField (name value : Text) : Text := name ++ ": ".toList ++ value ++ crlf

def forwardRequest (r : Request) (upstreamHost : Text) : Text :=
  let target := if r.query = [] then relayedPath r else relayedPath r ++ '?' :: r.query
  r.method ++ ' ' :: (target ++ ' ' :: http10) ++ crlf ++
    (r.headers.filter isKept).flatMap (fun h => printField h.1 h.2) ++
    printField "Host".toList upstreamHost ++
    printField "Connection".toList "close".toList ++
    (if r.body = [] then []
      else printField "Content-Length".toList (Nat.toDigits 10 r.body.length)) ++
    crlf ++ r.body

theorem cut_of_notMem {sep : Char} {s : Text} (h : sep ∉ s) : cut sep s = (s, none) := by
  induction s with
  | nil => rfl
  | cons c s ih =>
    rw [List.mem_cons, not_or] at h
    rw [cut, if_neg (Ne.symm h.1), ih h.2]

theorem cut_append {sep : Char} {s : Text} (h : sep ∉ s) (t : Text) :
    cut sep (s ++ sep :: t) = (s, some t) := by
  induction s with
  | nil => simp [cut]
  | cons c s ih =>
    rw [List.mem_cons, not_or] at h
    rw [List.cons_append, cut, if_neg (Ne.symm h.1), ih h.2]

/-- The two parts make up the text. -/
theorem cut_spec (sep : Char) (s : Text) : sep ∉ (cut sep s).1 ∧
    s = (cut sep s).1 ++ ((cut sep s).2.map (sep :: ·)).getD [] := by
  induction s with
  | nil => simp [cut]
  | cons c s ih =>
    rw [cut]
    split_ifs with hc
    · simp [hc]
    · refine ⟨?_, ?_⟩
      · simpa [Ne.symm hc] using ih.1
      · rw [List.cons_append, ← ih.2]

theorem takeWhile_ne_append {c : Char} {s : Text} (h : c ∉ s) (t : Text) :
    (s ++ c :: t).takeWhile (· ≠ c) = s := by
  have hpass : ∀ x ∈ s, decide (x ≠ c) = true := by
    intro x hx
    simpa using fun heq : x = c => h (heq ▸ hx)
  rw [List.takeWhile_append_of_pos hpass]
  simp

/-- The line is taken apart at the first and the last space. -/
theorem parseRequestLine_append {m t v : Text} (hm : ' ' ∉ m) (hv : ' ' ∉ v)
    (hlen : (m ++ ' ' :: (t ++ ' ' :: v)).length ≤ 2048) :
    parseRequestLine (m ++ ' ' :: (t ++ ' ' :: v)) = parseTarget m t v := by
  have hmethod := takeWhile_ne_append hm (t ++ ' ' :: v)
  have hversion : ((m ++ ' ' :: (t ++ ' ' :: v)).reverse.takeWhile (· ≠ ' ')).reverse = v := by
    have hrev : (m ++ ' ' :: (t ++ ' ' :: v)).reverse =
        v.reverse ++ ' ' :: (t.reverse ++ ' ' :: m.reverse) := by simp
    rw [hrev, takeWhile_ne_append (by simpa using hv), List.reverse_reverse]
  have hcount : ¬ ((m ++ ' ' :: (t ++ ' ' :: v)).count ' ' < 2 ∨
      2048 < (m ++ ' ' :: (t ++ ' ' :: v)).length) := by
    rw [not_or]
    refine ⟨?_, Nat.not_lt.mpr hlen⟩
    simp only [List.count_append, List.count_cons_self]
    omega
  unfold parseRequestLine
  dsimp only
  rw [hmethod, hversion, if_neg hcount]
  congr 1
  have hdrop : (m ++ ' ' :: (t ++ ' ' :: v)).drop (m.length + 1) = t ++ ' ' :: v := by
    rw [List.drop_append]
    simp
  rw [hdrop]
  have hlength : (m ++ ' ' :: (t ++ ' ' :: v)).length - v.length - 1 - (m.length + 1) =
      t.length := by
    simp only [List.length_append, List.length_cons]
    omega
  rw [hlength, List.take_left]

theorem exists_append_of_mem {c : Char} {s : Text} (h : c ∈ s) :
    ∃ p q, c ∉ p ∧ s = p ++ c :: q := by
  obtain ⟨hnot, heq⟩ := cut_spec c s
  cases hrest : (cut c s).2 with
  | none =>
    rw [hrest] at heq
    simp only [Option.map_none, Option.getD_none, List.append_nil] at heq
    exact absurd (heq ▸ h) hnot
  | some q =>
    rw [hrest] at heq
    exact ⟨_, q, hnot, heq⟩

/-- Every line that is accepted is of this shape. -/
theorem exists_of_parseRequestLine {l : Text} {line : RequestLine}
    (h : parseRequestLine l = some line) : ∃ m t v, ' ' ∉ m ∧ ' ' ∉ v ∧
      l = m ++ ' ' :: (t ++ ' ' :: v) ∧ l.length ≤ 2048 ∧ parseTarget m t v = some line := by
  have hcheck : ¬ (l.count ' ' < 2 ∨ 2048 < l.length) := by
    intro hbad
    unfold parseRequestLine at h
    dsimp only at h
    rw [if_pos hbad] at h
    exact absurd h (by simp)
  rw [not_or, Nat.not_lt, Nat.not_lt] at hcheck
  obtain ⟨hcount, hlen⟩ := hcheck
  obtain ⟨m, rest, hm, hl⟩ := exists_append_of_mem (List.count_pos_iff.mp (by omega : 0 < l.count ' '))
  have hrest : ' ' ∈ rest.reverse := by
    rw [hl, List.count_append, List.count_cons_self, List.count_eq_zero.mpr hm] at hcount
    simpa using List.count_pos_iff.mp (by omega : 0 < rest.count ' ')
  obtain ⟨v, t, hv, ht⟩ := exists_append_of_mem hrest
  have hsplit : rest = t.reverse ++ ' ' :: v.reverse := by
    rw [← List.reverse_reverse rest, ht]
    simp
  rw [hsplit] at hl
  have hv' : ' ' ∉ v.reverse := by simpa using hv
  refine ⟨m, t.reverse, v.reverse, hm, hv', hl, hlen, ?_⟩
  rwa [hl, parseRequestLine_append hm hv' (hl ▸ hlen)] at h

/-- What is known of the path of an accepted request. -/
structure PathRead (p : Text) : Prop where
  slash : p.head? = some '/'
  visible : p.all isVchar = true
  noQuery : '?' ∉ p
  noDots : p.IsChain fun a b => ¬ (a = '.' ∧ b = '.')
  noEncodedDot : hasEncodedDot p = false

theorem find_dots_eq_none {s : Text} :
    Text.find ['.', '.'] s = none ↔ s.IsChain fun a b => ¬ (a = '.' ∧ b = '.') := by
  induction s with
  | nil => simp [Text.find]
  | cons a s ih =>
    cases s with
    | nil => simp [Text.find]
    | cons b s =>
      rw [Text.find, List.isChain_cons_cons]
      by_cases hdots : a = '.' ∧ b = '.'
      · obtain ⟨rfl, rfl⟩ := hdots
        have hyes : ['.', '.'].isPrefixOf ('.' :: '.' :: s) = true := rfl
        rw [if_pos hyes]
        exact ⟨fun h => absurd h (Option.some_ne_none _), fun h => absurd ⟨rfl, rfl⟩ h.1⟩
      · have hnot : ['.', '.'].isPrefixOf (a :: b :: s) = false := by
          rw [Bool.eq_false_iff, ne_eq, List.isPrefixOf_iff_prefix, List.cons_prefix_cons,
            List.cons_prefix_cons]
          exact fun h => hdots ⟨h.1.symm, h.2.1.symm⟩
        rw [hnot, if_neg Bool.false_ne_true, Option.map_eq_none_iff, ih]
        exact ⟨fun h => ⟨hdots, h⟩, fun h => h.2⟩

theorem hasEncodedDot_append {p : Text} (h : '%' ∉ p) (s : Text) :
    hasEncodedDot (p ++ s) = hasEncodedDot s := by
  induction p with
  | nil => rfl
  | cons c p ih =>
    rw [List.mem_cons, not_or] at h
    simp [hasEncodedDot, Ne.symm h.1, ih h.2]

theorem isStockJsonCgi_eq_some {p tail : Text} (h : isStockJsonCgi p = some tail) :
    p = stockJson ++ tail := by
  unfold isStockJsonCgi at h
  split_ifs at h with hpre
  have hfront : stockJson <+: p := by simpa using hpre
  have hpath := List.prefix_iff_eq_append.mp hfront
  dsimp only at h
  split_ifs at h
  rw [← Option.some.inj h]
  exact hpath.symm

theorem PathRead.relayed {r : Request} (h : PathRead r.path) : PathRead (relayedPath r) := by
  unfold relayedPath
  cases hstock : isStockJsonCgi r.path with
  | none => exact h
  | some tail =>
    dsimp only
    split_ifs with hmethod
    · have hpath := isStockJsonCgi_eq_some hstock
      obtain ⟨-, hvisible, hquery, hdots, hencoded⟩ := h
      rw [hpath] at hvisible hquery hdots hencoded
      rw [List.all_append, Bool.and_eq_true] at hvisible
      rw [List.mem_append, not_or] at hquery
      obtain ⟨-, hdots, -⟩ := List.isChain_append.mp hdots
      rw [hasEncodedDot_append (by decide)] at hencoded
      refine ⟨rfl, ?_, ?_, ?_, ?_⟩
      · rw [List.all_append, hvisible.2]
        decide
      · rw [List.mem_append, not_or]
        exact ⟨by decide, hquery.2⟩
      · refine List.isChain_append.mpr ⟨by decide, hdots, ?_⟩
        intro a ha b _ hab
        rw [show shimJson.getLast? = some '/' from rfl, Option.mem_some_iff] at ha
        exact absurd (ha.trans hab.1) (by decide)
      · rw [hasEncodedDot_append (by decide), hencoded]
    · exact h

/-- What is known of the parts of a request line that is accepted. -/
theorem parseTarget_spec {m t v : Text} {line : RequestLine}
    (h : parseTarget m t v = some line) : v.length = 8 ∧ PathRead line.path ∧
      line.query.all isVchar = true ∧ line.method = m ∧ m.all isUpper = true ∧
      line.path.length + (if line.query = [] then 0 else line.query.length + 1) ≤ t.length := by
  unfold parseTarget at h
  dsimp only at h
  split_ifs at h with hv ht hvis hdots henc hm
  obtain rfl := Option.some.inj h
  obtain ⟨hquery, hcut⟩ := cut_spec '?' t
  have hvisible : t.all isVchar = true := by simpa using hvis
  have hslash : t.head? = some '/' := not_not.mp ht
  have hdots : Text.find ['.', '.'] (cut '?' t).1 = none := by simpa using hdots
  have hupper : m.all isUpper = true := by simpa using hm
  have hversion : v.length = 8 := by
    rcases not_and_or.mp hv with h | h
    · rw [not_not.mp h]
      rfl
    · rw [not_not.mp h]
      rfl
  cases hrest : (cut '?' t).2 with
  | none =>
    rw [hrest, Option.map_none, Option.getD_none, List.append_nil] at hcut
    rw [← hcut] at hquery hdots henc ⊢
    have henc' : hasEncodedDot t = false := by simpa using henc
    exact ⟨hversion, ⟨hslash, hvisible, hquery, find_dots_eq_none.mp hdots, henc'⟩, rfl, rfl,
      hupper, by simp⟩
  | some q =>
    rw [hrest, Option.map_some, Option.getD_some] at hcut
    rw [hcut, List.all_append, List.all_cons, Bool.and_eq_true, Bool.and_eq_true] at hvisible
    have henc' : hasEncodedDot (cut '?' t).1 = false := by simpa using henc
    have hhead : (cut '?' t).1.head? = some '/' := by
      cases hp : (cut '?' t).1 with
      | nil =>
        rw [hcut, hp] at hslash
        exact absurd (Option.some.inj hslash) (by decide)
      | cons c p =>
        rw [hcut, hp] at hslash
        exact hslash
    refine ⟨hversion, ⟨hhead, hvisible.1, hquery, find_dots_eq_none.mp hdots, henc'⟩,
      hvisible.2.2, rfl, hupper, ?_⟩
    have hlen := congrArg List.length hcut
    rw [List.length_append, List.length_cons] at hlen
    dsimp only [Option.getD_some]
    split_ifs <;> omega

/-- The target that is written again reads as the path and the query. -/
theorem parseTarget_target {m p q : Text} (hp : PathRead p) (hq : q.all isVchar = true)
    (hm : m.all isUpper = true) :
    parseTarget m (if q = [] then p else p ++ '?' :: q) http10 = some ⟨m, p, q, false⟩ := by
  have hcut : (cut '?' (if q = [] then p else p ++ '?' :: q)).1 = p ∧
      (cut '?' (if q = [] then p else p ++ '?' :: q)).2.getD [] = q := by
    split_ifs with hnil
    · rw [cut_of_notMem hp.noQuery, hnil]
      exact ⟨rfl, rfl⟩
    · rw [cut_append hp.noQuery]
      exact ⟨rfl, rfl⟩
  have hhead : (if q = [] then p else p ++ '?' :: q).head? = some '/' := by
    split_ifs with hnil
    · exact hp.slash
    · rw [List.head?_append, hp.slash]
      rfl
  have hvisible : (if q = [] then p else p ++ '?' :: q).all isVchar = true := by
    split_ifs with hnil
    · exact hp.visible
    · rw [List.all_append, hp.visible, List.all_cons, hq]
      rfl
  unfold parseTarget
  dsimp only
  rw [hcut.1, hcut.2, hhead, hvisible, find_dots_eq_none.mpr hp.noDots, hp.noEncodedDot, hm]
  rfl

/-- No blank in front, and nothing behind that `trim` takes off, unless that is all there is. -/
structure Trimmed (s : Text) : Prop where
  front : ∀ c ∈ s.head?, isBlank c = false
  back : s.all isEdge = true ∨ ∀ c ∈ s.getLast?, isEdge c = false

theorem trimmed_nil : Trimmed [] := ⟨by simp, .inl rfl⟩

theorem front_dropWhile (s : Text) : ∀ c ∈ (s.dropWhile isBlank).head?, isBlank c = false := by
  intro c hc
  have hhead := List.head?_dropWhile_not isBlank s
  rw [Option.mem_def.mp hc] at hhead
  simpa using hhead

theorem mem_trim {s : Text} {c : Char} (h : c ∈ trim s) : c ∈ s := by
  have hdrop := List.dropWhile_sublist isBlank (l := s)
  unfold trim at h
  dsimp only at h
  split_ifs at h
  · exact absurd h List.not_mem_nil
  · exact hdrop.subset h
  · rw [List.mem_reverse] at h
    exact hdrop.subset (List.mem_reverse.mp ((List.dropWhile_sublist isEdge).subset h))

theorem trimmed_trim (s : Text) : Trimmed (trim s) := by
  unfold trim
  dsimp only
  split_ifs with hall hlen
  · exact trimmed_nil
  · refine ⟨front_dropWhile s, .inl (List.all_eq_true.mpr fun c hc => ?_)⟩
    exact List.all_eq_true.mp hall c ((List.dropWhile_sublist isBlank).subset hc)
  · have hback : ∀ c ∈ ((s.dropWhile isBlank).reverse.dropWhile isEdge).reverse.getLast?,
        isEdge c = false := by
      intro c hc
      have hhead := List.head?_dropWhile_not isEdge (s.dropWhile isBlank).reverse
      rw [List.getLast?_reverse] at hc
      rw [Option.mem_def.mp hc] at hhead
      simpa using hhead
    refine ⟨fun c hc => front_dropWhile s c ?_, .inr hback⟩
    have hfront : ((s.dropWhile isBlank).reverse.dropWhile isEdge).reverse <+:
        s.dropWhile isBlank := by
      rw [← List.reverse_suffix, List.reverse_reverse]
      exact List.dropWhile_suffix isEdge
    obtain ⟨t, ht⟩ := hfront
    rw [← ht, List.head?_append, Option.mem_def.mp hc]
    rfl

theorem dropWhile_of_front {s : Text} (h : ∀ c ∈ s.head?, isBlank c = false) :
    s.dropWhile isBlank = s := by
  cases s with
  | nil => rfl
  | cons c s => rw [List.dropWhile_cons_of_neg (by simp [h c rfl])]

theorem rstrip_of_back {s : Text} (h : ∀ c ∈ s.getLast?, isEdge c = false) :
    (s.reverse.dropWhile isEdge).reverse = s := by
  rw [← List.head?_reverse] at h
  rw [← List.reverse_inj, List.reverse_reverse]
  cases hrev : s.reverse with
  | nil => rfl
  | cons c t => rw [List.dropWhile_cons_of_neg (by simp [h c (hrev ▸ rfl)])]

/-- The blank behind the colon is all that is taken off. -/
theorem trim_blank_cons {s : Text} (h : Trimmed s) : trim (' ' :: s) = s := by
  have hdrop : (' ' :: s).dropWhile isBlank = s := by
    rw [List.dropWhile_cons_of_pos (by decide), dropWhile_of_front h.front]
  unfold trim
  dsimp only
  rw [hdrop]
  split_ifs with hall hlen
  · simp at hlen
  · rfl
  · refine rstrip_of_back (h.back.resolve_left fun hs => hall ?_)
    rw [List.all_cons, hs]
    rfl

theorem trim_of_trimmed {s : Text} (h : Trimmed s) (hsolid : s.all isEdge = false) : trim s = s := by
  unfold trim
  dsimp only
  rw [dropWhile_of_front h.front, hsolid]
  exact rstrip_of_back (h.back.resolve_left (by simp [hsolid]))

theorem toNat_lowerChar {c : Char} (h : 'A' ≤ c ∧ c ≤ 'Z') :
    (lowerChar c).toNat = c.toNat + 32 := by
  have hle : c.toNat ≤ 90 := h.2
  have hvalid : (c.toNat + 32).isValidChar := .inl (by omega)
  rw [lowerChar, if_pos h, Char.ofNat, dif_pos hvalid]
  rfl

/-- A sign that is no capital letter stays, and nothing becomes a capital letter. -/
theorem lowerChar_cases (c : Char) :
    lowerChar c = c ∨ (97 ≤ (lowerChar c).toNat ∧ (lowerChar c).toNat ≤ 122) := by
  by_cases h : 'A' ≤ c ∧ c ≤ 'Z'
  · have hlow : 65 ≤ c.toNat := h.1
    have hhigh : c.toNat ≤ 90 := h.2
    rw [toNat_lowerChar h]
    exact .inr ⟨by omega, by omega⟩
  · exact .inl (if_neg h)

theorem lowerChar_lowerChar (c : Char) : lowerChar (lowerChar c) = lowerChar c := by
  obtain h | ⟨hlow, -⟩ := lowerChar_cases c
  · rw [h, h]
  · refine if_neg fun hup => ?_
    have hhigh : (lowerChar c).toNat ≤ 90 := hup.2
    omega

/-- What is known of a field that has been read. -/
structure FieldRead (h : Field) : Prop where
  name : h.1 ≠ []
  noColon : ':' ∉ h.1
  lowered : lower h.1 = h.1
  trimmedName : Trimmed h.1
  trimmedValue : Trimmed h.2
  plainName : h.1.any isControl = false
  plainValue : h.2.any isControl = false

theorem any_isControl_trim_lower {s : Text} (h : s.any isControl = false) :
    (trim (lower s)).any isControl = false := by
  rw [List.any_eq_false] at h ⊢
  intro c hc
  obtain ⟨d, hd, rfl⟩ := List.mem_map.mp (mem_trim hc)
  obtain hsame | ⟨hlow, -⟩ := lowerChar_cases d
  · rw [hsame]
    exact h d hd
  · have hnot : ¬ (lowerChar d).toNat < 0x20 := by omega
    simp [isControl, hnot]

theorem any_isControl_trim {s : Text} (h : s.any isControl = false) :
    (trim s).any isControl = false :=
  List.any_eq_false.mpr fun c hc => List.any_eq_false.mp h c (mem_trim hc)

theorem noColon_trim_lower {s : Text} (h : ':' ∉ s) : ':' ∉ trim (lower s) := by
  intro hc
  obtain ⟨d, hd, hcolon⟩ := List.mem_map.mp (mem_trim hc)
  obtain hsame | ⟨hlow, -⟩ := lowerChar_cases d
  · exact h ((hsame.symm.trans hcolon) ▸ hd)
  · rw [hcolon] at hlow
    exact absurd hlow (by decide)

theorem lower_trim_lower (s : Text) : lower (trim (lower s)) = trim (lower s) := by
  have hfix : ∀ c ∈ trim (lower s), lowerChar c = c := by
    intro c hc
    obtain ⟨d, -, rfl⟩ := List.mem_map.mp (mem_trim hc)
    exact lowerChar_lowerChar d
  exact (List.map_congr_left hfix).trans (List.map_id _)

theorem FieldRead.of_parseField {l : Text} {h : Field} (hl : parseField l = some h) :
    FieldRead h := by
  unfold parseField at hl
  split_ifs at hl with hcontrol
  obtain ⟨hcolon, hcut⟩ := cut_spec ':' l
  cases hrest : (cut ':' l).2 with
  | none => simp [hrest] at hl
  | some v =>
    simp only [hrest] at hl
    split_ifs at hl with hname
    obtain rfl := Option.some.inj hl
    rw [hrest, Option.map_some, Option.getD_some] at hcut
    have hplain : l.any isControl = false := by simpa using hcontrol
    rw [hcut, List.any_append, List.any_cons, Bool.or_eq_false_iff, Bool.or_eq_false_iff] at hplain
    exact ⟨hname, noColon_trim_lower hcolon, lower_trim_lower _, trimmed_trim _, trimmed_trim _,
      any_isControl_trim_lower hplain.1, any_isControl_trim hplain.2.2⟩

theorem parseField_line {n v : Text} (hcolon : ':' ∉ n) (hn : n.any isControl = false)
    (hv : v.any isControl = false) (hname : trim (lower n) ≠ []) :
    parseField (n ++ ": ".toList ++ v) = some (trim (lower n), trim (' ' :: v)) := by
  have hline : n ++ ": ".toList ++ v = n ++ ':' :: ' ' :: v := by simp
  have hplain : (n ++ ':' :: ' ' :: v).any isControl = false := by
    rw [List.any_append, hn, List.any_cons, List.any_cons, hv]
    decide
  rw [hline, parseField, hplain, cut_append hcolon, if_neg Bool.false_ne_true]
  exact if_neg hname

/-- A field that is written again reads as it was. -/
theorem parseField_print {h : Field} (hread : FieldRead h) (hsolid : h.1.all isEdge = false) :
    parseField (h.1 ++ ": ".toList ++ h.2) = some h := by
  have hname : trim (lower h.1) = h.1 := by
    rw [hread.lowered, trim_of_trimmed hread.trimmedName hsolid]
  have hne : trim (lower h.1) ≠ [] := fun hnil => hread.name (hname.symm.trans hnil)
  rw [parseField_line hread.noColon hread.plainName hread.plainValue hne, hname,
    trim_blank_cons hread.trimmedValue]

end Machino.Http
