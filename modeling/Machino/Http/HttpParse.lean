import Machino.Basic.Lines
import Machino.Core.Number

namespace Machino.Http

abbrev Field := Text × Text

structure Request where
  method : Text
  path : Text
  query : Text
  /-- Names in lower case. -/
  headers : List Field
  body : Text := []
  contentLength : ℕ := 0
  keepAlive : Bool := true
  deriving DecidableEq

/-- The value of the first field of the name, empty where there is none. -/
def header (headers : List Field) (n : Text) : Text :=
  match headers.find? fun h => h.1 = n with
  | some h => h.2
  | none => []

def lowerChar (c : Char) : Char :=
  if 'A' ≤ c ∧ c ≤ 'Z' then Char.ofNat (c.toNat + 32) else c

def lower (s : Text) : Text := s.map lowerChar

def isBlank (c : Char) : Bool := c = ' ' || c = '\t'

/-- What is taken off the end of a text. -/
def isEdge (c : Char) : Bool := isBlank c || c = '\r'

/-- Blanks in front, blanks and carriage returns behind. Where nothing but those is there, the end of
the text is `npos`, and the length behind the blanks wraps. -/
def trim (s : Text) : Text :=
  let t := s.dropWhile isBlank
  if s.all isEdge then
    if t.length = s.length then [] else t
  else (t.reverse.dropWhile isEdge).reverse

/-- On a machine where a `size_t` has 32 bits no sum of them wraps. -/
structure Limits where
  maxHead : ℕ := 8192
  maxHeaders : ℕ := 32
  maxBody : ℕ := 8192
  headOnly : Bool := false
  room : maxHead + 4 + maxBody < 2 ^ 32 := by decide

inductive Parse where
  | incomplete
  | ok (consumed : ℕ) (r : Request)
  | bad
  | tooLarge
  deriving DecidableEq

def crlf : Text := ['\r', '\n']

def headEnd (buf : Text) : Option ℕ := Text.find (crlf ++ crlf) buf

structure RequestLine where
  method : Text
  path : Text
  query : Text
  keepAlive : Bool
  deriving DecidableEq

/-- What a percent sign stands in front of where it encodes a dot. -/
def isEncodedDot : Text → Bool
  | '2' :: c :: _ => c = 'e' || c = 'E'
  | _ => false

def hasEncodedDot : Text → Bool
  | [] => false
  | c :: s => (c = '%' && isEncodedDot s) || hasEncodedDot s

/-- The text in front of the first sign, and what is behind it. -/
def cut (sep : Char) : Text → Text × Option Text
  | [] => ([], none)
  | c :: s => if c = sep then ([], some s) else (c :: (cut sep s).1, (cut sep s).2)

def isUpper (c : Char) : Bool := 'A' ≤ c && c ≤ 'Z'

def isVchar (c : Char) : Bool := 0x21 ≤ c.toNat && c.toNat ≠ 0x7f

def http11 : Text := "HTTP/1.1".toList
def http10 : Text := "HTTP/1.0".toList

/-- The checks of the three parts of a request line. -/
def parseTarget (method target version : Text) : Option RequestLine :=
  if version ≠ http11 ∧ version ≠ http10 then none
  else if target.head? ≠ some '/' then none
  else if !target.all isVchar then none
  else
    let path := (cut '?' target).1
    if (Text.find ['.', '.'] path).isSome then none
    else if hasEncodedDot path then none
    else if !method.all isUpper then none
    else some ⟨method, path, (cut '?' target).2.getD [], version = http11⟩

/-- A request line is a method, a target and a version between the first and the last space. -/
def parseRequestLine (line : Text) : Option RequestLine :=
  let method := line.takeWhile (· ≠ ' ')
  let version := (line.reverse.takeWhile (· ≠ ' ')).reverse
  if line.count ' ' < 2 ∨ 2048 < line.length then none
  else
    let target := (line.drop (method.length + 1)).take
      (line.length - version.length - 1 - (method.length + 1))
    parseTarget method target version

def isControl (c : Char) : Bool := c.toNat < 0x20 && c ≠ '\t' && c ≠ '\r'

/-- A field line without control characters, and with a name in front of a colon. -/
def parseField (h : Text) : Option Field :=
  if h.any isControl then none
  else
    match (cut ':' h).2 with
    | none => none
    | some v =>
      let name := trim (lower (cut ':' h).1)
      if name = [] then none else some (name, trim v)

/-- The loop over the field lines behind those that have been read. -/
def parseFields (maxHeaders : ℕ) : List Field → List Text → Option (List Field)
  | hs, [] => some hs
  | hs, h :: ls =>
    match parseField h with
    | none => none
    | some f => if maxHeaders ≤ hs.length then none else parseFields maxHeaders (hs ++ [f]) ls

def contentLengthName : Text := "content-length".toList
def transferEncodingName : Text := "transfer-encoding".toList

def isDecimal (s : Text) : Bool := s.all fun c => '0' ≤ c && c ≤ '9'

/-- The longest body that may be declared. -/
def Limits.longest (lim : Limits) : ℕ := if lim.headOnly then (2 ^ 32 - 1) / 2 else lim.maxBody

/-- The declared length of the body, where the fields allow one reading of it only. -/
def declaredLength (lim : Limits) (headers : List Field) : Except Parse ℕ :=
  if 1 < headers.countP fun h => h.1 = contentLengthName then .error .bad
  else
    let cl := header headers contentLengthName
    if cl = [] then .ok 0
    else if !isDecimal cl then .error .bad
    else if lim.longest < (Text.strtoull cl).toNat then .error .tooLarge
    else .ok (Text.strtoull cl).toNat

def keepAlive (line : RequestLine) (headers : List Field) : Bool :=
  let conn := lower (header headers "connection".toList)
  if conn = "close".toList then false
  else if conn = "keep-alive".toList then true
  else line.keepAlive

/-- The request line and the fields of a head. -/
def parseHead (head : Text) (lim : Limits) : Option (RequestLine × List Field) :=
  match PairLines.lines '\r' '\n' head with
  | [] => none
  | l :: ls =>
    match parseRequestLine l, parseFields lim.maxHeaders [] ls with
    | some line, some headers => some (line, headers)
    | _, _ => none

/-- The request that is made of the parts of a head, and of the body behind it. -/
def requestOf (buf : Text) (lim : Limits) (stop : ℕ) (line : RequestLine) (headers : List Field)
    (bodyLen : ℕ) : Request where
  method := line.method
  path := line.path
  query := line.query
  headers := headers
  body := if lim.headOnly then [] else (buf.drop (stop + 4)).take bodyLen
  contentLength := bodyLen
  keepAlive := keepAlive line headers

/-- The body behind a head that ends at `stop`; with `headOnly` it is left to the caller. -/
def takeBody (buf : Text) (lim : Limits) (stop : ℕ) (line : RequestLine) (headers : List Field) :
    Parse :=
  match declaredLength lim headers with
  | .error e => e
  | .ok bodyLen =>
    if header headers transferEncodingName ≠ [] then .bad
    else if lim.headOnly then .ok (stop + 4) (requestOf buf lim stop line headers bodyLen)
    else if buf.length < stop + 4 + bodyLen then .incomplete
    else .ok (stop + 4 + bodyLen) (requestOf buf lim stop line headers bodyLen)

def parseRequest (buf : Text) (lim : Limits) : Parse :=
  match headEnd buf with
  | none => if lim.maxHead < buf.length then .tooLarge else .incomplete
  | some stop =>
    if lim.maxHead < stop then .tooLarge
    else
      match parseHead (buf.take stop) lim with
      | none => .bad
      | some (line, headers) => takeBody buf lim stop line headers

theorem parseFields_eq_some {m : ℕ} {hs hs' : List Field} {ls : List Text}
    (h : parseFields m hs ls = some hs') : hs' = hs ++ ls.filterMap parseField := by
  induction ls generalizing hs with
  | nil => simpa [parseFields] using h.symm
  | cons l ls ih =>
    rw [parseFields] at h
    cases hl : parseField l with
    | none => simp [hl] at h
    | some f =>
      simp only [hl] at h
      split at h
      · exact absurd h (by simp)
      · rw [ih h, List.filterMap_cons_some hl, List.append_assoc, List.singleton_append]

theorem parseHead_eq_some {head : Text} {lim : Limits} {line : RequestLine} {hs : List Field} :
    parseHead head lim = some (line, hs) ↔ ∃ l ls, PairLines.lines '\r' '\n' head = l :: ls ∧
      parseRequestLine l = some line ∧ parseFields lim.maxHeaders [] ls = some hs := by
  unfold parseHead
  cases PairLines.lines '\r' '\n' head with
  | nil => simp
  | cons l ls =>
    cases hline : parseRequestLine l with
    | none => simp [hline]
    | some line' =>
      cases hfields : parseFields lim.maxHeaders [] ls with
      | none => simp [hfields]
      | some hs' => simp [hline, hfields]

theorem toNat_strtoull_of_isDecimal {s : Text} (h : isDecimal s = true) :
    (Text.strtoull s).toNat = min (Nat.ofDigitChars 10 s 0) (2 ^ 64 - 1) := by
  refine Text.strtoull_of_digits (List.all_eq_true.mpr fun c hc => ?_)
  have hc := List.all_eq_true.mp h c hc
  rw [Bool.and_eq_true, decide_eq_true_iff, decide_eq_true_iff] at hc
  exact Char.isDigit_iff_toNat.mpr hc

theorem declaredLength_eq_ok {lim : Limits} {hs : List Field} {n : ℕ} :
    declaredLength lim hs = .ok n ↔ hs.countP (fun h => h.1 = contentLengthName) ≤ 1 ∧
      ((header hs contentLengthName = [] ∧ n = 0) ∨
        (header hs contentLengthName ≠ [] ∧ isDecimal (header hs contentLengthName) = true ∧
          n = (Text.strtoull (header hs contentLengthName)).toNat ∧ n ≤ lim.longest)) := by
  unfold declaredLength
  dsimp only
  split_ifs with hcount hcl hdigits hlong
  · simp [Nat.not_le.mpr hcount]
  · simp only [Except.ok.injEq, hcl, ne_eq, not_true, false_and, or_false, true_and]
    exact ⟨fun h => ⟨Nat.not_lt.mp hcount, h.symm⟩, fun h => h.2.symm⟩
  · simp [hcl, (Bool.not_eq_true' _).mp hdigits]
  · simp only [false_iff]
    rintro ⟨-, ⟨hnil, -⟩ | ⟨-, -, rfl, hn⟩⟩
    · exact hcl hnil
    · exact absurd hlong (Nat.not_lt.mpr hn)
  · have hdec : isDecimal (header hs contentLengthName) = true := by simpa using hdigits
    simp only [Except.ok.injEq, hcl, false_and, false_or, ne_eq, not_false_eq_true, true_and, hdec]
    exact ⟨fun h => ⟨Nat.not_lt.mp hcount, h.symm, h ▸ Nat.not_lt.mp hlong⟩, fun h => h.2.1.symm⟩

theorem declaredLength_error {lim : Limits} {hs : List Field} {e : Parse} (n : ℕ) (r : Request)
    (h : declaredLength lim hs = .error e) : e ≠ .ok n r := by
  unfold declaredLength at h
  dsimp only at h
  split_ifs at h <;> cases h <;> exact Parse.noConfusion

/-- What is left to check behind the head, and what the request is then. -/
theorem takeBody_eq_ok {buf : Text} {lim : Limits} {stop : ℕ} {line : RequestLine}
    {hs : List Field} {n : ℕ} {r : Request} :
    takeBody buf lim stop line hs = .ok n r ↔ ∃ bodyLen, declaredLength lim hs = .ok bodyLen ∧
      header hs transferEncodingName = [] ∧ r = requestOf buf lim stop line hs bodyLen ∧
      n = (stop + 4 + if lim.headOnly then 0 else bodyLen) ∧
      (lim.headOnly = true ∨ n ≤ buf.length) := by
  unfold takeBody
  cases hdecl : declaredLength lim hs with
  | error e => simpa using declaredLength_error n r hdecl
  | ok bodyLen =>
    simp only [Except.ok.injEq, exists_eq_left']
    by_cases henc : header hs transferEncodingName = []
    · cases hhead : lim.headOnly with
      | true =>
        simp only [henc, ne_eq, not_true, if_false, if_true, Parse.ok.injEq, true_and, true_or,
          and_true, Nat.add_zero]
        exact ⟨fun h => ⟨h.2.symm, h.1.symm⟩, fun h => ⟨h.2.symm, h.1.symm⟩⟩
      | false =>
        simp only [henc, ne_eq, not_true, if_false, Bool.false_eq_true, true_and, false_or]
        split_ifs with hshort
        · simp only [false_iff, not_and]
          omega
        · simp only [Parse.ok.injEq]
          constructor
          · rintro ⟨rfl, rfl⟩
            exact ⟨rfl, rfl, Nat.not_lt.mp hshort⟩
          · rintro ⟨rfl, rfl, -⟩
            exact ⟨rfl, rfl⟩
    · simp [henc]

/-- The parts of a message that is accepted. -/
structure Accepted (buf : Text) (lim : Limits) (n : ℕ) (r : Request) (stop : ℕ) (l : Text)
    (ls : List Text) (line : RequestLine) : Prop where
  headEnd : headEnd buf = some stop
  short : stop ≤ lim.maxHead
  lines : PairLines.lines '\r' '\n' (buf.take stop) = l :: ls
  parsed : parseRequestLine l = some line
  fields : parseFields lim.maxHeaders [] ls = some r.headers
  declared : declaredLength lim r.headers = .ok r.contentLength
  encoding : header r.headers transferEncodingName = []
  request : r = requestOf buf lim stop line r.headers r.contentLength
  consumed : n = stop + 4 + if lim.headOnly then 0 else r.contentLength
  complete : lim.headOnly = true ∨ n ≤ buf.length

theorem parseRequest_eq_ok {buf : Text} {lim : Limits} {n : ℕ} {r : Request} :
    parseRequest buf lim = .ok n r ↔ ∃ stop l ls line, Accepted buf lim n r stop l ls line := by
  unfold parseRequest
  constructor
  · intro h
    cases hstop : headEnd buf with
    | none =>
      rw [hstop] at h
      dsimp only at h
      split_ifs at h
    | some stop =>
      rw [hstop] at h
      dsimp only at h
      split_ifs at h with hshort
      cases hhead : parseHead (buf.take stop) lim with
      | none => simp [hhead] at h
      | some p =>
        obtain ⟨line, hs⟩ := p
        rw [hhead] at h
        obtain ⟨l, ls, hlines, hline, hfields⟩ := parseHead_eq_some.mp hhead
        obtain ⟨bodyLen, hdecl, henc, rfl, hn, hcomplete⟩ := takeBody_eq_ok.mp h
        exact ⟨stop, l, ls, line, hstop, Nat.not_lt.mp hshort, hlines, hline, hfields, hdecl, henc,
          rfl, hn, hcomplete⟩
  · rintro ⟨stop, l, ls, line, h⟩
    have hhead : parseHead (buf.take stop) lim = some (line, r.headers) :=
      parseHead_eq_some.mpr ⟨l, ls, h.lines, h.parsed, h.fields⟩
    have hbody := takeBody_eq_ok.mpr
      ⟨r.contentLength, h.declared, h.encoding, h.request, h.consumed, h.complete⟩
    simpa [h.headEnd, Nat.not_lt.mpr h.short, hhead] using hbody

/-- The field lines of a message, each as the parser reads it. -/
def fieldsOf (buf : Text) : List Field :=
  match headEnd buf with
  | none => []
  | some stop => (PairLines.lines '\r' '\n' (buf.take stop)).tail.filterMap parseField

def isContentLength (h : Field) : Bool := h.1 = contentLengthName
def isTransferEncoding (h : Field) : Bool := h.1 = transferEncodingName

/-- What the length field denotes, 0 where there is none. -/
def lengthOf (hs : List Field) : ℕ := Nat.ofDigitChars 10 (header hs contentLengthName) 0

/-- There is one reading only of where the message ends, and `n` bytes are it. -/
structure FramedBy (buf : Text) (n : ℕ) : Prop where
  one : (fieldsOf buf).countP isContentLength ≤ 1
  decimal : ∀ h ∈ fieldsOf buf, isContentLength h = true → h.2 ≠ [] ∧ isDecimal h.2 = true
  plain : ∀ h ∈ fieldsOf buf, isTransferEncoding h = true → h.2 = []
  consumed : ∃ stop, headEnd buf = some stop ∧ n = stop + 4 + lengthOf (fieldsOf buf)

/-- No length field is empty, no encoding stands in a field behind the first of the name, and where
the head alone is asked for no body is announced. -/
structure Unambiguous (buf : Text) (lim : Limits) : Prop where
  filled : ∀ h ∈ fieldsOf buf, isContentLength h = true → h.2 ≠ []
  behind : ∀ h ∈ ((fieldsOf buf).filter isTransferEncoding).tail, h.2 = []
  bodiless : lim.headOnly = true → lengthOf (fieldsOf buf) = 0

/-- The lookup takes the first field of the name. -/
theorem header_eq_head (hs : List Field) (n : Text) :
    header hs n = ((hs.filter fun h => h.1 = n).head?.map Prod.snd).getD [] := by
  unfold header
  rw [List.head?_filter]
  cases hs.find? fun h => h.1 = n <;> rfl

/-- Where no other field has the name, the lookup finds the one that has. -/
theorem header_of_mem {hs : List Field} {n : Text} (hcount : hs.countP (fun h => h.1 = n) ≤ 1)
    {h : Field} (hmem : h ∈ hs) (hname : h.1 = n) : header hs n = h.2 := by
  have hfilter : h ∈ hs.filter fun h => h.1 = n := by simp [hmem, hname]
  rw [List.countP_eq_length_filter] at hcount
  obtain ⟨f, hf⟩ := List.length_eq_one_iff.mp
    (le_antisymm hcount (List.length_pos_of_mem hfilter))
  rw [hf, List.mem_singleton] at hfilter
  rw [header_eq_head, hf, hfilter]
  rfl

/-- The length that is worked with is the one that the field denotes. -/
theorem lengthOf_of_declared {lim : Limits} {hs : List Field} {n : ℕ}
    (h : declaredLength lim hs = .ok n) : lengthOf hs = n := by
  obtain ⟨-, ⟨hnil, rfl⟩ | ⟨-, hdec, hn, hlong⟩⟩ := declaredLength_eq_ok.mp h
  · rw [lengthOf, hnil]
    rfl
  · have hlongest : lim.longest < 2 ^ 32 := by
      have hroom := lim.room
      unfold Limits.longest
      split_ifs <;> omega
    rw [toNat_strtoull_of_isDecimal hdec] at hn
    unfold lengthOf
    omega

theorem fieldsOf_of_accepted {buf : Text} {lim : Limits} {n : ℕ} {r : Request} {stop : ℕ} {l : Text}
    {ls : List Text} {line : RequestLine} (h : Accepted buf lim n r stop l ls line) :
    fieldsOf buf = r.headers := by
  have hfields := parseFields_eq_some h.fields
  rw [List.nil_append] at hfields
  rw [hfields, fieldsOf, h.headEnd]
  exact congrArg (List.filterMap parseField ·.tail) h.lines

/-- An accepted message has one reading just where it is unambiguous. -/
theorem framedBy_iff {buf : Text} {lim : Limits} {n : ℕ} {r : Request}
    (h : parseRequest buf lim = .ok n r) : FramedBy buf n ↔ Unambiguous buf lim := by
  obtain ⟨stop, l, ls, line, hacc⟩ := parseRequest_eq_ok.mp h
  have hfields := fieldsOf_of_accepted hacc
  have hlength : lengthOf (fieldsOf buf) = r.contentLength := by
    rw [hfields]
    exact lengthOf_of_declared hacc.declared
  obtain ⟨hone, hvalue⟩ := declaredLength_eq_ok.mp hacc.declared
  have henc := hacc.encoding
  rw [← hfields] at hone hvalue henc
  constructor
  · intro hf
    refine ⟨fun f hmem hcl => (hf.decimal f hmem hcl).1, fun f hmem => ?_, fun hhead => ?_⟩
    · obtain ⟨hmem, hte⟩ := List.mem_filter.mp (List.mem_of_mem_tail hmem)
      exact hf.plain f hmem hte
    · obtain ⟨stop', hstop', hn⟩ := hf.consumed
      obtain rfl := Option.some.inj (hacc.headEnd.symm.trans hstop')
      have hconsumed := hacc.consumed
      rw [if_pos hhead] at hconsumed
      omega
  · intro hu
    refine ⟨hone, fun f hmem hcl => ?_, fun f hmem hte => ?_, stop, hacc.headEnd, ?_⟩
    · have hne := hu.filled f hmem hcl
      have hfound := header_of_mem hone hmem (of_decide_eq_true hcl)
      obtain ⟨hnil, -⟩ | ⟨-, hdec, -⟩ := hvalue
      · exact absurd (hfound.symm.trans hnil) hne
      · exact ⟨hne, hfound ▸ hdec⟩
    · have hf : f ∈ (fieldsOf buf).filter isTransferEncoding := List.mem_filter.mpr ⟨hmem, hte⟩
      have hhead := header_eq_head (fieldsOf buf) transferEncodingName
      have hbehind := hu.behind
      change _ = (((fieldsOf buf).filter isTransferEncoding).head?.map Prod.snd).getD [] at hhead
      cases hlist : (fieldsOf buf).filter isTransferEncoding with
      | nil => exact absurd (hlist ▸ hf) List.not_mem_nil
      | cons g gs =>
        rw [hlist] at hf hhead hbehind
        rcases List.mem_cons.mp hf with rfl | hf
        · exact hhead.symm.trans henc
        · exact hbehind f hf
    · rw [hlength, hacc.consumed]
      split_ifs with hhead
      · rw [← hlength, hu.bodiless hhead]
      · rfl

def fiveBytes : Text := "POST / HTTP/1.1\r\nContent-Length: 5\r\n\r\nhello".toList

/-- The first of the two fields is empty, and no look is taken at the second. -/
def twoEncodings : Text :=
  "GET / HTTP/1.1\r\nTransfer-Encoding:\r\nTransfer-Encoding: chunked\r\n\r\n".toList

theorem framedBy_fiveBytes : FramedBy fiveBytes 43 :=
  (@framedBy_iff fiveBytes {} 43
    { method := "POST".toList, path := ['/'], query := []
      headers := [(contentLengthName, ['5'])], body := "hello".toList, contentLength := 5 }
    (by decide +kernel)).mpr ⟨by decide +kernel, by decide +kernel, fun h => absurd h (by decide)⟩

theorem not_framedBy_twoEncodings :
    ¬ ∀ (buf : Text) (lim : Limits) (n : ℕ) (r : Request), parseRequest buf lim = .ok n r →
      FramedBy buf n := by
  intro h
  have hplain := (h twoEncodings {} 66
    { method := "GET".toList, path := ['/'], query := []
      headers := [(transferEncodingName, []), (transferEncodingName, "chunked".toList)] }
    (by decide +kernel)).plain (transferEncodingName, "chunked".toList) (by decide +kernel) rfl
  exact absurd hplain (by decide +kernel)

end Machino.Http
