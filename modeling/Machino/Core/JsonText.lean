import Mathlib.Data.Int.Log
import Mathlib.Data.Rat.Floor
import Machino.Core.Json
import Machino.Core.Number

namespace Machino

namespace Double

/-- The integer next to a number, the even one of two. -/
def roundHalfEven (x : ℚ) : ℤ :=
  let low := ⌊x⌋
  if x - low < 1 / 2 then low
  else if 1 / 2 < x - low then low + 1
  else if low % 2 = 0 then low
  else low + 1

/-- The exponent of the last of the 53 bits of a double. -/
def exponent (a : ℚ) : ℤ := max (Int.log 2 a - 52) (-1074)

/-- The double next to a number; none where it is not finite. -/
def ofRat (q : ℚ) : Option ℚ :=
  let unit : ℚ := 2 ^ exponent |q|
  let r : ℚ := roundHalfEven (|q| / unit) * unit
  if q = 0 then some 0
  else if 2 ^ 1024 ≤ r then none
  else if q < 0 then some (-r)
  else some r

end Double

namespace Json

def hexDigit (d : ℕ) : Char := Char.ofNat (if d < 10 then 48 + d else 87 + d)

/-- `%04x`. -/
def hex4 (n : ℕ) : Text :=
  [hexDigit (n / 16 ^ 3 % 16), hexDigit (n / 16 ^ 2 % 16), hexDigit (n / 16 % 16),
    hexDigit (n % 16)]

def escape (c : Char) : Text :=
  if c = '"' then ['\\', '"']
  else if c = '\\' then ['\\', '\\']
  else if c = '\n' then ['\\', 'n']
  else if c = '\r' then ['\\', 'r']
  else if c = '\t' then ['\\', 't']
  else if c.toNat < 0x20 then '\\' :: 'u' :: hex4 c.toNat
  else [c]

def dumpString (s : Text) : Text := '"' :: s.flatMap escape ++ ['"']

/-- Zeros at the end of a fraction are left out, and the point with them. -/
def dropFraction (s : Text) : Text :=
  let kept := (s.reverse.dropWhile (· = '0')).reverse
  if kept.getLast? = some '.' then kept.dropLast else kept

/-- `%.6g`. -/
def formatG (q : ℚ) : Text :=
  let x := Int.log 10 |q|
  let scaled := Double.roundHalfEven (|q| / 10 ^ (x - 5))
  -- rounding may add a digit
  let (x, scaled) := if scaled = 10 ^ 6 then (x + 1, 10 ^ 5) else (x, scaled)
  let digits := Text.ofNat scaled.toNat
  let text :=
    if x < -4 ∨ 6 ≤ x then
      let e := Text.ofNat x.natAbs
      dropFraction (digits.take 1 ++ '.' :: digits.drop 1) ++
        'e' :: (if x < 0 then '-' else '+') :: (if e.length < 2 then '0' :: e else e)
    else if x < 0 then
      dropFraction ('0' :: '.' :: List.replicate (x.natAbs - 1) '0' ++ digits)
    else dropFraction (digits.take (x.toNat + 1) ++ '.' :: digits.drop (x.toNat + 1))
  if q = 0 then ['0'] else if q < 0 then '-' :: text else text

def dumpNumber (n : ℚ) : Text := if isInteger n then Text.ofInt n.num else formatG n

mutual

def dump : Json → Text
  | null => "null".toList
  | bool b => (if b then "true" else "false").toList
  | number n => dumpNumber n
  | string s => dumpString s
  | array items => '[' :: dumpItems items ++ [']']
  | object members => '{' :: dumpMembers members ++ ['}']

def dumpItems : List Json → Text
  | [] => []
  | [v] => dump v
  | v :: w :: items => dump v ++ ',' :: dumpItems (w :: items)

def dumpMembers : List (Text × Json) → Text
  | [] => []
  | [(k, v)] => dumpString k ++ ':' :: dump v
  | (k, v) :: m :: members => dumpString k ++ ':' :: dump v ++ ',' :: dumpMembers (m :: members)

end

structure Limits where
  maxDepth : ℕ := 16
  maxString : ℕ := 4096
  maxBytes : ℕ := 16384

section parser

variable (lim : Limits) (total : ℕ)

/-- `total` is the length of the whole text, which gives the position. -/
def fail {α : Type} (why : String) (rest : Text) : Except String (α × Text) :=
  .error (why ++ " at " ++ String.ofList (Text.ofNat (total - rest.length)))

def ws (s : Text) : Text := s.dropWhile fun c => c = ' ' || c = '\t' || c = '\n' || c = '\r'

def hexValue (c : Char) : Option ℕ :=
  if '0' ≤ c ∧ c ≤ '9' then some (c.toNat - 48)
  else if 'a' ≤ c ∧ c ≤ 'f' then some (c.toNat - 87)
  else if 'A' ≤ c ∧ c ≤ 'F' then some (c.toNat - 55)
  else none

/-- The UTF-8 bytes of a code unit. -/
def utf8 (v : ℕ) : Text :=
  if v < 0x80 then [Char.ofNat v]
  else if v < 0x800 then [Char.ofNat (0xc0 + v / 2 ^ 6), Char.ofNat (0x80 + v % 2 ^ 6)]
  else [Char.ofNat (0xe0 + v / 2 ^ 12), Char.ofNat (0x80 + v / 2 ^ 6 % 2 ^ 6),
    Char.ofNat (0x80 + v % 2 ^ 6)]

/-- What stands behind a backslash, `u` apart. -/
def unescape : Char → Option Char
  | '"' => some '"'
  | '\\' => some '\\'
  | '/' => some '/'
  | 'b' => some (Char.ofNat 8)
  | 'f' => some (Char.ofNat 12)
  | 'n' => some '\n'
  | 'r' => some '\r'
  | 't' => some '\t'
  | _ => none

/-- The body of a string, up to the closing quote. -/
def strBody (out : Text) : Text → Except String (Text × Text)
  | [] => fail total "unterminated string" []
  | '"' :: rest => .ok (out, rest)
  | ['\\'] => fail total "bad escape" []
  | '\\' :: 'u' :: a :: b :: c :: d :: rest =>
    match hexValue a, hexValue b, hexValue c, hexValue d with
    | none, _, _, _ => fail total "bad \\u escape" (b :: c :: d :: rest)
    | _, none, _, _ => fail total "bad \\u escape" (c :: d :: rest)
    | _, _, none, _ => fail total "bad \\u escape" (d :: rest)
    | _, _, _, none => fail total "bad \\u escape" rest
    | some h3, some h2, some h1, some h0 =>
      let out := out ++ utf8 (h3 * 16 ^ 3 + h2 * 16 ^ 2 + h1 * 16 + h0)
      if lim.maxString < out.length then fail total "string too long" rest else strBody out rest
  | '\\' :: e :: rest =>
    if e = 'u' then fail total "bad \\u escape" rest
    else
      match unescape e with
      | none => fail total "bad escape" rest
      | some ch =>
        let out := out ++ [ch]
        if lim.maxString < out.length then fail total "string too long" rest else strBody out rest
  | ch :: rest =>
    if ch.toNat < 0x20 then fail total "control character in string" rest
    else
      let out := out ++ [ch]
      if lim.maxString < out.length then fail total "string too long" rest else strBody out rest

def str : Text → Except String (Text × Text)
  | '"' :: rest => strBody lim total [] rest
  | rest => fail total "expected string" rest

/-- One or more digits, and what is behind them. -/
def digits (s : Text) : Option (Text × Text) :=
  let ds := s.takeWhile Char.isDigit
  if ds = [] then none else some (ds, s.drop ds.length)

/-- The value of a sign, an integer part, a fraction and an exponent, as `strtod` reads it. -/
def strtod (neg : Bool) (whole fraction : Text) (expNeg : Bool) (exp : Text) : Option ℚ :=
  let mantissa : ℚ := Text.ofDigits 10 (whole ++ fraction)
  let e : ℤ :=
    (if expNeg then -(Text.ofDigits 10 exp : ℤ) else Text.ofDigits 10 exp) - fraction.length
  Double.ofRat ((if neg then -mantissa else mantissa) * 10 ^ e)

/-- The digits behind a point. -/
def fraction : Text → Except String (Text × Text)
  | '.' :: s =>
    match digits s with
    | none => fail total "bad number" s
    | some r => .ok r
  | s => .ok ([], s)

/-- The sign and the digits of an exponent. -/
def exponent : Text → Except String ((Bool × Text) × Text)
  | c :: s =>
    if c = 'e' ∨ c = 'E' then
      let (neg, s) := Text.sign s
      match digits s with
      | none => fail total "bad number" s
      | some (ds, rest) => .ok ((neg, ds), rest)
    else .ok ((false, []), c :: s)
  | [] => .ok ((false, []), [])

/-- A minus in front of a number, and what is behind it. -/
def minus : Text → Bool × Text
  | '-' :: s => (true, s)
  | s => (false, s)

def readNumber (s : Text) : Except String (Json × Text) := do
  let (neg, r) := minus s
  match digits r with
  | none => fail total "bad number" r
  | some (whole, r) =>
    let (frac, r) ← fraction total r
    let ((expNeg, exp), r) ← exponent total r
    if 40 < s.length - r.length then fail total "number too long" r
    else
      match strtod neg whole frac expNeg exp with
      | none => fail total "number out of range" r
      | some d => .ok (.number d, r)

/-- The items behind the opening bracket; each takes a character at least of what is left. -/
def items (value : Text → Except String (Json × Text)) :
    ℕ → List Json → Text → Except String (Json × Text)
  | 0, _, rest => fail total "unexpected end" rest
  | fuel + 1, acc, rest => do
    let (v, rest) ← value rest
    match ws rest with
    | ',' :: rest => items value fuel (acc ++ [v]) rest
    | ']' :: rest => .ok (.array (acc ++ [v]), rest)
    | rest => fail total "expected ',' or ']'" rest

/-- The members behind the opening brace. A key that is there already is an error, so that setting
it puts it last. -/
def objectMembers (value : Text → Except String (Json × Text)) :
    ℕ → List (Text × Json) → Text → Except String (Json × Text)
  | 0, _, rest => fail total "unexpected end" rest
  | fuel + 1, acc, rest => do
    let (k, rest) ← str lim total (ws rest)
    match ws rest with
    | ':' :: rest =>
      let (v, rest) ← value rest
      if acc.any (·.1 = k) then fail total "duplicate key" rest
      else
        match ws rest with
        | ',' :: rest => objectMembers value fuel (acc ++ [(k, v)]) rest
        | '}' :: rest => .ok (.object (acc ++ [(k, v)]), rest)
        | rest => fail total "expected ',' or '\x7d'" rest
    | rest => fail total "expected ':'" rest

def lit (word : String) (s : Text) : Bool := word.toList.isPrefixOf s

/-- The number is of the levels that are left. -/
def value : ℕ → Text → Except String (Json × Text)
  | 0, rest => fail total "nesting too deep" rest
  | depth + 1, rest =>
    match ws rest with
    | [] => fail total "unexpected end" []
    | '{' :: rest =>
      match ws rest with
      | '}' :: rest => .ok (.object [], rest)
      | rest => objectMembers lim total (value depth) (rest.length + 1) [] rest
    | '[' :: rest =>
      match ws rest with
      | ']' :: rest => .ok (.array [], rest)
      | rest => items total (value depth) (rest.length + 1) [] rest
    | '"' :: rest => do
      let (s, rest) ← str lim total ('"' :: rest)
      return (.string s, rest)
    | c :: rest =>
      if lit "true" (c :: rest) then .ok (.bool true, (c :: rest).drop 4)
      else if lit "false" (c :: rest) then .ok (.bool false, (c :: rest).drop 5)
      else if lit "null" (c :: rest) then .ok (.null, (c :: rest).drop 4)
      else if c = '-' ∨ c.isDigit then readNumber total (c :: rest)
      else fail total "unexpected character" (c :: rest)

end parser

def parse (lim : Limits) (text : Text) : Except String Json :=
  if lim.maxBytes < text.length then .error "document too large"
  else do
    let (v, rest) ← value lim text.length lim.maxDepth text
    if ws rest = [] then return v
    else .error ("trailing characters at " ++
      String.ofList (Text.ofNat (text.length - (ws rest).length)))

end Json

end Machino
