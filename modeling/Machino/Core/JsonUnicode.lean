import Mathlib.Data.List.Chain
import Machino.Core.JsonText

namespace Machino.Json

/-- UTF-8, with a character of the text for each octet. -/
def octets (cs : List Char) : Text :=
  (cs.flatMap String.utf8EncodeChar).map fun b => Char.ofNat b.toNat

/-- The escapes of one letter. -/
inductive Short where
  | quote | backslash | slash | b | f | n | r | t
  deriving DecidableEq

def Short.letter : Short → Char
  | .quote => '"'
  | .backslash => '\\'
  | .slash => '/'
  | .b => 'b'
  | .f => 'f'
  | .n => 'n'
  | .r => 'r'
  | .t => 't'

def Short.char : Short → Char
  | .quote => '"'
  | .backslash => '\\'
  | .slash => '/'
  | .b => Char.ofNat 0x08
  | .f => Char.ofNat 0x0c
  | .n => Char.ofNat 0x0a
  | .r => Char.ofNat 0x0d
  | .t => Char.ofNat 0x09

/-- A hexadecimal digit in either case. -/
structure Hex where
  value : Fin 16
  upper : Bool := false

theorem Hex.mod_lt (v : ℕ) : v % 16 < 16 := Nat.mod_lt v (by decide)

def Hex.lower (v : ℕ) : Hex := ⟨⟨v % 16, Hex.mod_lt v⟩, false⟩

def Hex.char (h : Hex) : Char :=
  Char.ofNat ((if h.value.val < 10 then 48 else if h.upper then 55 else 87) + h.value.val)

/-- The code unit that the four digits behind a `\u` are. -/
structure CodeUnit where
  d3 : Hex
  d2 : Hex
  d1 : Hex
  d0 : Hex

namespace CodeUnit

def value (u : CodeUnit) : ℕ :=
  u.d3.value.val * 16 ^ 3 + u.d2.value.val * 16 ^ 2 + u.d1.value.val * 16 + u.d0.value.val

def high (u : CodeUnit) : Bool := 0xd800 ≤ u.value && u.value < 0xdc00

def low (u : CodeUnit) : Bool := 0xdc00 ≤ u.value && u.value < 0xe000

def surrogate (u : CodeUnit) : Bool := 0xd800 ≤ u.value && u.value < 0xe000

/-- The supplementary code point that a pair of surrogates stands for. -/
def pair (u v : CodeUnit) : Char :=
  Char.ofNat (0x10000 + (u.value - 0xd800) * 0x400 + (v.value - 0xdc00))

end CodeUnit

/-- A character as it is, an escape of one letter, or a code unit. -/
inductive Piece where
  | plain (c : Char) (h : 0x20 ≤ c.toNat ∧ c ≠ '"' ∧ c ≠ '\\')
  | short (s : Short)
  | unit (u : CodeUnit)

namespace Piece

def text : Piece → Text
  | plain c _ => octets [c]
  | short s => ['\\', s.letter]
  | unit u => ['\\', 'u', u.d3.char, u.d2.char, u.d1.char, u.d0.char]

def surrogate : Piece → Bool
  | unit u => u.surrogate
  | _ => false

/-- What the parser puts out for a piece: each escape by itself. -/
def read : Piece → Text
  | plain c _ => octets [c]
  | short s => [s.char]
  | unit u => utf8 u.value

/-- How many octets the piece is read as. -/
def width : Piece → ℕ
  | plain c _ => c.utf8Size
  | short _ => 1
  | unit u => if u.value < 0x80 then 1 else if u.value < 0x800 then 2 else 3

end Piece

def literal (ps : List Piece) : Text := '"' :: ps.flatMap Piece.text ++ ['"']

/-- The code points a literal denotes; none where a surrogate has no other half. -/
def codePoints : List Piece → Option (List Char)
  | [] => some []
  | .plain c _ :: ps => (codePoints ps).map (c :: ·)
  | .short s :: ps => (codePoints ps).map (s.char :: ·)
  | .unit u :: .unit v :: ps =>
    if u.high && v.low then (codePoints ps).map (u.pair v :: ·)
    else if u.surrogate then none
    else (codePoints (.unit v :: ps)).map (Char.ofNat u.value :: ·)
  | .unit u :: ps =>
    if u.surrogate then none else (codePoints ps).map (Char.ofNat u.value :: ·)

/-- A literal is read as the UTF-8 of what it denotes, one that denotes nothing as some UTF-8, and
only one that is too long is not read. -/
def ReadRight (lim : Limits) (total : ℕ) (ps : List Piece) (rest : Text) : Prop :=
  match str lim total (literal ps ++ rest) with
  | .error _ => lim.maxString < (ps.map Piece.width).sum
  | .ok (out, left) =>
    left = rest ∧ (∀ cs, codePoints ps = some cs → out = octets cs) ∧ ∃ cs, out = octets cs

theorem octets_append (cs ds : List Char) : octets (cs ++ ds) = octets cs ++ octets ds := by
  unfold octets
  rw [List.flatMap_append, List.map_append]

theorem octets_cons (c : Char) (cs : List Char) : octets (c :: cs) = octets [c] ++ octets cs :=
  octets_append [c] cs

theorem octets_char (c : Char) : octets [c] =
    if c.toNat ≤ 0x7f then [Char.ofNat c.toNat]
    else if c.toNat ≤ 0x7ff then
      [Char.ofNat (c.toNat / 64 % 32 + 0xc0), Char.ofNat (c.toNat % 64 + 0x80)]
    else if c.toNat ≤ 0xffff then
      [Char.ofNat (c.toNat / 4096 % 16 + 0xe0), Char.ofNat (c.toNat / 64 % 64 + 0x80),
        Char.ofNat (c.toNat % 64 + 0x80)]
    else
      [Char.ofNat (c.toNat / 262144 % 8 + 0xf0), Char.ofNat (c.toNat / 4096 % 64 + 0x80),
        Char.ofNat (c.toNat / 64 % 64 + 0x80), Char.ofNat (c.toNat % 64 + 0x80)] := by
  have hbyte (n : ℕ) (h : n < 256) : (UInt8.ofNat n).toNat = n := UInt8.toNat_ofNat_of_lt' h
  have hencode : String.utf8EncodeChar c =
      if c.toNat ≤ 0x7f then [UInt8.ofNat c.toNat]
      else if c.toNat ≤ 0x7ff then
        [UInt8.ofNat (c.toNat / 64 % 32 + 0xc0), UInt8.ofNat (c.toNat % 64 + 0x80)]
      else if c.toNat ≤ 0xffff then
        [UInt8.ofNat (c.toNat / 4096 % 16 + 0xe0), UInt8.ofNat (c.toNat / 64 % 64 + 0x80),
          UInt8.ofNat (c.toNat % 64 + 0x80)]
      else
        [UInt8.ofNat (c.toNat / 262144 % 8 + 0xf0), UInt8.ofNat (c.toNat / 4096 % 64 + 0x80),
          UInt8.ofNat (c.toNat / 64 % 64 + 0x80), UInt8.ofNat (c.toNat % 64 + 0x80)] := rfl
  unfold octets
  rw [List.flatMap_singleton, hencode]
  split_ifs with h1 h2 h3
  · rw [List.map_singleton, hbyte _ (by omega)]
  · simp only [List.map_cons, List.map_nil]
    rw [hbyte _ (by omega), hbyte _ (by omega)]
  · simp only [List.map_cons, List.map_nil]
    rw [hbyte _ (by omega), hbyte _ (by omega), hbyte _ (by omega)]
  · simp only [List.map_cons, List.map_nil]
    rw [hbyte _ (by omega), hbyte _ (by omega), hbyte _ (by omega), hbyte _ (by omega)]

theorem toNat_byte {n : ℕ} (h : n < 256) : (Char.ofNat n).toNat = n := by
  have hvalid : n.isValidChar := .inl (by omega)
  unfold Char.ofNat
  rw [dif_pos hvalid]
  rfl

/-- In UTF-8 an octet `ed` has one below `a0` behind it: none begins a surrogate. -/
def Apart (x y : Char) : Prop := x.toNat = 0xed → y.toNat < 0xa0

theorem Apart.of_ne {x : Char} (y : Char) (h : x.toNat ≠ 0xed) : Apart x y :=
  fun he => absurd he h

theorem apart_octets_char (c : Char) :
    (octets [c]).IsChain Apart ∧ ∀ x ∈ (octets [c]).getLast?, x.toNat ≠ 0xed := by
  have hvalid : c.toNat < 0xd800 ∨ 0xdfff < c.toNat ∧ c.toNat < 0x110000 := c.valid
  have hne {n : ℕ} (h : n < 256) (hed : n ≠ 0xed) : (Char.ofNat n).toNat ≠ 0xed := by
    rwa [toNat_byte h]
  rw [octets_char]
  split_ifs with h1 h2 h3
  · refine ⟨.singleton _, fun x hx => ?_⟩
    rw [← Option.some.inj hx]
    exact hne (by omega) (by omega)
  · refine ⟨.cons_cons (.of_ne _ (hne (by omega) (by omega))) (.singleton _), fun x hx => ?_⟩
    rw [← Option.some.inj hx]
    exact hne (by omega) (by omega)
  · refine ⟨.cons_cons ?_ (.cons_cons (.of_ne _ (hne (by omega) (by omega))) (.singleton _)),
      fun x hx => ?_⟩
    · -- only here can the first octet be `ed`, and a surrogate is no character
      intro h
      rw [toNat_byte (by omega)] at h
      rw [toNat_byte (by omega)]
      omega
    · rw [← Option.some.inj hx]
      exact hne (by omega) (by omega)
  · refine ⟨.cons_cons (.of_ne _ (hne (by omega) (by omega)))
      (.cons_cons (.of_ne _ (hne (by omega) (by omega)))
        (.cons_cons (.of_ne _ (hne (by omega) (by omega))) (.singleton _))), fun x hx => ?_⟩
    rw [← Option.some.inj hx]
    exact hne (by omega) (by omega)

theorem apart_octets (cs : List Char) :
    (octets cs).IsChain Apart ∧ ∀ x ∈ (octets cs).getLast?, x.toNat ≠ 0xed := by
  induction cs with
  | nil => exact ⟨.nil, nofun⟩
  | cons c cs ih =>
    obtain ⟨hchain, hlast⟩ := apart_octets_char c
    rw [octets_cons]
    refine ⟨List.isChain_append.mpr ⟨hchain, ih.1, fun x hx y _ => .of_ne y (hlast x hx)⟩, ?_⟩
    intro x hx
    rw [List.getLast?_append] at hx
    cases hend : (octets cs).getLast? with
    | none =>
      rw [hend] at hx
      exact hlast x hx
    | some y =>
      rw [hend] at hx
      exact ih.2 x (hend.trans hx)

section reading

variable (lim : Limits) (total : ℕ)

/-- A text is read as these octets wherever there is room for them, and not read where there is
none. -/
structure Reads (text read : Text) : Prop where
  fits : ∀ out rest, (out ++ read).length ≤ lim.maxString →
    strBody lim total out (text ++ rest) = strBody lim total (out ++ read) rest
  long : ∀ out rest, out.length ≤ lim.maxString → lim.maxString < (out ++ read).length →
    ∃ e, strBody lim total out (text ++ rest) = .error e

namespace Reads

variable {lim total}

theorem nil : Reads lim total [] [] where
  fits out rest _ := by rw [List.append_nil, List.nil_append]
  long out rest hfit hlong := by
    rw [List.append_nil] at hlong
    omega

theorem append {text₁ text₂ read₁ read₂ : Text} (h₁ : Reads lim total text₁ read₁)
    (h₂ : Reads lim total text₂ read₂) : Reads lim total (text₁ ++ text₂) (read₁ ++ read₂) where
  fits out rest hfit := by
    rw [← List.append_assoc] at hfit
    have hfirst : (out ++ read₁).length ≤ lim.maxString := by
      rw [List.length_append] at hfit
      omega
    rw [List.append_assoc, h₁.fits out _ hfirst, h₂.fits _ rest hfit, List.append_assoc]
  long out rest hfit hlong := by
    rw [← List.append_assoc] at hlong
    rw [List.append_assoc]
    by_cases hfirst : (out ++ read₁).length ≤ lim.maxString
    · rw [h₁.fits out _ hfirst]
      exact h₂.long _ rest hfirst hlong
    · exact h₁.long out _ hfit (not_le.mp hfirst)

theorem flatMap {α : Type} {text read : α → Text} {xs : List α}
    (h : ∀ x ∈ xs, Reads lim total (text x) (read x)) :
    Reads lim total (xs.flatMap text) (xs.flatMap read) := by
  induction xs with
  | nil => exact nil
  | cons x xs ih =>
    rw [List.flatMap_cons, List.flatMap_cons]
    exact (h x List.mem_cons_self).append (ih fun y hy => h y (List.mem_cons_of_mem x hy))

/-- Where one round of the loop takes the text and then looks at the length. -/
theorem of_round {text read : Text} {f : Text → Text}
    (h : ∀ out rest, strBody lim total out (text ++ rest) =
      if lim.maxString < (out ++ read).length then fail total "string too long" (f rest)
      else strBody lim total (out ++ read) rest) : Reads lim total text read where
  fits out rest hfit := by rw [h, if_neg (not_lt.mpr hfit)]
  long out rest _ hlong := ⟨_, by rw [h, if_pos hlong]; rfl⟩

end Reads

variable {lim total}

theorem reads_byte {c : Char} (h : 0x20 ≤ c.toNat ∧ c ≠ '"' ∧ c ≠ '\\') :
    Reads lim total [c] [c] := by
  refine .of_round (f := id) fun out rest => ?_
  rw [List.singleton_append, strBody, if_neg (not_lt.mpr h.1)]
  · rfl
  · exact h.2.1
  · exact fun hc _ => h.2.2 hc
  · exact fun _ _ _ _ _ hc _ => h.2.2 hc
  · exact fun _ _ hc _ => h.2.2 hc

theorem reads_short (s : Short) : Reads lim total ['\\', s.letter] [s.char] := by
  have hu : s.letter ≠ 'u' := by cases s <;> decide
  have hd : unescape s.letter = some s.char := by cases s <;> rfl
  refine .of_round (f := id) fun out rest => ?_
  rw [List.cons_append, List.singleton_append, strBody, if_neg hu, hd]
  · rfl
  · intro a b c d r he
    exact absurd he hu

theorem hexValue_char (h : Hex) : hexValue h.char = some h.value.val := by
  have hall : ∀ v : Fin 16, ∀ upper, hexValue (Hex.char ⟨v, upper⟩) = some v.val := by decide
  exact hall h.value h.upper

theorem reads_unit (u : CodeUnit) :
    Reads lim total ['\\', 'u', u.d3.char, u.d2.char, u.d1.char, u.d0.char] (utf8 u.value) := by
  refine .of_round (f := id) fun out rest => ?_
  simp only [List.cons_append, List.nil_append]
  rw [strBody]
  simp only [hexValue_char]
  rfl

/-- The octets of a character that can stand as it is can stand as they are. -/
theorem octets_plain {c : Char} (h : 0x20 ≤ c.toNat ∧ c ≠ '"' ∧ c ≠ '\\') :
    ∀ x ∈ octets [c], 0x20 ≤ x.toNat ∧ x ≠ '"' ∧ x ≠ '\\' := by
  have hbyte {n : ℕ} (hn : n < 256) (hmore : 0x80 ≤ n) :
      0x20 ≤ (Char.ofNat n).toNat ∧ Char.ofNat n ≠ '"' ∧ Char.ofNat n ≠ '\\' := by
    have hnat := toNat_byte hn
    refine ⟨by omega, fun hq => ?_, fun hb => ?_⟩
    · rw [hq] at hnat
      exact absurd hmore (by rw [← hnat]; decide)
    · rw [hb] at hnat
      exact absurd hmore (by rw [← hnat]; decide)
  rw [octets_char]
  split_ifs with h1 h2 h3
  · rw [Char.ofNat_toNat, List.forall_mem_singleton]
    exact h
  · simp only [List.forall_mem_cons]
    exact ⟨hbyte (by omega) (by omega), hbyte (by omega) (by omega), nofun⟩
  · simp only [List.forall_mem_cons]
    exact ⟨hbyte (by omega) (by omega), hbyte (by omega) (by omega), hbyte (by omega) (by omega),
      nofun⟩
  · simp only [List.forall_mem_cons]
    exact ⟨hbyte (by omega) (by omega), hbyte (by omega) (by omega), hbyte (by omega) (by omega),
      hbyte (by omega) (by omega), nofun⟩

theorem reads_piece (p : Piece) : Reads lim total p.text p.read := by
  cases p with
  | plain c h =>
    have hbytes : Reads lim total ((octets [c]).flatMap ([·])) ((octets [c]).flatMap ([·])) :=
      .flatMap fun x hx => reads_byte (octets_plain h x hx)
    rwa [List.flatMap_singleton'] at hbytes
  | short s => exact reads_short s
  | unit u => exact reads_unit u

variable (lim total) in
theorem str_literal (ps : List Piece) (rest : Text) :
    ((ps.flatMap Piece.read).length ≤ lim.maxString ∧
      str lim total (literal ps ++ rest) = .ok (ps.flatMap Piece.read, rest)) ∨
    (lim.maxString < (ps.flatMap Piece.read).length ∧
      ∃ e, str lim total (literal ps ++ rest) = .error e) := by
  have hreads : Reads lim total (ps.flatMap Piece.text) (ps.flatMap Piece.read) :=
    .flatMap fun p _ => reads_piece p
  have hstr : str lim total (literal ps ++ rest) =
      strBody lim total [] (ps.flatMap Piece.text ++ '"' :: rest) := by
    unfold literal
    rw [List.append_assoc, List.cons_append, str]
    rfl
  rw [hstr]
  by_cases hfit : (ps.flatMap Piece.read).length ≤ lim.maxString
  · refine .inl ⟨hfit, ?_⟩
    rw [hreads.fits [] _ hfit, List.nil_append, strBody]
  · exact .inr ⟨not_le.mp hfit, hreads.long [] _ (Nat.zero_le _) (not_le.mp hfit)⟩

end reading

theorem Piece.length_read (p : Piece) : p.read.length = p.width := by
  cases p with
  | plain c h =>
    unfold read width octets
    rw [List.length_map, List.flatMap_singleton, String.length_utf8EncodeChar]
  | short s => rfl
  | unit u =>
    show (utf8 u.value).length = if u.value < 0x80 then 1 else if u.value < 0x800 then 2 else 3
    unfold utf8
    split_ifs <;> rfl

theorem length_flatMap_read (ps : List Piece) :
    (ps.flatMap Piece.read).length = (ps.map Piece.width).sum := by
  rw [List.length_flatMap]
  simp only [Piece.length_read]

theorem CodeUnit.value_lt (u : CodeUnit) : u.value < 0x10000 := by
  have h3 := u.d3.value.isLt
  have h2 := u.d2.value.isLt
  have h1 := u.d1.value.isLt
  have h0 := u.d0.value.isLt
  unfold value
  omega

theorem utf8_of_not_surrogate {u : CodeUnit} (h : u.surrogate = false) :
    utf8 u.value = octets [Char.ofNat u.value] := by
  have hlt := u.value_lt
  have hvalid : u.value.isValidChar := by
    simp only [CodeUnit.surrogate, Bool.and_eq_false_iff, decide_eq_false_iff_not] at h
    unfold Nat.isValidChar
    omega
  have hnat : (Char.ofNat u.value).toNat = u.value := by
    unfold Char.ofNat
    rw [dif_pos hvalid]
    rfl
  rw [octets_char, hnat]
  unfold utf8
  split_ifs with h1 h2 h3 h4 <;> try omega
  · rfl
  · rw [Nat.add_comm 0xc0, Nat.add_comm 0x80, Nat.mod_eq_of_lt (by omega : u.value / 64 < 32)]
    rfl
  · rw [Nat.add_comm 0xe0, Nat.add_comm 0x80, Nat.add_comm 0x80,
      Nat.mod_eq_of_lt (by omega : u.value / 4096 < 16)]
    rfl

theorem codePoints_unit {u : CodeUnit} (h : u.surrogate = false) (ps : List Piece) :
    codePoints (.unit u :: ps) = (codePoints ps).map (Char.ofNat u.value :: ·) := by
  have hhigh : u.high = false := by
    simp only [CodeUnit.surrogate, CodeUnit.high, Bool.and_eq_false_iff,
      decide_eq_false_iff_not] at h ⊢
    omega
  have halone : (if u.surrogate then none else
      (codePoints ps).map (Char.ofNat u.value :: ·)) =
        (codePoints ps).map (Char.ofNat u.value :: ·) :=
    if_neg (by rw [h]; exact Bool.false_ne_true)
  by_cases hunit : ∃ v ps', ps = .unit v :: ps'
  · obtain ⟨v, ps', rfl⟩ := hunit
    rw [codePoints, hhigh, Bool.false_and, if_neg Bool.false_ne_true, halone]
  · rw [codePoints, halone]
    exact fun v ps' he => hunit ⟨v, ps', he⟩

/-- Without surrogates a literal denotes code points, and they are what is read. -/
theorem codePoints_of_no_surrogate {ps : List Piece} (h : ∀ p ∈ ps, p.surrogate = false) :
    ∃ cs, codePoints ps = some cs ∧ ps.flatMap Piece.read = octets cs := by
  induction ps with
  | nil => exact ⟨[], rfl, rfl⟩
  | cons p ps ih =>
    obtain ⟨cs, hcs, hread⟩ := ih fun q hq => h q (List.mem_cons_of_mem p hq)
    have hp := h p List.mem_cons_self
    cases p with
    | plain c hc =>
      refine ⟨c :: cs, ?_, ?_⟩
      · rw [codePoints, hcs]
        rfl
      · rw [List.flatMap_cons, hread, octets_cons c cs]
        rfl
    | short s =>
      refine ⟨s.char :: cs, ?_, ?_⟩
      · rw [codePoints, hcs]
        rfl
      · rw [List.flatMap_cons, hread, octets_cons s.char cs]
        cases s <;> rfl
    | unit u =>
      refine ⟨Char.ofNat u.value :: cs, ?_, ?_⟩
      · rw [codePoints_unit hp, hcs]
        rfl
      · rw [List.flatMap_cons, hread, octets_cons _ cs, ← utf8_of_not_surrogate hp]
        rfl

/-- What a surrogate is read as is not in any UTF-8. -/
theorem not_octets_of_surrogate {u : CodeUnit} {ps : List Piece} (hmem : .unit u ∈ ps)
    (hsur : u.surrogate = true) (cs : List Char) : ps.flatMap Piece.read ≠ octets cs := by
  intro heq
  simp only [CodeUnit.surrogate, Bool.and_eq_true, decide_eq_true_eq] at hsur
  obtain ⟨before, after, rfl⟩ := List.append_of_mem hmem
  have hchain := (apart_octets cs).1
  rw [← heq, List.flatMap_append, List.flatMap_cons] at hchain
  have hunit : (utf8 u.value).IsChain Apart :=
    hchain.right_of_append.left_of_append
  unfold utf8 at hunit
  rw [if_neg (by omega), if_neg (by omega)] at hunit
  have hapart : Apart _ _ := (List.isChain_cons_cons.mp hunit).1
  unfold Apart at hapart
  rw [toNat_byte (by omega), toNat_byte (by omega)] at hapart
  omega

theorem readRight_iff (lim : Limits) (total : ℕ) (ps : List Piece) (rest : Text) :
    ReadRight lim total ps rest ↔
      lim.maxString < (ps.map Piece.width).sum ∨ ∀ p ∈ ps, p.surrogate = false := by
  unfold ReadRight
  rw [← length_flatMap_read]
  rcases str_literal lim total ps rest with ⟨hfit, hread⟩ | ⟨hlong, e, he⟩
  · rw [hread]
    constructor
    · rintro ⟨-, -, cs, hcs⟩
      refine .inr fun p hp => ?_
      cases p with
      | plain c hc => rfl
      | short s => rfl
      | unit u =>
        cases hsur : u.surrogate with
        | false => exact hsur
        | true => exact absurd hcs (not_octets_of_surrogate hp hsur cs)
    · rintro (hlong | hnone)
      · omega
      · obtain ⟨cs, hcs, hout⟩ := codePoints_of_no_surrogate hnone
        refine ⟨rfl, fun cs' hcs' => ?_, cs, hout⟩
        rw [hout, Option.some.inj (hcs.symm.trans hcs')]
  · rw [he]
    exact ⟨.inl, fun _ => hlong⟩

/-- The two halves of `U+1F600`. -/
def grinning : List Piece :=
  [.unit ⟨.lower 13, .lower 8, .lower 3, .lower 13⟩,
    .unit ⟨.lower 13, .lower 14, .lower 0, .lower 0⟩]

example : literal grinning = "\"\\ud83d\\ude00\"".toList := by decide

/-- A pair of surrogates is read as six octets that are no UTF-8. -/
theorem not_readRight_pair : ¬ ReadRight {} 14 grinning [] := by
  intro h
  have hdenotes : codePoints grinning = some [Char.ofNat 0x1f600] := by decide
  have hread : str {} 14 (literal grinning ++ []) = .ok (grinning.flatMap Piece.read, []) := by
    rcases str_literal {} 14 grinning [] with ⟨-, hread⟩ | ⟨hlong, -⟩
    · exact hread
    · exact absurd hlong (by decide)
  unfold ReadRight at h
  rw [hread] at h
  exact absurd (h.2.1 _ hdenotes) (by decide)

end Machino.Json
