import Mathlib.Data.List.Forall2
import Machino.Basic.Calendar
import Machino.Core.Number
import Machino.Http.Sha1
import Machino.Onvif.Soap

namespace Machino.Onvif

def entityOf (e : Text) : Option Char :=
  if e = "amp".toList then some '&'
  else if e = "lt".toList then some '<'
  else if e = "gt".toList then some '>'
  else if e = "quot".toList then some '"'
  else if e = "apos".toList then some (Char.ofNat 39)
  else none

/-- The five predefined entities and no others, behind the first few characters. -/
def decodeEntities : ℕ → Text → Text
  | _, [] => []
  | k + 1, _ :: s => decodeEntities k s
  | 0, c :: s =>
    if c ≠ '&' then c :: decodeEntities 0 s
    else
      let e := s.takeWhile (· ≠ ';')
      if e.length = s.length ∨ 6 < e.length + 1 then c :: decodeEntities 0 s
      else
        match entityOf e with
        | some d => d :: decodeEntities (e.length + 1) s
        | none => c :: decodeEntities 0 s

/-- The first tag of this name, as the text from its `<` on and what `findOpenTag` finds. -/
def findTagText (loc xml : Text) : Option (Text × OpenTag) :=
  scan (fun s => match visitTag loc s with
    | .stop r => .stop (r.map fun t => ('<' :: s, t))
    | .skip k => .skip k) 0 xml

/-- What is in front of the tag that closes the element; comments are passed over whole. -/
def textUntil (loc : Text) : ℕ → Text → Option Text
  | _, [] => none
  | k + 1, c :: s => (textUntil loc k s).map (c :: ·)
  | 0, c :: s =>
    if "<!--".toList.isPrefixOf (c :: s) then
      match skipComment s with
      | none => none
      | some k => (textUntil loc k s).map (c :: ·)
    else if "</".toList.isPrefixOf (c :: s) && localOf (qnameAt (s.drop 1)) = loc then some []
    else (textUntil loc 0 s).map (c :: ·)

def elementText (loc xml : Text) : Option Text :=
  match findOpenTag loc xml with
  | none => none
  | some t => if t.selfClosing then some [] else (textUntil loc 0 t.rest).map (decodeEntities 0)

def elementAttr (loc attr xml : Text) : Option Text :=
  match findTagText loc xml with
  | none => none
  | some (whole, t) =>
    let tag := whole.take (whole.length - t.rest.length)
    match ifind tag (attr ++ ['=']) with
    | none => none
    | some a =>
      match tag.drop (a + attr.length + 1) with
      | [] => none
      | quote :: s =>
        if quote ≠ '"' ∧ quote ≠ Char.ofNat 39 then none
        else
          let value := s.takeWhile (· ≠ quote)
          if value.length = s.length then none else some (decodeEntities 0 value)

structure WsseToken where
  username : Text
  /-- The text of the Password element: a digest, or the password itself. -/
  password : Text
  nonceB64 : Text := []
  created : Text := []
  digest : Bool := false

def wsseToken (xml : Text) : Option WsseToken :=
  if !soapAcceptable xml then none
  else
    match findTagText "UsernameToken".toList xml with
    | none => none
    | some (rest, t) =>
      if t.selfClosing then none
      else
        match elementText "Username".toList rest, elementText "Password".toList rest with
        | some username, some password => some
          { username, password
            nonceB64 := (elementText "Nonce".toList rest).getD []
            created := (elementText "Created".toList rest).getD []
            digest := match elementAttr "Password".toList "Type".toList rest with
              | some type => (Text.find "PasswordDigest".toList type).isSome
              | none => false }
        | _, _ => none

/-- The loop over the signs; nothing but signs of filling may follow one. -/
def b64Loop (acc : BitVec 32) (bits pad : ℕ) (out : Text) : Text → Option Text
  | [] => if pad ≤ 2 then some out else none
  | c :: s =>
    if c = '\n' ∨ c = '\r' ∨ c = ' ' ∨ c = '\t' then b64Loop acc bits pad out s
    else if c = '=' then b64Loop acc bits (pad + 1) out s
    else if pad ≠ 0 then none
    else
      match Rtsp.b64Value c with
      | none => none
      | some v =>
        let acc := acc <<< 6 ||| BitVec.ofNat 32 v
        if 8 ≤ bits + 6 then
          let bits := bits + 6 - 8
          b64Loop acc bits pad (out ++ [Char.ofNat ((acc.sshiftRight bits).toNat % 256)]) s
        else b64Loop acc (bits + 6) pad out s

def b64Decode (s : Text) : Option Text := b64Loop 0 0 0 [] s

/-- The bytes of a text. -/
def octets (s : Text) : List UInt8 := s.map fun c => UInt8.ofNat c.toNat

/-- All bytes are compared, also behind a difference. -/
def secureEquals (a b : Text) : Bool :=
  a.length = b.length &&
    ((octets a).zip (octets b)).foldl (fun diff (x, y) => diff ||| (x ^^^ y)) 0 = (0 : UInt8)

theorem foldl_diff (l : List (UInt8 × UInt8)) (d : UInt8) :
    l.foldl (fun diff (x, y) => diff ||| (x ^^^ y)) d = 0 ↔ d = 0 ∧ ∀ p ∈ l, p.1 = p.2 := by
  induction l generalizing d with
  | nil => simp
  | cons p l ih =>
    rw [List.foldl_cons, ih, List.forall_mem_cons, ← and_assoc]
    refine and_congr_left fun _ => ?_
    rw [UInt8.or_eq_zero_iff, UInt8.xor_eq_zero_iff]

/-- The comparison that does not end early finds the same. -/
theorem secureEquals_iff (a b : Text) : secureEquals a b = true ↔ octets a = octets b := by
  rw [secureEquals, Bool.and_eq_true, decide_eq_true_eq, decide_eq_true_eq, foldl_diff]
  have hlen : a.length = b.length ↔ (octets a).length = (octets b).length := by
    rw [octets, octets, List.length_map, List.length_map]
  rw [hlen, ← List.forall₂_eq_eq_eq, List.forall₂_iff_zip]
  refine and_congr_right fun _ => ⟨fun h a b hab => h.2 (a, b) hab, fun h => ⟨rfl, ?_⟩⟩
  intro p hp
  exact h hp

def passwordDigest (nonceRaw created password : Text) : Text :=
  Http.base64 (Ws.sha1 (octets (nonceRaw ++ created ++ password)))

/-- The days from 1970 on, as the code counts them. -/
def daysFromCivil (year month day : ℤ) : ℤ :=
  let y := if month ≤ 2 then year - 1 else year
  let era := (if 0 ≤ y then y else y - 399).tdiv 400
  let yoe := y - era * 400
  let doy := (153 * (month + if 2 < month then -3 else 9) + 2) / 5 + day - 1
  let doe := yoe * 365 + yoe / 4 - yoe / 100 + doy
  era * 146097 + doe - 719468

/-- A number of at most `width` characters, as `sscanf` reads it, and what is behind it. -/
def scanField (width : ℕ) (s : Text) : Option (ℤ × Text) :=
  let s := s.dropWhile Text.isSpace
  let (neg, body) := Text.sign s
  let digits := (body.take (width - (s.length - body.length))).takeWhile Char.isDigit
  if digits = [] then none
  else
    let v : ℤ := Text.ofDigits 10 digits
    some (if neg then -v else v, body.drop digits.length)

def scanChar (c : Char) : Text → Option Text
  | [] => none
  | d :: s => if d = c then some s else none

/-- `%4d-%2d-%2dT%2d:%2d:%2d`, and a `Z` at the end. -/
def parseUtcDatetime (s : Text) : Option ℤ := do
  if s.length < 20 then none
  let (year, s1) ← scanField 4 (Text.cString s)
  let (month, s2) ← scanField 2 (← scanChar '-' s1)
  let (day, s3) ← scanField 2 (← scanChar '-' s2)
  let (h, s4) ← scanField 2 (← scanChar 'T' s3)
  let (m, s5) ← scanField 2 (← scanChar ':' s4)
  let (sec, _) ← scanField 2 (← scanChar ':' s5)
  if s.getLast? ≠ some 'Z' then none
  if month < 1 ∨ 12 < month ∨ day < 1 ∨ 31 < day ∨ 23 < h ∨ 59 < m ∨ 60 < sec then none
  some (daysFromCivil year month day * 86400 + h * 3600 + m * 60 + sec)

/-- The number in an element: one to four digits and nothing else. -/
def numberIn (utc : Text) (name : String) : Option ℕ :=
  match elementText name.toList utc with
  | none => none
  | some t => if t = [] ∨ 4 < t.length ∨ !t.all Char.isDigit then none else some (Text.ofDigits 10 t)

/-- The days of the months, with the leap day. -/
def mdays : List ℕ := [31, 29, 31, 30, 31, 30, 31, 31, 30, 31, 30, 31]

def parseSetDatetime (xml : Text) : Option ℤ :=
  match elementText "UTCDateTime".toList xml with
  | none => none
  | some utc =>
    match numberIn utc "Year", numberIn utc "Month", numberIn utc "Day" with
    | some year, some month, some day =>
      let h := (numberIn utc "Hour").getD 0
      let m := (numberIn utc "Minute").getD 0
      let s := (numberIn utc "Second").getD 0
      if month < 1 ∨ 12 < month ∨ day < 1 ∨ 31 < day ∨ 23 < h ∨ 59 < m ∨ 60 < s then none
      else if mdays.getD (month - 1) 0 < day then none
      else if month = 2 ∧ day = 29 ∧
          !(year % 4 = 0 && year % 100 ≠ 0 || year % 400 = 0) then none
      else some (daysFromCivil year month day * 86400 + h * 3600 + m * 60 + s)
    | _, _, _ => none

/-- The first day that the clock counts from. -/
def unixEpoch : Calendar.Date where
  year := 1970
  month := 1
  day := 1
  month_pos := by decide
  month_le := by decide
  day_pos := by decide
  day_le := by decide

theorem number_unixEpoch : (unixEpoch.number : ℤ) = 719528 :=
  (Calendar.number_eq unixEpoch rfl rfl).trans (by decide)

theorem tdiv_era {y : ℤ} (hy : -1 ≤ y) : (if 0 ≤ y then y else y - 399).tdiv 400 = y / 400 := by
  by_cases h : 0 ≤ y
  · rw [if_pos h, Int.tdiv_eq_ediv_of_nonneg h]
  · have hneg : y = -1 := by omega
    rw [hneg]
    decide

/-- The formula over eras of 400 years counts the days of the calendar. -/
theorem daysFromCivil_date (d : Calendar.Date) :
    daysFromCivil d.year d.month d.day = (d.number : ℤ) - unixEpoch.number := by
  have hpos := d.month_pos
  rw [number_unixEpoch, Calendar.number_eq d rfl rfl]
  unfold daysFromCivil
  dsimp only
  by_cases hearly : d.month ≤ 2
  · have hearly' : (d.month : ℤ) ≤ 2 := by omega
    rw [if_pos hearly', if_pos hearly, if_pos hearly, tdiv_era (by omega), if_neg (by omega)]
    omega
  · have hlate : ¬ (d.month : ℤ) ≤ 2 := by omega
    rw [if_neg hlate, if_neg hearly, if_neg hearly, tdiv_era (by omega), if_pos (by omega)]
    omega

/-- The table and the rule for February let the days through that there are. -/
theorem real_date_iff {year month day : ℕ} (hlo : 1 ≤ month) (hhi : month ≤ 12) :
    (¬ mdays.getD (month - 1) 0 < day ∧ ¬ (month = 2 ∧ day = 29 ∧
      (!(year % 4 = 0 && year % 100 ≠ 0 || year % 400 = 0)) = true)) ↔
      day ≤ Calendar.monthDays year month := by
  have hleap : (!(year % 4 = 0 && year % 100 ≠ 0 || year % 400 = 0)) = !Calendar.isLeap year := rfl
  rw [hleap]
  by_cases hyear : Calendar.isLeap year = true
  · interval_cases month <;> simp [mdays, Calendar.monthDays, hyear]
  · interval_cases month <;> simp [mdays, Calendar.monthDays, hyear]
    omega

/-- A time is taken exactly when it names a day that there is, and it is the seconds since 1970. -/
theorem parseSetDatetime_iff (xml : Text) (epoch : ℤ) : parseSetDatetime xml = some epoch ↔
    ∃ (utc : Text) (d : Calendar.Date), elementText "UTCDateTime".toList xml = some utc ∧
      numberIn utc "Year" = some d.year ∧ numberIn utc "Month" = some d.month ∧
      numberIn utc "Day" = some d.day ∧
      (numberIn utc "Hour").getD 0 ≤ 23 ∧ (numberIn utc "Minute").getD 0 ≤ 59 ∧
      (numberIn utc "Second").getD 0 ≤ 60 ∧
      epoch = ((d.number : ℤ) - unixEpoch.number) * 86400 + (numberIn utc "Hour").getD 0 * 3600 +
        (numberIn utc "Minute").getD 0 * 60 + (numberIn utc "Second").getD 0 := by
  constructor
  · intro h
    unfold parseSetDatetime at h
    split at h
    · cases h
    · rename_i utc hutc
      split at h
      · rename_i year month day hyear hmonth hday
        dsimp only at h
        split_ifs at h with hrange htable hleap
        have hreal := (real_date_iff (by omega) (by omega)).mp ⟨htable, hleap⟩
        obtain ⟨d, rfl, rfl, rfl⟩ : ∃ d : Calendar.Date,
            d.year = year ∧ d.month = month ∧ d.day = day :=
          ⟨⟨year, month, day, by omega, by omega, by omega, hreal⟩, rfl, rfl, rfl⟩
        rw [daysFromCivil_date] at h
        exact ⟨utc, d, hutc, hyear, hmonth, hday, by omega, by omega, by omega,
          (Option.some.inj h).symm⟩
      · cases h
  · rintro ⟨utc, d, hutc, hyear, hmonth, hday, hh, hm, hs, hepoch⟩
    have hlo := d.month_pos
    have hhi := d.month_le
    have hreal := (real_date_iff hlo hhi).mpr d.day_le
    have hmonthDays : Calendar.monthDays d.year d.month ≤ 31 := by
      unfold Calendar.monthDays
      split <;> (try split) <;> decide
    have hpos := d.day_pos
    have hle := d.day_le
    unfold parseSetDatetime
    rw [hutc]
    dsimp only
    rw [hyear, hmonth, hday]
    dsimp only
    rw [if_neg (by omega), if_neg hreal.1, if_neg hreal.2, daysFromCivil_date, hepoch]

end Machino.Onvif
