import Machino.Core.JsonText

namespace Machino.Osd

/-- The sum or product of doubles; beyond them `lround` promises nothing. -/
def double (q : ℚ) : ℚ := (Double.ofRat q).getD 0

/-- The integer next to a number, the one further from zero of two. -/
def lround (q : ℚ) : ℤ := if q < 0 then -⌊-q + 1 / 2⌋ else ⌊q + 1 / 2⌋

/-- A decimal number that is all of the text. -/
def decimalNumber (neg : Bool) (t : Text) : Option ℚ :=
  let whole := t.takeWhile Char.isDigit
  let (fraction, rest) :=
    match t.dropWhile Char.isDigit with
    | '.' :: u => (u.takeWhile Char.isDigit, u.dropWhile Char.isDigit)
    | u => ([], u)
  if whole = [] ∧ fraction = [] then none
  else
    match rest with
    | [] => Json.strtod neg whole fraction false []
    | e :: u =>
      let (expNeg, u) := Text.sign u
      if (e = 'e' ∨ e = 'E') ∧ u ≠ [] ∧ u.all Char.isDigit then
        Json.strtod neg whole fraction expNeg u
      else none

/-- The same to base 16, with an exponent of two. -/
def hexNumber (neg : Bool) (t : Text) : Option ℚ :=
  let whole := t.takeWhile Text.isHexDigit
  let (fraction, rest) :=
    match t.dropWhile Text.isHexDigit with
    | '.' :: u => (u.takeWhile Text.isHexDigit, u.dropWhile Text.isHexDigit)
    | u => ([], u)
  let value (exp : ℤ) : Option ℚ :=
    let m : ℚ := Text.ofDigits 16 (whole ++ fraction)
    Double.ofRat ((if neg then -m else m) * 2 ^ (exp - 4 * fraction.length))
  if whole = [] ∧ fraction = [] then none
  else
    match rest with
    | [] => value 0
    | p :: u =>
      let (expNeg, u) := Text.sign u
      if (p = 'p' ∨ p = 'P') ∧ u ≠ [] ∧ u.all Char.isDigit then
        value (if expNeg then -Text.ofDigits 10 u else Text.ofDigits 10 u)
      else none

/-- What `strtod` reads where it takes the whole text and the number is finite. -/
def wholeNumber (s : Text) : Option ℚ :=
  if s = [] then none
  else if Text.cString s = [] then some 0
  else
    let (neg, t) := Text.sign ((Text.cString s).dropWhile Text.isSpace)
    match t with
    | '0' :: x :: u =>
      if x = 'x' ∨ x = 'X' then hexNumber neg u else decimalNumber neg t
    | _ => decimalNumber neg t

def isPadding (c : Char) : Bool := c = ' ' || c = '\t'

def trimSpec (s : Text) : Text :=
  ((s.dropWhile isPadding).reverse.dropWhile isPadding).reverse

/-- Pixels, a share of the extent, or a multiple of the text size. -/
def resolveLength (spec : Text) (extent em : ℤ) : Option ℤ :=
  let s := trimSpec spec
  if s = [] then none
  else if 1 < s.length ∧ s.getLast? = some '%' then
    (wholeNumber s.dropLast).map fun v => lround (double (double (v / 100) * extent))
  else if 2 < s.length ∧ s.drop (s.length - 2) = "em".toList then
    (wholeNumber (s.take (s.length - 2))).map fun v => lround (double (v * em))
  else (wholeNumber s).map lround

inductive Anchor where
  | proportional | topLeft | top | topRight | left | center | right | bottomLeft | bottom
  | bottomRight
  deriving DecidableEq

structure Rect where
  x : ℤ := 0
  y : ℤ := 0
  w : ℤ
  h : ℤ
  deriving DecidableEq

def clamp (v lo hi : ℤ) : ℤ := if v < lo then lo else if hi < v then hi else v

/-- The corner, before it is kept within the frame. -/
def corner (anchor : Anchor) (offX offY posX posY freeX freeY : ℤ) : ℤ × ℤ :=
  let midX := freeX.tdiv 2
  let midY := freeY.tdiv 2
  match anchor with
  | .proportional =>
    (lround (double ((16 - clamp posX (-16) 16) / 32 * freeX)),
      lround (double ((16 - clamp posY (-16) 16) / 32 * freeY)))
  | .topLeft => (offX, offY)
  | .top => (midX, offY)
  | .topRight => (freeX - offX, offY)
  | .left => (offX, midY)
  | .center => (midX, midY)
  | .right => (freeX - offX, midY)
  | .bottomLeft => (offX, freeY - offY)
  | .bottom => (midX, freeY - offY)
  | .bottomRight => (freeX - offX, freeY - offY)

def place (anchor : Anchor) (offX offY posX posY textW textH frameW frameH : ℤ) : Rect :=
  if frameW ≤ 0 ∨ frameH ≤ 0 then { w := textW, h := textH }
  else
    let freeX := frameW - textW
    let freeY := frameH - textH
    let (x, y) := corner anchor offX offY posX posY freeX freeY
    { x := clamp x 0 (if freeX < 0 then 0 else freeX)
      y := clamp y 0 (if freeY < 0 then 0 else freeY)
      w := if frameW < textW then frameW else textW
      h := if frameH < textH then frameH else textH }

/-- What the back end reports about a text in its own font. -/
structure Metrics where
  w : ℤ
  h : ℤ
  em : ℤ

/-- The font of the back end, and the clock's `strftime` with its buffer. -/
structure Host where
  measure : Text → ℚ → ℤ → Metrics
  strftime : ℤ → Text → Text

structure OsdConfig where
  enabled : Bool := false
  tmpl : Text := "%d.%m.%Y %H:%M:%S".toList
  size : Text := "1.0".toList
  thin : Bool := false
  outline : Bool := true
  anchor : Anchor := .proportional
  offsetX : Text := ['0']
  offsetY : Text := ['0']
  posX : ℤ := 16
  posY : ℤ := 16
  bgAlpha : ℤ := 25

structure StreamGeometry where
  unit : ℤ
  w : ℤ
  h : ℤ
  osdOn : Bool := true

structure Draw where
  overlay : ℤ
  unit : ℤ
  frameW : ℤ
  frameH : ℤ
  rect : Rect
  text : Text
  size : ℚ
  thin : Bool
  outline : Bool
  bgAlpha : ℤ

/-- Three digits of milliseconds. -/
def threeDigits (ms : ℤ) : Text :=
  let s := Text.ofInt (clamp ms 0 999)
  List.replicate (3 - s.length) '0' ++ s

/-- What `strftime` does not know is expanded first. -/
def expandSpecifiers (ms : ℤ) : Text → Text
  | [] => []
  | ['%'] => ['%', '%']
  | '%' :: c :: rest =>
    if c = 'f' then threeDigits ms ++ expandSpecifiers ms rest
    else if c = '@' then expandSpecifiers ms rest
    else '%' :: c :: expandSpecifiers ms rest
  | c :: rest => c :: expandSpecifiers ms rest

def expandTemplate (host : Host) (tmpl : Text) (unixS ms : ℤ) : Text :=
  host.strftime unixS (expandSpecifiers ms tmpl)

structure Plan where
  draw : Bool := false
  text : Text := []
  items : List Draw := []

def Plan.units (p : Plan) : List ℤ := p.items.map (·.unit)

def Plan.rects (p : Plan) : List Rect := p.items.map (·.rect)

/-- The service; its last text is empty when the next plan is to be drawn anyway. -/
structure OsdService where
  cfg : OsdConfig := {}
  streams : List StreamGeometry := []
  lastText : Text := []
  lastRects : List Rect := []
  lastUnits : List ℤ := []
  drew : Bool := false

/-- The drawing for one stream, if it takes one. -/
def drawOn (host : Host) (cfg : OsdConfig) (scale : ℚ) (text : Text) (s : StreamGeometry) :
    Option Draw := do
  if !s.osdOn || s.w ≤ 0 || s.h ≤ 0 then none
  let m := host.measure text scale s.w
  if m.w ≤ 0 ∨ m.h ≤ 0 then none
  let offX ← resolveLength cfg.offsetX s.w m.em
  let offY ← resolveLength cfg.offsetY s.h m.em
  return {
    overlay := 0
    unit := s.unit
    frameW := s.w
    frameH := s.h
    rect := place cfg.anchor offX offY cfg.posX cfg.posY m.w m.h s.w s.h
    text, size := scale, thin := cfg.thin, outline := cfg.outline
    bgAlpha := clamp cfg.bgAlpha 0 100 }

namespace OsdService

def setConfig (s : OsdService) (cfg : OsdConfig) : OsdService := { s with cfg, lastText := [] }

def setStreams (s : OsdService) (streams : List StreamGeometry) : OsdService :=
  { s with streams, lastText := [] }

/-- The font scale, unless it is no number or out of its range. -/
def scale (s : OsdService) : Option ℚ :=
  (wholeNumber (trimSpec s.cfg.size)).filter fun v => 0 < v && v ≤ 16

def buildPlan (host : Host) (s : OsdService) (unixS ms : ℤ) : Plan :=
  match s.scale with
  | none => {}
  | some scale =>
    if !s.cfg.enabled then {}
    else
      let text := expandTemplate host s.cfg.tmpl unixS ms
      if text = [] then { text }
      else
        let items := s.streams.filterMap (drawOn host s.cfg scale text)
        { draw := items ≠ [], text, items }

end OsdService

/-- What the back end is asked to do. -/
inductive Call where
  | draw (d : Draw)
  | clear (overlay unit : ℤ)

/-- Nothing is drawn while the text and the places stay what they are. -/
def OsdService.pump (host : Host) (s : OsdService) (unixS ms : ℤ) : OsdService × List Call :=
  let p := s.buildPlan host unixS ms
  if p.draw && s.drew && p.text = s.lastText && p.rects = s.lastRects then (s, [])
  else
    ({ s with
        lastText := p.text
        lastRects := p.rects
        drew := p.draw
        lastUnits := if p.draw then p.units else [] },
      if p.draw then p.items.map Call.draw
      else if s.drew then s.lastUnits.map (Call.clear 0)
      else [])

example : resolveLength "1.5em".toList 1920 32 = some 48 := by decide +kernel

end Machino.Osd
