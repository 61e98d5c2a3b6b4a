import Mathlib.Data.List.Sort
import Machino.Cellular.Settings
import Machino.Cellular.SimManager

namespace Machino.Cellular

open Effects

structure QcfgBand where
  gsm : Option UInt64 := none
  lte : Option UInt64 := none
  deriving DecidableEq, Repr

def parseQcfgBand (raw : Text) : QcfgBand :=
  let body := atExtract raw "+QCFG:"
  if body = [] then {}
  else if csvField body 0 ≠ "band".toList then {}
  else { gsm := parseMaskHex (csvField body 1), lte := parseMaskHex (csvField body 2) }

def netModeNwscanmode : NetMode → Int
  | .lteOnly => 3
  | .gsmOnly => 1
  | .auto => 0

def bandsFromMask (mask : UInt64) : List Int :=
  (lteBands.filter fun b => mask &&& bandBit b.bit ≠ 0).map (·.num)

def bandList (mask : UInt64) : String :=
  let bands := bandsFromMask mask
  if bands = [] then "(none)" else " ".intercalate (bands.map fun b => "B" ++ toString b)

/-- What the serving cell is measured at, as the status of each round has it. -/
structure ServingCell where
  band : Option Int := none
  sinr : Option Int := none
  rsrp : Option Int := none
  rsrq : Option Int := none
  deriving DecidableEq, Repr

inductive RadioSync where
  | unknown | inSync | pending | failed | unverified
  deriving DecidableEq, Repr

inductive ScanState where
  | idle | running | done | error
  deriving DecidableEq, Repr

/-- The reason given for the state of the bands. -/
inductive RadioDetail where
  | none
  | changeWaiting
  | noBand
  | applied
  | alreadyMatches
  | unreadable
  | notWrittenAgain (reported desired : UInt64)
  | radioOffRejected
  | radioOff
  | retrying
  | mayBeOff
  | bandsRejected (mask : UInt64)
  | modeRejected
  | written
  deriving DecidableEq, Repr

def RadioDetail.text : RadioDetail → String
  | .none => ""
  | .changeWaiting => "change waiting for the modem"
  | .noBand => "no LTE band selected - nothing written"
  | .applied => "applied and confirmed by the modem"
  | .alreadyMatches => "the modem matches the configuration"
  | .unreadable => "the modem's band report is not readable - nothing written"
  | .notWrittenAgain reported desired =>
    "the modem reports " ++ bandList (reported &&& allSupportedMask) ++
      " after the write, configured is " ++ bandList desired ++ " - not written again"
  | .radioOffRejected => "AT+CFUN=0 rejected - nothing written"
  | .radioOff => "radio off, writing bands and network mode"
  | .retrying => "the radio did not confirm back on - retrying"
  | .mayBeOff => "AT+CFUN=1 did not confirm after retries - the radio may be off"
  | .bandsRejected mask =>
    "the modem rejected the band mask " ++ String.ofList (maskHex mask) ++ " (" ++ bandList mask ++
      ") - a band outside this variant's set?"
  | .modeRejected => "the modem rejected the network mode"
  | .written => "written, waiting for the modem to confirm"

structure ScanRow where
  band : Int := 0
  mhz : Int := 0
  ok : Bool := false
  samples : ℕ := 0
  sinr : Option Int := none
  rsrp : Option Int := none
  rsrq : Option Int := none
  deriving DecidableEq, Repr

inductive Phase where
  | idle | rfOff
  deriving DecidableEq, Repr

inductive ScanPhase where
  | lock | measure | restore
  deriving DecidableEq, Repr

/-- The intent, what the modem has reported of it, the scan, and what is left to be done. -/
structure RadioTuner where
  sync : RadioSync := .unknown
  detail : RadioDetail := .none
  desiredMask : UInt64 := 0
  desiredMode : NetMode := .auto
  modemMask : Option UInt64 := none
  modemNwscanmode : Option Int := none
  writes : ℕ := 0
  scan : ScanState := .idle
  scanDetail : String := ""
  scanCurrent : Int := 0
  scanBest : Int := 0
  rows : List ScanRow := []
  haveCfg : Bool := false
  alive : Bool := false
  verified : Bool := false
  applyPending : Bool := false
  restorePending : Bool := false
  phase : Phase := .idle
  radioReenableOwed : Bool := false
  radioReenableTries : ℕ := 0
  scanBands : List Int := []
  scanIdx : ℕ := 0
  scanPhase : ScanPhase := .lock
  scanDeadlineMs : UInt64 := 0
  sinr : List Int := []
  rsrp : List Int := []
  rsrq : List Int := []
  deriving DecidableEq, Repr

def kSamplesPerBand : ℕ := 4

def kBandTimeoutMs : UInt64 := 30000

def kMaxRadioReenable : ℕ := 3

def cfun0 : Text := "AT+CFUN=0".toList

def cfun1 : Text := "AT+CFUN=1".toList

def bandCommand (mask : UInt64) : Text := "AT+QCFG=\"band\",d3,".toList ++ maskHex mask

def nwscanmodeCommand (mode : NetMode) : Text :=
  "AT+QCFG=\"nwscanmode\",".toList ++ Nat.toDigits 10 (netModeNwscanmode mode).toNat ++ ",1".toList

namespace RadioTuner

/-- A change of the intent is to be written, the first intent only checked. -/
def setConfig (c : CellularConfig) (t : RadioTuner) : RadioTuner :=
  let mask := profileMask c.bandProfile c.bandMask
  let changed := t.haveCfg && (mask ≠ t.desiredMask || c.netMode ≠ t.desiredMode)
  let t := { t with haveCfg := true, desiredMask := mask, desiredMode := c.netMode }
  if !changed then t
  else
    { t with applyPending := true, verified := false, sync := .pending, detail := .changeWaiting }

def maskInSync (modemMask : UInt64) (t : RadioTuner) : Bool :=
  modemMask &&& allSupportedMask = t.desiredMask

/-- Why no scan can be started now. -/
def scanRefusal (t : RadioTuner) : Option String :=
  if !t.alive then some "no modem answering"
  else if t.scan = .running then some "a scan is already running"
  else if t.desiredMode = .gsmOnly then
    some "the SINR scan needs LTE - the network mode is GSM only"
  else if bandsFromMask t.desiredMask = [] then some "no LTE band in the active profile"
  else if t.phase ≠ .idle then some "a band change is being written - try again in a moment"
  else none

def requestScan (t : RadioTuner) : RadioTuner :=
  match t.scanRefusal with
  | some why => { t with scan := .error, scanDetail := why }
  | none => { t with
      scanBands := bandsFromMask t.desiredMask
      scanIdx := 0
      scanPhase := .lock
      rows := []
      scan := .running
      scanBest := 0
      scanCurrent := (bandsFromMask t.desiredMask).headD 0
      scanDetail := "starting" }

/-- A new life of the modem: what counts once in it counts anew. -/
def onModemGone (t : RadioTuner) : RadioTuner :=
  let t := { t with
    alive := false
    verified := false
    restorePending := t.restorePending || t.phase = .rfOff
    radioReenableTries := 0
    phase := .idle
    writes := 0
    modemMask := none
    modemNwscanmode := none }
  if t.scan ≠ .running then t
  else
    { t with
      scan := .error
      scanDetail := "the modem disappeared during the scan - the configured bands are restored " ++
        "once it is back"
      scanCurrent := 0
      restorePending := true }

end RadioTuner

/-- The middle one, the upper of two. -/
def medianOf (v : List Int) : Option Int := (v.insertionSort (· ≤ ·))[v.length / 2]?

namespace RadioTuner

def lockMask (mask : UInt64) : Modem Bool := do
  if mask = 0 then
    return false
  let off ← command cfun0 10000
  if !off.ok then
    return false
  let cfg ← command (bandCommand mask) 3000
  let on ← command cfun1 10000
  return cfg.ok && on.ok

def scanAdvance (t : RadioTuner) : RadioTuner :=
  { t with
    scanIdx := t.scanIdx + 1
    scanPhase := if t.scanIdx + 1 < t.scanBands.length then .lock else .restore }

/-- The best row so far: the better signal, and of two alike the stronger one. -/
def betterRow (best : Option ScanRow) (r : ScanRow) : Option ScanRow :=
  match r.sinr with
  | none => best
  | some sinr =>
    if !r.ok then best
    else
      match best with
      | none => some r
      | some b =>
        let bestSinr := b.sinr.getD 0
        let stronger := match r.rsrp with
          | none => false
          | some rsrp => b.rsrp.all fun bestRsrp => rsrp > bestRsrp
        if sinr > bestSinr || (sinr = bestSinr && stronger) then some r else best

def scanFinish (t : RadioTuner) : RadioTuner :=
  match t.rows.foldl betterRow none with
  | none => { t with
      scanCurrent := 0
      scanBest := 0
      scan := .error
      scanDetail := "no usable SINR measurement on any band - the configured bands are restored"
      verified := false }
  | some best => { t with
      scanCurrent := 0
      scanBest := best.band
      scan := .done
      scanDetail := "best band: B" ++ toString best.band ++ " (SINR " ++
        toString (best.sinr.getD 0) ++ " dB" ++
        (match best.rsrp with
        | some rsrp => ", RSRP " ++ toString rsrp ++ " dBm"
        | none => "") ++
        "). The configured bands are restored; lock it as a separate step."
      verified := false }

/-- The next band is locked, or skipped where the modem refuses it. -/
def scanLock (nowMs : UInt64) (t : RadioTuner) : Modem RadioTuner := do
  match (t.scanBands[t.scanIdx]?).bind lteBandByNumber with
  | none => return t
  | some b =>
    let t := { t with
      rows := t.rows ++ [({ band := b.num, mhz := b.mhz } : ScanRow)]
      scanCurrent := b.num
      scanDetail := "measuring B" ++ toString b.num
      sinr := []
      rsrp := []
      rsrq := [] }
    if !(← lockMask (bandBit b.bit)) then
      return t.scanAdvance
    return { t with scanDeadlineMs := nowMs + kBandTimeoutMs, scanPhase := .measure }

/-- No network on this band is a result too. -/
def scanTimeout (row : ScanRow) (nowMs : UInt64) (t : RadioTuner) : RadioTuner :=
  if t.scanDeadlineMs ≤ nowMs then
    { t with rows := t.rows.dropLast ++ [{ row with ok := false }] }.scanAdvance
  else t

/-- A measurement counts that is of the locked band; enough of them are one result. -/
def scanMeasure (s : CellularStatus) (cell : ServingCell) (nowMs : UInt64) (t : RadioTuner) :
    RadioTuner :=
  match t.rows.getLast? with
  | none => t
  | some row =>
    match cell.sinr with
    | some sinr =>
      if regIsRegistered s.registration && cell.band = some row.band then
        let t := { t with
          sinr := t.sinr ++ [sinr]
          rsrp := t.rsrp ++ cell.rsrp.toList
          rsrq := t.rsrq ++ cell.rsrq.toList }
        let row := { row with samples := t.sinr.length }
        if kSamplesPerBand ≤ row.samples then
          let row := { row with
            ok := true, sinr := medianOf t.sinr, rsrp := medianOf t.rsrp, rsrq := medianOf t.rsrq }
          { t with rows := t.rows.dropLast ++ [row] }.scanAdvance
        else { t with rows := t.rows.dropLast ++ [row] }
      else t.scanTimeout row nowMs
    | none => t.scanTimeout row nowMs

def scanStep (s : CellularStatus) (cell : ServingCell) (nowMs : UInt64) (t : RadioTuner) :
    Modem RadioTuner := do
  match t.scanPhase with
  | .lock => t.scanLock nowMs
  | .measure => return t.scanMeasure s cell nowMs
  | .restore =>
    let _ ← lockMask t.desiredMask
    return t.scanFinish

/-- The second half of a write: the bands, the mode, and the radio on again in any case. -/
def writeStep (t : RadioTuner) : Modem RadioTuner := do
  let b ← command (bandCommand t.desiredMask) 3000
  let n ← command (nwscanmodeCommand t.desiredMode) 3000
  let on ← command cfun1 10000
  let t := { t with writes := t.writes + 1 }
  if on.ok then
    let t := { t with radioReenableOwed := false, radioReenableTries := 0, phase := .idle }
    if !b.ok || !n.ok then
      return { t with
        verified := true
        sync := .failed
        detail := if !b.ok then .bandsRejected t.desiredMask else .modeRejected }
    return { t with verified := false, sync := .pending, detail := .written }
  let tries := t.radioReenableTries + 1
  if tries ≤ kMaxRadioReenable then
    return { t with
      radioReenableTries := tries, phase := .rfOff, sync := .pending, detail := .retrying }
  return { t with
    radioReenableOwed := false
    radioReenableTries := 0
    phase := .idle
    verified := true
    sync := .failed
    detail := .mayBeOff }

/-- The first half of a write: the radio goes off. -/
def writeStart (t : RadioTuner) : Modem (Bool × RadioTuner) := do
  let t := { t with applyPending := false }
  let off ← command cfun0 10000
  if !off.ok then
    return (false, { t with verified := true, sync := .failed, detail := .radioOffRejected })
  return (true, { t with
    radioReenableOwed := true, phase := .rfOff, sync := .pending, detail := .radioOff })

/-- The modem's report against the intent, and a write where one is due. -/
def readBack (t : RadioTuner) : Modem (Bool × RadioTuner) := do
  let lte := (parseQcfgBand (← ask "AT+QCFG=\"band\"").raw).lte
  let nw := parseQcfgInt (← ask "AT+QCFG=\"nwscanmode\"").raw "nwscanmode"
  let t := { t with modemMask := lte, modemNwscanmode := nw }
  match lte, nw with
  | some mask, some mode =>
    if !t.radioReenableOwed && t.maskInSync mask && mode = netModeNwscanmode t.desiredMode then
      return (false, { t with
        verified := true
        applyPending := false
        sync := .inSync
        detail := if 0 < t.writes then .applied else .alreadyMatches })
    else if !t.applyPending && 0 < t.writes then
      return (false, { t with
        verified := true, sync := .failed, detail := .notWrittenAgain mask t.desiredMask })
    else t.writeStart
  | _, _ =>
    if !t.applyPending then
      return (false, { t with verified := true, sync := .unverified, detail := .unreadable })
    else t.writeStart

/-- One step, and whether the modem is needed for the radio. -/
def tick (s : CellularStatus) (cell : ServingCell) (nowMs : UInt64) (t : RadioTuner) :
    Modem (Bool × RadioTuner) := do
  if !s.present || !s.responsive then
    return (false, if t.alive then t.onModemGone else t)
  let t := { t with alive := true }
  if t.scan = .running then
    return (true, ← t.scanStep s cell nowMs)
  if t.phase = .rfOff then
    return (true, ← t.writeStep)
  if !t.haveCfg then
    return (false, t)
  let t := if t.restorePending then
      { t with restorePending := false, applyPending := true, verified := false } else t
  if t.desiredMask = 0 then
    return (false, { t with
      sync := .failed, detail := .noBand, applyPending := false, verified := true })
  let t := if t.radioReenableOwed then { t with applyPending := true, verified := false } else t
  if !t.applyPending && t.verified then
    return (false, t)
  t.readBack

end RadioTuner

end Machino.Cellular
