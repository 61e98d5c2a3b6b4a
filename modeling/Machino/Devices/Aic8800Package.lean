import Machino.Basic.Lines
import Machino.Core.Result
import Machino.Core.Text

namespace Machino.Devices

inductive InstallState where
  | unsupported | unavailable | notInstalled | installPending | installed | removePending
  deriving DecidableEq, Repr

/-- What the manifest of a device gives, apart from what only the shell helpers read. -/
structure DeviceManifest where
  loaded : Bool := false
  id : Text := []
  title : Text := []
  driver : Text := []
  openipcProfile : Text := []
  usbMode : Text := []
  payloadModules : List Text := []
  usbVid : Text := []
  usbPid : Text := []

/-- The part of the file system below the root that the package reads and writes. -/
structure Root where
  /-- The modules in /etc/machino/payload/<id>. -/
  payload : List Text := []
  /-- The modules in the machino directory of some kernel under /lib/modules. -/
  modules : List Text := []
  wirelessUsb : Text := []
  procModules : Text := []
  machinoConf : Text := []
  /-- idVendor and idProduct of each device on the bus. -/
  usbDevices : List (Text × Text) := []
  /-- The file with the recorded intent, where there is one. -/
  intent : Option Text := none
  intentFailed : Text := []

structure DeviceStatus where
  id : Text
  title : Text
  driver : Text
  state : InstallState
  openipcRegistered : Bool
  hardwarePresent : Bool
  driverLoaded : Bool
  active : Bool
  detail : Text
  deriving DecidableEq

/-- A file is read in pieces of 1024 bytes until the cap is reached. -/
def slurp (file : Text) (cap : ℕ) : Text := file.take ((cap + 1023) / 1024 * 1024)

/-- The value behind usb.mode in the configuration, of the first line that has one. -/
def usbMode (conf : Text) : Text :=
  match (Lines.split '\n' (slurp conf 65536)).findSome? (fun l =>
    let line := Text.trim l
    if "usb.mode".toList.isPrefixOf line then
      (Text.find ['='] line).map fun eq => Text.trim (line.drop (eq + 1))
    else none) with
  | some mode => mode
  | none => []

namespace Aic8800Package

variable (mf : DeviceManifest) (r : Root)

def title : Text := if mf.title = [] then "AIC8800DC WLAN".toList else mf.title

def readIntent : Text := Text.trim (slurp (r.intent.getD []) 64)

def readIntentFailure : Text := Text.trim (slurp r.intentFailed 256)

def isSupported : Bool := mf.loaded

def isInstalled : Bool :=
  mf.loaded && !mf.payloadModules.isEmpty && mf.payloadModules.all (r.modules.contains ·) &&
    (Text.find mf.openipcProfile (slurp r.wirelessUsb 65536)).isSome

/-- A module that is missing in the payload does not count where everything is set up already. -/
def isAvailable : Bool :=
  mf.loaded && !mf.payloadModules.isEmpty &&
    (mf.payloadModules.all (r.payload.contains ·) || isInstalled mf r)

def isHardwarePresent : Bool :=
  !mf.usbVid.isEmpty && !mf.usbPid.isEmpty &&
    r.usbDevices.any fun d => Text.trim d.1 = mf.usbVid && Text.trim d.2 = mf.usbPid

def isActive : Bool := !mf.usbMode.isEmpty && usbMode r.machinoConf = mf.usbMode

def intentInstall : Text := "install".toList
def intentRemove : Text := "remove".toList

/-- The file of the intent is written anew; `opens` is whether `fopen` goes well. -/
def record (opens : Bool) (text : String) : Root × Result :=
  if opens then ({ r with intent := some text.toList }, .ok) else (r, .error)

def install (opens : Bool) : Root × Result :=
  if isInstalled mf r then (r, .ok)
  else if !isAvailable mf r then (r, .error)
  else record r opens "install\n"

def uninstall (opens : Bool) : Root × Result :=
  if isActive mf r then (r, .busy)
  else if !isInstalled mf r && readIntent r ≠ intentInstall then (r, .ok)
  else record r opens "remove\n"

def installState : InstallState :=
  if !isSupported mf then .unsupported
  else if isInstalled mf r && readIntent r = intentRemove then .removePending
  else if isInstalled mf r then .installed
  else if readIntent r = intentInstall then .installPending
  else if !isAvailable mf r then .unavailable
  else .notInstalled

def detail : Text :=
  let s := installState mf r
  let pending := s = .installPending ∨ s = .removePending
  let failed := readIntentFailure r
  if !mf.loaded then
    "kein Manifest unter /etc/machino/devices - dieses Geraet ist nicht beschrieben".toList
  else if failed ≠ [] ∧ pending then "beim letzten Neustart fehlgeschlagen: ".toList ++ failed
  else if pending then "wirksam nach dem naechsten Neustart".toList
  else if s = .installed ∧ isActive mf r then
    "eingerichtet und aktiv - zum Deinstallieren zuerst den USB-Port freigeben".toList
  else if s = .installed ∧ !isHardwarePresent mf r then
    "eingerichtet, aber kein Adapter am Port erkannt".toList
  else if s = .notInstalled ∧ isHardwarePresent mf r then
    "Adapter erkannt, Treiber noch nicht eingerichtet".toList
  else []

def status : DeviceStatus where
  id := "aic8800".toList
  title := title mf
  driver := mf.driver
  state := installState mf r
  openipcRegistered :=
    !mf.openipcProfile.isEmpty && (Text.find mf.openipcProfile (slurp r.wirelessUsb 65536)).isSome
  hardwarePresent := isHardwarePresent mf r
  driverLoaded :=
    !mf.driver.isEmpty && (Text.find (mf.driver ++ [' ']) (slurp r.procModules 65536)).isSome
  active := isActive mf r
  detail := detail mf r

end Aic8800Package

inductive Intent where
  | none | install | remove
  deriving DecidableEq, Repr

/-- A device package as the next boot sees it. -/
structure PackageState where
  installed : Bool
  intent : Intent
  deriving DecidableEq, Repr

namespace PackageState

/-- The recorded intent is carried out and is gone then. -/
def boot (s : PackageState) : PackageState :=
  match s.intent with
  | .install => ⟨true, .none⟩
  | .remove => ⟨false, .none⟩
  | .none => s

end PackageState

open Aic8800Package

def intentOf (r : Root) : Intent :=
  if readIntent r = intentInstall then .install
  else if readIntent r = intentRemove then .remove
  else .none

def packageState (mf : DeviceManifest) (r : Root) : PackageState := ⟨isInstalled mf r, intentOf r⟩

/-- One call, and whether the file of the intent can be opened then. -/
inductive Call where
  | install (opens : Bool)
  | uninstall (opens : Bool)
  deriving DecidableEq, Repr

def call (mf : DeviceManifest) (r : Root) : Call → Root × Result
  | .install opens => install mf r opens
  | .uninstall opens => uninstall mf r opens

/-- The files after the calls, and the last of the calls that returned ok. -/
def callAll (mf : DeviceManifest) (r : Root) : List Call → Root × Option Call
  | [] => (r, none)
  | c :: cs =>
    let res := call mf r c
    let rest := callAll mf res.1 cs
    (rest.1, rest.2.or (if res.2.isOk then some c else none))

def Call.asks : Call → Bool
  | .install _ => true
  | .uninstall _ => false

/-- After the next boot the package is there just when the last successful call asked for it; where
there was none, the boot does what it would have done without the calls. -/
def BootsAsAsked (mf : DeviceManifest) (r : Root) (cs : List Call) : Prop :=
  (packageState mf (callAll mf r cs).1).boot.installed =
    ((callAll mf r cs).2.map Call.asks).getD (packageState mf r).boot.installed

instance (mf : DeviceManifest) (r : Root) (cs : List Call) : Decidable (BootsAsAsked mf r cs) :=
  inferInstanceAs (Decidable (_ = _))

section

variable {mf : DeviceManifest} {r : Root}

/-- A package whose payload is there and that does not hold the USB port. -/
structure Idle (mf : DeviceManifest) (r : Root) : Prop where
  loaded : mf.loaded = true
  payload : mf.payloadModules ≠ [] ∧ ∀ m ∈ mf.payloadModules, m ∈ r.payload
  inactive : isActive mf r = false

theorem Idle.isAvailable (h : Idle mf r) : isAvailable mf r = true := by
  obtain ⟨hne, hall⟩ := h.payload
  simp [Aic8800Package.isAvailable, h.loaded, hne]
  exact .inl hall

/-- Only the file of the intent is ever written. -/
theorem call_root (mf : DeviceManifest) (r : Root) (c : Call) :
    (call mf r c).1 = r ∨ ∃ t, (call mf r c).1 = { r with intent := some t } := by
  cases c with
  | install opens =>
    show (install mf r opens).1 = r ∨ ∃ t, (install mf r opens).1 = { r with intent := some t }
    unfold install record
    split_ifs
    · exact .inl rfl
    · exact .inl rfl
    · exact .inr ⟨_, rfl⟩
    · exact .inl rfl
  | uninstall opens =>
    show (uninstall mf r opens).1 = r ∨ ∃ t, (uninstall mf r opens).1 = { r with intent := some t }
    unfold uninstall record
    split_ifs
    · exact .inl rfl
    · exact .inl rfl
    · exact .inr ⟨_, rfl⟩
    · exact .inl rfl

theorem isInstalled_call (mf : DeviceManifest) (r : Root) (c : Call) :
    isInstalled mf (call mf r c).1 = isInstalled mf r := by
  obtain h | ⟨t, h⟩ := call_root mf r c
  · rw [h]
  · rw [h]
    rfl

theorem Idle.call (h : Idle mf r) (c : Call) : Idle mf (call mf r c).1 := by
  obtain hc | ⟨t, hc⟩ := call_root mf r c
  · rwa [hc]
  · rw [hc]
    exact ⟨h.loaded, h.payload, h.inactive⟩

@[simp] theorem record_false (r : Root) (text : String) : record r false text = (r, .error) := rfl

@[simp] theorem isOk_record_true (r : Root) (text : String) : (record r true text).2.isOk = true :=
  rfl

@[simp] theorem readIntent_record_install (r : Root) :
    readIntent (record r true "install\n").1 = intentInstall := by
  show Text.trim (slurp "install\n".toList 64) = _
  decide

@[simp] theorem readIntent_record_remove (r : Root) :
    readIntent (record r true "remove\n").1 = intentRemove := by
  show Text.trim (slurp "remove\n".toList 64) = _
  decide

theorem intentInstall_ne_remove : intentInstall ≠ intentRemove := by decide

/-- What the boot makes of a package that is not there. -/
theorem boot_of_not_installed (hi : isInstalled mf r = false) :
    (packageState mf r).boot.installed = decide (readIntent r = intentInstall) := by
  unfold packageState intentOf PackageState.boot
  split_ifs with h1 h2
  · simp [h1]
  · simp [h1]
  · simp [h1, hi]

theorem boot_of_installed (hi : isInstalled mf r = true) :
    (packageState mf r).boot.installed = !decide (readIntent r = intentRemove) := by
  unfold packageState intentOf PackageState.boot
  split_ifs with h1 h2
  · simp [h1, intentInstall_ne_remove]
  · simp [h2]
  · simp [h2, hi]

/-- Where the package is not there, each call leaves the intent as it asks or fails. -/
theorem call_of_not_installed (h : Idle mf r) (hi : isInstalled mf r = false) (c : Call) :
    if (call mf r c).2.isOk then (packageState mf (call mf r c).1).boot.installed = c.asks
    else (call mf r c).1 = r := by
  rw [boot_of_not_installed ((isInstalled_call mf r c).trans hi)]
  cases c with
  | install opens =>
    have hcall : call mf r (.install opens) = record r opens "install\n" := by
      simp [call, install, hi, h.isAvailable]
    rw [hcall]
    cases opens with
    | false => simp
    | true => simp [Call.asks]
  | uninstall opens =>
    by_cases hread : readIntent r = intentInstall
    · have hcall : call mf r (.uninstall opens) = record r opens "remove\n" := by
        simp [call, uninstall, hi, h.inactive, hread]
      rw [hcall]
      cases opens with
      | false => simp
      | true => simp [Call.asks, intentInstall_ne_remove.symm]
    · have hcall : call mf r (.uninstall opens) = (r, .ok) := by
        simp [call, uninstall, hi, h.inactive, hread]
      rw [hcall]
      simp [Call.asks, hread]

theorem bootsAsAsked_of_not_installed (h : Idle mf r) (hi : isInstalled mf r = false)
    (cs : List Call) : BootsAsAsked mf r cs := by
  induction cs generalizing r with
  | nil => rfl
  | cons c cs ih =>
    have hstep := call_of_not_installed h hi c
    have hrest := ih (h.call c) ((isInstalled_call mf r c).trans hi)
    unfold BootsAsAsked at hrest ⊢
    rw [callAll, hrest]
    cases (callAll mf (call mf r c).1 cs).2 with
    | some d => rfl
    | none =>
      by_cases hok : (call mf r c).2.isOk = true
      · rw [if_pos hok] at hstep
        simpa [hok] using hstep
      · rw [if_neg hok] at hstep
        simp [hok, hstep]

/-- What an installed package answers ok to. -/
def Call.taken : Call → Bool
  | .install _ => true
  | .uninstall opens => opens

theorem call_install_of_installed (hi : isInstalled mf r = true) (opens : Bool) :
    call mf r (.install opens) = (r, .ok) := by
  simp [call, install, hi]

theorem call_uninstall_of_installed (h : Idle mf r) (hi : isInstalled mf r = true) (opens : Bool) :
    call mf r (.uninstall opens) = record r opens "remove\n" := by
  simp [call, uninstall, hi, h.inactive]

/-- On an installed package the last call that is taken is the last one that returned ok, and only
the removals leave something behind. -/
theorem callAll_of_installed (h : Idle mf r) (hi : isInstalled mf r = true) (cs : List Call) :
    (callAll mf r cs).2 = (cs.filter Call.taken).getLast? ∧
      readIntent (callAll mf r cs).1 =
        if .uninstall true ∈ cs then intentRemove else readIntent r := by
  induction cs generalizing r with
  | nil => exact ⟨rfl, rfl⟩
  | cons c cs ih =>
    obtain ⟨hlast, hintent⟩ := ih (h.call c) ((isInstalled_call mf r c).trans hi)
    rw [callAll, hlast, hintent]
    cases c with
    | install opens =>
      rw [call_install_of_installed hi]
      simp [Call.taken]
    | uninstall opens =>
      rw [call_uninstall_of_installed h hi]
      cases opens with
      | false => simp [Call.taken]
      | true => simp [Call.taken]

theorem isInstalled_callAll (mf : DeviceManifest) (r : Root) (cs : List Call) :
    isInstalled mf (callAll mf r cs).1 = isInstalled mf r := by
  induction cs generalizing r with
  | nil => rfl
  | cons c cs ih => exact (ih _).trans (isInstalled_call mf r c)

/-- On an installed package no call to install comes last while a removal is recorded: it answers ok
there and leaves the removal in place. -/
def NoRemovalStands (mf : DeviceManifest) (r : Root) (cs : List Call) : Prop :=
  isInstalled mf r = true → (cs.filter Call.taken).getLast?.any Call.asks = true →
    readIntent r ≠ intentRemove ∧ .uninstall true ∉ cs

instance (mf : DeviceManifest) (r : Root) (cs : List Call) : Decidable (NoRemovalStands mf r cs) :=
  inferInstanceAs (Decidable (_ → _ → _ ≠ _ ∧ _ ∉ _))

theorem bootsAsAsked_iff (h : Idle mf r) (cs : List Call) :
    BootsAsAsked mf r cs ↔ NoRemovalStands mf r cs := by
  cases hi : isInstalled mf r with
  | false => simp [NoRemovalStands, hi, bootsAsAsked_of_not_installed h hi cs]
  | true =>
    obtain ⟨hlast, hintent⟩ := callAll_of_installed h hi cs
    have hboot := @boot_of_installed mf _ ((isInstalled_callAll mf r cs).trans hi)
    unfold BootsAsAsked NoRemovalStands
    rw [hboot, hintent, hlast, boot_of_installed hi]
    cases hcs : (cs.filter Call.taken).getLast? with
    | none =>
      have hnot : Call.uninstall true ∉ cs := by
        intro hmem
        have hfilter := List.mem_filter.mpr ⟨hmem, (rfl : Call.taken (.uninstall true) = true)⟩
        rw [List.getLast?_eq_none_iff.mp hcs] at hfilter
        exact absurd hfilter List.not_mem_nil
      simp [hnot]
    | some c =>
      obtain ⟨hmem, htaken⟩ := List.mem_filter.mp (List.mem_of_getLast? hcs)
      cases c with
      | install opens =>
        by_cases hun : Call.uninstall true ∈ cs
        · simp [hun, hi, Call.asks]
        · simp [hun, hi, Call.asks]
      | uninstall opens =>
        obtain rfl : opens = true := htaken
        simp [hmem, Call.asks]

end

/-- The adapter with one module, set up already. -/
def adapter : DeviceManifest :=
  { loaded := true, id := ['a'], openipcProfile := ['p'], payloadModules := [['m']] }

def setUp : Root := { payload := [['m']], modules := [['m']], wirelessUsb := ['p'] }

theorem idle_setUp : Idle adapter setUp where
  loaded := rfl
  payload := by decide
  inactive := rfl

theorem bootsAsAsked_setUp : BootsAsAsked adapter setUp [.install true, .uninstall true] :=
  (bootsAsAsked_iff idle_setUp _).mpr (by decide)

/-- A removal that is taken back is carried out all the same. -/
theorem not_bootsAsAsked_takenBack :
    ¬ ∀ mf r, Idle mf r → ∀ cs, BootsAsAsked mf r cs := by
  intro h
  exact absurd (h adapter setUp idle_setUp [.uninstall true, .install true]) (by decide)

end Machino.Devices
