import Machino.Ipsec.IpsecService
import Machino.Ipsec.Validate
import Machino.Ipsec.MachinoConf

namespace Machino.Ipsec

open Effects

/-- The files by their contents, none for a file that is not there. -/
structure Files where
  caPem : Option Text := none
  extraPem : Option Text := none
  daemon : Option Text := none
  machino : Option Text := none
  deriving DecidableEq

/-- Why the writes of one call fail, none for a write that goes well. -/
structure Faults where
  caPem : Option String := none
  extraPem : Option String := none
  daemon : Option String := none
  machino : Option String := none
  deriving DecidableEq

section

-- Where the certificates are stored, beside the daemon's file.
variable (caPath extraPath : Text)

/-- The path of a file that holds something. -/
def pemFile (path : Text) (content : Option Text) : Text :=
  if content.getD [] = [] then [] else path

/-- The daemon's file as it is generated from what the files hold. -/
def newDaemon (c : IpsecConfig) (secrets : IpsecSecrets) (f : Files) : Text :=
  toWeirdikeConf c secrets (f.daemon.getD []) {} (pemFile caPath f.caPem)
    (pemFile extraPath f.extraPem)

/-- A file is written aside and renamed: it has the new content, or the one it had. -/
def writeAtomic (fault : Option String) (written f : Files) : Except String Unit × Files :=
  match fault with
  | some err => (.error err, f)
  | none => (.ok (), written)

/-- The files under the calls that store a configuration; none of the others touches them. -/
def execFiles (faults : Faults) : (e : Effect) → Files → Answer e × Files
  | .writeCaPem pem, f => writeAtomic faults.caPem { f with caPem := some pem } f
  | .writeExtraPem pem, f => writeAtomic faults.extraPem { f with extraPem := some pem } f
  | .daemonConf c secrets, f => (credLine c secrets (f.daemon.getD []) ≠ [], f)
  | .writeDaemonConf c secrets, f =>
    writeAtomic faults.daemon { f with daemon := some (newDaemon caPath extraPath c secrets f) } f
  | .writeMachinoConf c, f =>
    writeAtomic faults.machino { f with machino := some (toMachinoConf c) } f
  | .config, f => ({}, f)
  | .daemonKey _, f | .daemonRunning, f | .sessionConf _ _, f => (false, f)
  | .startDaemon, f | .stopDaemon, f | .addPeerRoute _, f | .delPeerRoute _, f
  | .writeSessionConf _ _, f => (.ok (), f)
  | .ctlStatus, f | .resolve4 _, f => (none, f)
  | .select _, f => (.ok {}, f)
  | .note _, f => ((), f)

end

/-- The text `validate` returns, empty for nothing to complain of. -/
def complaint (c : IpsecConfig) : String :=
  match validate c with
  | .ok () => ""
  | .error err => err

/-- The configuration or one of its secrets is refused. -/
def Refused (check : IpsecConfig → String) (c : IpsecConfig) (secrets : IpsecSecrets) : Prop :=
  check c ≠ "" ∨ pskCheck "psk" secrets.psk ≠ "" ∨
    pskCheck "eapPassword" secrets.eapPassword ≠ ""

/-- The certificates of the request where it has some. -/
def withCaPem (secrets : IpsecSecrets) (f : Files) : Files :=
  if secrets.caPem = [] then f else { f with caPem := some secrets.caPem }

def withExtraPem (secrets : IpsecSecrets) (f : Files) : Files :=
  if secrets.extraPem = [] then f else { f with extraPem := some secrets.extraPem }

/-- The request has no such certificates, or they could be written. -/
def PemWritten (pem : Text) (fault : Option String) : Prop := pem = [] ∨ fault = none

/-- What an error leaves: the files that are written before the one that fails are ahead, and all
others are as they were. After a missing credential the certificates may be old or new. -/
inductive ErrorLeaves (check : IpsecConfig → String) (caPath extraPath : Text) (faults : Faults)
    (c : IpsecConfig) (secrets : IpsecSecrets) (f : Files) : Files → Prop
  | refused (hrefused : Refused check c secrets) :
    ErrorLeaves check caPath extraPath faults c secrets f f
  | caPem (haccepted : ¬ Refused check c secrets)
    (hfault : ¬ PemWritten secrets.caPem faults.caPem) :
    ErrorLeaves check caPath extraPath faults c secrets f f
  | extraPem (haccepted : ¬ Refused check c secrets) (hca : PemWritten secrets.caPem faults.caPem)
    (hfault : ¬ PemWritten secrets.extraPem faults.extraPem) :
    ErrorLeaves check caPath extraPath faults c secrets f (withCaPem secrets f)
  | credential (g : Files) (haccepted : ¬ Refused check c secrets)
    (hwritten : PemWritten secrets.caPem faults.caPem ∧ PemWritten secrets.extraPem faults.extraPem)
    (hmissing : c.enabled = true ∧ credLine c secrets (f.daemon.getD []) = [])
    (hca : g.caPem = f.caPem ∨ g.caPem = (withCaPem secrets f).caPem)
    (hextra : g.extraPem = f.extraPem ∨ g.extraPem = (withExtraPem secrets f).extraPem)
    (hdaemon : g.daemon = f.daemon) (hmachino : g.machino = f.machino) :
    ErrorLeaves check caPath extraPath faults c secrets f g
  | daemon (haccepted : ¬ Refused check c secrets)
    (hwritten : PemWritten secrets.caPem faults.caPem ∧ PemWritten secrets.extraPem faults.extraPem)
    (hthere : ¬ (c.enabled = true ∧ credLine c secrets (f.daemon.getD []) = []))
    (hfault : faults.daemon ≠ none) :
    ErrorLeaves check caPath extraPath faults c secrets f
      (withExtraPem secrets (withCaPem secrets f))
  | machino (haccepted : ¬ Refused check c secrets)
    (hwritten : PemWritten secrets.caPem faults.caPem ∧ PemWritten secrets.extraPem faults.extraPem)
    (hthere : ¬ (c.enabled = true ∧ credLine c secrets (f.daemon.getD []) = []))
    (hdaemon : faults.daemon = none) (hfault : faults.machino ≠ none) :
    ErrorLeaves check caPath extraPath faults c secrets f
      { withExtraPem secrets (withCaPem secrets f) with
        daemon := some (newDaemon caPath extraPath c secrets
          (withExtraPem secrets (withCaPem secrets f))) }

section

variable {check : IpsecConfig → String} {caPath extraPath : Text} {faults : Faults}
  {c : IpsecConfig} {secrets : IpsecSecrets} {f : Files}

theorem eval_saveCaPem :
    (savePem "ca.pem" secrets.caPem writeCaPem).eval (execFiles caPath extraPath faults) f =
      if secrets.caPem = [] then ("", f)
      else match faults.caPem with
        | some err => ("ca.pem: " ++ err, f)
        | none => ("", withCaPem secrets f) := by
  unfold savePem withCaPem writeCaPem
  split_ifs with h
  · rfl
  · simp only [Prog.eval_bind, Prog.eval_perform, execFiles, writeAtomic]
    cases faults.caPem with
    | none => rfl
    | some err => rfl

theorem eval_saveExtraPem :
    (savePem "extra.pem" secrets.extraPem writeExtraPem).eval
      (execFiles caPath extraPath faults) f =
      if secrets.extraPem = [] then ("", f)
      else match faults.extraPem with
        | some err => ("extra.pem: " ++ err, f)
        | none => ("", withExtraPem secrets f) := by
  unfold savePem withExtraPem writeExtraPem
  split_ifs with h
  · rfl
  · simp only [Prog.eval_bind, Prog.eval_perform, execFiles, writeAtomic]
    cases faults.extraPem with
    | none => rfl
    | some err => rfl

/-- What is missing where there is no credential. -/
def missingText (c : IpsecConfig) : String :=
  (match c.auth with
    | .eapMschapv2 => "eapPassword"
    | .psk => "psk") ++ ": erforderlich, wenn enabled=true (write-only; einmal setzen genuegt)"

def withDaemon (caPath extraPath : Text) (c : IpsecConfig) (secrets : IpsecSecrets) (f : Files) :
    Files := { f with daemon := some (newDaemon caPath extraPath c secrets f) }

/-- A missing credential stops before the first write; the second comes after the first. -/
theorem eval_saveConf :
    (saveConf c secrets).eval (execFiles caPath extraPath faults) f =
      if c.enabled = true ∧ credLine c secrets (f.daemon.getD []) = [] then (missingText c, f)
      else match faults.daemon with
        | some err => ("weirdike.conf: " ++ err, f)
        | none => match faults.machino with
          | some err => ("ipsec.conf: " ++ err, withDaemon caPath extraPath c secrets f)
          | none => ("", { withDaemon caPath extraPath c secrets f with
              machino := some (toMachinoConf c) }) := by
  unfold saveConf daemonConf writeDaemonConf writeMachinoConf
  simp only [Prog.eval_bind, Prog.eval_perform, execFiles, Bool.and_eq_true, Bool.not_eq_true',
    decide_eq_false_iff_not, not_not]
  split_ifs with hmissing
  · rfl
  · simp only [Prog.eval_bind, Prog.eval_perform, execFiles, writeAtomic]
    cases faults.daemon with
    | some err => rfl
    | none =>
      simp only [Prog.eval_bind, Prog.eval_perform, execFiles, writeAtomic]
      cases faults.machino with
      | some err => rfl
      | none => rfl

theorem eval_setConfig_of_refused (h : Refused check c secrets) :
    ((setConfig check c secrets).eval (execFiles caPath extraPath faults) f).2 = f := by
  unfold setConfig
  by_cases hcheck : check c ≠ ""
  · rw [if_pos hcheck]
    rfl
  · by_cases hpsk : pskCheck "psk" secrets.psk ≠ ""
    · rw [if_neg hcheck, if_pos hpsk]
      rfl
    · rw [if_neg hcheck, if_neg hpsk, if_pos ((h.resolve_left hcheck).resolve_left hpsk)]
      rfl

theorem pem_message_ne (err : String) : "ca.pem: " ++ err ≠ "" ∧ "extra.pem: " ++ err ≠ "" := by
  constructor
  all_goals
    intro hnil
    have hlen := congrArg String.length hnil
    rw [String.length_append] at hlen
    exact absurd hlen (by simp)

/-- The part of `set_config` behind the first certificate. -/
theorem eval_saveExtraThenConf :
    (do
      let extra ← savePem "extra.pem" secrets.extraPem writeExtraPem
      if extra ≠ "" then
        return extra
      saveConf c secrets : Svc String).eval (execFiles caPath extraPath faults) f =
      if secrets.extraPem ≠ [] ∧ faults.extraPem ≠ none then
        ("extra.pem: " ++ faults.extraPem.getD "", f)
      else (saveConf c secrets).eval (execFiles caPath extraPath faults)
        (withExtraPem secrets f) := by
  rw [Prog.eval_bind, eval_saveExtraPem]
  by_cases hpem : secrets.extraPem = []
  · have hsame : withExtraPem secrets f = f := if_pos hpem
    simp [hpem, hsame]
  · cases hfault : faults.extraPem with
    | none => simp [hpem]
    | some err => simp [hpem, (pem_message_ne err).2]

/-- The certificates, one after the other, and then the configuration. -/
theorem eval_setConfig_of_accepted (h : ¬ Refused check c secrets) :
    (setConfig check c secrets).eval (execFiles caPath extraPath faults) f =
      if secrets.caPem ≠ [] ∧ faults.caPem ≠ none then ("ca.pem: " ++ faults.caPem.getD "", f)
      else if secrets.extraPem ≠ [] ∧ faults.extraPem ≠ none then
        ("extra.pem: " ++ faults.extraPem.getD "", withCaPem secrets f)
      else (saveConf c secrets).eval (execFiles caPath extraPath faults)
        (withExtraPem secrets (withCaPem secrets f)) := by
  simp only [Refused, not_or, not_not] at h
  unfold setConfig
  rw [if_neg (by simp [h.1]), if_neg (by simp [h.2.1]), if_neg (by simp [h.2.2]), Prog.eval_bind,
    eval_saveCaPem]
  by_cases hpem : secrets.caPem = []
  · have hsame : withCaPem secrets f = f := if_pos hpem
    rw [if_pos hpem, if_neg (by simp), if_neg (by simp [hpem]), hsame]
    exact eval_saveExtraThenConf
  · cases hfault : faults.caPem with
    | none =>
      rw [if_neg hpem, if_neg (by simp), if_neg (by simp)]
      exact eval_saveExtraThenConf
    | some err => simp [hpem, (pem_message_ne err).1]

theorem pemWritten_iff {pem : Text} {fault : Option String} :
    PemWritten pem fault ↔ ¬ (pem ≠ [] ∧ fault ≠ none) := by
  unfold PemWritten
  rw [not_and_or, not_ne_iff, not_ne_iff]

/-- An error leaves the files behind the one that failed, and that one, as they were. -/
theorem setConfig_error
    (h : ((setConfig check c secrets).eval (execFiles caPath extraPath faults) f).1 ≠ "") :
    ErrorLeaves check caPath extraPath faults c secrets f
      ((setConfig check c secrets).eval (execFiles caPath extraPath faults) f).2 := by
  by_cases hrefused : Refused check c secrets
  · rw [eval_setConfig_of_refused hrefused]
    exact .refused hrefused
  · rw [eval_setConfig_of_accepted hrefused] at h ⊢
    split_ifs at h ⊢ with hca hextra
    · exact .caPem hrefused (mt pemWritten_iff.mp (not_not.mpr hca))
    · exact .extraPem hrefused (pemWritten_iff.mpr hca) (mt pemWritten_iff.mp (not_not.mpr hextra))
    · have hwritten := And.intro (pemWritten_iff.mpr hca) (pemWritten_iff.mpr hextra)
      have hdaemon : (withExtraPem secrets (withCaPem secrets f)).daemon = f.daemon := by
        unfold withExtraPem withCaPem
        split_ifs <;> rfl
      have hmachino : (withExtraPem secrets (withCaPem secrets f)).machino = f.machino := by
        unfold withExtraPem withCaPem
        split_ifs <;> rfl
      rw [eval_saveConf, hdaemon] at h ⊢
      split_ifs at h ⊢ with hmissing
      · refine .credential _ hrefused hwritten hmissing (.inr ?_) (.inr ?_) hdaemon hmachino
        · unfold withExtraPem
          split_ifs <;> rfl
        · unfold withExtraPem withCaPem
          split_ifs <;> rfl
      · cases hd : faults.daemon with
        | some err => exact .daemon hrefused hwritten hmissing (by simp [hd])
        | none =>
          cases hm : faults.machino with
          | some err => exact .machino hrefused hwritten hmissing hd (by simp [hm])
          | none => simp [hd, hm] at h

end

/-- A configuration with a key that passes the checks. -/
def plainConfig : IpsecConfig :=
  { enabled := true, gateway := "vpn".toList, remoteSubnet := "10.0.0.0/8".toList }

def plainSecrets : IpsecSecrets := { psk := "geheim".toList }

theorem plain_accepted : ¬ Refused complaint plainConfig plainSecrets := by
  unfold Refused
  rw [not_or, not_or]
  refine ⟨?_, ?_, ?_⟩
  · decide
  · decide
  · decide

def fullDisk : Faults := { machino := some "rename fehlgeschlagen" }

theorem eval_plain :
    (setConfig complaint plainConfig plainSecrets).eval (execFiles [] [] fullDisk) {} =
      ("ipsec.conf: rename fehlgeschlagen", withDaemon [] [] plainConfig plainSecrets {}) := by
  have hcred : ¬ (plainConfig.enabled = true ∧ credLine plainConfig plainSecrets [] = []) := by
    decide
  rw [eval_setConfig_of_accepted plain_accepted, if_neg (by decide), if_neg (by decide)]
  exact eval_saveConf.trans (if_neg hcred)

/-- The daemon's file is ahead when the one of the service cannot be written. -/
theorem setConfig_error_machino :
    ErrorLeaves complaint [] [] fullDisk plainConfig plainSecrets {}
      ((setConfig complaint plainConfig plainSecrets).eval (execFiles [] [] fullDisk) {}).2 := by
  refine setConfig_error ?_
  rw [eval_plain]
  decide

/-- The error leaves another file of the daemon than there was. -/
theorem not_files_unchanged :
    ((setConfig complaint plainConfig plainSecrets).eval (execFiles [] [] fullDisk) {}).1 ≠ "" ∧
    ((setConfig complaint plainConfig plainSecrets).eval (execFiles [] [] fullDisk) {}).2 ≠ {} := by
  rw [eval_plain]
  refine ⟨by decide, fun h => ?_⟩
  have hdaemon := congrArg Files.daemon h
  exact absurd hdaemon (by simp [withDaemon])

end Machino.Ipsec
