import Machino.Basic.Effects
import Machino.Core.Result
import Machino.Net.TxnRecord

namespace Machino.Net

open Effects

/-- The two records of a transaction in the state store. -/
inductive Key where
  | confirmed | pending
  deriving DecidableEq, Repr

/-- What a transaction does to the outside: calls of the state store, and of the function that
applies a configuration. -/
inductive Effect where
  | load (k : Key)
  | save (k : Key) (value : Text)
  | clear (k : Key)
  | apply (config : Text)

abbrev Answer : Effect → Type
  | .load _ => Option Text
  | .save _ _ => Bool
  | .clear _ => Unit
  | .apply _ => Result

abbrev Txn := Prog Effect Answer

def load (k : Key) : Txn (Option Text) := Prog.perform (Effect.load k)

def save (k : Key) (value : Text) : Txn Bool := Prog.perform (Effect.save k value)

def clear (k : Key) : Txn Unit := Prog.perform (Effect.clear k)

def apply (config : Text) : Txn Result := Prog.perform (Effect.apply config)

section eval

variable {W : Type} (exec : (e : Effect) → W → Answer e × W) (w : W)

@[simp] theorem eval_load (k : Key) : (load k).eval exec w = exec (.load k) w := rfl

@[simp] theorem eval_save (k : Key) (v : Text) :
    (save k v).eval exec w = exec (.save k v) w := rfl

@[simp] theorem eval_clear (k : Key) : (clear k).eval exec w = exec (.clear k) w := rfl

@[simp] theorem eval_apply (c : Text) : (apply c).eval exec w = exec (.apply c) w := rfl

end eval

inductive SeedOutcome where
  | seeded | alreadyPresent | failed
  deriving DecidableEq, Repr

inductive RecoverOutcome where
  | nothing | rolledBack | confirmedUnusable
  deriving DecidableEq, Repr

/-- What the process remembers of a transaction. -/
structure NetworkTxn where
  pending : Bool := false
  token : UInt64 := 0
  nextToken : UInt64 := 1
  deadlineMs : UInt32 := 0
  deadlineValid : Bool := false
  deriving DecidableEq, Repr

/-- No timer outlives the change it belongs to. -/
def NetworkTxn.closed (m : NetworkTxn) : NetworkTxn :=
  { m with pending := false, deadlineValid := false }

@[simp] theorem NetworkTxn.closed_pending (m : NetworkTxn) : m.closed.pending = false := rfl

def loadConfirmed : Txn (Option Text) := do
  return (← load .confirmed).bind decodeConfirmed

def seedConfirmed (config : Text) : Txn (SeedOutcome × String) := do
  if (← loadConfirmed).isSome then
    return (.alreadyPresent, "a confirmed configuration already exists")
  if !(← save .confirmed (encodeConfirmed config)) then
    return (.failed, "could not write the confirmed configuration")
  return (.seeded, "")

/-- The tokens of this process start behind the one on record. -/
def NetworkTxn.skipToken (m : NetworkTxn) : Option PendingRecord → NetworkTxn
  | some pr => if m.nextToken ≤ pr.token then { m with nextToken := pr.token + 1 } else m
  | none => m

def recover (m : NetworkTxn) : Txn ((RecoverOutcome × String) × NetworkTxn) := do
  let pendingBlob ← load .pending
  let pr := pendingBlob.bind decodePending
  let m := m.skipToken pr
  if pendingBlob = none then
    return ((.nothing, ""), m)
  match ← loadConfirmed with
  | none =>
    return ((.confirmedUnusable, "an unconfirmed network change was found, but the last " ++
      "confirmed configuration is missing or unreadable -- nothing was applied"), m)
  | some good =>
    clear .pending
    let rc ← apply good
    if !rc.isOk then
      return ((.rolledBack, "could not restore the last confirmed network configuration"), m.closed)
    let err := if pr.isSome then "an unconfirmed network change was rolled back after restart"
      else "an unreadable pending change was found; the last confirmed configuration was restored"
    return ((.rolledBack, err), m.closed)

/-- A change is begun under a token of its own, or refused with the reason. -/
def begin (candidate : Text) (nowMs windowMs : UInt32) (m : NetworkTxn) :
    Txn (Except String UInt64 × NetworkTxn) := do
  if windowMs = 0 then
    return (.error "a confirmation window of zero would roll back instantly", m)
  if m.pending then
    return (.error "another change is still waiting for confirmation", m)
  match ← loadConfirmed with
  | none => return (.error "there is no confirmed configuration to fall back to", m)
  | some good =>
    let pr : PendingRecord := { token := m.nextToken, candidate := candidate }
    let m := { m with nextToken := m.nextToken + 1 }
    if !(← save .pending (encodePending pr)) then
      return (.error "could not record the pending change; refusing to apply it", m)
    let rc ← apply candidate
    if !rc.isOk then
      clear .pending
      let _ ← apply good
      return (.error "the change could not be applied", m)
    return (.ok pr.token, { m with
      pending := true, token := pr.token, deadlineMs := nowMs + windowMs, deadlineValid := true })

def confirm (token : UInt64) (m : NetworkTxn) : Txn (Except String Unit × NetworkTxn) := do
  if !m.pending then
    return (.error "nothing is waiting for confirmation", m)
  if token ≠ m.token then
    return (.error "that confirmation belongs to a different change", m)
  match (← load .pending).bind decodePending with
  | none => return (.error "the pending change is no longer on record", m)
  | some pr =>
    if pr.token ≠ token then
      return (.error "the pending change is no longer on record", m)
    if !(← save .confirmed (encodeConfirmed pr.candidate)) then
      return (.error "could not record the confirmation", m)
    clear .pending
    return (.ok (), m.closed)

def rollbackLocked (m : NetworkTxn) : Txn (String × NetworkTxn) := do
  let good ← loadConfirmed
  clear .pending
  match good with
  | none => return ("no confirmed configuration to restore", m.closed)
  | some good =>
    let rc ← apply good
    let err := if rc.isOk then ""
      else "could not restore the last confirmed network configuration"
    return (err, m.closed)

/-- The window of the pending change has passed. -/
def NetworkTxn.expired (m : NetworkTxn) (nowMs : UInt32) : Bool :=
  m.pending && m.deadlineValid && !((nowMs - m.deadlineMs).toInt32 < 0)

def tick (nowMs : UInt32) (m : NetworkTxn) : Txn (Bool × NetworkTxn) := do
  if !m.expired nowMs then
    return (false, m)
  let r ← rollbackLocked m
  return (true, r.2)

end Machino.Net
