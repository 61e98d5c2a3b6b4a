import Machino.Api.PatchFields
import Machino.Core.ConfigStore
import Machino.Core.Number

namespace Machino.Api

/-- How a change was applied, or would have been. -/
structure ApplyResult where
  ok : Bool := false
  mode : ApplyMode := .unsupported
  effective : Int := -1
  deferred : Bool := false
  message : String := ""
  deriving DecidableEq

namespace ApplyResult

def applied (mode : ApplyMode) (effective : Int) (message : String := "") : ApplyResult :=
  ⟨true, mode, effective, false, message⟩

def stored (mode : ApplyMode) (effective : Int) (message : String) : ApplyResult :=
  ⟨true, mode, effective, true, message⟩

def rejected (mode : ApplyMode) (message : String) : ApplyResult := ⟨false, mode, -1, false, message⟩

/-- The status a change is answered with. -/
def status (r : ApplyResult) : String :=
  if !r.ok then "rejected" else if r.deferred then "stored" else "applied"

end ApplyResult

/-- What is sent back. -/
structure Response where
  status : ℕ
  error : Option Fault := none
  revision : Option UInt32 := none
  changes : List (Change × ApplyResult) := []

/-- A stable sort by whether the change is the profile: it comes first. -/
def profileFirst (cs : List Change) : List Change :=
  cs.filter (fun c => c.key = "performance.profile".toList) ++
    cs.filter fun c => c.key ≠ "performance.profile".toList

/-- The integer a change came with, as an `int`. -/
def requestedInt (c : Change) : Int := ((getInt c.requested).getD 0).bmod (2 ^ 32)

/-- The answers that are given without asking a service. -/
def storedResult (c : Change) : Option ApplyResult :=
  if c.key = "rtsp.send_buffer_bytes".toList ∨ c.key = "rtsp.send_stall_ms".toList then
    some (.stored .daemonRestart (Text.atoi c.value)
      "persisted; applies to sockets after daemon restart")
  else if c.key = "rtsp.max_clients".toList then
    some (.stored .daemonRestart (Text.atoi c.value)
      "persisted; the accept loop picks it up after daemon restart")
  else if "night.".toList.isPrefixOf c.key then
    some (.applied .live 0 "stored; used on the next day/night action")
  else if "video.1.".toList.isPrefixOf c.key then
    some (.stored .daemonRestart (requestedInt c)
      "persisted; the substream is built at daemon start")
  else if c.key = "lifecycle.idle_grace_ms".toList then
    some (.stored .daemonRestart (requestedInt c) "persisted; takes effect after daemon restart")
  else if c.key = "webui.dashboard_preview".toList then
    some (.applied .live 0 "takes effect when the dashboard is next loaded")
  else none

variable {σ : Type}

/-- One change is applied. -/
def dispatch (services : σ → Change → ApplyResult × σ) (s : σ) (c : Change) : ApplyResult × σ :=
  match storedResult c with
  | some r => (r, s)
  | none => services s c

def applyAll (services : σ → Change → ApplyResult × σ) (s : σ) :
    List Change → List (Change × ApplyResult) × σ
  | [] => ([], s)
  | c :: cs =>
    let (r, s) := dispatch services s c
    let (rs, s) := applyAll services s cs
    ((c, r) :: rs, s)

/-- What is persisted. -/
def keptValues (rs : List (Change × ApplyResult)) : List (Text × Text) :=
  (rs.filter (·.2.ok)).map fun r => (r.1.key, r.1.value)

def contains (s sub : String) : Bool := Text.contains s.toList sub

/-- The code a rejected change is answered with. -/
def rejectCode (r : ApplyResult) : String :=
  if r.mode = .unsupported then "unsupported_control"
  else if contains r.message "restart failed" then "pipeline_restart_failed"
  else if contains r.message "platform rejected" then "apply_failed"
  else "invalid_value"

def rejectStatus (code : String) : ℕ :=
  if code = "pipeline_restart_failed" then 500 else if code = "apply_failed" then 500 else 422

/-- What the services hold and what has been persisted. -/
structure Daemon (σ : Type) where
  services : σ
  store : ConfigStore

def staleRevision (want : String) (store : ConfigStore) : String :=
  "stale revision " ++ want ++ ", current is " ++ toString store.revision

/-- The revision the request was made for, in its header or in its body. -/
def checkRevision (store : ConfigStore) (ifMatch : Text) (doc : Json) : Except Fault Unit :=
  if ifMatch ≠ [] ∧ Text.strtoul ifMatch ≠ store.revision then
    .error ⟨409, "conflict", "revision".toList, staleRevision (String.ofList ifMatch) store⟩
  else
    match doc.get "revision" with
    | none => .ok ()
    | some rv =>
      match getInt rv with
      | none => .error ⟨422, "invalid_value", "revision".toList, "revision must be an integer"⟩
      | some want =>
        if UInt32.ofInt want ≠ store.revision then
          .error ⟨409, "conflict", "revision".toList, staleRevision (toString want) store⟩
        else .ok ()

/-- What a body asks for, in the order in which it is applied. -/
def readPatch (parse : Text → Except String Json) (p : Platform) (store : ConfigStore)
    (body ifMatch : Text) : Except Fault (List Change) :=
  if body = [] then .error ⟨400, "invalid_json", [], "empty body"⟩
  else
    match parse body with
    | .error err => .error ⟨400, "invalid_json", [], err⟩
    | .ok doc =>
      if doc.isObject then do
        checkRevision store ifMatch doc
        let cs ← changesOf p doc
        if cs.isEmpty then .error ⟨400, "invalid_value", [], "no changes given"⟩
        else .ok (profileFirst cs)
      else .error ⟨400, "invalid_json", [], "top-level value must be an object"⟩

/-- The answer once everything has been applied and persisted. -/
def answer (store : ConfigStore) (rs : List (Change × ApplyResult)) : Response :=
  match rs.find? (!·.2.ok) with
  | some (c, r) =>
    let code := rejectCode r
    { status := rejectStatus code,
      error := some ⟨rejectStatus code, code, c.path, r.message⟩,
      revision := some store.revision, changes := rs }
  | none => { status := 200, revision := some store.revision, changes := rs }

/-- `patch_config`; `written` is what comes of writing the store. -/
def patchConfig (parse : Text → Except String Json) (p : Platform)
    (services : σ → Change → ApplyResult × σ) (written : Except String Unit) (body ifMatch : Text)
    (d : Daemon σ) : Response × Daemon σ :=
  match readPatch parse p d.store body ifMatch with
  | .error f => ({ status := f.status, error := some f }, d)
  | .ok cs =>
    let (rs, s) := applyAll services d.services cs
    if (keptValues rs).isEmpty then (answer d.store rs, { d with services := s })
    else
      match written with
      | .ok () =>
        let store := d.store.commit true (keptValues rs)
        (answer store rs, ⟨s, store⟩)
      | .error err =>
        ({ status := 500,
           error := some ⟨500, "internal_error", [],
             "settings applied but persisting failed: " ++ err⟩,
           changes := rs },
          { d with services := s })

end Machino.Api
