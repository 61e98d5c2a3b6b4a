import Machino.Cellular.Settings
import Machino.Net.CrashSafety
import Machino.Net.WifiConfig

namespace Machino.Net

open Effects Runs Cellular

/-- What the WiFi backend was last told to start. -/
inductive Wifi where
  | station (cfg : WifiStationConfig)
  | ap (cfg : WifiApConfig)
  deriving DecidableEq, Repr

/-- The parser of candidates, which reads the boot baseline for what it is. -/
structure JsonReader where
  parse : Text → Option Json
  boot : parse bootConfig.text = some (.object [("kind".toList, .string "boot".toList)])

/-- The records on the disk, what is live, and the settings file. -/
structure Network where
  confirmed : Option Text := none
  pending : Option Text := none
  wifi : Option Wifi
  cell : CellularConfig
  settings : Settings

/-- The live WiFi and cellular configurations. -/
abbrev Live := Option Wifi × CellularConfig

namespace Network

def live (w : Network) : Live := (w.wifi, w.cell)

def record (w : Network) : Key → Option Text
  | .confirmed => w.confirmed
  | .pending => w.pending

def write (w : Network) (t : Option Text) : Key → Network
  | .confirmed => { w with confirmed := t }
  | .pending => { w with pending := t }

end Network

/-- The part of an apply that depends on the kind: the cellular configuration it sets, over the
stored one that is set already, and the WiFi configuration it starts. -/
def applyKind (cell : CellularConfig) (kind : Text) (conf : Option Json) :
    Except Result (CellularConfig × Option Wifi) :=
  if kind = "boot".toList then .ok (cell, none)
  else
    match conf with
    | none => .error Result.error
    | some conf =>
      if kind = "cellular".toList then
        match cellularConfigFromJson conf cell with
        | .ok cc => .ok (cc, none)
        | .error _ => .error Result.error
      else if kind = "wifi-station".toList then
        match wifiStationFromJson conf with
        | .ok sc => .ok (cell, some (.station sc))
        | .error _ => .error Result.error
      else if kind = "wifi-ap".toList then
        match wifiApFromJson conf with
        | .ok ac => .ok (cell, some (.ap ac))
        | .error _ => .error Result.error
      else .error Result.unsupported

section daemon

variable (rd : JsonReader) (bootCellular : Bool)

/-- The kind of a candidate and its configuration, if it can be read as one. -/
def kindOf (blob : Text) : Option (Text × Option Json) :=
  match rd.parse blob with
  | none => none
  | some j =>
    match j.get "kind" with
    | some (.string kind) => some (kind, j.get "config")
    | _ => none

/-- The daemon's apply function; the WiFi backend starts whatever it is told to. -/
def applyConfig (blob : Text) (w : Network) : Result × Network :=
  match kindOf rd blob with
  | none => (.error, w)
  | some (kind, conf) =>
    let w := { w with cell := storedCellular bootCellular w.settings }
    match applyKind w.cell kind conf with
    | .ok (cell, wifi) => (.ok, { w with cell := cell, wifi := wifi.or w.wifi })
    | .error rc => (rc, w)

def Network.exec : (e : Effect) → Network → Answer e × Network
  | .load k, w => (w.record k, w)
  | .save k v, w => (true, w.write (some v) k)
  | .clear k, w => ((), w.write none k)
  | .apply c, w => applyConfig rd bootCellular c w

def isCellular (blob : Text) : Bool :=
  match kindOf rd blob with
  | some (kind, _) => kind = "cellular".toList
  | none => false

/-- A confirmed cellular change is what the settings file gets; the commit may fail. -/
def onConfirmed (commits : Bool) (candidate : Text) (w : Network) : Network :=
  match kindOf rd candidate with
  | none => w
  | some (kind, _) =>
    if kind = "cellular".toList ∧ commits then
      { w with settings := w.settings.commit (cellularConfigToSettings w.cell) }
    else w

/-- The transaction behind its service, and what was live before the last change was begun. -/
structure NetApi where
  txn : NetworkTxn
  net : Network
  staged : Text := []
  before : Live

inductive ApiEvent where
  | stage (candidate : Config) (nowMs windowMs : UInt32)
  | confirm (token : UInt64) (commits : Bool)
  | tick (nowMs : UInt32)

def NetApi.step (a : NetApi) : ApiEvent → NetApi
  | .stage c now window =>
    let r := (begin c.text now window a.txn).eval (Network.exec rd bootCellular) a.net
    match r.1.1 with
    | .ok _ => { txn := r.1.2, net := r.2, staged := c.text, before := a.net.live }
    | .error _ => { a with txn := r.1.2, net := r.2, staged := [] }
  | .confirm token commits =>
    let r := (confirm token a.txn).eval (Network.exec rd bootCellular) a.net
    match r.1.1 with
    | .ok _ =>
      { a with
        txn := r.1.2
        net := if a.staged = [] then r.2 else onConfirmed rd commits a.staged r.2
        staged := [] }
    | .error _ => { a with txn := r.1.2, net := r.2 }
  | .tick now =>
    let r := (tick now a.txn).eval (Network.exec rd bootCellular) a.net
    { a with txn := r.1.2, net := r.2, staged := if r.1.1 then [] else a.staged }

/-- The first start, with any WiFi configuration live and the stored cellular one set. -/
def NetApi.started (wifi : Option Wifi) (settings : Settings) : NetApi :=
  let net := { wifi := wifi, cell := storedCellular bootCellular settings, settings := settings }
  let r := boot.eval (Network.exec rd bootCellular) net
  { txn := r.1, net := r.2, before := net.live }

/-- A timeout that undoes a change leaves live what was live before it. -/
def Restores (a : NetApi) : ApiEvent → Prop
  | .tick now => a.txn.expired now = true →
      (a.step rd bootCellular (.tick now)).net.live = a.before
  | _ => True

/-- The confirmation of a cellular change stores what stands in the file as it is. -/
def StoresPlain (a : NetApi) : ApiEvent → Prop
  | .confirm token commits => a.txn.pending = true → token = a.txn.token → a.staged ≠ [] →
      isCellular rd a.staged = true → commits = true → a.net.cell.Plain
  | _ => True

instance (a : NetApi) : (e : ApiEvent) → Decidable (StoresPlain rd a e)
  | .confirm _ _ => inferInstanceAs (Decidable (_ → _))
  | .stage _ _ _ | .tick _ => .isTrue trivial

/-- The WiFi configuration a record asks for, if it asks for one. -/
def wifiOf (blob : Text) : Option Wifi :=
  match kindOf rd blob with
  | some (kind, some conf) =>
    if kind = "wifi-station".toList then (wifiStationFromJson conf).toOption.map .station
    else if kind = "wifi-ap".toList then (wifiApFromJson conf).toOption.map .ap
    else none
  | _ => none

/-- The confirmed record is about WiFi, or the change to be undone is not, or it asks for the
WiFi configuration that was live before. -/
def WifiCovered (a : NetApi) : Prop :=
  ∀ good ∈ a.net.confirmed.bind decodeConfirmed, ∀ pr ∈ a.net.pending.bind decodePending,
    wifiOf rd good ≠ none ∨ wifiOf rd pr.candidate = none ∨ wifiOf rd pr.candidate = a.before.1

/-- What applying a record over the stored cellular configuration `cell` sets and starts. -/
def Reads (cell : CellularConfig) (blob : Text) (c : CellularConfig) (x : Option Wifi) : Prop :=
  ∃ kind conf, kindOf rd blob = some (kind, conf) ∧ applyKind cell kind conf = .ok (c, x)

variable {rd bootCellular} {blob : Text} {cell c : CellularConfig} {x : Option Wifi} {w : Network}

theorem applyKind_error {kind : Text} {conf : Option Json} {rc : Result}
    (h : applyKind cell kind conf = .error rc) : rc.isOk = false := by
  unfold applyKind at h
  repeat' split at h
  all_goals cases h
  all_goals rfl

/-- A record that can be read is applied. -/
theorem applyConfig_reads {st : Settings} (h : Reads rd (storedCellular bootCellular st) blob c x)
    (hw : w.settings = st) :
    applyConfig rd bootCellular blob w = (.ok, { w with cell := c, wifi := x.or w.wifi }) := by
  subst hw
  obtain ⟨kind, conf, hkind, happly⟩ := h
  unfold applyConfig
  rw [hkind]
  dsimp only
  rw [happly]

/-- One that cannot leaves everything but the cellular configuration as it was. -/
theorem applyConfig_error
    (h : ¬ ∃ c x, Reads rd (storedCellular bootCellular w.settings) blob c x) :
    ∃ rc cc, rc.isOk = false ∧ applyConfig rd bootCellular blob w = (rc, { w with cell := cc }) := by
  unfold applyConfig
  cases hkind : kindOf rd blob with
  | none => exact ⟨.error, w.cell, rfl, rfl⟩
  | some kc =>
    dsimp only
    cases happly : applyKind (storedCellular bootCellular w.settings) kc.1 kc.2 with
    | ok cx => exact absurd ⟨cx.1, cx.2, kc.1, kc.2, hkind, happly⟩ h
    | error rc => exact ⟨rc, _, applyKind_error happly, rfl⟩

theorem wifiOf_reads (h : Reads rd cell blob c x) : wifiOf rd blob = x := by
  obtain ⟨kind, conf, hkind, happly⟩ := h
  unfold wifiOf
  rw [hkind]
  unfold applyKind at happly
  split at happly
  · rename_i hboot
    rw [hboot]
    cases happly
    cases conf with
    | none => rfl
    | some conf =>
      dsimp only
      rw [if_neg (by decide), if_neg (by decide)]
  · cases conf with
    | none => cases happly
    | some conf =>
      dsimp only at happly ⊢
      split at happly
      · rename_i hcell
        rw [if_neg (by rw [hcell]; decide), if_neg (by rw [hcell]; decide)]
        split at happly
        all_goals cases happly
        rfl
      · split at happly
        · rename_i hst
          rw [if_pos hst]
          split at happly
          · rename_i sc hsc
            cases happly
            rw [hsc]
            rfl
          · cases happly
        · rename_i hst
          rw [if_neg hst]
          split at happly
          · rename_i hap
            rw [if_pos hap]
            split at happly
            · rename_i ac hac
              cases happly
              rw [hac]
              rfl
            · cases happly
          · cases happly

/-- What is confirmed and stored reads as it did before. -/
theorem Reads.onConfirmed (h : Reads rd (storedCellular bootCellular w.settings) blob c x)
    (commits : Bool) (hw : w.cell = c)
    (hplain : commits = true → isCellular rd blob = true → w.cell.Plain) :
    Reads rd (storedCellular bootCellular (onConfirmed rd commits blob w).settings) blob c x := by
  obtain ⟨kind, conf, hkind, happly⟩ := h
  refine ⟨kind, conf, hkind, ?_⟩
  unfold isCellular at hplain
  unfold Net.onConfirmed
  rw [hkind] at hplain ⊢
  dsimp only at hplain ⊢
  split
  · rename_i hcell
    obtain ⟨rfl, hcommits⟩ := hcell
    unfold applyKind at happly ⊢
    rw [if_neg (by decide)] at happly ⊢
    cases conf with
    | none => cases happly
    | some conf =>
      dsimp only at happly ⊢
      rw [if_pos rfl] at happly ⊢
      split at happly
      · rename_i cc hcc
        cases happly
        have hc := hplain hcommits (by simp)
        rw [hw] at hc ⊢
        rw [cellularConfigFromJson_again hc hcc]
      · cases happly
  · exact happly

variable {m : NetworkTxn} {good : Config}

theorem exec_save (k : Key) (v : Text) :
    Network.exec rd bootCellular (.save k v) w = (true, w.write (some v) k) := rfl

theorem exec_clear (k : Key) :
    Network.exec rd bootCellular (.clear k) w = ((), w.write none k) := rfl

theorem exec_apply (c : Text) :
    Network.exec rd bootCellular (.apply c) w = applyConfig rd bootCellular c w := rfl

theorem eval_loadConfirmed (h : w.confirmed = some (encodeConfirmed good.text)) :
    loadConfirmed.eval (Network.exec rd bootCellular) w = (some good.text, w) := by
  simp [loadConfirmed, Network.exec, Network.record, h, decodeConfirmed_config]

variable (rd bootCellular w) in
theorem begin_refused (c : Text) (now : UInt32) {window : UInt32}
    (h : window = 0 ∨ m.pending = true) :
    ∃ err, (begin c now window m).eval (Network.exec rd bootCellular) w = ((.error err, m), w) := by
  unfold begin
  split
  · exact ⟨_, rfl⟩
  · rename_i hw
    rw [if_pos (h.resolve_left hw)]
    exact ⟨_, rfl⟩

theorem begin_applied {cand : Config} {window : UInt32} (now : UInt32) (hw : window ≠ 0)
    (hp : m.pending = false) (hg : w.confirmed = some (encodeConfirmed good.text))
    (hr : Reads rd (storedCellular bootCellular w.settings) cand.text c x) :
    ∃ m', m'.pending = true ∧
      (begin cand.text now window m).eval (Network.exec rd bootCellular) w =
        ((.ok m'.token, m'), { w with
          pending := some (encodePending (pendingFor m'.token cand))
          cell := c
          wifi := x.or w.wifi }) := by
  refine ⟨{ m with
    nextToken := m.nextToken + 1, pending := true, token := m.nextToken,
    deadlineMs := now + window, deadlineValid := true }, rfl, ?_⟩
  unfold begin
  rw [if_neg hw, if_neg (by simp [hp]), Prog.eval_bind, eval_loadConfirmed hg]
  dsimp only
  rw [Prog.eval_bind, eval_save, exec_save, if_neg (by simp), Prog.eval_bind, eval_apply,
    exec_apply, applyConfig_reads hr, if_neg (by simp)]
  · rfl
  · rfl

theorem begin_undone {cand : Text} {window : UInt32} (now : UInt32) (hw : window ≠ 0)
    (hp : m.pending = false) (hg : w.confirmed = some (encodeConfirmed good.text))
    (hn : ¬ ∃ c x, Reads rd (storedCellular bootCellular w.settings) cand c x)
    (hr : Reads rd (storedCellular bootCellular w.settings) good.text c x) :
    ∃ err m', m'.pending = false ∧
      (begin cand now window m).eval (Network.exec rd bootCellular) w =
        ((.error err, m'), { w with pending := none, cell := c, wifi := x.or w.wifi }) := by
  refine ⟨"the change could not be applied", { m with nextToken := m.nextToken + 1 }, hp, ?_⟩
  unfold begin
  rw [if_neg hw, if_neg (by simp [hp]), Prog.eval_bind, eval_loadConfirmed hg]
  dsimp only
  obtain ⟨rc, cc, hrc, happly⟩ := applyConfig_error (w := w.write
    (some (encodePending { token := m.nextToken, candidate := cand })) .pending) hn
  rw [Prog.eval_bind, eval_save, exec_save, if_neg (by simp), Prog.eval_bind, eval_apply,
    exec_apply, happly, if_pos (by simp [hrc]), Prog.eval_bind, eval_clear, exec_clear,
    Prog.eval_bind, eval_apply, exec_apply, applyConfig_reads hr]
  · rfl
  · rfl

theorem tick_idle {now : UInt32} (h : m.expired now = false) :
    (tick now m).eval (Network.exec rd bootCellular) w = ((false, m), w) := by
  unfold tick
  rw [h]
  rfl

theorem tick_expired {now : UInt32} (h : m.expired now = true)
    (hg : w.confirmed = some (encodeConfirmed good.text))
    (hr : Reads rd (storedCellular bootCellular w.settings) good.text c x) :
    (tick now m).eval (Network.exec rd bootCellular) w =
      ((true, m.closed), { w with pending := none, cell := c, wifi := x.or w.wifi }) := by
  unfold tick rollbackLocked
  rw [h, if_neg (by simp), Prog.eval_bind, Prog.eval_bind, eval_loadConfirmed hg]
  dsimp only
  rw [Prog.eval_bind, eval_clear, exec_clear, Prog.eval_bind, eval_apply, exec_apply,
    applyConfig_reads hr]
  · rfl
  · rfl

variable (rd bootCellular w) in
theorem confirm_idle (token : UInt64) (h : m.pending = false) :
    ∃ err, (confirm token m).eval (Network.exec rd bootCellular) w = ((.error err, m), w) := by
  unfold confirm
  rw [h]
  exact ⟨_, rfl⟩

variable (rd bootCellular) in
theorem confirm_eval (token : UInt64) {cand : Config}
    (hrec : w.pending = some (encodePending (pendingFor m.token cand))) :
    (∃ err, (confirm token m).eval (Network.exec rd bootCellular) w = ((.error err, m), w)) ∨
      token = m.token ∧ (confirm token m).eval (Network.exec rd bootCellular) w =
        ((.ok (), m.closed), { w with
          confirmed := some (encodeConfirmed cand.text)
          pending := none }) := by
  unfold confirm
  split
  · exact .inl ⟨_, rfl⟩
  · split
    · exact .inl ⟨_, rfl⟩
    · rename_i htok
      have ht : token = m.token := by simpa using htok
      refine .inr ⟨ht, ?_⟩
      have hload : Network.exec rd bootCellular (.load .pending) w =
          (some (encodePending (pendingFor m.token cand)), w) := by
        rw [← hrec]
        rfl
      rw [Prog.eval_bind, eval_load, hload]
      dsimp only
      rw [Option.bind_some, decodePending_pendingFor]
      dsimp only
      rw [if_neg (by simp [pendingFor, ht]), Prog.eval_bind, eval_save, exec_save,
        if_neg (by simp), Prog.eval_bind, eval_clear, exec_clear]
      rfl

variable (rd bootCellular) in
/-- `l` is what applying the record would give: its cellular configuration over the stored one,
and its WiFi configuration where it has one. -/
def InForce (blob : Text) (settings : Settings) (l : Live) : Prop :=
  ∃ x, Reads rd (storedCellular bootCellular settings) blob l.2 x ∧ (x = none ∨ x = l.1)

variable (rd bootCellular) in
/-- The change waiting for confirmation is on record, and in force over what was live before. -/
def NetApi.Changed (a : NetApi) : Prop :=
  ∃ (cand : Config) (x : Option Wifi),
    a.net.pending = some (encodePending (pendingFor a.txn.token cand)) ∧
    (a.staged = [] ∨ a.staged = cand.text) ∧
    Reads rd (storedCellular bootCellular a.net.settings) cand.text a.net.cell x ∧
    a.net.wifi = x.or a.before.1

variable (rd bootCellular) in
/-- The confirmed record `good` is in force, or was before the change that is waiting. -/
structure NetApi.Inv (good : Config) (a : NetApi) : Prop where
  confirmed : a.net.confirmed = some (encodeConfirmed good.text)
  idle : a.txn.pending = false → InForce rd bootCellular good.text a.net.settings a.net.live
  begun : a.txn.pending = true → InForce rd bootCellular good.text a.net.settings a.before
  changed : a.txn.pending = true → a.Changed rd bootCellular

theorem InForce.applied {st : Settings} {l : Option Wifi}
    (h : Reads rd (storedCellular bootCellular st) blob c x) :
    InForce rd bootCellular blob st (x.or l, c) := by
  refine ⟨x, h, ?_⟩
  cases x with
  | none => exact .inl rfl
  | some w => exact .inr rfl

/-- The confirmed record can be applied whatever is live. -/
theorem NetApi.Inv.reads {a : NetApi} (h : a.Inv rd bootCellular good) :
    ∃ c x, Reads rd (storedCellular bootCellular a.net.settings) good.text c x := by
  cases hp : a.txn.pending with
  | false =>
    obtain ⟨x, hx, -⟩ := h.idle hp
    exact ⟨_, x, hx⟩
  | true =>
    obtain ⟨x, hx, -⟩ := h.begun hp
    exact ⟨_, x, hx⟩

theorem inv_stage {a : NetApi} (h : a.Inv rd bootCellular good) (cand : Config)
    (now window : UInt32) :
    (a.step rd bootCellular (.stage cand now window)).Inv rd bootCellular good := by
  unfold NetApi.step
  dsimp only
  by_cases href : window = 0 ∨ a.txn.pending = true
  · obtain ⟨err, heval⟩ := begin_refused rd bootCellular a.net cand.text now href
    rw [heval]
    refine ⟨h.confirmed, h.idle, h.begun, fun hp => ?_⟩
    obtain ⟨c, x, hrec, -, hreads⟩ := h.changed hp
    exact ⟨c, x, hrec, .inl rfl, hreads⟩
  · obtain ⟨hw, hp⟩ := not_or.mp href
    have hp : a.txn.pending = false := by simpa using hp
    by_cases hcand : ∃ c x, Reads rd (storedCellular bootCellular a.net.settings) cand.text c x
    · obtain ⟨c, x, hreads⟩ := hcand
      obtain ⟨m', hm', heval⟩ := begin_applied now hw hp h.confirmed hreads
      rw [heval]
      refine ⟨h.confirmed, fun hf => ?_, fun _ => h.idle hp, fun _ => ?_⟩
      · exact absurd (hm'.symm.trans hf) (by decide)
      · exact ⟨cand, x, rfl, .inr rfl, hreads, rfl⟩
    · obtain ⟨c, x, hreads⟩ := h.reads
      obtain ⟨err, m', hm', heval⟩ := begin_undone now hw hp h.confirmed hcand hreads
      rw [heval]
      refine ⟨h.confirmed, fun _ => InForce.applied hreads, fun ht => ?_, fun ht => ?_⟩
      all_goals exact absurd (hm'.symm.trans ht) (by decide)

variable (rd blob w) in
theorem onConfirmed_frame (commits : Bool) :
    (onConfirmed rd commits blob w).confirmed = w.confirmed ∧
      (onConfirmed rd commits blob w).live = w.live := by
  unfold onConfirmed
  split
  · exact ⟨rfl, rfl⟩
  · split
    · exact ⟨rfl, rfl⟩
    · exact ⟨rfl, rfl⟩

/-- A record that reads as what is live is in force. -/
theorem inv_of_live {a : NetApi} {cand : Config} (hp : a.txn.pending = false)
    (hg : a.net.confirmed = some (encodeConfirmed cand.text))
    (h : Reads rd (storedCellular bootCellular a.net.settings) cand.text a.net.cell x)
    (hx : x = none ∨ x = a.net.wifi) : a.Inv rd bootCellular cand := by
  refine ⟨hg, fun _ => ⟨x, h, hx⟩, fun ht => ?_, fun ht => ?_⟩
  all_goals exact absurd (hp.symm.trans ht) (by decide)

theorem inv_confirm {a : NetApi} (h : a.Inv rd bootCellular good) {token : UInt64}
    {commits : Bool} (hs : StoresPlain rd a (.confirm token commits)) :
    ∃ good', (a.step rd bootCellular (.confirm token commits)).Inv rd bootCellular good' := by
  unfold NetApi.step
  dsimp only
  cases hp : a.txn.pending with
  | false =>
    obtain ⟨err, heval⟩ := confirm_idle rd bootCellular a.net token hp
    rw [heval]
    exact ⟨good, h⟩
  | true =>
    obtain ⟨cand, x, hrec, hstaged, hreads, hwifi⟩ := h.changed hp
    have hx : x = none ∨ x = a.net.wifi := by
      rw [hwifi]
      cases x with
      | none => exact .inl rfl
      | some w => exact .inr rfl
    obtain ⟨err, heval⟩ | ⟨htok, heval⟩ := confirm_eval rd bootCellular token hrec
    · rw [heval]
      exact ⟨good, h⟩
    · rw [heval]
      -- the candidate is the good configuration from here on
      refine ⟨cand, ?_⟩
      dsimp only
      split
      · exact inv_of_live rfl rfl hreads hx
      · rename_i hne
        have heq := hstaged.resolve_left hne
        have hplain := hs hp htok hne
        rw [heq] at hplain ⊢
        generalize hw : ({ a.net with
          confirmed := some (encodeConfirmed cand.text), pending := none } : Network) = w
        obtain ⟨hconf, hlive⟩ := onConfirmed_frame rd cand.text w commits
        have hreads' : Reads rd (storedCellular bootCellular w.settings) cand.text w.cell x := by
          rw [← hw]
          exact hreads
        have hagain := hreads'.onConfirmed commits rfl fun hcommits hcell => by
          rw [← hw]
          exact hplain hcell hcommits
        have hcell : (onConfirmed rd commits cand.text w).cell = w.cell := congrArg Prod.snd hlive
        have hwifi' : (onConfirmed rd commits cand.text w).wifi = w.wifi := congrArg Prod.fst hlive
        refine inv_of_live rfl ?_ (hcell ▸ hagain) ?_
        · rw [hconf, ← hw]
        · rw [hwifi', ← hw]
          exact hx

theorem pending_of_expired {m : NetworkTxn} {now : UInt32} (h : m.expired now = true) :
    m.pending = true := by
  unfold NetworkTxn.expired at h
  simp only [Bool.and_eq_true] at h
  exact h.1.1

theorem inv_tick {a : NetApi} (h : a.Inv rd bootCellular good) (now : UInt32) :
    (a.step rd bootCellular (.tick now)).Inv rd bootCellular good := by
  unfold NetApi.step
  dsimp only
  cases he : a.txn.expired now with
  | false =>
    rw [tick_idle he]
    exact h
  | true =>
    obtain ⟨c, x, hreads⟩ := h.reads
    rw [tick_expired he h.confirmed hreads]
    refine ⟨h.confirmed, fun _ => InForce.applied hreads, fun ht => ?_, fun ht => ?_⟩
    all_goals exact absurd ht (by simp)

theorem inv_step {a : NetApi} (h : ∃ good, a.Inv rd bootCellular good) (e : ApiEvent)
    (hs : StoresPlain rd a e) :
    ∃ good, (a.step rd bootCellular e).Inv rd bootCellular good := by
  obtain ⟨good, h⟩ := h
  cases e with
  | stage cand now window => exact ⟨good, inv_stage h cand now window⟩
  | confirm token commits => exact inv_confirm h hs
  | tick now => exact ⟨good, inv_tick h now⟩

theorem inv_started (wifi : Option Wifi) (settings : Settings) :
    (NetApi.started rd bootCellular wifi settings).Inv rd bootCellular bootConfig := by
  have hreads : Reads rd (storedCellular bootCellular settings) bootConfig.text
      (storedCellular bootCellular settings) none := by
    refine ⟨"boot".toList, none, ?_, rfl⟩
    unfold kindOf
    rw [rd.boot]
    rfl
  exact inv_of_live rfl rfl hreads (.inl rfl)

/-- What a rollback gives, and when that is what was live before. -/
theorem restores_tick {a : NetApi} (h : a.Inv rd bootCellular good) {now : UInt32}
    (he : a.txn.expired now = true) :
    (a.step rd bootCellular (.tick now)).net.live = a.before ↔ WifiCovered rd a := by
  have hp := pending_of_expired he
  obtain ⟨gx, hgood, hbefore⟩ := h.begun hp
  obtain ⟨cand, x, hrec, -, hcand, hwifi⟩ := h.changed hp
  have hlive : (a.step rd bootCellular (.tick now)).net.live =
      (gx.or (x.or a.before.1), a.before.2) := by
    unfold NetApi.step
    dsimp only
    rw [tick_expired he h.confirmed hgood, ← hwifi]
    rfl
  have hcovered : WifiCovered rd a ↔ gx ≠ none ∨ x = none ∨ x = a.before.1 := by
    unfold WifiCovered
    rw [h.confirmed, hrec, Option.bind_some, Option.bind_some, decodeConfirmed_config,
      decodePending_pendingFor]
    simp only [Option.mem_def, Option.some.injEq, forall_eq', pendingFor, wifiOf_reads hgood,
      wifiOf_reads hcand]
  rw [hlive, hcovered]
  -- the cell always comes back; the WiFi when the good record sets one or the change did not
  constructor
  · intro heq
    have hfst : gx.or (x.or a.before.1) = a.before.1 := congrArg Prod.fst heq
    cases gx with
    | some g => exact .inl (by simp)
    | none =>
      right
      cases x with
      | none => exact .inl rfl
      | some y => exact .inr hfst
  · intro hcov
    have hfst : gx.or (x.or a.before.1) = a.before.1 := by
      rcases hbefore with rfl | hg
      · rcases hcov with hne | rfl | rfl
        · exact absurd rfl hne
        · rfl
        · cases a.before.1 <;> rfl
      · cases gx with
        | none =>
          rw [← hg]
          rcases hcov with hne | rfl | hx
          · exact absurd rfl hne
          · rfl
          · rw [hx, ← hg]
            rfl
        | some g => exact hg
    rw [hfst]

variable (rd bootCellular) in
/-- The condition on the rollbacks of a run. -/
def Covers (a : NetApi) : ApiEvent → Prop
  | .tick now => a.txn.expired now = true → WifiCovered rd a
  | _ => True

end daemon

/-- In every run of changes of any kind, confirmations and timeouts in which what is stored stands
in the file as it is, a rollback restores what was live before the change just when the WiFi
configuration is covered. -/
theorem rollback_run (rd : JsonReader) (bootCellular : Bool) (wifi : Option Wifi)
    (settings : Settings) (es : List ApiEvent)
    (h : Along (NetApi.step rd bootCellular) (StoresPlain rd)
      (NetApi.started rd bootCellular wifi settings) es) :
    Along (NetApi.step rd bootCellular)
      (fun a e => Restores rd bootCellular a e ↔ Covers rd a e)
      (NetApi.started rd bootCellular wifi settings) es := by
  refine h.of_invariant (P := fun a => ∃ good, a.Inv rd bootCellular good)
    (fun a e hi hs => inv_step hi e hs) ?_ ⟨bootConfig, inv_started wifi settings⟩
  rintro a e ⟨good, hi⟩ -
  cases e with
  | stage cand now window => exact Iff.rfl
  | confirm token commits => exact Iff.rfl
  | tick now =>
    exact ⟨fun hr he => (restores_tick hi he).mp (hr he),
      fun hc he => (restores_tick hi he).mpr (hc he)⟩

/-- A change of the number that is dialled, to one that stands in the file as it is. -/
def dialConfig : Config :=
  ⟨"\x7b\"kind\":\"cellular\",\"config\":\x7b\"dial\":\"*98\"\x7d\x7d".toList, by decide⟩

/-- What the parser makes of the baseline and of that change. -/
def dialReader : JsonReader where
  parse t :=
    if t = bootConfig.text then some (.object [("kind".toList, .string "boot".toList)])
    else if t = dialConfig.text then
      some (.object [("kind".toList, .string "cellular".toList),
        ("config".toList, .object [("dial".toList, .string "*98".toList)])])
    else none
  boot := if_pos rfl

/-- The change is confirmed and stored, and another one is undone. -/
def dialRun : List ApiEvent :=
  [.stage dialConfig 0 1000, .confirm 1 true, .stage dialConfig 0 1000, .tick 1000]

theorem rollback_run_dial :
    Along (NetApi.step dialReader true)
      (fun a e => Restores dialReader true a e ↔ Covers dialReader a e)
      (NetApi.started dialReader true none {}) dialRun :=
  rollback_run dialReader true none {} dialRun (by decide)

/-- A change to another WiFi network. -/
def stationConfig : Config :=
  ⟨"\x7b\"kind\":\"wifi-station\",\"config\":\x7b\"ssid\":\"lab\"\x7d\x7d".toList, by decide⟩

/-- What the parser makes of the baseline and of that change. -/
def stationReader : JsonReader where
  parse t :=
    if t = bootConfig.text then some (.object [("kind".toList, .string "boot".toList)])
    else if t = stationConfig.text then
      some (.object [("kind".toList, .string "wifi-station".toList),
        ("config".toList, .object [("ssid".toList, .string "lab".toList)])])
    else none
  boot := if_pos rfl

/-- On the boot baseline nothing puts the WiFi back: the change that timed out stays live. -/
theorem not_restores_station :
    ¬ ∀ (rd : JsonReader) (bootCellular : Bool) (wifi : Option Wifi) (settings : Settings)
      (es : List ApiEvent), Along (NetApi.step rd bootCellular) (Restores rd bootCellular)
        (NetApi.started rd bootCellular wifi settings) es := by
  intro h
  have hrun := h stationReader false none {} [.stage stationConfig 0 1000, .tick 1000]
  have hback := congrArg Prod.fst (hrun.2.1 (by decide))
  revert hback
  decide

end Machino.Net
