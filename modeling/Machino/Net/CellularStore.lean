import Machino.Cellular.SimManager
import Machino.Net.HandOver
import Machino.Net.Rollback

namespace Machino.Cellular

def CellularConfig.withPin (c : CellularConfig) (pin : Text) : CellularConfig :=
  { c with simPin := pin }

/-- The two differ in the PIN at most. -/
def CellularConfig.SameBut (c d : CellularConfig) : Prop := c.withPin d.simPin = d

instance (c d : CellularConfig) : Decidable (c.SameBut d) :=
  inferInstanceAs (Decidable (c.withPin d.simPin = d))

/-- The file gives the configuration back. -/
def CellularConfig.Storable (c : CellularConfig) : Prop :=
  (dataLinkKindParse c.dataLink).isSome = true

end Machino.Cellular

namespace Machino.Net

open Effects Runs Cellular

/-- Where a tick of the uplink is: at its modem work on a copy of the configuration, with the new
PIN set and on its way to the file, or about to publish what it has seen. -/
inductive Ticking where
  | idle
  | working (cfg : CellularConfig) (request : Option SimLockRequest)
  | saving (cfg : CellularConfig) (st : CellularStatus) (scanning : Bool)
  | ending (st : CellularStatus) (scanning : Bool)

/-- The uplink but for its configuration, which is what is live. -/
structure CellularUplink where
  st : CellularStatus := {}
  scanning : Bool := false
  simRequest : Option SimLockRequest := none
  actions : ModemActions := {}
  ticking : Ticking := .idle

/-- What the modem work of one tick meets: the other requests taken up with the copy, what the
modem says, and whether the radio is busy. -/
structure Round where
  status : CellularStatus := {}
  scanning : Bool := false
  radioBusy : Bool := false
  nbRequested : Bool := false
  restartRequested : Bool := false
  reply : (e : ModemCall) → ModemAnswer e

def modemUsable (cfg : CellularConfig) (st : CellularStatus) : Except String Unit := do
  ensure cfg.enabled "cellular is switched off (USB role)"
  ensure st.present "no modem found"
  ensure st.responsive "the modem does not answer on the AT port"

namespace CellularUplink

def requestSimLock (r : SimLockRequest) (cfg : CellularConfig) (u : CellularUplink) :
    Except String CellularUplink := do
  modemUsable cfg u.st
  ensure u.simRequest.isNone "a SIM action is already waiting"
  ensure (!u.scanning) "a band scan is running - the modem is busy"
  let _ ← ModemActions.requestSimLock r {}
  return { u with simRequest := some r }

/-- The actions of one tick: none but those that are dropped while cellular is switched off, and
none while the radio is busy. -/
def act (cfg : CellularConfig) (request : Option SimLockRequest) (round : Round)
    (actions : ModemActions) : ModemActions.Outcome × ModemActions :=
  let ask (p : Modem (ModemActions.Outcome × ModemActions)) :=
    (p.eval (fun e (w : Unit) => (round.reply e, w)) ()).1
  if !cfg.enabled then ask (actions.tick {})
  else
    let actions := { actions with
      nbRequested := actions.nbRequested || round.nbRequested
      restartRequested := actions.restartRequested || round.restartRequested }
    let actions := match request with
      | some r => (actions.requestSimLock r).toOption.getD actions
      | none => actions
    if round.radioBusy then ({}, actions) else ask (actions.tick round.status)

/-- The status that the tick is to publish. -/
def seen (cfg : CellularConfig) (round : Round) : CellularStatus :=
  if cfg.enabled then round.status else {}

end CellularUplink

/-- What the file is due: the configuration confirmed last, with each PIN the card has taken since,
and what the change that waits for confirmation would make of it. -/
structure Due where
  good : CellularConfig
  next : Option CellularConfig := none

namespace Due

def accept (pin : Text) (d : Due) : Due where
  good := d.good.withPin pin
  next := d.next.map (·.withPin pin)

def confirm (d : Due) : Due where
  good := d.next.getD d.good

def undo (d : Due) : Due where
  good := d.good

end Due

/-- The API, the uplink and the settings file. A cellular configuration read to be stored by the
confirmation of a change is `handing`; SIM actions past the check for a pending change are
`admitted`. -/
structure CellularStore where
  api : ChangeApi Network
  handing : Option CellularConfig := none
  uplink : CellularUplink := {}
  admitted : List SimLockRequest := []
  due : Due

/-- The parts of the calls and of the ticks; a save of a record or of the settings may fail. Setting
the PIN in the middle of an apply comes to the same as setting it before or after. -/
inductive StoreEvent where
  | stage (candidate : Dump) (nowMs windowMs : UInt32) (saves : Bool)
  | confirm (token : UInt64) (saves : Bool)
  | handOver
  | finish (commits : Bool)
  | tick (nowMs : UInt32)
  | clear
  | simLock (r : SimLockRequest)
  | requestSimLock (r : SimLockRequest)
  | copy
  | work (round : Round)
  | persist (commits : Bool)
  | publish

section store

variable (rd : JsonReader) (bootCellular : Bool)

def Network.execSaving (saves : Bool) : (e : Effect) → Network → Answer e × Network
  | .load k, w => w.exec rd bootCellular (.load k)
  | .save k v, w => if saves then w.exec rd bootCellular (.save k v) else (false, w)
  | .clear k, w => w.exec rd bootCellular (.clear k)
  | .apply c, w => w.exec rd bootCellular (.apply c)

/-- A change of another kind makes nothing of the configuration. -/
def Due.stage (blob : Text) (d : Due) : Due where
  good := d.good
  next :=
    match kindOf rd blob with
    | some (kind, some conf) =>
      if kind = "cellular".toList then
        (cellularConfigFromJson conf d.good).toOption.map (·.asStored bootCellular)
      else none
    | some (_, none) | none => none

namespace CellularStore

/-- The confirmation under way has a cellular configuration to store. -/
def handsOver (s : CellularStore) : Bool :=
  match s.api.inside with
  | .confirming _ (.ok ()) => s.api.staged ≠ [] && isCellular rd s.api.staged
  | .free | .staging _ _ | .confirming _ (.error _) => false

def commit (commits : Bool) (c : CellularConfig) (s : CellularStore) : CellularStore :=
  if commits then
    { s with api.world.settings := s.api.world.settings.commit (cellularConfigToSettings c) }
  else s

def stage (candidate : Dump) (nowMs windowMs : UInt32) (saves : Bool) (s : CellularStore) :
    CellularStore :=
  let api := s.api.stage (Network.execSaving rd bootCellular saves) candidate nowMs windowMs
  let due := match s.api.inside, api.inside with
    | .free, .staging _ (.ok _) => s.due.stage rd bootCellular candidate
    | _, _ => s.due
  { s with api := api, due := due }

def confirm (token : UInt64) (saves : Bool) (s : CellularStore) : CellularStore :=
  { s with api := s.api.confirm (Network.execSaving rd bootCellular saves) token }

/-- The confirmation reads what is live, for the file. -/
def handOver (s : CellularStore) : CellularStore :=
  if s.handsOver rd then { s with handing := some (s.handing.getD s.api.world.cell) } else s

/-- What was read is stored before the call that confirms ends. -/
def finish (commits : Bool) (s : CellularStore) : CellularStore :=
  match s.api.inside with
  | .confirming _ (.ok ()) =>
    if s.handsOver rd then
      match s.handing with
      | some c =>
        let s := s.commit commits c
        { s with api := s.api.finish, handing := none, due := s.due.confirm }
      | none => s
    else { s with api := s.api.finish, due := s.due.confirm }
  | .free | .staging _ _ | .confirming _ (.error _) => { s with api := s.api.finish }

def tick (nowMs : UInt32) (s : CellularStore) : CellularStore :=
  { s with
    api := s.api.tick (Network.exec rd bootCellular) nowMs
    due := if s.api.txn.expired nowMs then s.due.undo else s.due }

/-- A SIM action is refused while a change is pending. -/
def simLock (r : SimLockRequest) (s : CellularStore) : CellularStore :=
  if s.api.txn.pending then s else { s with admitted := r :: s.admitted }

def requestSimLock (r : SimLockRequest) (s : CellularStore) : CellularStore :=
  if r ∈ s.admitted then
    { s with
      admitted := s.admitted.erase r
      uplink := (s.uplink.requestSimLock r s.api.world.cell).toOption.getD s.uplink }
  else s

/-- The tick begins with a copy of the configuration. -/
def copy (s : CellularStore) : CellularStore :=
  match s.uplink.ticking with
  | .idle => { s with
      uplink.ticking := .working s.api.world.cell s.uplink.simRequest
      uplink.simRequest := none }
  | .working _ _ | .saving _ _ _ | .ending _ _ => s

/-- The modem work, and the PIN set in what is live where the card has changed it. -/
def work (round : Round) (s : CellularStore) : CellularStore :=
  match s.uplink.ticking with
  | .working cfg request =>
    let r := CellularUplink.act cfg request round s.uplink.actions
    let st := CellularUplink.seen cfg round
    match r.1.newPin with
    | some pin => { s with
        api.world.cell := s.api.world.cell.withPin pin
        uplink.actions := r.2
        uplink.ticking := .saving (cfg.withPin pin) st round.scanning
        due := s.due.accept pin }
    | none => { s with uplink.actions := r.2, uplink.ticking := .ending st round.scanning }
  | .idle | .saving _ _ _ | .ending _ _ => s

/-- The copy is stored as a whole. -/
def persist (commits : Bool) (s : CellularStore) : CellularStore :=
  match s.uplink.ticking with
  | .saving cfg st scanning =>
    { s.commit commits cfg with uplink.ticking := .ending st scanning }
  | .idle | .working _ _ | .ending _ _ => s

def publish (s : CellularStore) : CellularStore :=
  match s.uplink.ticking with
  | .ending st scanning => { s with
      uplink.st := st, uplink.scanning := scanning, uplink.ticking := .idle }
  | .idle | .working _ _ | .saving _ _ _ => s

def step (s : CellularStore) : StoreEvent → CellularStore
  | .stage candidate nowMs windowMs saves => s.stage rd bootCellular candidate nowMs windowMs saves
  | .confirm token saves => s.confirm rd bootCellular token saves
  | .handOver => s.handOver rd
  | .finish commits => s.finish rd commits
  | .tick nowMs => s.tick rd bootCellular nowMs
  | .clear => { s with api := s.api.clear }
  | .simLock r => s.simLock r
  | .requestSimLock r => s.requestSimLock r
  | .copy => s.copy
  | .work round => s.work round
  | .persist commits => s.persist commits
  | .publish => s.publish

/-- The daemon after its start on any records and settings. -/
def started (disk : Network) (saves : Bool) : CellularStore :=
  let stored := storedCellular bootCellular disk.settings
  let r := boot.eval (Network.execSaving rd bootCellular saves) { disk with cell := stored }
  { api := { txn := r.1, world := r.2 }, due := { good := stored } }

/-- The configuration in the file. -/
def stored (s : CellularStore) : CellularConfig :=
  storedCellular bootCellular s.api.world.settings

/-- The file has what it is due, but for a PIN that a tick is about to store. -/
def Stored (s : CellularStore) : Prop :=
  match s.uplink.ticking with
  | .saving cfg _ _ => (s.stored bootCellular).withPin cfg.simPin = s.due.good
  | .idle | .working _ _ | .ending _ _ => s.stored bootCellular = s.due.good

def saving (s : CellularStore) : Bool :=
  match s.uplink.ticking with
  | .saving _ _ _ => true
  | .idle | .working _ _ | .ending _ _ => false

/-- The card changes the PIN only in a tick whose copy is still what is stored, but for the PIN,
and while no confirmed change is on its way to the file. While the PIN is on its way no change is
staged and none is read to be stored. What is stored reaches the file and stands there as it is, and
no candidate is cleared while its change is pending. -/
def InStep (s : CellularStore) : StoreEvent → Prop
  | .stage _ _ _ _ | .handOver => s.saving = false
  | .finish commits => s.api.InStep .finish ∧ ∀ c ∈ s.handing, commits = true ∧ c.Plain
  | .clear => s.api.InStep .clear
  | .work round =>
    match s.uplink.ticking with
    | .working cfg request =>
      (CellularUplink.act cfg request round s.uplink.actions).1.newPin.isSome = true →
        s.handing = none ∧ (cfg.asStored bootCellular).SameBut (s.stored bootCellular)
    | .idle | .saving _ _ _ | .ending _ _ => True
  | .persist commits =>
    match s.uplink.ticking with
    | .saving cfg _ _ => commits = true ∧ cfg.Plain
    | .idle | .working _ _ | .ending _ _ => True
  | .confirm _ _ | .tick _ | .simLock _ | .requestSimLock _ | .copy | .publish => True

end CellularStore

variable {rd bootCellular} {blob : Text} {cell c : CellularConfig} {x : Option Wifi} {w : Network}

theorem applyKind_storable {kind : Text} {conf : Option Json}
    (h : applyKind cell kind conf = .ok (c, x))
    (hcell : cell.Storable) : c.Storable := by
  unfold applyKind at h
  split at h
  · cases h
    exact hcell
  cases conf with
  | none => cases h
  | some conf =>
    dsimp only at h
    split at h
    · split at h
      · rename_i cc hcc
        cases h
        exact (cellularConfigFromJson_ok.mp hcc).link
      · cases h
    repeat' split at h
    all_goals cases h
    all_goals exact hcell

/-- What is live can be stored, and the settings file is as it was. -/
structure Steady (settings : Settings) (w : Network) : Prop where
  live : w.cell.Storable
  settings : w.settings = settings

theorem Steady.apply {st : Settings} (h : Steady st w) :
    Steady st (applyConfig rd bootCellular blob w).2 := by
  unfold applyConfig
  split
  · exact h
  · dsimp only
    split
    · rename_i happly
      exact ⟨applyKind_storable happly (storedCellular_dataLink _ _), h.settings⟩
    · exact ⟨storedCellular_dataLink _ _, h.settings⟩

variable (rd bootCellular) in
theorem Steady.exec (saves : Bool) {st : Settings} (e : Effect) (w : Network) (h : Steady st w) :
    Steady st (Network.execSaving rd bootCellular saves e w).2 := by
  cases e with
  | load k => exact h
  | save k v =>
    unfold Network.execSaving
    dsimp only
    split
    · cases k <;> exact ⟨h.live, h.settings⟩
    · exact h
  | clear k => cases k <;> exact ⟨h.live, h.settings⟩
  | apply c => exact h.apply

variable (rd bootCellular) in
theorem execSaving_true :
    Network.execSaving rd bootCellular true = Network.exec rd bootCellular := by
  funext e w
  cases e <;> rfl

variable (rd bootCellular) in
/-- Effects on the records leave what is live. -/
theorem execSaving_cell (saves : Bool) {e : Effect} (he : e.OnRecords) (w : Network) :
    (Network.execSaving rd bootCellular saves e w).2.cell = w.cell := by
  cases e with
  | load k => rfl
  | save k v =>
    unfold Network.execSaving
    dsimp only
    split
    · cases k <;> rfl
    · rfl
  | clear k => cases k <;> rfl
  | apply c => exact absurd rfl (he c)

variable {m : NetworkTxn}

variable (rd bootCellular m w) in
/-- A change that is begun is live as its candidate reads over what is stored; one that is refused
while another waits leaves everything. -/
theorem begin_live (candidate : Text) (nowMs windowMs : UInt32) (saves : Bool) :
    let r := (begin candidate nowMs windowMs m).eval (Network.execSaving rd bootCellular saves) w
    (∀ token, r.1.1 = .ok token →
      ∃ x, Reads rd (storedCellular bootCellular w.settings) candidate r.2.cell x) ∧
        (m.pending = true → r.2 = w) := by
  unfold begin
  dsimp only
  split
  · exact ⟨nofun, fun _ => rfl⟩
  split
  · exact ⟨nofun, fun _ => rfl⟩
  rename_i hpending
  refine ⟨?_, fun hp => absurd hp hpending⟩
  have hload : loadConfirmed.eval (Network.execSaving rd bootCellular saves) w =
      (w.confirmed.bind decodeConfirmed, w) := rfl
  rw [Prog.eval_bind, hload]
  dsimp only
  split
  · exact nofun
  · rw [Prog.eval_bind, eval_save]
    cases saves with
    | false => exact nofun
    | true =>
      rename_i good _
      generalize hw : w.write (some (encodePending
        { token := m.nextToken, candidate := candidate })) .pending = v
      have hsettings : v.settings = w.settings := hw ▸ rfl
      have hsave : Network.execSaving rd bootCellular true (.save .pending (encodePending
          { token := m.nextToken, candidate := candidate })) w = (true, v) := hw ▸ rfl
      have happly : ∀ text u, Network.execSaving rd bootCellular true (.apply text) u =
          applyConfig rd bootCellular text u := fun _ _ => rfl
      rw [hsave, if_neg (by simp), Prog.eval_bind, eval_apply, happly]
      -- a candidate that does not read is refused, and then no token is given out
      by_cases hreads : ∃ c x, Reads rd (storedCellular bootCellular w.settings) candidate c x
      · obtain ⟨c, x, hreads⟩ := hreads
        rw [applyConfig_reads hreads hsettings, if_neg (by simp)]
        exact fun _ _ => ⟨x, hreads⟩
      · rw [← hsettings] at hreads
        obtain ⟨rc, cc, hrc, hfail⟩ := applyConfig_error hreads
        rw [hfail, if_pos (by simp [hrc]), Prog.eval_bind, Prog.eval_bind]
        exact nofun

variable (rd bootCellular) in
/-- What the change makes of the configuration is what is live. -/
def Due.Makes (d : Due) (blob : Text) (live : CellularConfig) : Prop :=
  d.next = if isCellular rd blob then some (live.asStored bootCellular) else none

theorem Due.stage_makes {d : Due} (h : Reads rd d.good blob c x) :
    (d.stage rd bootCellular blob).Makes rd bootCellular blob c := by
  obtain ⟨kind, conf, hkind, happly⟩ := h
  unfold Due.Makes Due.stage isCellular
  rw [hkind]
  dsimp only
  by_cases hc : kind = "cellular".toList
  · subst hc
    unfold applyKind at happly
    rw [if_neg (by decide)] at happly
    cases conf with
    | none => cases happly
    | some conf =>
      dsimp only at happly ⊢
      rw [if_pos rfl] at happly ⊢
      split at happly
      · rename_i cc hcc
        cases happly
        rw [hcc]
        rfl
      · cases happly
  · refine Eq.trans ?_ (if_neg fun h => hc (of_decide_eq_true h)).symm
    cases conf with
    | none => rfl
    | some conf => exact if_neg hc

theorem Due.Makes.accept {d : Due} (h : d.Makes rd bootCellular blob cell) (pin : Text) :
    (d.accept pin).Makes rd bootCellular blob (cell.withPin pin) := by
  unfold Due.Makes Due.accept at *
  dsimp only
  rw [h]
  split <;> rfl

/-- The candidate of the change that can still be confirmed, or is just being confirmed. -/
def awaited (api : ChangeApi Network) : Option Text :=
  match api.inside with
  | .staging candidate (.ok _) => if api.txn.pending then some candidate else none
  | .confirming _ (.ok ()) => some api.staged
  | .free | .staging _ (.error _) | .confirming _ (.error _) =>
    if api.txn.pending then some api.staged else none

theorem awaited_idle {api : ChangeApi Network} (hp : api.txn.pending = false)
    (hin : ∀ token, api.inside ≠ .confirming token (.ok ())) : awaited api = none := by
  unfold awaited
  rw [hp]
  split
  · rfl
  · rename_i token hconf
    exact absurd hconf (hin token)
  all_goals rfl

theorem awaited_free {api : ChangeApi Network} (hin : api.inside = .free) :
    awaited api = if api.txn.pending then some api.staged else none := by
  unfold awaited
  rw [hin]

theorem awaited_confirming {api : ChangeApi Network} {token : UInt64}
    (hin : api.inside = .confirming token (.ok ())) : awaited api = some api.staged := by
  unfold awaited
  rw [hin]

variable (rd bootCellular) in
/-- While a change can still be confirmed, the file is due what it has made live. -/
def Waits (api : ChangeApi Network) (d : Due) : Prop :=
  ∀ candidate ∈ awaited api, d.Makes rd bootCellular candidate api.world.cell

theorem Waits.accept {api : ChangeApi Network} {d : Due} (h : Waits rd bootCellular api d)
    (pin : Text) : Waits rd bootCellular
      { api with world.cell := api.world.cell.withPin pin } (d.accept pin) :=
  fun candidate hcand => (h candidate hcand).accept pin

theorem Waits.of_awaited {api api' : ChangeApi Network} {d : Due}
    (h : Waits rd bootCellular api d) (hcell : api'.world.cell = api.world.cell)
    (hsame : awaited api' = awaited api) : Waits rd bootCellular api' d := by
  intro candidate hcand
  rw [hcell]
  exact h candidate (hsame ▸ hcand)

theorem waits_idle {api : ChangeApi Network} {d : Due} (hp : api.txn.pending = false)
    (hin : ∀ token, api.inside ≠ .confirming token (.ok ())) : Waits rd bootCellular api d := by
  intro candidate hcand
  rw [awaited_idle hp hin] at hcand
  cases hcand

namespace CellularStore

variable {s : CellularStore}

theorem stored_of_not_saving (h : s.saving = false) :
    s.Stored bootCellular ↔ s.stored bootCellular = s.due.good := by
  unfold saving at h
  unfold Stored
  split at h
  · cases h
  all_goals exact Iff.rfl

variable (rd bootCellular) in
/-- The file has what it is due, and so has every configuration that is on its way to it. -/
structure Inv (s : CellularStore) : Prop where
  api : s.api.Inv
  stored : s.Stored bootCellular
  live : s.api.world.cell.Storable
  copied : match s.uplink.ticking with
    | .working cfg _ => cfg.Storable
    | .saving cfg _ _ =>
      cfg.Storable ∧ cfg.asStored bootCellular = s.due.good
    | .idle | .ending _ _ => True
  waits : Waits rd bootCellular s.api s.due
  handing : ∀ c ∈ s.handing, s.handsOver rd = true ∧ s.saving = false ∧
    c.Storable ∧ s.due.next = some (c.asStored bootCellular)

theorem handsOver_iff : s.handsOver rd = true ↔
    (∃ token, s.api.inside = .confirming token (.ok ())) ∧ s.api.staged ≠ [] ∧
      isCellular rd s.api.staged = true := by
  unfold handsOver
  split
  · rename_i token hin
    simp [hin]
  all_goals simp_all

/-- Nothing is on its way from a confirmation while the API is between its calls. -/
theorem Inv.not_handing (h : s.Inv rd bootCellular)
    (hin : ∀ token, s.api.inside ≠ .confirming token (.ok ())) : s.handing = none := by
  cases hhand : s.handing with
  | none => rfl
  | some c =>
    obtain ⟨⟨token, hconf⟩, -⟩ := handsOver_iff.mp (h.handing c hhand).1
    exact absurd hconf (hin token)

/-- Calls of the API that leave the file keep the invariant. -/
theorem Inv.of_api (h : s.Inv rd bootCellular) {api : ChangeApi Network} {due : Due}
    (hapi : api.Inv) (hsteady : Steady s.api.world.settings api.world)
    (hgood : due.good = s.due.good) (hwaits : Waits rd bootCellular api due)
    (hhanding : s.handing = none) : Inv rd bootCellular { s with api := api, due := due } where
  api := hapi
  stored := by
    have hs := h.stored
    unfold Stored CellularStore.stored at *
    dsimp only
    rw [hsteady.settings, hgood]
    exact hs
  live := hsteady.live
  copied := by
    have hc := h.copied
    dsimp only
    rw [hgood]
    exact hc
  waits := hwaits
  handing c hc := by
    rw [hhanding] at hc
    cases hc

theorem Inv.stage (h : s.Inv rd bootCellular) (candidate : Dump) (nowMs windowMs : UInt32)
    (saves : Bool) (hsaving : s.saving = false) :
    (s.stage rd bootCellular candidate nowMs windowMs saves).Inv rd bootCellular := by
  have hgood : s.stored bootCellular = s.due.good := (stored_of_not_saving hsaving).mp h.stored
  have hapi : (s.api.stage (Network.execSaving rd bootCellular saves) candidate nowMs
      windowMs).Inv := h.api.stage candidate nowMs windowMs
  unfold CellularStore.stage
  unfold ChangeApi.stage at *
  cases hin : s.api.inside with
  | free =>
    have hbegin := begin_yields candidate nowMs windowMs s.api.txn
    have hsaid := hbegin.eval (Network.execSaving rd bootCellular saves) s.api.world
    have hlive := begin_live rd bootCellular s.api.world s.api.txn candidate nowMs windowMs saves
    have hsteady := (Prog.uses_any (begin candidate nowMs windowMs s.api.txn)).eval_keeps
      (fun e w _ => Steady.exec rd bootCellular saves e w) (w := s.api.world) ⟨h.live, rfl⟩
    rw [hin] at hapi
    dsimp only at hapi hlive ⊢
    generalize (begin candidate nowMs windowMs s.api.txn).eval
      (Network.execSaving rd bootCellular saves) s.api.world = r at *
    obtain ⟨⟨outcome, m⟩, w⟩ := r
    refine h.of_api hapi hsteady ?_ ?_ (h.not_handing (by simp [hin]))
    · cases outcome <;> rfl
    intro blob hblob
    cases outcome with
    | ok token =>
      have hcand : blob ∈ if m.pending then some candidate.1 else none := hblob
      obtain ⟨-, hcand⟩ := Option.mem_ite_none_right.mp hcand
      obtain rfl := Option.some.inj hcand
      obtain ⟨x, hreads⟩ := hlive.1 token rfl
      -- the candidate was read over what is stored, which is what the file is due
      rw [← CellularStore.stored, hgood] at hreads
      exact Due.stage_makes hreads
    | error err =>
      obtain ⟨hp, -⟩ := hsaid.2 err rfl
      -- only a change that was pending before can still be confirmed
      have hold : blob ∈ if m.pending then some s.api.staged else none := hblob
      rw [hp] at hold
      obtain ⟨hpending, -⟩ := Option.mem_ite_none_right.mp hold
      rw [hlive.2 hpending]
      exact h.waits blob (awaited_free hin ▸ hold)
  | staging candidate outcome => exact h
  | confirming token outcome => exact h

theorem Inv.confirm (h : s.Inv rd bootCellular) (token : UInt64) (saves : Bool) :
    (s.confirm rd bootCellular token saves).Inv rd bootCellular := by
  have hapi : (s.api.confirm (Network.execSaving rd bootCellular saves) token).Inv :=
    h.api.confirm token
  unfold CellularStore.confirm
  unfold ChangeApi.confirm at *
  cases hin : s.api.inside with
  | free =>
    have hconfirm := confirm_yields token s.api.txn
    have hsaid := hconfirm.eval (Network.execSaving rd bootCellular saves) s.api.world
    have hlive := hconfirm.eval_keeps
      (fun e w he hw => (execSaving_cell rd bootCellular saves he w).trans hw) (w := s.api.world)
      (rfl : _ = s.api.world.cell)
    have hsteady := (Prog.uses_any (Net.confirm token s.api.txn)).eval_keeps
      (fun e w _ => Steady.exec rd bootCellular saves e w) (w := s.api.world) ⟨h.live, rfl⟩
    rw [hin] at hapi
    dsimp only at hapi hlive ⊢
    generalize (Net.confirm token s.api.txn).eval
      (Network.execSaving rd bootCellular saves) s.api.world = r at *
    obtain ⟨⟨outcome, m⟩, w⟩ := r
    refine h.of_api hapi hsteady rfl (h.waits.of_awaited hlive ?_) (h.not_handing (by simp [hin]))
    rw [awaited_free hin]
    cases outcome with
    | ok u =>
      obtain ⟨hpending, -, -⟩ := hsaid.1 rfl
      rw [hpending]
      rfl
    | error err =>
      have hm : m = s.api.txn := hsaid.2 err rfl
      rw [hm]
      rfl
  | staging candidate outcome => exact h
  | confirming token outcome => exact h

theorem not_pending_of_confirming (h : s.api.Inv) {token : UInt64}
    (hin : s.api.inside = .confirming token (.ok ())) : s.api.txn.pending = false := by
  cases hp : s.api.txn.pending with
  | false => rfl
  | true =>
    have hno := h.pending hp
    rw [hin] at hno
    exact hno.elim

theorem Inv.tick (h : s.Inv rd bootCellular) (nowMs : UInt32) :
    (s.tick rd bootCellular nowMs).Inv rd bootCellular := by
  have hapi : (s.api.tick (Network.exec rd bootCellular) nowMs).Inv := h.api.tick nowMs
  unfold CellularStore.tick
  unfold ChangeApi.tick at *
  dsimp only at *
  cases he : s.api.txn.expired nowMs with
  | false =>
    rw [tick_idle he]
    exact h
  | true =>
    have hpending := pending_of_expired he
    have hin : ∀ token, s.api.inside ≠ .confirming token (.ok ()) := by
      intro token hconf
      have hidle := not_pending_of_confirming h.api hconf
      exact absurd (hpending.symm.trans hidle) (by decide)
    have hclosed := (tick_closes he).eval (Network.exec rd bootCellular) s.api.world
    have hsteady := (Prog.uses_any (Net.tick nowMs s.api.txn)).eval_keeps
      (fun e w _ => Steady.exec rd bootCellular true e w) (w := s.api.world) ⟨h.live, rfl⟩
    rw [execSaving_true] at hsteady
    exact h.of_api hapi hsteady rfl (waits_idle hclosed hin) (h.not_handing hin)

theorem Inv.clear (h : s.Inv rd bootCellular) (hstep : s.api.InStep .clear) :
    Inv rd bootCellular { s with api := s.api.clear } := by
  have hapi := h.api.clear hstep
  unfold ChangeApi.InStep at hstep
  unfold ChangeApi.clear at *
  cases hin : s.api.inside with
  | free =>
    rw [hin] at hstep hapi
    dsimp only at hstep hapi ⊢
    by_cases hclears : s.api.clears = 0
    · rw [if_pos hclears]
      exact h
    · rw [if_neg hclears] at hapi ⊢
      exact h.of_api hapi ⟨h.live, rfl⟩ rfl (waits_idle (hstep hclears) nofun)
        (h.not_handing (by simp [hin]))
  | staging candidate outcome => exact h
  | confirming token outcome => exact h

/-- A confirmed cellular configuration that is stored is what the file is due. -/
theorem Inv.handedOver (h : s.Inv rd bootCellular) {token : UInt64}
    (hin : s.api.inside = .confirming token (.ok ())) {c : CellularConfig}
    (hc : s.handing = some c) (hplain : c.Plain) (hapi : s.api.finish.Inv) :
    Inv rd bootCellular { s.commit true c with
      api := (s.commit true c).api.finish, handing := none, due := s.due.confirm } := by
  obtain ⟨-, hsaving, hlink, hnext⟩ := h.handing c hc
  have hp := not_pending_of_confirming h.api hin
  have hcopied := h.copied
  unfold ChangeApi.finish at *
  unfold commit
  rw [if_pos rfl]
  dsimp only
  rw [hin] at hapi ⊢
  refine ⟨⟨hapi.handed, hapi.pending, hapi.confirming⟩, ?_, h.live, ?_, waits_idle hp nofun, ?_⟩
  · rw [stored_of_not_saving]
    swap
    · exact hsaving
    unfold CellularStore.stored Due.confirm
    dsimp only
    rw [storedCellular_commit _ _ hplain hlink, hnext]
    rfl
  · unfold saving at hsaving
    -- `hsaving` rules out a tick in the middle of its own save
    cases ht : s.uplink.ticking with
    | saving cfg st scanning =>
      rw [ht] at hsaving
      cases hsaving
    | working cfg request =>
      rw [ht] at hcopied
      exact hcopied
    | idle => trivial
    | ending st scanning => trivial
  · intro c hc
    cases hc

/-- What is confirmed and has been read for the file is stored before the call ends. -/
theorem Inv.finish (h : s.Inv rd bootCellular) {commits : Bool}
    (hstep : s.InStep bootCellular (.finish commits)) :
    (s.finish rd commits).Inv rd bootCellular := by
  have hapi := h.api.finish hstep.1
  have hrefused := hstep.1
  unfold ChangeApi.InStep at hrefused
  unfold CellularStore.finish
  split
  · rename_i token hin
    split
    · split
      · rename_i c hc
        obtain ⟨hcommits, hplain⟩ := hstep.2 c hc
        subst hcommits
        exact h.handedOver hin hc hplain hapi
      · exact h
    · rename_i hover
      -- a change of another kind leaves the configuration, and so does the file
      have hnone : s.handing = none := by
        cases hc : s.handing with
        | none => rfl
        | some c => exact absurd (h.handing c hc).1 hover
      have hother : isCellular rd s.api.staged = false := by
        by_contra hcell
        have hne := (h.api.confirming token hin).ne
        exact hover (handsOver_iff.mpr ⟨⟨token, hin⟩, hne, by simpa using hcell⟩)
      have hmakes := h.waits s.api.staged (awaited_confirming hin)
      unfold Due.Makes at hmakes
      rw [hother, if_neg (by decide)] at hmakes
      have hp := not_pending_of_confirming h.api hin
      unfold ChangeApi.finish at *
      rw [hin] at hapi ⊢
      refine h.of_api hapi ⟨h.live, rfl⟩ ?_ (waits_idle hp nofun) hnone
      unfold Due.confirm
      rw [hmakes]
      rfl
  · rename_i hin
    unfold ChangeApi.finish at *
    rw [hin]
    exact h
  · rename_i candidate outcome hin
    have hnone := h.not_handing (by simp [hin])
    unfold ChangeApi.finish at *
    rw [hin] at hapi hrefused ⊢
    cases outcome with
    | ok token =>
      refine h.of_api hapi ⟨h.live, rfl⟩ rfl (h.waits.of_awaited rfl ?_) hnone
      unfold awaited
      rw [hin]
    | error err => exact h.of_api hapi ⟨h.live, rfl⟩ rfl (waits_idle hrefused nofun) hnone
  · rename_i token err hin
    have hnone := h.not_handing (by simp [hin])
    unfold ChangeApi.finish at *
    rw [hin] at hapi ⊢
    refine h.of_api hapi ⟨h.live, rfl⟩ rfl (h.waits.of_awaited rfl ?_) hnone
    unfold awaited
    rw [hin]

theorem Inv.handOver (h : s.Inv rd bootCellular) (hsaving : s.saving = false) :
    (s.handOver rd).Inv rd bootCellular := by
  unfold CellularStore.handOver
  split
  · rename_i hover
    refine ⟨h.api, h.stored, h.live, h.copied, h.waits, fun c hc => ?_⟩
    obtain rfl := Option.some.inj hc
    refine ⟨hover, hsaving, ?_⟩
    cases hhand : s.handing with
    | some c => exact (h.handing c hhand).2.2
    | none =>
      obtain ⟨⟨token, hin⟩, -, hcell⟩ := handsOver_iff.mp hover
      have hmakes := h.waits s.api.staged (awaited_confirming hin)
      unfold Due.Makes at hmakes
      rw [hcell, if_pos rfl] at hmakes
      exact ⟨h.live, hmakes⟩
  · exact h

/-- What the uplink does outside its ticks keeps the invariant. -/
theorem Inv.of_uplink (h : s.Inv rd bootCellular) {u : CellularUplink}
    (hu : u.ticking = s.uplink.ticking) (admitted : List SimLockRequest) :
    Inv rd bootCellular { s with uplink := u, admitted := admitted } where
  api := h.api
  stored := by
    unfold Stored
    dsimp only
    rw [hu]
    exact h.stored
  live := h.live
  copied := by
    dsimp only
    rw [hu]
    exact h.copied
  waits := h.waits
  handing c hc := by
    unfold saving
    dsimp only
    rw [hu]
    exact h.handing c hc

theorem requestSimLock_ticking {r : SimLockRequest} {cfg : CellularConfig} {u u' : CellularUplink}
    (h : u.requestSimLock r cfg = .ok u') : u'.ticking = u.ticking := by
  unfold CellularUplink.requestSimLock at h
  simp only [except_bind_eq_ok] at h
  obtain ⟨_, -, _, -, _, -, _, -, h⟩ := h
  obtain rfl := Except.ok.inj h
  rfl

theorem Inv.requestSimLock (h : s.Inv rd bootCellular) (r : SimLockRequest) :
    (s.requestSimLock r).Inv rd bootCellular := by
  unfold CellularStore.requestSimLock
  split
  · cases hreq : s.uplink.requestSimLock r s.api.world.cell with
    | ok u => exact h.of_uplink (requestSimLock_ticking hreq) _
    | error err => exact h.of_uplink rfl _
  · exact h

/-- Steps of a tick that neither find nor leave a PIN on its way keep the invariant. -/
theorem Inv.of_tick (h : s.Inv rd bootCellular) (hsaving : s.saving = false) {u : CellularUplink}
    (hu : match u.ticking with
      | .working cfg _ => cfg.Storable
      | .saving _ _ _ => False
      | .idle | .ending _ _ => True) : Inv rd bootCellular { s with uplink := u } := by
  have hstored := (stored_of_not_saving hsaving).mp h.stored
  have hnot : CellularStore.saving { s with uplink := u } = false := by
    unfold saving
    cases ht : u.ticking with
    | saving cfg st scanning =>
      rw [ht] at hu
      exact hu.elim
    | idle | working | ending => simp
  refine ⟨h.api, (stored_of_not_saving hnot).mpr hstored, h.live, ?_, h.waits, fun c hc => ?_⟩
  · cases ht : u.ticking with
    | saving cfg st scanning =>
      rw [ht] at hu
      exact hu.elim
    | working cfg request =>
      rw [ht] at hu
      simpa [ht] using hu
    | idle | ending => simp
  · obtain ⟨hover, -, hrest⟩ := h.handing c hc
    exact ⟨hover, hnot, hrest⟩

theorem Inv.copy (h : s.Inv rd bootCellular) : s.copy.Inv rd bootCellular := by
  unfold CellularStore.copy
  split
  · rename_i hidle
    refine h.of_tick ?_ h.live
    unfold saving
    rw [hidle]
  all_goals exact h

theorem Inv.publish (h : s.Inv rd bootCellular) : s.publish.Inv rd bootCellular := by
  unfold CellularStore.publish
  split
  · rename_i hending
    refine h.of_tick ?_ trivial
    unfold saving
    rw [hending]
  all_goals exact h

theorem Inv.persist (h : s.Inv rd bootCellular) {commits : Bool}
    (hstep : s.InStep bootCellular (.persist commits)) :
    (s.persist commits).Inv rd bootCellular := by
  unfold CellularStore.persist
  split
  · rename_i cfg st scanning hticking
    have hcopied := h.copied
    rw [hticking] at hcopied
    obtain ⟨hlink, hdue⟩ := hcopied
    have hsaving : s.saving = true := by
      unfold saving
      rw [hticking]
    unfold InStep at hstep
    rw [hticking] at hstep
    obtain ⟨rfl, hplain⟩ := hstep
    unfold commit
    rw [if_pos rfl]
    refine ⟨⟨h.api.handed, h.api.pending, h.api.confirming⟩, ?_, h.live, trivial, h.waits,
      fun c hc => ?_⟩
    · exact (storedCellular_commit _ _ hplain hlink).trans hdue
    · have hno := (h.handing c hc).2.1
      exact absurd (hsaving.symm.trans hno) (by decide)
  all_goals exact h

/-- The PIN the card has taken is set in what is live, in the copy and in what the file is due. -/
theorem Inv.work (h : s.Inv rd bootCellular) {round : Round}
    (hstep : s.InStep bootCellular (.work round)) : (s.work round).Inv rd bootCellular := by
  unfold InStep at hstep
  unfold CellularStore.work
  split
  · rename_i cfg request hticking
    rw [hticking] at hstep
    have hlink := h.copied
    rw [hticking] at hlink
    have hnot : s.saving = false := by
      unfold saving
      rw [hticking]
    have hstored := (stored_of_not_saving hnot).mp h.stored
    dsimp only at hstep hlink ⊢
    split
    · rename_i pin hpin
      -- the copy is what is stored but for its PIN, which gives way to the new one
      obtain ⟨hnone, hsame⟩ := hstep (by simp [hpin])
      refine ⟨⟨h.api.handed, h.api.pending, h.api.confirming⟩, ?_, h.live, ⟨hlink, ?_⟩,
        h.waits.accept pin, ?_⟩
      · exact congrArg (·.withPin pin) hstored
      · calc
          (cfg.withPin pin).asStored bootCellular
            = ((cfg.asStored bootCellular).withPin (s.stored bootCellular).simPin).withPin pin :=
              rfl
          _ = (s.stored bootCellular).withPin pin := by rw [hsame]
          _ = s.due.good.withPin pin := by rw [hstored]
      · intro c hc
        rw [hnone] at hc
        cases hc
    · exact h.of_tick hnot trivial
  all_goals exact h

theorem Inv.step (h : s.Inv rd bootCellular) {e : StoreEvent} (he : s.InStep bootCellular e) :
    (s.step rd bootCellular e).Inv rd bootCellular := by
  cases e with
  | stage candidate nowMs windowMs saves => exact h.stage candidate nowMs windowMs saves he
  | confirm token saves => exact h.confirm token saves
  | handOver => exact h.handOver he
  | finish commits => exact h.finish he
  | tick nowMs => exact h.tick nowMs
  | clear => exact h.clear he
  | simLock r =>
    unfold CellularStore.step CellularStore.simLock
    dsimp only
    split
    · exact h
    · exact h.of_uplink rfl _
  | requestSimLock r => exact h.requestSimLock r
  | copy => exact h.copy
  | work round => exact h.work he
  | persist commits => exact h.persist he
  | publish => exact h.publish

theorem recover_yields {m : NetworkTxn} (hm : m.pending = false) :
    (recover m).Yields (fun _ => True) (·.2.pending = false) := by
  have hskip : ∀ pr, (m.skipToken pr).pending = false := by
    intro pr
    unfold NetworkTxn.skipToken
    repeat' split
    all_goals exact hm
  unfold recover
  refine Prog.Uses.bind (Prog.uses_perform trivial) fun blob => ?_
  dsimp only
  split
  · exact hskip _
  refine Prog.Uses.bind (Prog.uses_any _) fun good => ?_
  cases good with
  | none => exact hskip _
  | some good =>
    refine Prog.Uses.bind (Prog.uses_perform trivial) fun _ => ?_
    refine Prog.Uses.bind (Prog.uses_perform trivial) fun rc => ?_
    split
    all_goals rfl

theorem boot_yields : boot.Yields (fun _ => True) (·.pending = false) :=
  Prog.Uses.bind (Prog.uses_any _) fun _ => (recover_yields rfl).bind fun _ hr => hr

theorem inv_started (disk : Network) (saves : Bool) :
    (started rd bootCellular disk saves).Inv rd bootCellular := by
  have hsteady := (Prog.uses_any boot).eval_keeps
    (fun e w _ => Steady.exec rd bootCellular saves e w)
    (w := { disk with cell := storedCellular bootCellular disk.settings })
    ⟨storedCellular_dataLink _ _, rfl⟩
  have hidle := boot_yields.eval (Network.execSaving rd bootCellular saves)
    { disk with cell := storedCellular bootCellular disk.settings }
  refine ⟨?_, ?_, hsteady.live, trivial, waits_idle hidle nofun, ?_⟩
  · exact ⟨trivial, fun hp => absurd (hidle.symm.trans hp) (by decide), nofun⟩
  · exact congrArg (storedCellular bootCellular) hsteady.settings
  · intro c hc
    cases hc

end CellularStore

end store

/-- As long as the two writers of the file keep apart, it has at every moment the configuration
confirmed last with the PIN the card has taken since. -/
theorem stored_run (rd : JsonReader) (bootCellular : Bool) (disk : Network) (saves : Bool)
    (es : List StoreEvent)
    (h : Along (CellularStore.step rd bootCellular) (CellularStore.InStep bootCellular)
      (CellularStore.started rd bootCellular disk saves) es) :
    Always (CellularStore.step rd bootCellular) (CellularStore.Stored bootCellular)
      (CellularStore.started rd bootCellular disk saves) es :=
  (always_of_along (fun _ _ hs he => hs.step he) (CellularStore.inv_started disk saves) h).mono
    fun _ hs => hs.stored

instance (b : Bool) (s : CellularStore) (e : StoreEvent) : Decidable (s.InStep b e) :=
  match e with
  | .stage _ _ _ _ | .handOver => inferInstanceAs (Decidable (s.saving = false))
  | .finish commits =>
    inferInstanceAs (Decidable (s.api.InStep .finish ∧ ∀ c ∈ s.handing, commits = true ∧ c.Plain))
  | .clear => inferInstanceAs (Decidable (s.api.InStep .clear))
  | .work round =>
    match h : s.uplink.ticking with
    | .working cfg request =>
      decidable_of_iff ((CellularUplink.act cfg request round s.uplink.actions).1.newPin.isSome =
        true → s.handing = none ∧ (cfg.asStored b).SameBut (s.stored b))
        (by simp [CellularStore.InStep, h])
    | .idle | .saving _ _ _ | .ending _ _ => .isTrue (by simp [CellularStore.InStep, h])
  | .persist commits =>
    match h : s.uplink.ticking with
    | .saving cfg _ _ =>
      decidable_of_iff (commits = true ∧ cfg.Plain) (by simp [CellularStore.InStep, h])
    | .idle | .working _ _ | .ending _ _ => .isTrue (by simp [CellularStore.InStep, h])
  | .confirm _ _ | .tick _ | .simLock _ | .requestSimLock _ | .copy | .publish => .isTrue trivial

/-- A change of the APN. -/
def apnChange : Dump :=
  ⟨"\x7b\"kind\":\"cellular\",\"config\":\x7b\"apn\":\"lab\"\x7d\x7d".toList, by decide⟩

/-- What the parser makes of the baseline and of that change. -/
def apnReader : JsonReader where
  parse t :=
    if t = bootConfig.text then some (.object [("kind".toList, .string "boot".toList)])
    else if t = apnChange.1 then
      some (.object [("kind".toList, .string "cellular".toList),
        ("config".toList, .object [("apn".toList, .string "lab".toList)])])
    else none
  boot := if_pos rfl

/-- A modem that answers everything. -/
def answering : Round where
  status := { present := true, responsive := true }
  reply
    | .available => true
    | .command _ _ => { result := .ok }
    | .loadNote => none
    | .storeNote _ => ()

def enableLock : SimLockRequest := { action := .enable, pin := "1234".toList }

/-- The uplink sees the modem, and a SIM action is asked for. -/
def asked : List StoreEvent :=
  [.copy, .work answering, .publish, .simLock enableLock, .requestSimLock enableLock]

/-- The PIN is stored first, and then a change of the APN is staged, confirmed and stored. -/
def inTurn : List StoreEvent :=
  asked ++ [.copy, .work answering, .persist true, .publish, .stage apnChange 0 1000 true,
    .finish true, .confirm 1 true, .handOver, .finish true]

/-- The change of the APN is staged before the tick that sees to the PIN begins. -/
def stagedFirst : List StoreEvent :=
  asked ++ [.stage apnChange 0 1000 true, .finish true, .copy, .work answering, .persist true]

/-- A camera without records that dials *98. -/
def plainDial : Network :=
  { wifi := none, cell := {}, settings := { text := "cellular.dial = *98".toList } }

theorem stored_run_pin :
    Always (CellularStore.step apnReader true) (CellularStore.Stored true)
      (CellularStore.started apnReader true plainDial true) inTurn := by
  refine stored_run _ _ _ _ _ ?_
  decide +kernel

/-- A tick that began with a staged APN stores it with the new PIN, before anyone confirmed it. -/
theorem not_stored_staged :
    ¬ CellularStore.Stored true (Runs.run (CellularStore.step apnReader true)
      (CellularStore.started apnReader true plainDial true) stagedFirst) := by
  intro h
  have hapn := congrArg CellularConfig.apn h
  revert hapn
  decide +kernel

end Machino.Net
