import Machino.Basic.Ledger
import Machino.Lifecycle.PipelineManager

namespace Machino.Lifecycle

open Ledger PipelineManager

/-- What a unit can hold of the platform. -/
inductive Resource where
  | framesource (fs : ℕ)
  | encoder (enc : ℕ)
  | binding (fs enc : ℕ)
  | enabled (fs : ℕ)
  | started (enc : ℕ)
  deriving DecidableEq, Repr

/-- What the chain holds, last acquired first. -/
def Chain.resources (c : Chain) : List Resource :=
  (if c.encStarted then c.enc.toList.map .started else []) ++
  (if c.fsEnabled then c.fs.toList.map .enabled else []) ++
  (match c.fs, c.enc with
    | some fs, some enc => if c.bound then [.binding fs enc] else []
    | _, _ => []) ++
  c.enc.toList.map .encoder ++ c.fs.toList.map .framesource

@[simp] theorem Chain.resources_empty : ({} : Chain).resources = [] := rfl

/-- A chain that runs holds everything. -/
def Chain.Live (c : Chain) : Prop := ∃ fs enc, c = ⟨some fs, some enc, true, true, true, true⟩

/-- What a call acquires or undoes for the unit. -/
def Call.entry (i : Slot) : Call → Option (Entry Resource)
  | .createFramesource j fs _ r => if j = i ∧ r.isOk then some (.acquired (.framesource fs)) else none
  | .createEncoder j enc _ r => if j = i ∧ r.isOk then some (.acquired (.encoder enc)) else none
  | .bind j fs enc r => if j = i ∧ r.isOk then some (.acquired (.binding fs enc)) else none
  | .enable j fs r => if j = i ∧ r.isOk then some (.acquired (.enabled fs)) else none
  | .start j enc r => if j = i ∧ r.isOk then some (.acquired (.started enc)) else none
  | .stop j enc => if j = i then some (.undone (.started enc)) else none
  | .disable j fs => if j = i then some (.undone (.enabled fs)) else none
  | .unbind j fs enc => if j = i then some (.undone (.binding fs enc)) else none
  | .destroyEncoder j enc => if j = i then some (.undone (.encoder enc)) else none
  | .destroyFramesource j fs => if j = i then some (.undone (.framesource fs)) else none
  | _ => none

/-- What a call acquires or undoes for the snapshot path. -/
def Call.jpegEntry : Call → Option (Entry Resource)
  | .createJpeg enc _ r => if r.isOk then some (.acquired (.encoder enc)) else none
  | .destroyJpeg enc => some (.undone (.encoder enc))
  | _ => none

def ledger (i : Slot) (log : List Call) : List (Entry Resource) := log.filterMap (Call.entry i)

def jpegLedger (log : List Call) : List (Entry Resource) := log.filterMap Call.jpegEntry

/-- Whether the platform is up after the calls: the last successful bring-up has not been
torn down. -/
def platformUp (log : List Call) : Bool :=
  log.foldl (fun up c => match c with
    | .bringUp r => r.isOk || up
    | .tearDown => false
    | _ => up) false

@[simp] theorem ledger_append (i : Slot) (l l' : List Call) :
    ledger i (l ++ l') = ledger i l ++ ledger i l' := List.filterMap_append

@[simp] theorem jpegLedger_append (l l' : List Call) :
    jpegLedger (l ++ l') = jpegLedger l ++ jpegLedger l' := List.filterMap_append

@[simp] theorem platformUp_bringUp (l : List Call) (r : Result) :
    platformUp (l ++ [.bringUp r]) = (r.isOk || platformUp l) := by simp [platformUp]

@[simp] theorem platformUp_tearDown (l : List Call) : platformUp (l ++ [.tearDown]) = false := by
  simp [platformUp]

/-- A call made for the chain of one unit. -/
def Call.OfUnit (i : Slot) : Call → Prop
  | .createFramesource j _ _ _ | .createEncoder j _ _ _ | .bind j _ _ _ | .enable j _ _
  | .start j _ _ | .stop j _ | .disable j _ | .unbind j _ _ | .destroyEncoder j _
  | .destroyFramesource j _ => j = i
  | _ => False

namespace PipelineManager

/-- The manager without its media objects, its counters of starts and stops, its error text
and its log: what bringing media up and down leaves alone. -/
def books (m : PipelineManager) : PipelineManager :=
  { m with
    units := m.units.map fun u => { u with chain := {} }
    jpeg := { m.jpeg with enc := none, cache := [], cacheAtUs := -1 }
    generation := 0, startCount := 0, stopCount := 0, failedCount := 0, lastError := "", log := [] }

/-- A unit without its chain. -/
def unitBooks (m : PipelineManager) (i : Slot) : StreamUnit := { m.unit i with chain := {} }

theorem unitBooks_eq {m m' : PipelineManager} (h : m'.books = m.books) (i : Slot) :
    m'.unitBooks i = m.unitBooks i := by
  have hu := congrArg (fun b => b.units.get i) h
  simp only [books, Units.get_map] at hu
  exact hu

@[simp] theorem log_tell (m : PipelineManager) (c : Call) : (m.tell c).log = m.log ++ [c] := rfl

@[simp] theorem unit_tell (m : PipelineManager) (c : Call) (i : Slot) :
    (m.tell c).unit i = m.unit i := rfl

@[simp] theorem unit_modifyUnit_self (m : PipelineManager) (i : Slot)
    (f : StreamUnit → StreamUnit) : (m.modifyUnit i f).unit i = f (m.unit i) := by
  simp [unit, modifyUnit]

@[simp] theorem unit_modifyUnit_of_ne (m : PipelineManager) {i j : Slot} (h : j ≠ i)
    (f : StreamUnit → StreamUnit) : (m.modifyUnit i f).unit j = m.unit j := by
  simp [unit, modifyUnit, h]

@[simp] theorem chain_modifyChain_self (m : PipelineManager) (i : Slot) (f : Chain → Chain) :
    ((m.modifyChain i f).unit i).chain = f (m.unit i).chain := by simp [modifyChain]

@[simp] theorem log_modifyChain (m : PipelineManager) (i : Slot) (f : Chain → Chain) :
    (m.modifyChain i f).log = m.log := rfl

@[simp] theorem books_tell (m : PipelineManager) (c : Call) : (m.tell c).books = m.books := rfl

@[simp] theorem books_modifyChain (m : PipelineManager) (i : Slot) (f : Chain → Chain) :
    (m.modifyChain i f).books = m.books := by
  cases i <;> rfl

end PipelineManager

/-- From `m` to `m'` only the chain of unit `i` has moved, by calls made for that unit. -/
structure UnitStep (i : Slot) (m m' : PipelineManager) : Prop where
  books : m'.books = m.books
  chain : ∀ j, j ≠ i → (m'.unit j).chain = (m.unit j).chain
  jpeg : m'.jpeg = m.jpeg
  up : platformUp m'.log = platformUp m.log
  ledger : ∀ j, j ≠ i → ledger j m'.log = ledger j m.log
  jpegLedger : jpegLedger m'.log = jpegLedger m.log

namespace UnitStep

theorem refl (i : Slot) (m : PipelineManager) : UnitStep i m m :=
  ⟨rfl, fun _ _ => rfl, rfl, rfl, fun _ _ => rfl, rfl⟩

theorem trans {i : Slot} {a b c : PipelineManager} (h : UnitStep i a b) (h' : UnitStep i b c) :
    UnitStep i a c :=
  ⟨h'.books.trans h.books, fun j hj => (h'.chain j hj).trans (h.chain j hj),
    h'.jpeg.trans h.jpeg, h'.up.trans h.up, fun j hj => (h'.ledger j hj).trans (h.ledger j hj),
    h'.jpegLedger.trans h.jpegLedger⟩

theorem tell {i : Slot} {c : Call} (hc : c.OfUnit i) (m : PipelineManager) :
    UnitStep i m (m.tell c) := by
  refine ⟨rfl, fun _ _ => rfl, rfl, ?_, ?_, ?_⟩
  · cases c <;> first | exact hc.elim | simp [platformUp]
  · intro j hj
    have hij : ¬ i = j := fun h => hj h.symm
    cases c <;> first
      | exact hc.elim
      | (cases hc; simp [Lifecycle.ledger, Call.entry, hij])
  · cases c <;> first
      | exact hc.elim
      | simp [Lifecycle.jpegLedger, Call.jpegEntry]

theorem modifyChain (i : Slot) (m : PipelineManager) (f : Chain → Chain) :
    UnitStep i m (m.modifyChain i f) :=
  ⟨by simp, fun j hj => by simp [PipelineManager.modifyChain, hj], rfl, rfl, fun _ _ => rfl, rfl⟩

theorem lastError (i : Slot) (m : PipelineManager) (e : String) :
    UnitStep i m { m with lastError := e } :=
  ⟨rfl, fun _ _ => rfl, rfl, rfl, fun _ _ => rfl, rfl⟩

theorem undo {i : Slot} {f : ℕ → Call} (hf : ∀ n, (f n).OfUnit i) (o : Option ℕ)
    (m : PipelineManager) : UnitStep i m (undo o f m) := by
  cases o with
  | none => exact refl i m
  | some n => exact tell (hf n) m

end UnitStep

/-- The unit's ledger says exactly what its chain holds. -/
def LedgerAt (i : Slot) (m : PipelineManager) : Prop :=
  held [] (ledger i m.log) = some (m.unit i).chain.resources

theorem ledger_undo {i : Slot} {f : ℕ → Call} {x : ℕ → Resource}
    (hf : ∀ n, (f n).entry i = some (.undone (x n))) (o : Option ℕ) (m : PipelineManager) :
    ledger i (undo o f m).log = ledger i m.log ++ (o.toList.map x).map .undone := by
  cases o with
  | none => simp [undo]
  | some n => simp [undo, ledger, hf n]

theorem ledger_undo_if {i : Slot} {f : ℕ → Call} {x : ℕ → Resource}
    (hf : ∀ n, (f n).entry i = some (.undone (x n))) (o : Option ℕ) (b : Bool)
    (m : PipelineManager) :
    ledger i (if b then undo o f m else m).log =
      ledger i m.log ++ (if b then o.toList.map x else []).map .undone := by
  cases b with
  | false => simp
  | true => exact ledger_undo hf o m

/-- The log of a unit stop ends with the undo of everything the chain held, top first. -/
theorem ledger_stopUnitLocked (i : Slot) (m : PipelineManager) :
    ledger i (stopUnitLocked i m).log =
      ledger i m.log ++ (m.unit i).chain.resources.map .undone := by
  unfold stopUnitLocked Chain.resources
  obtain ⟨fs, enc, bound, fsEnabled, encStarted, running⟩ := (m.unit i).chain
  dsimp only
  rw [log_modifyChain, ledger_undo (x := .framesource) (by simp [Call.entry]),
    ledger_undo (x := .encoder) (by simp [Call.entry])]
  generalize hm : (if fsEnabled then undo fs (.disable i) _ else _) = m'
  have hlog : ledger i m'.log = ledger i m.log ++
      (if encStarted then enc.toList.map Resource.started else []).map .undone ++
        (if fsEnabled then fs.toList.map Resource.enabled else []).map .undone := by
    rw [← hm, ledger_undo_if (x := .enabled) (by simp [Call.entry]),
      ledger_undo_if (x := .started) (by simp [Call.entry])]
  rw [List.map_append, List.map_append, List.map_append, List.map_append]
  -- the binding is undone where there is one
  cases fs with
  | none => simp [hlog]
  | some fs =>
    cases enc with
    | none => simp [hlog]
    | some enc =>
      cases bound with
      | false => simp [hlog]
      | true =>
        have hunbind : ledger i [.unbind i fs enc] = [.undone (.binding fs enc)] := by
          simp [ledger, Call.entry]
        simp [hlog, hunbind]

theorem stopUnitLocked_chain (i : Slot) (m : PipelineManager) :
    ((stopUnitLocked i m).unit i).chain = {} := by
  simp [stopUnitLocked, modifyChain]

theorem stopUnitLocked_step (i : Slot) (m : PipelineManager) :
    UnitStep i m (stopUnitLocked i m) := by
  have hite (b : Prop) [Decidable b] {m m' : PipelineManager} (h : UnitStep i m m') :
      UnitStep i m (if b then m' else m) := by
    split
    · exact h
    · exact .refl i m
  unfold stopUnitLocked
  dsimp only
  have hstop := hite ((m.unit i).chain.encStarted = true)
    (.undo (f := .stop i) (fun _ => rfl) (m.unit i).chain.enc m)
  have hdisable := hstop.trans (hite ((m.unit i).chain.fsEnabled = true)
    (.undo (f := .disable i) (fun _ => rfl) (m.unit i).chain.fs _))
  refine .trans ?_ (.modifyChain i _ _)
  refine .trans ?_ (.undo (f := .destroyFramesource i) (fun _ => rfl) _ _)
  refine .trans ?_ (.undo (f := .destroyEncoder i) (fun _ => rfl) _ _)
  split
  · exact hdisable.trans (hite _ (.tell (c := .unbind i _ _) rfl _))
  · exact hdisable

theorem stopUnitLocked_ledger {i : Slot} {m : PipelineManager} (h : LedgerAt i m) :
    LedgerAt i (stopUnitLocked i m) := by
  unfold LedgerAt
  rw [ledger_stopUnitLocked, held_append_of_eq h, held_undo_all, stopUnitLocked_chain]
  rfl

/-- What a start of unit `i` may do: run the unit, or give back all it had acquired. -/
structure StartSpec (i : Slot) (m : PipelineManager) (r : Bool × PipelineManager) : Prop where
  step : UnitStep i m r.2
  live : r.1 = true → (r.2.unit i).chain.Live
  idle : r.1 = false → (r.2.unit i).chain = {}
  ledger : LedgerAt i m → LedgerAt i r.2

theorem failUnit_spec {i : Slot} {m₀ m : PipelineManager} (stage : String) (code : Int)
    (hs : UnitStep i m₀ m) (hl : LedgerAt i m₀ → LedgerAt i m) :
    StartSpec i m₀ (failUnit i stage code m) where
  step := hs.trans ((UnitStep.lastError i m _).trans (stopUnitLocked_step i _))
  live h := by simp [failUnit] at h
  idle _ := stopUnitLocked_chain i _
  ledger h := stopUnitLocked_ledger (m := { m with lastError := _ }) (hl h)

section platform

variable (platform : ℕ → Result)

/-- One stage of a start that is asked for with the chain `c`: refused, the start unwinds;
granted, it goes on with `c'`, which holds the resource on top of what `c` held. -/
theorem acquireStage_spec {i : Slot} {stage : String} {call : Chain → ℕ → Result → Call}
    {record : ℕ → Chain → Chain} {code : Result → Int}
    {next : PipelineManager → Bool × PipelineManager} {m₀ m : PipelineManager} {c : Chain}
    (hs : UnitStep i m₀ m) (hl : LedgerAt i m₀ → LedgerAt i m) (hc : (m.unit i).chain = c)
    (hof : ∀ n r, (call c n r).OfUnit i)
    (hno : ∀ n r, r.isOk = false → (call c n r).entry i = none)
    (hok : ∀ n r, r.isOk = true → ∃ x, (call c n r).entry i = some (.acquired x) ∧
      (record n c).resources = x :: c.resources)
    (hnext : ∀ n m', UnitStep i m₀ m' → (LedgerAt i m₀ → LedgerAt i m') →
      (m'.unit i).chain = record n c → StartSpec i m₀ (next m')) :
    StartSpec i m₀ (acquireStage platform i stage call record code next m) := by
  unfold acquireStage
  dsimp only
  rw [hc]
  generalize m.log.length = n
  generalize platform n = r
  have htell : UnitStep i m₀ (m.tell (call c n r)) := hs.trans (.tell (hof n r) m)
  split
  -- the stage succeeded: its one entry is pushed on both the ledger and the chain
  · rename_i hr
    obtain ⟨x, hx, hres⟩ := hok n r hr
    refine hnext n _ (htell.trans (.modifyChain i _ _)) ?_ (by simp [modifyChain, hc])
    intro h
    have hm : held [] (ledger i m.log) = some c.resources := hc ▸ hl h
    have hlog : ledger i (m.tell (call c n r)).log = ledger i m.log ++ [.acquired x] := by
      simp [ledger, hx]
    unfold LedgerAt
    change held [] (ledger i (m.tell (call c n r)).log) = _
    rw [hlog, held_append_of_eq hm]
    simp [modifyChain, hc, hres]
  -- it failed: the call leaves no entry and the unit is unwound
  · rename_i hr
    refine failUnit_spec _ _ htell ?_
    intro h
    have hlog : ledger i (m.tell (call c n r)).log = ledger i m.log := by
      simp [ledger, hno n r (by simpa using hr)]
    unfold LedgerAt
    rw [hlog]
    exact hl h

theorem startUnitLocked_spec {i : Slot} {m : PipelineManager}
    (h : (m.unit i).chain = {} ∨ (m.unit i).chain.Live) :
    StartSpec i m (startUnitLocked platform i m) := by
  unfold startUnitLocked
  rcases h with h | ⟨fs, enc, h⟩
  -- an empty chain goes through its five stages; each hands its entry on to the next
  · rw [if_neg (by simp [h])]
    refine acquireStage_spec platform (.refl i m) id h ?_ ?_ ?_ ?_
    · intros; rfl
    · intro n r hr; simp [Call.entry, hr]
    · intro n r hr; simp [Call.entry, hr, Chain.resources]
    intro fs m₁ s₁ l₁ c₁
    refine acquireStage_spec platform s₁ l₁ c₁ ?_ ?_ ?_ ?_
    · intros; rfl
    · intro n r hr; simp [Call.entry, hr]
    · intro n r hr; simp [Call.entry, hr, Chain.resources]
    intro enc m₂ s₂ l₂ c₂
    refine acquireStage_spec platform s₂ l₂ c₂ ?_ ?_ ?_ ?_
    · intros; rfl
    · intro n r hr; simp [Call.entry, hr]
    · intro n r hr; simp [Call.entry, hr, Chain.resources]
    intro _ m₃ s₃ l₃ c₃
    refine acquireStage_spec platform s₃ l₃ c₃ ?_ ?_ ?_ ?_
    · intros; rfl
    · intro n r hr; simp [Call.entry, hr]
    · intro n r hr; simp [Call.entry, hr, Chain.resources]
    intro _ m₄ s₄ l₄ c₄
    refine acquireStage_spec platform s₄ l₄ c₄ ?_ ?_ ?_ ?_
    · intros; rfl
    · intro n r hr; simp [Call.entry, hr]
    · intro n r hr; simp [Call.entry, hr, Chain.resources]
    intro _ m₅ s₅ l₅ c₅
    refine ⟨s₅.trans (.modifyChain i m₅ fun c => { c with running := true }), ?_, by simp, ?_⟩
    · intro _
      exact ⟨fs, enc, by simp [modifyChain, c₅]⟩
    · intro h₀
      have h₅ := l₅ h₀
      unfold LedgerAt at h₅ ⊢
      rw [log_modifyChain, h₅]
      simp [c₅, Chain.resources]
  · rw [if_pos (by simp [h])]
    exact ⟨.refl i m, fun _ => ⟨fs, enc, h⟩, by simp, id⟩

end platform

end Machino.Lifecycle
