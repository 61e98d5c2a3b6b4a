import Mathlib.Logic.Function.Basic
import Machino.Basic.Runs

namespace Machino.Net

open Runs

/-- A change that undoes itself unless it is confirmed, in memory only. -/
structure StagedChange (α : Type*) where
  pending : Bool := false
  token : UInt64 := 0
  nextToken : UInt64 := 1
  deadlineMs : UInt32 := 0
  rollback : Option α := none

namespace StagedChange

variable {α : Type*}

/-- The slot is taken before anything is applied. -/
def claim (hasActions : Bool) (nowMs windowMs : UInt32) (s : StagedChange α) :
    Except String (UInt64 × StagedChange α) :=
  if !hasActions then .error "a staged change needs both an action and its undo"
  else if windowMs = 0 then .error "a confirmation window of zero would roll back instantly"
  else if s.pending then .error "another change is still waiting for confirmation"
  else .ok (s.nextToken, {
    pending := true
    token := s.nextToken
    nextToken := s.nextToken + 1
    deadlineMs := nowMs + windowMs
    rollback := none })

/-- What is left when the action of a change has failed. -/
def giveUp (s : StagedChange α) : StagedChange α := { s with pending := false }

def notApplied : String := "the change could not be applied"

/-- The undo of an applied change is kept, unless its slot is gone. -/
def guard (tok : UInt64) (undo : α) (s : StagedChange α) : Option (StagedChange α) :=
  if !s.pending || s.token ≠ tok then none else some { s with rollback := some undo }

def windowExpired : String :=
  "the confirmation window expired while the change was being applied"

def confirm (token : UInt64) (s : StagedChange α) : Except String (StagedChange α) :=
  if !s.pending then .error "nothing is waiting for confirmation"
  else if token ≠ s.token then .error "that confirmation belongs to a different change"
  else .ok { s with pending := false, rollback := none }

/-- Past the deadline the slot is freed, and its undo is to be run. -/
def tick (nowMs : UInt32) (s : StagedChange α) : Option (Option α × StagedChange α) :=
  if !s.pending then none
  else if (nowMs - s.deadlineMs).toInt32 < 0 then none
  else some (s.rollback, { s with pending := false, rollback := none })

theorem claim_eq_ok {a : Bool} {now window : UInt32} {s s' : StagedChange α} {tok : UInt64}
    (h : s.claim a now window = .ok (tok, s')) :
    s.pending = false ∧ tok = s.nextToken ∧ s'.pending = true ∧ s'.token = s.nextToken ∧
      s'.rollback = none := by
  unfold claim at h
  split at h
  · cases h
  · split at h
    · cases h
    · split at h
      · cases h
      · rename_i hp
        cases h
        exact ⟨by simpa using hp, rfl, rfl, rfl, rfl⟩

theorem claim_of_pending {s : StagedChange α} (h : s.pending = true) (a : Bool)
    (now window : UInt32) : ∃ err, s.claim a now window = .error err := by
  unfold claim
  rw [if_pos h]
  split
  · exact ⟨_, rfl⟩
  · split <;> exact ⟨_, rfl⟩

theorem guard_eq_some {tok : UInt64} {undo : α} {s s' : StagedChange α}
    (h : s.guard tok undo = some s') :
    s.pending = true ∧ s.token = tok ∧ s' = { s with rollback := some undo } := by
  unfold guard at h
  split at h
  · cases h
  · rename_i hc
    simp only [Bool.or_eq_true, Bool.not_eq_true', decide_eq_true_eq, not_or,
      Bool.not_eq_false, not_not] at hc
    exact ⟨hc.1, hc.2, (Option.some.inj h).symm⟩

theorem guard_eq_none {tok : UInt64} {undo : α} {s : StagedChange α} :
    s.guard tok undo = none ↔ s.pending = false ∨ s.token ≠ tok := by
  unfold guard
  split
  · rename_i h
    simpa using h
  · rename_i h
    simpa using h

theorem confirm_eq_ok {token : UInt64} {s s' : StagedChange α} (h : s.confirm token = .ok s') :
    s.pending = true ∧ token = s.token ∧ s' = { s with pending := false, rollback := none } := by
  unfold confirm at h
  split at h
  · cases h
  · split at h
    · cases h
    · rename_i hp ht
      cases h
      exact ⟨by simpa using hp, not_not.mp ht, rfl⟩

theorem tick_eq_some {now : UInt32} {s s' : StagedChange α} {undo : Option α}
    (h : s.tick now = some (undo, s')) :
    s.pending = true ∧ undo = s.rollback ∧ s' = { s with pending := false, rollback := none } := by
  unfold tick at h
  split at h
  · cases h
  · split at h
    · cases h
    · rename_i hp _
      cases h
      exact ⟨by simpa using hp, rfl, rfl⟩

end StagedChange

/-- How far the call that begins a change has come. -/
inductive Begun where
  | applying | undoing | failed (err : String) | staged
  deriving DecidableEq

/-- One begun change: what became of its call, of its action and of its undo. -/
structure Change where
  token : UInt64 := 0
  call : Begun := .failed ""
  applied : Bool := false
  confirmedBy : List UInt64 := []
  undone : ℕ := 0
  deriving DecidableEq

/-- The parts of the calls: what is inside the lock, and the actions outside it. -/
inductive StageEvent where
  | begin (hasActions : Bool) (nowMs windowMs : UInt32)
  | applied (id : ℕ) (ok : Bool)
  | undo (id : ℕ)
  | confirm (token : UInt64)
  | tick (nowMs : UInt32)
  | rollBack (id : ℕ)

/-- The slot, the changes that have been given it, and the undos that ticks have yet to run. -/
structure Staging where
  staged : StagedChange ℕ := {}
  count : ℕ := 0
  changes : ℕ → Change := fun _ => {}
  rollingBack : List ℕ := []

namespace Staging

def set (id : ℕ) (c : Change) (s : Staging) : Staging :=
  { s with changes := Function.update s.changes id c }

def step (s : Staging) : StageEvent → Staging
  | .begin hasActions nowMs windowMs =>
    match s.staged.claim hasActions nowMs windowMs with
    | .error _ => s
    | .ok (tok, staged) =>
      { s with staged := staged, count := s.count + 1 }.set s.count { token := tok, call := .applying }
  | .applied id ok =>
    let c := s.changes id
    if c.call ≠ .applying then s
    else if !ok then
      { s with staged := s.staged.giveUp }.set id { c with call := .failed StagedChange.notApplied }
    else
      match s.staged.guard c.token id with
      | some staged => { s with staged := staged }.set id { c with call := .staged, applied := true }
      | none => s.set id { c with call := .undoing, applied := true }
  | .undo id =>
    let c := s.changes id
    if c.call ≠ .undoing then s
    else s.set id { c with call := .failed StagedChange.windowExpired, undone := c.undone + 1 }
  | .confirm token =>
    match s.staged.confirm token with
    | .error _ => s
    | .ok staged =>
      let s' := { s with staged := staged }
      match s.staged.rollback with
      | none => s'
      | some id => s'.set id { s.changes id with confirmedBy := token :: (s.changes id).confirmedBy }
  | .tick nowMs =>
    match s.staged.tick nowMs with
    | none => s
    | some (undo, staged) => { s with staged := staged, rollingBack := undo.toList ++ s.rollingBack }
  | .rollBack id =>
    if id ∉ s.rollingBack then s
    else
      let c := s.changes id
      { s with rollingBack := s.rollingBack.erase id }.set id { c with undone := c.undone + 1 }

/-- The change still holds the slot, and its undo is kept there. -/
def StillPending (s : Staging) (id : ℕ) : Prop :=
  s.staged.pending = true ∧ s.staged.rollback = some id ∧ s.staged.token = (s.changes id).token ∧
    (s.changes id).confirmedBy = [] ∧ (s.changes id).undone = 0 ∧ id ∉ s.rollingBack

def Confirmed (s : Staging) (id : ℕ) : Prop :=
  (s.changes id).confirmedBy = [(s.changes id).token] ∧ (s.changes id).undone = 0 ∧
    id ∉ s.rollingBack

/-- A tick has run its undo, once, or has yet to. -/
def RolledBack (s : Staging) (id : ℕ) : Prop :=
  (s.changes id).confirmedBy = [] ∧ (s.changes id).undone + s.rollingBack.count id = 1

/-- A change that was begun is pending, confirmed or rolled back; of one whose call failed nothing
is left. -/
structure Guarded (s : Staging) : Prop where
  begun : ∀ id, (s.changes id).call = .staged →
    s.StillPending id ∨ s.Confirmed id ∨ s.RolledBack id
  failed : ∀ id err, (s.changes id).call = .failed err →
    (s.changes id).undone = if (s.changes id).applied then 1 else 0

/-- A call that fails leaves the slot of another change as it is. -/
def Untouched (s : Staging) : StageEvent → Prop
  | .begin a now window => s.staged.pending = true → (s.step (.begin a now window)).staged = s.staged
  | .applied id ok => (s.changes id).call = .applying → s.staged.pending = true →
    s.staged.token ≠ (s.changes id).token → (s.step (.applied id ok)).staged = s.staged
  | .undo id => (s.step (.undo id)).staged = s.staged
  | .confirm _ | .tick _ | .rollBack _ => True

/-- An action that fails finds the slot free or still its own, and no token is given out while an
action runs for it. -/
def InStep (s : Staging) : StageEvent → Prop
  | .applied id false => (s.changes id).call = .applying →
    s.staged.pending = false ∨ s.staged.token = (s.changes id).token
  | .begin _ _ _ => s.staged.pending = false →
    ∀ id < s.count, (s.changes id).call = .applying → (s.changes id).token ≠ s.staged.nextToken
  | .applied _ true | .undo _ | .confirm _ | .tick _ | .rollBack _ => True

/-- The slot keeps the undo of a change that was begun, or of none while its owner is applied. -/
structure Inv (s : Staging) : Prop extends Guarded s where
  fresh : ∀ id, s.count ≤ id → s.changes id = {}
  running : ∀ id, (s.changes id).call = .applying ∨ (s.changes id).call = .undoing →
    (s.changes id).undone = 0 ∧ (s.changes id).confirmedBy = [] ∧
      ((s.changes id).applied = true ↔ (s.changes id).call = .undoing)
  held : ∀ id, s.staged.rollback = some id → s.StillPending id ∧ (s.changes id).call = .staged
  slot : s.staged.pending = true → ∀ id, (s.changes id).call = .applying →
    (s.changes id).token = s.staged.token → s.staged.rollback = none
  distinct : ∀ i j, (s.changes i).call = .applying → (s.changes j).call = .applying →
    (s.changes i).token = (s.changes j).token → i = j
  rolling : ∀ id ∈ s.rollingBack, (s.changes id).call = .staged

@[simp] theorem set_staged (id : ℕ) (c : Change) (s : Staging) : (s.set id c).staged = s.staged :=
  rfl

@[simp] theorem set_count (id : ℕ) (c : Change) (s : Staging) : (s.set id c).count = s.count := rfl

@[simp] theorem set_rollingBack (id : ℕ) (c : Change) (s : Staging) :
    (s.set id c).rollingBack = s.rollingBack := rfl

variable {s : Staging}

theorem Inv.rollback_of_free (h : s.Inv) (hp : s.staged.pending = false) :
    s.staged.rollback = none := by
  cases hr : s.staged.rollback with
  | none => rfl
  | some id => exact absurd (hp.symm.trans (h.held id hr).1.1) Bool.false_ne_true

/-- Only a change that was begun is anywhere in its call. -/
theorem Inv.lt_count (h : s.Inv) {id : ℕ} (hcall : (s.changes id).call ≠ .failed "") :
    id < s.count := by
  by_contra hge
  rw [h.fresh id (not_lt.mp hge)] at hcall
  exact hcall rfl

/-- What a step that sets one change leaves of the others. -/
theorem set_other {id i : ℕ} (hi : i ≠ id) (c : Change) (s : Staging) :
    (s.set id c).changes i = s.changes i := Function.update_of_ne hi ..

@[simp] theorem set_self (id : ℕ) (c : Change) (s : Staging) : (s.set id c).changes id = c :=
  Function.update_self ..

theorem Inv.begin (h : s.Inv) {s' : Staging} {a : Bool} {now window : UInt32} {tok : UInt64}
    (hc : s.staged.claim a now window = .ok (tok, s'.staged))
    (hs : s.InStep (.begin a now window)) (hn : s'.count = s.count + 1)
    (hrb : s'.rollingBack = s.rollingBack)
    (hself : s'.changes s.count = { token := tok, call := .applying })
    (hother : ∀ i, i ≠ s.count → s'.changes i = s.changes i) : s'.Inv := by
  obtain ⟨hp, rfl, hpend, htok, hroll⟩ := StagedChange.claim_eq_ok hc
  have hnone := h.rollback_of_free hp
  have hfresh := hs hp
  have hlt (i : ℕ) (hi : (s.changes i).call = .applying) : i < s.count :=
    h.lt_count (by simp [hi])
  refine ⟨⟨fun id hid => ?_, fun id err hid => ?_⟩, fun id hid => ?_, fun id hid => ?_,
    fun id hid => ?_, fun _ _ _ _ => hroll, fun i j hi hj hij => ?_, fun id hid => ?_⟩
  · obtain hne | rfl := ne_or_eq id s.count
    · have := h.begun id
      simp only [StillPending, Confirmed, RolledBack, hother id hne, hrb] at hid this ⊢
      grind
    · rw [hself] at hid
      cases hid
  · obtain hne | rfl := ne_or_eq id s.count
    · rw [hother id hne] at hid ⊢
      exact h.failed id err hid
    · rw [hself] at hid
      cases hid
  · rw [hother id (by omega)]
    exact h.fresh id (by omega)
  · obtain hne | rfl := ne_or_eq id s.count
    · rw [hother id hne] at hid ⊢
      exact h.running id hid
    · rw [hself]
      simp
  · rw [hroll] at hid
    cases hid
  · obtain hi' | rfl := ne_or_eq i s.count <;> obtain hj' | rfl := ne_or_eq j s.count
    · rw [hother _ hi'] at hi hij
      rw [hother _ hj'] at hj hij
      exact h.distinct i j hi hj hij
    · rw [hother _ hi'] at hi hij
      rw [hself] at hij
      exact absurd hij (hfresh i (hlt i hi) hi)
    · rw [hother _ hj'] at hj hij
      rw [hself] at hij
      exact absurd hij.symm (hfresh j (hlt j hj) hj)
    · rfl
  · rw [hrb] at hid
    have hcall := h.rolling id hid
    obtain hne | rfl := ne_or_eq id s.count
    · rw [hother id hne]
      exact hcall
    · rw [h.fresh _ le_rfl] at hcall
      cases hcall

/-- The owner of the slot is applied, so no undo is kept. -/
theorem Inv.rollback_of_applying (h : s.Inv) {id : ℕ} (ha : (s.changes id).call = .applying)
    (hs : s.staged.pending = false ∨ s.staged.token = (s.changes id).token) :
    s.staged.rollback = none := by
  cases hp : s.staged.pending with
  | false => exact h.rollback_of_free hp
  | true => exact h.slot hp id ha (hs.resolve_left (by simp [hp])).symm

/-- A call whose action or undo has run comes to its end, or on to its undo. -/
theorem Inv.ended (h : s.Inv) {s' : Staging} {id : ℕ} {c : Change}
    (hcall : (s.changes id).call = .applying ∨ (s.changes id).call = .undoing)
    (hroll : s'.staged.rollback = s.staged.rollback)
    (htok : s'.staged.token = s.staged.token)
    (hpend : s'.staged.pending = s.staged.pending ∨ s.staged.rollback = none)
    (hn : s'.count = s.count) (hrb : s'.rollingBack = s.rollingBack) (hself : s'.changes id = c)
    (hother : ∀ i, i ≠ id → s'.changes i = s.changes i)
    (hc : (c.call = .undoing ∧ c.undone = 0 ∧ c.confirmedBy = [] ∧ c.applied = true) ∨
      ∃ err, c.call = .failed err ∧ c.undone = if c.applied then 1 else 0) : s'.Inv := by
  have hid : id < s.count := h.lt_count (by rcases hcall with ha | hu <;> simp [*])
  have hne (i : ℕ) (hi : (s.changes i).call = .staged) : i ≠ id := by
    rintro rfl
    rw [hi] at hcall
    simp at hcall
  have happ (i : ℕ) (hi : (s'.changes i).call = .applying) : i ≠ id := by
    rintro rfl
    grind
  refine ⟨⟨fun i hi => ?_, fun i err hi => ?_⟩, fun i hi => ?_, fun i hi => ?_,
    fun i hi => ?_, fun hp i hi ht => ?_, fun i j hi hj hij => ?_, fun i hi => ?_⟩
  · have hi' : i ≠ id := by
      rintro rfl
      grind
    have := h.begun i
    simp only [StillPending, Confirmed, RolledBack, hother i hi', hrb, hroll, htok] at hi this ⊢
    grind
  · obtain hi' | rfl := ne_or_eq i id
    · rw [hother i hi'] at hi ⊢
      exact h.failed i err hi
    · rw [hself] at hi ⊢
      grind
  · rw [hother i (by omega)]
    exact h.fresh i (by omega)
  · obtain hi' | rfl := ne_or_eq i id
    · rw [hother i hi'] at hi ⊢
      exact h.running i hi
    · rw [hself] at hi ⊢
      grind
  · rw [hroll] at hi
    obtain ⟨hp, hst⟩ := h.held i hi
    have hi' := hne i hst
    simp only [StillPending, hother i hi', hrb, hroll, htok] at hp ⊢
    grind
  · have hi' := happ i hi
    rw [hother i hi'] at hi ht
    rw [htok] at ht
    rw [hroll]
    rcases hpend with he | he
    · exact h.slot (he ▸ hp) i hi ht
    · exact he
  · have hi' := happ i hi
    have hj' := happ j hj
    rw [hother _ hi'] at hi hij
    rw [hother _ hj'] at hj hij
    exact h.distinct i j hi hj hij
  · rw [hrb] at hi
    rw [hother i (hne i (h.rolling i hi))]
    exact h.rolling i hi

/-- An applied change gets its undo into the slot it still owns. -/
theorem Inv.guarded (h : s.Inv) {s' : Staging} {id : ℕ} (ha : (s.changes id).call = .applying)
    (hg : s.staged.guard (s.changes id).token id = some s'.staged) (hn : s'.count = s.count)
    (hrb : s'.rollingBack = s.rollingBack)
    (hself : s'.changes id = { s.changes id with call := .staged, applied := true })
    (hother : ∀ i, i ≠ id → s'.changes i = s.changes i) : s'.Inv := by
  obtain ⟨hp, ht, hst⟩ := StagedChange.guard_eq_some hg
  have hnone := h.rollback_of_applying ha (.inr ht)
  have hrun := h.running id (.inl ha)
  have hroll : s'.staged.rollback = some id := by rw [hst]
  have hpend : s'.staged.pending = true := by rw [hst, hp]
  have htok : s'.staged.token = s.staged.token := by rw [hst]
  have hnot : id ∉ s.rollingBack := by
    intro hm
    rw [h.rolling id hm] at ha
    cases ha
  have hid : id < s.count := h.lt_count (by simp [ha])
  have hheld : s'.StillPending id := by
    simp only [StillPending, hself, hrb, hpend, hroll, htok]
    exact ⟨trivial, trivial, ht, hrun.2.1, hrun.1, hnot⟩
  have happ (i : ℕ) (hi : (s'.changes i).call = .applying) : i ≠ id := by
    rintro rfl
    rw [hself] at hi
    cases hi
  refine ⟨⟨fun i hi => ?_, fun i err hi => ?_⟩, fun i hi => ?_, fun i hi => ?_,
    fun i hi => ?_, fun _ i hi htok' => ?_, fun i j hi hj hij => ?_, fun i hi => ?_⟩
  · obtain hi' | rfl := ne_or_eq i id
    · -- no other change was pending, as nothing was kept
      have := h.begun i
      simp only [StillPending, Confirmed, RolledBack, hother i hi', hrb, hnone] at hi this ⊢
      grind
    · exact .inl hheld
  · obtain hi' | rfl := ne_or_eq i id
    · rw [hother i hi'] at hi ⊢
      exact h.failed i err hi
    · rw [hself] at hi
      cases hi
  · rw [hother i (by omega)]
    exact h.fresh i (by omega)
  · obtain hi' | rfl := ne_or_eq i id
    · rw [hother i hi'] at hi ⊢
      exact h.running i hi
    · rw [hself] at hi
      simp at hi
  · obtain rfl : id = i := Option.some.inj (hroll.symm.trans hi)
    exact ⟨hheld, by rw [hself]⟩
  · have hi' := happ i hi
    rw [hother i hi'] at hi htok'
    exact absurd (h.distinct i id hi ha (htok'.trans (htok.trans ht))) hi'
  · have hi' := happ i hi
    have hj' := happ j hj
    rw [hother _ hi'] at hi hij
    rw [hother _ hj'] at hj hij
    exact h.distinct i j hi hj hij
  · rw [hrb] at hi
    have hi' : i ≠ id := fun he => hnot (he ▸ hi)
    rw [hother i hi']
    exact h.rolling i hi

/-- The slot is freed; what becomes of the change whose undo it kept is what is to be shown. -/
theorem Inv.freed (h : s.Inv) {s' : Staging} (hfree : s'.staged.pending = false)
    (hroll : s'.staged.rollback = none) (hn : s'.count = s.count)
    (hother : ∀ i, s.staged.rollback ≠ some i →
      s'.changes i = s.changes i ∧ s'.rollingBack.count i = s.rollingBack.count i)
    (hheld : ∀ i, s.staged.rollback = some i → (s'.changes i).call = .staged ∧
      (s'.Confirmed i ∨ s'.RolledBack i)) : s'.Inv := by
  have hmem (i : ℕ) (hi : s.staged.rollback ≠ some i) : i ∈ s'.rollingBack ↔ i ∈ s.rollingBack := by
    rw [← List.count_pos_iff, ← List.count_pos_iff, (hother i hi).2]
  have hcase (i : ℕ) : (s'.changes i).call = .staged ∧ (s.changes i).call = .staged ∨
      s'.changes i = s.changes i := by
    by_cases hi : s.staged.rollback = some i
    · exact .inl ⟨(hheld i hi).1, (h.held i hi).2⟩
    · exact .inr (hother i hi).1
  have hcall (i : ℕ) : (s'.changes i).call = (s.changes i).call := by
    rcases hcase i with ⟨h₁, h₂⟩ | he
    · rw [h₁, h₂]
    · rw [he]
  have hsame (i : ℕ) (hi : (s.changes i).call ≠ .staged) : s'.changes i = s.changes i := by
    rcases hcase i with ⟨-, h₂⟩ | he
    · exact absurd h₂ hi
    · exact he
  refine ⟨⟨fun i hi => ?_, fun i err hi => ?_⟩, fun i hi => ?_, fun i hi => ?_,
    fun i hi => ?_, fun hp => ?_, fun i j hi hj hij => ?_, fun i hi => ?_⟩
  · by_cases hr : s.staged.rollback = some i
    · exact .inr (hheld i hr).2
    · have := h.begun i
      rw [hcall] at hi
      simp only [StillPending, Confirmed, RolledBack, (hother i hr).1, (hother i hr).2,
        hmem i hr] at this ⊢
      grind
  · have hne : (s.changes i).call ≠ .staged := by simp [← hcall, hi]
    rw [hsame i hne] at hi ⊢
    exact h.failed i err hi
  · have hfresh := h.fresh i (hn ▸ hi)
    rw [hsame i (by simp [hfresh]), hfresh]
  · have hne : (s.changes i).call ≠ .staged := by
      rw [← hcall]
      rcases hi with hi | hi <;> simp [hi]
    rw [hsame i hne] at hi ⊢
    exact h.running i hi
  · rw [hroll] at hi
    cases hi
  · rw [hfree] at hp
    cases hp
  · have hi' : (s.changes i).call ≠ .staged := by simp [← hcall, hi]
    have hj' : (s.changes j).call ≠ .staged := by simp [← hcall, hj]
    rw [hsame i hi'] at hi hij
    rw [hsame j hj'] at hj hij
    exact h.distinct i j hi hj hij
  · by_cases hr : s.staged.rollback = some i
    · exact (hheld i hr).1
    · rw [hcall]
      exact h.rolling i ((hmem i hr).mp hi)

/-- A tick runs an undo it has taken. -/
theorem Inv.rolled (h : s.Inv) {s' : Staging} {id : ℕ} (hid : id ∈ s.rollingBack)
    (hst : s'.staged = s.staged) (hn : s'.count = s.count)
    (hrb : s'.rollingBack = s.rollingBack.erase id)
    (hself : s'.changes id = { s.changes id with undone := (s.changes id).undone + 1 })
    (hother : ∀ i, i ≠ id → s'.changes i = s.changes i) : s'.Inv := by
  have hcallid := h.rolling id hid
  have hcount : s'.rollingBack.count id + 1 = s.rollingBack.count id := by
    rw [hrb, List.count_erase_self, Nat.sub_add_cancel (List.count_pos_iff.mpr hid)]
  have hcount' (i : ℕ) (hi : i ≠ id) : s'.rollingBack.count i = s.rollingBack.count i := by
    rw [hrb, List.count_erase_of_ne hi]
  have hmem (i : ℕ) (hi : i ≠ id) : i ∈ s'.rollingBack ↔ i ∈ s.rollingBack := by
    rw [← List.count_pos_iff, ← List.count_pos_iff, hcount' i hi]
  have hne (i : ℕ) (hi : (s'.changes i).call ≠ .staged) : i ≠ id := by
    rintro rfl
    rw [hself] at hi
    exact hi hcallid
  have hlt : id < s.count := h.lt_count (by simp [hcallid])
  refine ⟨⟨fun i hi => ?_, fun i err hi => ?_⟩, fun i hi => ?_, fun i hi => ?_,
    fun i hi => ?_, fun hp i hi ht => ?_, fun i j hi hj hij => ?_, fun i hi => ?_⟩
  · obtain hi' | rfl := ne_or_eq i id
    · have := h.begun i
      simp only [StillPending, Confirmed, RolledBack, hother i hi', hst, hcount' i hi',
        hmem i hi'] at hi this ⊢
      grind
    · -- its undo was on the way, so this one is the only one
      rcases h.begun i hcallid with hb | hb | hb
      · exact absurd hid hb.2.2.2.2.2
      · exact absurd hid hb.2.2
      · refine .inr (.inr ?_)
        simp only [RolledBack, hself]
        exact ⟨hb.1, by have := hb.2; omega⟩
  · have hi' := hne i (by simp [hi])
    rw [hother i hi'] at hi ⊢
    exact h.failed i err hi
  · rw [hother i (by omega)]
    exact h.fresh i (hn ▸ hi)
  · have hi' := hne i (by rcases hi with hi | hi <;> simp [hi])
    rw [hother i hi'] at hi ⊢
    exact h.running i hi
  · rw [hst] at hi
    obtain ⟨hp, hcall⟩ := h.held i hi
    have hi' : i ≠ id := by
      rintro rfl
      exact hp.2.2.2.2.2 hid
    simp only [StillPending, hother i hi', hst, hmem i hi'] at hp ⊢
    exact ⟨hp, hcall⟩
  · have hi' := hne i (by simp [hi])
    rw [hother i hi'] at hi ht
    rw [hst] at hp ht ⊢
    exact h.slot hp i hi ht
  · have hi' := hne i (by simp [hi])
    have hj' := hne j (by simp [hj])
    rw [hother _ hi'] at hi hij
    rw [hother _ hj'] at hj hij
    exact h.distinct i j hi hj hij
  · obtain hi' | rfl := ne_or_eq i id
    · rw [hother i hi']
      exact h.rolling i ((hmem i hi').mp hi)
    · rw [hself]
      exact hcallid

theorem Inv.applied (h : s.Inv) {id : ℕ} {ok : Bool} (hs : s.InStep (.applied id ok)) :
    (s.step (.applied id ok)).Inv := by
  simp only [Staging.step]
  split
  · exact h
  · rename_i ha
    rw [not_not] at ha
    have hrun := h.running id (.inl ha)
    cases ok with
    | false =>
      have hnone := h.rollback_of_applying ha (hs ha)
      refine h.ended (.inl ha) rfl rfl (.inr hnone) rfl rfl (set_self ..)
        (fun i hi => set_other hi ..) (.inr ⟨_, rfl, ?_⟩)
      have : (s.changes id).applied = false := by simpa [ha] using hrun.2.2
      simp [this, hrun.1]
    | true =>
      simp only [Bool.not_true, Bool.false_eq_true, if_false]
      cases hg : s.staged.guard (s.changes id).token id with
      | some staged =>
        exact h.guarded ha hg rfl rfl (set_self ..) fun i hi => set_other hi ..
      | none =>
        exact h.ended (.inl ha) rfl rfl (.inl rfl) rfl rfl (set_self ..)
          (fun i hi => set_other hi ..) (.inl ⟨rfl, hrun.1, hrun.2.1, rfl⟩)

theorem Inv.undo (h : s.Inv) (id : ℕ) : (s.step (.undo id)).Inv := by
  simp only [Staging.step]
  split
  · exact h
  · rename_i hu
    rw [not_not] at hu
    have hrun := h.running id (.inr hu)
    refine h.ended (.inr hu) rfl rfl (.inl rfl) rfl rfl (set_self ..)
      (fun i hi => set_other hi ..) (.inr ⟨_, rfl, ?_⟩)
    simp [hrun.2.2.mpr hu, hrun.1]

/-- The change whose undo is kept holds the slot, so the token is its own. -/
theorem Inv.confirm (h : s.Inv) (token : UInt64) : (s.step (.confirm token)).Inv := by
  simp only [Staging.step]
  cases hc : s.staged.confirm token with
  | error err => exact h
  | ok staged =>
    obtain ⟨hp, rfl, rfl⟩ := StagedChange.confirm_eq_ok hc
    cases hr : s.staged.rollback with
    | none =>
      exact h.freed rfl rfl rfl (fun i _ => ⟨rfl, rfl⟩) fun i hi => absurd (hr ▸ hi) (by simp)
    | some id =>
      refine h.freed rfl rfl rfl (fun i hi => ⟨set_other ?_ .., rfl⟩) fun i hi => ?_
      · rintro rfl
        exact hi hr
      · obtain rfl : id = i := Option.some.inj (hr.symm.trans hi)
        obtain ⟨hpend, hcall⟩ := h.held id hr
        obtain ⟨-, -, htok, hconf, hundone, hnot⟩ := hpend
        refine ⟨by rw [set_self]; exact hcall, .inl ?_⟩
        simp only [Confirmed, set_self, set_rollingBack]
        exact ⟨by rw [hconf, htok], hundone, hnot⟩

theorem Inv.tick (h : s.Inv) (now : UInt32) : (s.step (.tick now)).Inv := by
  simp only [Staging.step]
  cases ht : s.staged.tick now with
  | none => exact h
  | some r =>
    obtain ⟨undo, staged⟩ := r
    obtain ⟨hp, rfl, rfl⟩ := StagedChange.tick_eq_some ht
    refine h.freed rfl rfl rfl (fun i hi => ⟨rfl, ?_⟩) fun i hi => ?_
    · cases hr : s.staged.rollback with
      | none => rfl
      | some id =>
        have hne : id ≠ i := by
          rintro rfl
          exact hi hr
        exact List.count_cons_of_ne hne
    · obtain ⟨hpend, hcall⟩ := h.held i hi
      obtain ⟨-, -, -, hconf, hundone, hnot⟩ := hpend
      refine ⟨hcall, .inr ⟨hconf, ?_⟩⟩
      have hzero := List.count_eq_zero.mpr hnot
      simp [hi, hundone, hzero]

theorem Inv.step (h : s.Inv) (e : StageEvent) (hs : s.InStep e) : (s.step e).Inv := by
  cases e with
  | begin a now window =>
    simp only [Staging.step]
    cases hc : s.staged.claim a now window with
    | error err => exact h
    | ok r =>
      obtain ⟨tok, staged⟩ := r
      exact h.begin hc hs rfl rfl (set_self ..) fun i hi => set_other hi ..
  | applied id ok => exact h.applied hs
  | undo id => exact h.undo id
  | confirm token => exact h.confirm token
  | tick now => exact h.tick now
  | rollBack id =>
    simp only [Staging.step]
    split
    · exact h
    · rename_i hid
      exact h.rolled (not_not.mp hid) rfl rfl rfl (set_self ..) fun i hi => set_other hi ..

theorem Inv.start : Inv {} where
  begun _ hid := by cases hid
  failed _ _ _ := rfl
  fresh _ _ := rfl
  running _ hid := by simp at hid
  held _ hid := by cases hid
  slot hp := by cases hp
  distinct _ _ hi := by cases hi
  rolling _ hid := absurd hid List.not_mem_nil

theorem untouched_of_inStep (e : StageEvent) (hs : s.InStep e) : s.Untouched e := by
  cases e with
  | begin a now window =>
    intro hp
    obtain ⟨err, herr⟩ := StagedChange.claim_of_pending hp a now window
    simp only [Staging.step, herr]
  | applied id ok =>
    intro ha hp ht
    cases ok with
    | false =>
      rcases hs ha with h | h
      · exact absurd (h.symm.trans hp) Bool.false_ne_true
      · exact absurd h ht
    | true =>
      have hg : s.staged.guard (s.changes id).token id = none :=
        StagedChange.guard_eq_none.mpr (.inr ht)
      simp [Staging.step, ha, hg]
  | undo id =>
    simp only [Untouched, Staging.step]
    split <;> rfl
  | confirm token => trivial
  | tick now => trivial
  | rollBack id => trivial

instance : (s : Staging) → (e : StageEvent) → Decidable (s.InStep e)
  | _, .applied _ false => inferInstanceAs (Decidable (_ → _ ∨ _))
  | s, .begin _ _ _ => inferInstanceAs (Decidable (_ → ∀ id < s.count, _ → _))
  | _, .applied _ true | _, .undo _ | _, .confirm _ | _, .tick _ | _, .rollBack _ => .isTrue trivial

/-- In every run whose steps all meet the condition, each change that was begun is pending,
confirmed by its token or rolled back once, and a call that fails leaves nothing of its own and
the change of another as it was. -/
theorem guarded_run {es : List StageEvent} (h : Along step InStep {} es) :
    Always step Guarded {} es ∧ Along step Untouched {} es :=
  ⟨(always_of_along (fun _ e hi hs => hi.step e hs) Inv.start h).mono fun _ hi => hi.toGuarded,
    h.mono fun _ e hs => untouched_of_inStep e hs⟩

/-- One change is confirmed; of the next the window passes. -/
def twoChanges : List StageEvent :=
  [.begin true 0 1000, .applied 0 true, .confirm 1, .begin true 2000 1000, .applied 1 true,
    .tick 3000, .rollBack 1]

theorem guarded_run_twoChanges :
    Always step Guarded {} twoChanges ∧ Along step Untouched {} twoChanges :=
  guarded_run (by decide)

/-- An action outlasts its window and fails while another change is waiting. -/
def lateFailure : List StageEvent :=
  [.begin true 0 1000, .tick 2000, .begin true 2000 1000, .applied 1 true, .applied 0 false]

theorem not_guarded_run_lateFailure :
    ¬ ∀ es, Always step Guarded {} es ∧ Along step Untouched {} es := by
  intro h
  rcases ((h lateFailure).1 _ List.prefix_rfl).begun 1 (by decide) with hb | hb | hb
  · exact absurd hb.1 (by decide)
  · exact absurd hb.1 (by decide)
  · exact absurd hb.2 (by decide)

end Staging

end Machino.Net
