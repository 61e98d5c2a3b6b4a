import Machino.Net.CrashSafety

namespace Machino.Net

open Effects Runs

/-- A candidate as the API puts it together, which is never empty. -/
abbrev Dump := { text : Text // text ≠ [] }

/-- What the API has answered, and which candidates it handed on for it. -/
inductive Answered where
  | staged (token : UInt64) (candidate : Text)
  | refused
  | confirmed (token : UInt64) (handed : List Text)
  | rejected
  deriving DecidableEq

/-- The candidate of the last change staged under the token, the newest answer first. -/
def stagedUnder (token : UInt64) : List Answered → Option Text
  | [] => none
  | .staged t candidate :: log => if t = token then some candidate else stagedUnder token log
  | .refused :: log | .confirmed _ _ :: log | .rejected :: log => stagedUnder token log

/-- Each confirmation has handed on the candidate staged under its token, once. -/
def HandedOn : List Answered → Prop
  | [] => True
  | .confirmed token handed :: log =>
    (∃ candidate, stagedUnder token log = some candidate ∧ handed = [candidate]) ∧ HandedOn log
  | .staged _ _ :: log | .refused :: log | .rejected :: log => HandedOn log

/-- Who is inside the lock of the API, with what the transaction has said. -/
inductive Section where
  | free
  | staging (candidate : Dump) (outcome : Except String UInt64)
  | confirming (token : UInt64) (outcome : Except String Unit)

/-- The API beside its transaction, and the rollbacks it has yet to clear up after. -/
structure ChangeApi (W : Type) where
  txn : NetworkTxn
  world : W
  staged : Text := []
  inside : Section := .free
  clears : ℕ := 0
  log : List Answered := []

/-- The parts of the calls. The lock of the API keeps a stage and a confirm apart from each other
and from a clear, but not from the first part of a tick. -/
inductive ChangeEvent where
  | stage (candidate : Dump) (nowMs windowMs : UInt32)
  | confirm (token : UInt64)
  | finish
  | tick (nowMs : UInt32)
  | clear

/-- What is confirmed is handed on, unless there is nothing. -/
def handOn (confirmed : Text) : List Text := if confirmed = [] then [] else [confirmed]

namespace ChangeApi

variable {W : Type} (exec : (e : Effect) → W → Answer e × W)

/-- The rest of the call that is inside the lock, behind what it asked of the transaction. -/
def finish (a : ChangeApi W) : ChangeApi W :=
  match a.inside with
  | .free => a
  | .staging candidate (.ok token) => { a with
      staged := candidate, inside := .free, log := .staged token candidate :: a.log }
  | .staging _ (.error _) => { a with staged := [], inside := .free, log := .refused :: a.log }
  | .confirming token (.ok ()) => { a with
      staged := [], inside := .free, log := .confirmed token (handOn a.staged) :: a.log }
  | .confirming _ (.error _) => { a with inside := .free, log := .rejected :: a.log }

/-- The first part of a stage, which waits while the lock is taken. -/
def stage (candidate : Dump) (nowMs windowMs : UInt32) (a : ChangeApi W) : ChangeApi W :=
  match a.inside with
  | .free =>
    let r := (begin candidate nowMs windowMs a.txn).eval exec a.world
    { a with txn := r.1.2, world := r.2, inside := .staging candidate r.1.1 }
  | .staging _ _ | .confirming _ _ => a

/-- The first part of a confirm, which waits while the lock is taken. -/
def confirm (token : UInt64) (a : ChangeApi W) : ChangeApi W :=
  match a.inside with
  | .free =>
    let r := (Net.confirm token a.txn).eval exec a.world
    { a with txn := r.1.2, world := r.2, inside := .confirming token r.1.1 }
  | .staging _ _ | .confirming _ _ => a

/-- The first part of a tick, which needs the lock of the transaction only. -/
def tick (nowMs : UInt32) (a : ChangeApi W) : ChangeApi W :=
  let r := (Net.tick nowMs a.txn).eval exec a.world
  { a with txn := r.1.2, world := r.2, clears := if r.1.1 then a.clears + 1 else a.clears }

/-- The second part of a tick that has rolled back. -/
def clear (a : ChangeApi W) : ChangeApi W :=
  match a.inside with
  | .free => if a.clears = 0 then a else { a with staged := [], clears := a.clears - 1 }
  | .staging _ _ | .confirming _ _ => a

def step (a : ChangeApi W) : ChangeEvent → ChangeApi W
  | .stage candidate nowMs windowMs => a.stage exec candidate nowMs windowMs
  | .confirm token => a.confirm exec token
  | .finish => a.finish
  | .tick nowMs => a.tick exec nowMs
  | .clear => a.clear

/-- The API before its first change, wherever the tokens start. -/
def started (nextToken : UInt64) (w : W) : ChangeApi W where
  txn := { nextToken := nextToken }
  world := w

/-- No candidate is cleared while its change is pending: no other one is refused then, and no
rollback is cleared up after then. -/
def InStep (a : ChangeApi W) : ChangeEvent → Prop
  | .finish =>
    match a.inside with
    | .staging _ (.error _) => a.txn.pending = false
    | .free | .staging _ (.ok _) | .confirming _ _ => True
  | .clear =>
    match a.inside with
    | .free => a.clears ≠ 0 → a.txn.pending = false
    | .staging _ _ | .confirming _ _ => True
  | .stage _ _ _ | .confirm _ | .tick _ => True

end ChangeApi

theorem begin_yields (candidate : Text) (nowMs windowMs : UInt32) (m : NetworkTxn) :
    (begin candidate nowMs windowMs m).Yields (fun _ => True) fun r =>
      (∀ token, r.1 = .ok token → r.2.token = token) ∧
        ∀ err, r.1 = .error err → r.2.pending = m.pending ∧ r.2.token = m.token := by
  unfold begin
  split
  · exact ⟨nofun, fun _ _ => ⟨rfl, rfl⟩⟩
  split
  · exact ⟨nofun, fun _ _ => ⟨rfl, rfl⟩⟩
  refine Prog.Uses.bind ⟨trivial, fun _ => trivial⟩ fun good => ?_
  cases good with
  | none => exact ⟨nofun, fun _ _ => ⟨rfl, rfl⟩⟩
  | some good =>
    refine Prog.Uses.bind (Prog.uses_perform trivial) fun saved => ?_
    dsimp only
    split
    · exact ⟨nofun, fun _ _ => ⟨rfl, rfl⟩⟩
    refine Prog.Uses.bind (Prog.uses_perform trivial) fun rc => ?_
    split
    · refine Prog.Uses.bind (Prog.uses_perform trivial) fun _ => ?_
      exact Prog.Uses.bind (Prog.uses_perform trivial) fun _ => ⟨nofun, fun _ _ => ⟨rfl, rfl⟩⟩
    · exact ⟨fun _ h => Except.ok.inj h, nofun⟩

/-- An effect that applies nothing. -/
def Effect.OnRecords (e : Effect) : Prop := ∀ c, e ≠ .apply c

theorem confirm_yields (token : UInt64) (m : NetworkTxn) :
    (confirm token m).Yields Effect.OnRecords fun r =>
      (r.1 = .ok () → m.pending = true ∧ token = m.token ∧ r.2.pending = false) ∧
        ∀ err, r.1 = .error err → r.2 = m := by
  unfold confirm
  split
  · exact ⟨nofun, fun _ _ => rfl⟩
  rename_i hpending
  split
  · exact ⟨nofun, fun _ _ => rfl⟩
  rename_i htoken
  refine Prog.Uses.bind (Prog.uses_perform nofun) fun blob => ?_
  split
  · exact ⟨nofun, fun _ _ => rfl⟩
  split
  · exact ⟨nofun, fun _ _ => rfl⟩
  refine Prog.Uses.bind (Prog.uses_perform nofun) fun saved => ?_
  split
  · exact ⟨nofun, fun _ _ => rfl⟩
  · refine Prog.Uses.bind (Prog.uses_perform nofun) fun _ => ?_
    exact ⟨fun _ => ⟨by simpa using hpending, by simpa using htoken, rfl⟩, nofun⟩

theorem rollbackLocked_yields (m : NetworkTxn) :
    (rollbackLocked m).Yields (fun _ => True) (·.2.pending = false) := by
  unfold rollbackLocked
  refine Prog.Uses.bind ⟨trivial, fun _ => trivial⟩ fun good => ?_
  refine Prog.Uses.bind (Prog.uses_perform trivial) fun _ => ?_
  cases good with
  | none => rfl
  | some good => exact Prog.Uses.bind (Prog.uses_perform trivial) fun _ => rfl

theorem tick_closes {nowMs : UInt32} {m : NetworkTxn} (h : m.expired nowMs = true) :
    (tick nowMs m).Yields (fun _ => True) (·.2.pending = false) := by
  unfold tick
  rw [h, if_neg (by simp)]
  exact (rollbackLocked_yields m).bind fun r hr => hr

/-- A tick undoes the change or leaves it. -/
theorem tick_yields (nowMs : UInt32) (m : NetworkTxn) :
    (tick nowMs m).Yields (fun _ => True) fun r => r.2.pending = false ∨ r.2 = m := by
  cases h : m.expired nowMs with
  | false =>
    unfold tick
    rw [h]
    exact .inr rfl
  | true => exact (tick_closes h).mono (fun _ _ => trivial) fun _ hr => .inl hr

/-- The candidate kept is the one staged last under the token. -/
structure Kept (token : UInt64) (kept : Text) (log : List Answered) : Prop where
  ne : kept ≠ []
  staged : stagedUnder token log = some kept

theorem Kept.handedOn {token : UInt64} {kept : Text} {log : List Answered}
    (h : Kept token kept log) (hlog : HandedOn log) :
    HandedOn (.confirmed token (handOn kept) :: log) :=
  ⟨⟨kept, h.staged, if_neg h.ne⟩, hlog⟩

namespace ChangeApi

variable {W : Type} {exec : (e : Effect) → W → Answer e × W} {a : ChangeApi W}

/-- Where a change is pending its candidate is kept, or about to be. -/
structure Inv (a : ChangeApi W) : Prop where
  handed : HandedOn a.log
  pending : a.txn.pending = true → match a.inside with
    | .staging _ (.ok token) => token = a.txn.token
    | .free | .staging _ (.error _) | .confirming _ (.error _) =>
      Kept a.txn.token a.staged a.log
    | .confirming _ (.ok ()) => False
  confirming : ∀ token, a.inside = .confirming token (.ok ()) → Kept token a.staged a.log

theorem inv_started (nextToken : UInt64) (w : W) : (started nextToken w).Inv :=
  ⟨trivial, nofun, nofun⟩

theorem Inv.stage (h : a.Inv) (candidate : Dump) (nowMs windowMs : UInt32) :
    (a.stage exec candidate nowMs windowMs).Inv := by
  unfold ChangeApi.stage
  split
  · rename_i hfree
    have hpend := h.pending
    rw [hfree] at hpend
    have hr := (begin_yields candidate nowMs windowMs a.txn).eval exec a.world
    generalize (begin candidate nowMs windowMs a.txn).eval exec a.world = r at hr ⊢
    obtain ⟨⟨outcome, m⟩, w⟩ := r
    cases outcome with
    | ok token => exact ⟨h.handed, fun _ => (hr.1 token rfl).symm, nofun⟩
    | error err =>
      obtain ⟨hp, ht⟩ := hr.2 err rfl
      refine ⟨h.handed, fun hpending => ?_, nofun⟩
      exact ht ▸ hpend (hp.symm.trans hpending)
  · exact h
  · exact h

theorem Inv.confirm (h : a.Inv) (token : UInt64) : (a.confirm exec token).Inv := by
  unfold ChangeApi.confirm
  split
  · rename_i hfree
    have hpend := h.pending
    rw [hfree] at hpend
    have hr := (confirm_yields token a.txn).eval exec a.world
    generalize (Net.confirm token a.txn).eval exec a.world = r at hr ⊢
    obtain ⟨⟨outcome, m⟩, w⟩ := r
    cases outcome with
    | ok u =>
      obtain ⟨hpending, ht, hclosed⟩ := hr.1 rfl
      refine ⟨h.handed, fun hp => ?_, fun t hin => ?_⟩
      · exact absurd (hclosed.symm.trans hp) (by decide)
      · obtain ⟨rfl, -⟩ := Section.confirming.inj hin
        exact ht ▸ hpend hpending
    | error err =>
      have hm : m = a.txn := hr.2 err rfl
      subst hm
      exact ⟨h.handed, hpend, nofun⟩
  · exact h
  · exact h

/-- A refusal clears what is kept, which must not be pending. -/
theorem Inv.finish (h : a.Inv) (hstep : a.InStep .finish) : a.finish.Inv := by
  have hpend := h.pending
  have hconf := h.confirming
  unfold ChangeApi.finish
  unfold InStep at hstep
  split
  · exact h
  · rename_i candidate token hin
    rw [hin] at hpend
    refine ⟨h.handed, fun hp => ?_, nofun⟩
    refine ⟨candidate.2, ?_⟩
    have ht : token = a.txn.token := hpend hp
    exact if_pos ht
  · rename_i hin
    rw [hin] at hstep
    refine ⟨h.handed, fun hp => ?_, nofun⟩
    exact absurd (hstep.symm.trans hp) (by decide)
  · rename_i token hin
    rw [hin] at hpend
    refine ⟨(hconf token hin).handedOn h.handed, fun hp => ?_, nofun⟩
    exact (hpend hp).elim
  · rename_i hin
    rw [hin] at hpend
    exact ⟨h.handed, fun hp => ⟨(hpend hp).ne, (hpend hp).staged⟩, nofun⟩

theorem Inv.tick (h : a.Inv) (nowMs : UInt32) : (a.tick exec nowMs).Inv := by
  have hr := (tick_yields nowMs a.txn).eval exec a.world
  unfold ChangeApi.tick
  generalize (Net.tick nowMs a.txn).eval exec a.world = r at hr ⊢
  obtain ⟨⟨rolledBack, m⟩, w⟩ := r
  obtain hclosed | rfl := hr
  · refine ⟨h.handed, fun hp => ?_, h.confirming⟩
    exact absurd (hclosed.symm.trans hp) (by decide)
  · exact ⟨h.handed, h.pending, h.confirming⟩

theorem Inv.clear (h : a.Inv) (hstep : a.InStep .clear) : a.clear.Inv := by
  unfold InStep at hstep
  unfold ChangeApi.clear
  split
  · rename_i hfree
    rw [hfree] at hstep
    split
    · exact h
    · rename_i hclears
      refine ⟨h.handed, fun hp => ?_, fun t hin => ?_⟩
      · exact absurd ((hstep hclears).symm.trans hp) (by decide)
      · exact absurd (hfree.symm.trans hin) nofun
  · exact h
  · exact h

theorem Inv.step (h : a.Inv) {e : ChangeEvent} (he : a.InStep e) : (a.step exec e).Inv := by
  cases e with
  | stage candidate nowMs windowMs => exact h.stage candidate nowMs windowMs
  | confirm token => exact h.confirm token
  | finish => exact h.finish he
  | tick nowMs => exact h.tick nowMs
  | clear => exact h.clear he

end ChangeApi

/-- As long as no change is refused and no rollback cleared up after while another change is
pending, each confirmation hands on what was staged under its token, once. -/
theorem handed_on_run {W : Type} (exec : (e : Effect) → W → Answer e × W) (nextToken : UInt64)
    (w : W) (es : List ChangeEvent)
    (h : Along (ChangeApi.step exec) ChangeApi.InStep (ChangeApi.started nextToken w) es) :
    Always (ChangeApi.step exec) (fun a => HandedOn a.log) (ChangeApi.started nextToken w) es :=
  (always_of_along (fun _ _ ha he => ha.step he) (ChangeApi.inv_started nextToken w) h).mono
    fun _ ha => ha.handed

instance {W : Type} (a : ChangeApi W) (e : ChangeEvent) : Decidable (a.InStep e) :=
  match e with
  | .finish =>
    match h : a.inside with
    | .staging _ (.error _) =>
      decidable_of_iff (a.txn.pending = false) (by simp [ChangeApi.InStep, h])
    | .free | .staging _ (.ok _) | .confirming _ _ => .isTrue (by simp [ChangeApi.InStep, h])
  | .clear =>
    match h : a.inside with
    | .free =>
      decidable_of_iff (a.clears ≠ 0 → a.txn.pending = false) (by simp [ChangeApi.InStep, h])
    | .staging _ _ | .confirming _ _ => .isTrue (by simp [ChangeApi.InStep, h])
  | .stage _ _ _ | .confirm _ | .tick _ => .isTrue trivial

/-- A camera whose store works, with the boot configuration on record. -/
def seeded : Camera := { confirmed := some (encodeConfirmed bootConfig.text) }

/-- Two changes in turn, of which the second is undone; its confirmation comes too late. -/
theorem handed_on_run_undone :
    Always (ChangeApi.step fun e => Camera.exec e .done) (fun a => HandedOn a.log)
      (ChangeApi.started 1 seeded)
      [.stage ⟨"wifi".toList, by decide⟩ 0 1000, .finish, .confirm 1, .finish,
        .stage ⟨"ap".toList, by decide⟩ 0 1000, .finish, .tick 1000, .clear,
        .confirm 2, .finish] := by
  refine handed_on_run _ _ _ _ ?_
  decide

/-- Another change is refused while the first one is pending, which is then confirmed. -/
theorem not_handedOn_refused :
    ¬ HandedOn (Runs.run (ChangeApi.step fun e => Camera.exec e .done) (ChangeApi.started 1 seeded)
      [.stage ⟨"wifi".toList, by decide⟩ 0 1000, .finish,
        .stage ⟨"ap".toList, by decide⟩ 0 1000, .finish, .confirm 1, .finish]).log := by
  have hlog : (Runs.run (ChangeApi.step fun e => Camera.exec e .done)
      (ChangeApi.started 1 seeded)
      [.stage ⟨"wifi".toList, by decide⟩ 0 1000, .finish,
        .stage ⟨"ap".toList, by decide⟩ 0 1000, .finish, .confirm 1, .finish]).log =
      [.confirmed 1 [], .refused, .staged 1 "wifi".toList] := by decide
  rw [hlog]
  rintro ⟨⟨candidate, -, hhanded⟩, -⟩
  cases hhanded

end Machino.Net
