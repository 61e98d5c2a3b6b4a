import Machino.Net.CrashSafety

namespace Machino.Net

open Effects Runs

/-- What the callers of the transaction have been told, and what was confirmed by it. -/
inductive Told where
  | returned (token : UInt64) (candidate : Text)
  | confirmed (token : UInt64) (config : Option Text)
  deriving DecidableEq

/-- An answer on its way to the caller. -/
inductive Note where
  | returned (token : UInt64) (candidate : Text)
  | confirmed (token : UInt64)

/-- The camera, and what has been told so far, the newest first. -/
abbrev Diary := Camera × List Told

abbrev Noted := Prog (Effect ⊕ Note) (Sum.elim Answer fun _ => Unit)

def note (n : Note) : Noted Unit := Prog.perform (Sum.inr n : Effect ⊕ Note)

/-- A confirmation is noted with the configuration that is the confirmed one now. -/
def Diary.exec : (e : Effect ⊕ Note) → Outcome → Diary → Sum.elim Answer (fun _ => Unit) e × Diary
  | .inl e, o, (w, told) => ((Camera.exec e o w).1, ((Camera.exec e o w).2, told))
  | .inr (.returned token candidate), _, (w, told) =>
    ((), (w, .returned token candidate :: told))
  | .inr (.confirmed token), _, (w, told) => ((), (w, .confirmed token w.good :: told))

def Job.noted : Job → NetworkTxn → Noted NetworkTxn
  | .begin c now window, m => do
    let r ← (Net.begin c.text now window m).lift
    match r.1 with
    | .ok token => note (.returned token c.text)
    | .error _ => pure ()
    return r.2
  | .confirm t, m => do
    let r ← (Net.confirm t m).lift
    match r.1 with
    | .ok () => note (.confirmed t)
    | .error _ => pure ()
    return r.2
  | .tick now, m => do return (← (Net.tick now m).lift).2

def notedDaemon : Machine (Effect ⊕ Note) (Sum.elim Answer fun _ => Unit) Outcome Diary Job Unit
    NetworkTxn where
  exec := Diary.exec
  job := Job.noted
  boot _ := boot.lift

/-- The daemon starts on a camera whose records may be any. -/
def startOn (w : Camera) : State (Effect ⊕ Note) (Sum.elim Answer fun _ => Unit) Diary Job Unit
    NetworkTxn where
  world := (w, [])
  job := .inr ()
  proc := boot.lift

/-- Each confirmation has confirmed the candidate whose begin returned its token, and no other
begin before it has. -/
def Bound : List Told → Prop
  | [] => True
  | .returned _ _ :: told => Bound told
  | .confirmed token config :: told =>
    (∃ c, config = some c ∧ .returned token c ∈ told ∧
      ∀ c', .returned token c' ∈ told → c' = c) ∧ Bound told

/-- The token was not returned for another candidate. -/
def Told.Free (token : UInt64) (candidate : Text) : Told → Prop
  | .returned t c => t = token → c = candidate
  | .confirmed _ _ => True

/-- A begin that takes its token does not take one that was returned for another candidate. -/
def tokenRules : Rules (Effect ⊕ Note) Outcome Diary Job Unit NetworkTxn where
  starts j m w :=
    match j with
    | .begin c _ _ => m.pending = false → ∀ t ∈ w.2, t.Free m.nextToken c.text
    | .confirm _ | .tick _ => True
  outcome _ _ _ _ := True
  reboots _ _ := True

instance (token : UInt64) (candidate : Text) : (t : Told) → Decidable (t.Free token candidate)
  | .returned _ _ => inferInstanceAs (Decidable (_ → _))
  | .confirmed _ _ => .isTrue trivial

instance : (j : Job) → (m : NetworkTxn) → (w : Diary) → Decidable (tokenRules.starts j m w)
  | .begin c _ _, m, w =>
    inferInstanceAs (Decidable (m.pending = false → ∀ t ∈ w.2, t.Free m.nextToken c.text))
  | .confirm _, _, _ | .tick _, _, _ => .isTrue trivial

instance (j : Job ⊕ Unit) (w : Diary) (e : Effect ⊕ Note) (o : Outcome) :
    Decidable (tokenRules.outcome j w e o) := .isTrue trivial

instance (u : Unit) (w : Diary) : Decidable (tokenRules.reboots u w) := .isTrue trivial

section calls

variable {α : Type} {w : Camera} {m : NetworkTxn}

/-- However its effects end, the program ends in `Q`. -/
abbrev Ends (p : Txn α) (w : Camera) (Q : α → Camera → Prop) : Prop :=
  p.Holds Camera.exec (fun _ _ _ => True) (fun _ => True) w Q

theorem ends_load {k : Key} {f : Option Text → Txn α} {Q : α → Camera → Prop}
    (h : Ends (f (w.record k)) w Q) : Ends (load k >>= f) w Q := ⟨trivial, fun _ _ => h⟩

theorem ends_loadConfirmed {f : Option Text → Txn α} {Q : α → Camera → Prop}
    (h : Ends (f w.good) w Q) : Ends (loadConfirmed >>= f) w Q :=
  Prog.holds_bind.mpr ⟨trivial, fun _ _ => ⟨trivial, h⟩⟩

/-- A save that reports its success has made it. -/
theorem ends_save {k : Key} {v : Text} {f : Bool → Txn α} {Q : α → Camera → Prop}
    (hdone : Ends (f true) (w.write (some v) k) Q)
    (hfailed : ∀ w', w' = w ∨ w' = w.write (some v) k → Ends (f false) w' Q) :
    Ends (save k v >>= f) w Q := by
  refine ⟨trivial, fun o _ => ?_⟩
  cases o with
  | done => exact hdone
  | failed => exact hfailed w (.inl rfl)
  | shown => exact hfailed _ (.inr rfl)
  | left c => exact hfailed w (.inl rfl)

theorem ends_clear {k : Key} {f : Unit → Txn α} {Q : α → Camera → Prop}
    (h : ∀ w', w' = w ∨ w' = w.write none k → Ends (f ()) w' Q) : Ends (clear k >>= f) w Q := by
  refine ⟨trivial, fun o _ => ?_⟩
  cases o with
  | done => exact h _ (.inr rfl)
  | failed => exact h w (.inl rfl)
  | shown => exact h w (.inl rfl)
  | left c => exact h w (.inl rfl)

/-- Applying a configuration does not touch the records. -/
theorem ends_apply {c : Text} {f : Result → Txn α} {Q : α → Camera → Prop}
    (h : ∀ rc x, Ends (f rc) { w with applied := x } Q) : Ends (apply c >>= f) w Q := by
  refine ⟨trivial, fun o _ => ?_⟩
  cases o with
  | done => exact h _ _
  | failed => exact h .error w.applied
  | shown => exact h .error w.applied
  | left x => exact h _ _

theorem ends_pure {a : α} {Q : α → Camera → Prop} (h : Q a w) : Ends (pure a) w Q := ⟨trivial, h⟩

/-- The record of the change that waits for its confirmation. -/
def OnRecord (token : UInt64) (c : Config) (w : Camera) : Prop :=
  w.pending = some (encodePending (pendingFor token c))

/-- A begun change is on record under the token that is returned for it. -/
theorem ends_begin {c : Config} {now window : UInt32} :
    Ends (begin c.text now window m) w fun r w' => match r.1 with
      | .ok token => m.pending = false ∧ token = m.nextToken ∧ r.2.token = token ∧
        OnRecord token c w'
      | .error _ => r.2.pending = false ∨ r.2 = m ∧ w' = w := by
  unfold begin
  split
  · exact ends_pure (.inr ⟨rfl, rfl⟩)
  · split
    · exact ends_pure (.inr ⟨rfl, rfl⟩)
    · rename_i hidle
      have hp : m.pending = false := by simpa using hidle
      apply ends_loadConfirmed
      cases w.good with
      | none => exact ends_pure (.inl hp)
      | some good =>
        apply ends_save
        · apply ends_apply
          intro rc x
          split
          · -- the change was refused: its record goes again
            apply ends_clear
            intro w' _
            apply ends_apply
            exact fun _ _ => ends_pure (.inl hp)
          · exact ends_pure ⟨hp, rfl, rfl, rfl⟩
        · exact fun w' _ => ends_pure (.inl hp)

/-- A confirmation is of the change on record under its token. -/
theorem ends_confirm {t : UInt64} {c : Config} (hm : m.pending = true → OnRecord m.token c w) :
    Ends (confirm t m) w fun r w' => match r.1 with
      | .ok () => m.pending = true ∧ t = m.token ∧ r.2.pending = false ∧ w'.good = some c.text
      | .error _ => r.2 = m ∧ w'.pending = w.pending := by
  unfold confirm
  split
  · exact ends_pure ⟨rfl, rfl⟩
  · split
    · exact ends_pure ⟨rfl, rfl⟩
    · rename_i hpend htok
      have hp : m.pending = true := by simpa using hpend
      have ht : t = m.token := by simpa using htok
      have hdec : (w.record .pending).bind decodePending = some (pendingFor t c) := by
        have hrec : w.pending = _ := hm hp
        rw [ht]
        simp [Camera.record, hrec, decodePending_pendingFor]
      apply ends_load
      rw [hdec]
      dsimp only
      rw [if_neg (by simp [pendingFor])]
      apply ends_save
      · rw [if_neg (by simp)]
        apply ends_clear
        rintro w' (rfl | rfl)
        · exact ends_pure ⟨hp, ht, rfl, good_write_confirmed w c⟩
        · exact ends_pure ⟨hp, ht, rfl, good_write_confirmed w c⟩
      · rintro w' (rfl | rfl)
        · exact ends_pure ⟨rfl, rfl⟩
        · exact ends_pure ⟨rfl, rfl⟩

/-- A tick that does anything ends the change. -/
theorem ends_tick {now : UInt32} :
    Ends (tick now m) w fun r w' => r.2.pending = false ∨ r.2 = m ∧ w' = w := by
  unfold tick
  split
  · exact ends_pure (.inr ⟨rfl, rfl⟩)
  · unfold rollbackLocked
    apply Prog.holds_bind.mpr
    apply ends_loadConfirmed
    apply ends_clear
    intro w' _
    cases w.good with
    | none => exact ends_pure (ends_pure (.inl rfl))
    | some good =>
      apply ends_apply
      exact fun _ _ => ends_pure (ends_pure (.inl rfl))

theorem ends_seedConfirmed {c : Text} : Ends (seedConfirmed c) w fun _ _ => True := by
  unfold seedConfirmed
  apply ends_loadConfirmed
  split
  · exact ends_pure trivial
  · apply ends_save
    · exact ends_pure trivial
    · exact fun _ _ => ends_pure trivial

theorem ends_recover (hm : m.pending = false) :
    Ends (recover m) w fun r _ => r.2.pending = false := by
  have hskip : (m.skipToken ((w.record .pending).bind decodePending)).pending = false := by
    rw [skipToken_pending, hm]
  unfold recover
  apply ends_load
  dsimp only
  split
  · exact ends_pure hskip
  · apply ends_loadConfirmed
    cases w.good with
    | none => exact ends_pure hskip
    | some good =>
      apply ends_clear
      intro w' _
      apply ends_apply
      intro rc x
      split
      · exact ends_pure rfl
      · exact ends_pure rfl

theorem ends_boot : Ends boot w fun m _ => m.pending = false := by
  unfold boot
  apply Prog.holds_bind.mpr
  refine ends_seedConfirmed.mono fun _ w' _ _ => ?_
  apply Prog.holds_bind.mpr
  exact (ends_recover rfl).mono fun r w'' _ hr => ends_pure hr

end calls

/-- No token has been returned for two candidates, and each confirmation is of its own. -/
structure Consistent (told : List Told) : Prop where
  unique : ∀ t c c', .returned t c ∈ told → .returned t c' ∈ told → c = c'
  bound : Bound told

/-- The change that waits is on record, and its caller has its token. -/
def Awaits (m : NetworkTxn) (d : Diary) : Prop :=
  m.pending = true → ∃ c : Config, OnRecord m.token c d.1 ∧ .returned m.token c.text ∈ d.2

theorem Awaits.of_idle {m : NetworkTxn} {d : Diary} (h : m.pending = false) : Awaits m d :=
  fun hp => absurd (h.symm.trans hp) Bool.false_ne_true

theorem Consistent.returned {told : List Told} (h : Consistent told) {t : UInt64} {c : Text}
    (hnew : ∀ c', .returned t c' ∈ told → c' = c) : Consistent (.returned t c :: told) where
  unique t' c₁ c₂ h₁ h₂ := by
    rcases List.mem_cons.mp h₁ with he₁ | h₁ <;> rcases List.mem_cons.mp h₂ with he₂ | h₂
    · cases he₁
      cases he₂
      rfl
    · cases he₁
      exact (hnew c₂ h₂).symm
    · cases he₂
      exact hnew c₁ h₁
    · exact h.unique t' c₁ c₂ h₁ h₂
  bound := h.bound

theorem Consistent.confirmed {told : List Told} (h : Consistent told) {t : UInt64} {c : Text}
    (hc : .returned t c ∈ told) : Consistent (.confirmed t (some c) :: told) where
  unique t' c₁ c₂ h₁ h₂ := by
    have h₁ : .returned t' c₁ ∈ told := (List.mem_cons.mp h₁).resolve_left (nomatch ·)
    have h₂ : .returned t' c₂ ∈ told := (List.mem_cons.mp h₂).resolve_left (nomatch ·)
    exact h.unique t' c₁ c₂ h₁ h₂
  bound := ⟨⟨c, rfl, hc, fun c' hc' => h.unique t c' c hc' hc⟩, h.bound⟩

section daemon

variable {d : Diary}

/-- A call leaves what has been told as it is. -/
theorem holds_lift {α : Type} {p : Txn α} {w : Camera} {told : List Told} {j : Job ⊕ Unit}
    {Q : α → Camera → Prop} {Q' : α → Diary → Prop} (h : Ends p w Q) (hc : Consistent told)
    (hQ : ∀ a w, Q a w → Q' a (w, told)) :
    p.lift.Holds Diary.exec (tokenRules.outcome j) (fun d => Consistent d.2) (w, told) Q' :=
  h.lift (fun _ _ _ _ => rfl) (fun _ _ _ _ => trivial) (fun _ _ => hc) hQ

theorem notedDaemon_keeps :
    notedDaemon.Keeps tokenRules (fun d => Consistent d.2) Awaits where
  job j m d hd hm hs := by
    obtain ⟨w, told⟩ := d
    cases j with
    | begin c now window =>
      apply Prog.holds_bind.mpr
      refine holds_lift ends_begin hd fun r w' hr => ?_
      obtain ⟨err | token, m'⟩ := r
      · refine ⟨hd, ?_⟩
        rcases hr with hr | ⟨rfl, rfl⟩
        · exact Awaits.of_idle hr
        · exact hm
      · obtain ⟨hp, rfl, htok, hrec⟩ := hr
        have hd' := hd.returned fun c' hc' => hs hp _ hc' rfl
        refine ⟨hd, fun _ _ => ⟨hd', fun _ => ⟨c, ?_, ?_⟩⟩⟩
        · exact htok ▸ hrec
        · exact htok ▸ List.mem_cons_self
    | confirm t =>
      apply Prog.holds_bind.mpr
      cases hp : m.pending with
      | false =>
        refine holds_lift (ends_confirm (c := bootConfig) fun ht => ?_) hd fun r w' hr => ?_
        · exact absurd (hp.symm.trans ht) Bool.false_ne_true
        · obtain ⟨err | _, m'⟩ := r
          · obtain ⟨rfl, -⟩ := hr
            exact ⟨hd, Awaits.of_idle hp⟩
          · exact absurd (hp.symm.trans hr.1) Bool.false_ne_true
      | true =>
        obtain ⟨c, hrec, htold⟩ := hm hp
        refine holds_lift (ends_confirm fun _ => hrec) hd fun r w' hr => ?_
        obtain ⟨err | _, m'⟩ := r
        · obtain ⟨rfl, hkept⟩ := hr
          exact ⟨hd, fun _ => ⟨c, hkept.trans hrec, htold⟩⟩
        · obtain ⟨-, rfl, hidle, hgood⟩ := hr
          refine ⟨hd, fun _ _ => ⟨?_, Awaits.of_idle hidle⟩⟩
          change Consistent (.confirmed m.token w'.good :: told)
          rw [hgood]
          exact hd.confirmed htold
    | tick now =>
      apply Prog.holds_bind.mpr
      refine holds_lift ends_tick hd fun r w' hr => ⟨hd, ?_⟩
      rcases hr with hr | ⟨hr, rfl⟩
      · exact Awaits.of_idle hr
      · exact hr ▸ hm
  boot _ d hd _ := by
    obtain ⟨w, told⟩ := d
    exact holds_lift ends_boot hd fun m w' hm => Awaits.of_idle hm

/-- In every run, over crashes and restarts at any point, in which no begin takes a token that was
returned for another candidate, a confirmation is of the candidate whose begin returned its
token. -/
theorem bound_run (w : Camera) {is : List (Input Outcome Job Unit)}
    (his : Along notedDaemon.step tokenRules.Admissible (startOn w) is) :
    Always notedDaemon.step (fun s => Bound s.world.2) (startOn w) is := by
  have hc : Consistent [] := ⟨fun _ _ _ h => absurd h List.not_mem_nil, trivial⟩
  refine (notedDaemon_keeps.run ?_ his).mono fun s hs => hs.bound
  exact holds_lift ends_boot hc fun m w' hm => Awaits.of_idle hm

/-- A call whose effects all go well, with the note of its answer. -/
def call (j : Job) (effects : ℕ) : List (Input Outcome Job Unit) :=
  .start j :: List.replicate effects (.answer .done)

/-- The camera dies while a change waits, so the record of its token is there after the restart. -/
def restartWhilePending : List (Input Outcome Job Unit) :=
  booted ++ call (.begin wifiConfig 0 1000) 4 ++ .crash () :: List.replicate 5 (.answer .done) ++
    call (.begin apConfig 0 1000) 4 ++ call (.confirm 2) 4

theorem bound_run_restartWhilePending :
    Always notedDaemon.step (fun s => Bound s.world.2) (startOn {}) restartWhilePending :=
  bound_run {} (by decide)

/-- The camera dies after the change was confirmed, and the tokens start over. -/
def restartAfterConfirm : List (Input Outcome Job Unit) :=
  booted ++ call (.begin wifiConfig 0 1000) 4 ++ call (.confirm 1) 4 ++
    .crash () :: List.replicate 2 (.answer .done) ++ call (.begin apConfig 0 1000) 4 ++
      call (.confirm 1) 4

theorem not_bound_run_restartAfterConfirm :
    ¬ ∀ w is, Always notedDaemon.step (fun s => Bound s.world.2) (startOn w) is := by
  intro h
  have hbound := h {} restartAfterConfirm _ List.prefix_rfl
  have htold : (run notedDaemon.step (startOn {}) restartAfterConfirm).world.2 =
      [.confirmed 1 (some apConfig.text), .returned 1 apConfig.text,
        .confirmed 1 (some wifiConfig.text), .returned 1 wifiConfig.text] := by
    decide
  dsimp only at hbound
  rw [htold] at hbound
  obtain ⟨c, hc, -, hall⟩ := hbound.1
  have hwifi := hall wifiConfig.text (by decide)
  rw [← Option.some.inj hc] at hwifi
  exact absurd hwifi (by decide)

end daemon

end Machino.Net
