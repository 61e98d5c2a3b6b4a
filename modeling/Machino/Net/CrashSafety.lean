import Machino.Basic.Tagged
import Machino.Net.NetworkTxn

namespace Machino.Net

open Effects Runs

/-- A configuration as a `std::string` of the camera can hold it. -/
structure Config where
  text : Text
  short : text.length < 2 ^ 31
  deriving DecidableEq

/-- Whatever the boot scripts set. -/
def bootConfig : Config :=
  ⟨"\x7b\"kind\":\"boot\"\x7d".toList, by decide⟩

/-- What survives the process: the two files of the state store, and the configuration the
network is on. -/
structure Camera where
  confirmed : Option Text := none
  pending : Option Text := none
  applied : Text := bootConfig.text
  deriving DecidableEq

namespace Camera

def record (w : Camera) : Key → Option Text
  | .confirmed => w.confirmed
  | .pending => w.pending

def write (w : Camera) (t : Option Text) : Key → Camera
  | .confirmed => { w with confirmed := t }
  | .pending => { w with pending := t }

/-- The last confirmed configuration. -/
def good (w : Camera) : Option Text := w.confirmed.bind decodeConfirmed

end Camera

/-- How an effect ends. A save that is `shown` has put the new record in place without knowing
that it did; an apply may fail and have `left` some other configuration. -/
inductive Outcome where
  | done | failed | shown
  | left (config : Text)
  deriving DecidableEq

/-- A save replaces the whole record or nothing, whatever it reports. -/
def Camera.exec : (e : Effect) → Outcome → Camera → Answer e × Camera
  | .load k, _, w => (w.record k, w)
  | .save k v, .done, w => (true, w.write (some v) k)
  | .save k v, .shown, w => (false, w.write (some v) k)
  | .save _ _, _, w => (false, w)
  | .clear k, .done, w => ((), w.write none k)
  | .clear _, _, w => ((), w)
  | .apply c, .done, w => (Result.ok, { w with applied := c })
  | .apply _, .left c, w => (Result.error, { w with applied := c })
  | .apply _, _, w => (Result.error, w)

inductive Job where
  | begin (candidate : Config) (nowMs windowMs : UInt32)
  | confirm (token : UInt64)
  | tick (nowMs : UInt32)

def Job.run : Job → NetworkTxn → Txn NetworkTxn
  | .begin c now window, m => do return (← Net.begin c.text now window m).2
  | .confirm t, m => do return (← Net.confirm t m).2
  | .tick now, m => do return (← Net.tick now m).2

/-- The start of the daemon seeds a first baseline and recovers. -/
def boot : Txn NetworkTxn := do
  let _ ← seedConfirmed bootConfig.text
  return (← recover {}).2

def daemon : Machine Effect Answer Outcome Camera Job Unit NetworkTxn where
  exec := Camera.exec
  job := Job.run
  boot _ := boot

/-- The daemon starts for the first time, on a camera that has neither record. -/
def firstStart : State Effect Answer Camera Job Unit NetworkTxn where
  world := {}
  job := .inr ()
  proc := boot

/-- What a start of the daemon on what is on the disk now leaves, when nothing fails. -/
def Camera.recovered (w : Camera) : Camera :=
  ((recover {}).eval (fun e => Camera.exec e .done) w).2

/-- Whatever is applied other than the confirmed configuration has a readable record, and the
next start puts the confirmed one back. -/
def CrashSafe (w : Camera) : Prop :=
  ∀ c ∈ w.good, w.applied ≠ c →
    (w.pending.bind decodePending).isSome = true ∧ w.recovered.applied = c

/-- The network is on the confirmed configuration, where there is one. -/
def Camera.Restored (w : Camera) : Prop := ∀ c ∈ w.good, w.applied = c

instance (w : Camera) : Decidable (CrashSafe w) :=
  inferInstanceAs (Decidable (∀ c ∈ w.good, w.applied ≠ c → _ ∧ _))

instance (w : Camera) : Decidable w.Restored :=
  inferInstanceAs (Decidable (∀ c ∈ w.good, w.applied = c))

def isConfirm : Job ⊕ Unit → Bool
  | .inl (.confirm _) => true
  | _ => false

/-- What takes the pending record away, a confirmation apart, does so only when the confirmed
configuration is already back, and an apply that fails without a record leaves that one. -/
def rules : Rules Effect Outcome Camera Job Unit NetworkTxn where
  starts _ _ _ := True
  outcome j w
    | .clear .pending, .done => isConfirm j = false → w.Restored
    | .apply _, .left c => w.pending = none → Camera.Restored { w with applied := c }
    | _, _ => True
  reboots _ _ := True

instance (j : Job) (m : NetworkTxn) (w : Camera) : Decidable (rules.starts j m w) :=
  .isTrue trivial

instance (j : Job ⊕ Unit) (w : Camera) : (e : Effect) → (o : Outcome) →
    Decidable (rules.outcome j w e o)
  | .clear .pending, .done => inferInstanceAs (Decidable (isConfirm j = false → w.Restored))
  | .apply _, .left c =>
    inferInstanceAs (Decidable (w.pending = none → Camera.Restored { w with applied := c }))
  | .load _, _ | .save _ _, _ | .clear .confirmed, _ => .isTrue trivial
  | .clear .pending, .failed | .clear .pending, .shown | .clear .pending, .left _ =>
    .isTrue trivial
  | .apply _, .done | .apply _, .failed | .apply _, .shown => .isTrue trivial

instance (u : Unit) (w : Camera) : Decidable (rules.reboots u w) := .isTrue trivial

theorem length_toDigits_lt {n : ℕ} (h : n < 2 ^ 64) : (Nat.toDigits 10 n).length ≤ 20 :=
  (Nat.length_toDigits_le_iff (by decide) (by decide)).mpr (h.trans (by decide))

theorem length_encodeConfirmed (c : Config) : (encodeConfirmed c.text).length < ulongSize := by
  have hs := c.short
  have hd := length_toDigits_lt (n := c.text.length) (by omega)
  simp [encodeConfirmed, kConfirmedTag, blob, ulongSize]
  omega

theorem decodeConfirmed_config (c : Config) :
    decodeConfirmed (encodeConfirmed c.text) = some c.text :=
  decodeConfirmed_encodeConfirmed (length_encodeConfirmed c)

theorem good_write_confirmed (w : Camera) (c : Config) :
    (w.write (some (encodeConfirmed c.text)) .confirmed).good = some c.text := by
  simp [Camera.good, Camera.write, decodeConfirmed_config]

/-- The record of the change to `c` under `token`. -/
def pendingFor (token : UInt64) (c : Config) : PendingRecord := ⟨token, c.text⟩

theorem length_encodePending (token : UInt64) (c : Config) :
    (encodePending (pendingFor token c)).length < ulongSize := by
  have hs := c.short
  have hd := length_toDigits_lt (n := c.text.length) (by omega)
  have ht := length_toDigits_lt token.toNat_lt
  simp [encodePending, pendingFor, kPendingTag, blob, ulongSize]
  omega

theorem decodePending_pendingFor (token : UInt64) (c : Config) :
    decodePending (encodePending (pendingFor token c)) = some (pendingFor token c) :=
  decodePending_encodePending (length_encodePending token c)

/-- Every record on the disk is a whole one, and a change in force that is not the confirmed
configuration has its record. -/
structure Durable (w : Camera) : Prop where
  confirmed : w.confirmed = none ∨ ∃ c : Config, w.confirmed = some (encodeConfirmed c.text)
  pending : w.pending = none ∨
    ∃ t, ∃ c : Config, w.pending = some (encodePending (pendingFor t c))
  unseeded : w.confirmed = none → w.applied = bootConfig.text
  covered : w.Restored ∨ w.pending ≠ none

namespace Durable

variable {w : Camera}

theorem good_eq (h : Durable w) : w.good = none ∧ w.confirmed = none ∨
    ∃ c : Config, w.good = some c.text ∧ w.confirmed = some (encodeConfirmed c.text) := by
  cases h.confirmed with
  | inl hn =>
    left
    simp [Camera.good, hn]
  | inr hc =>
    obtain ⟨c, hc⟩ := hc
    right
    exact ⟨c, by simp [Camera.good, hc, decodeConfirmed_config], hc⟩

theorem seeded {c : Text} (hc : w.good = some c) : w.confirmed ≠ none := by
  intro hn
  simp [Camera.good, hn] at hc

theorem readable (h : Durable w) (hp : w.pending ≠ none) :
    ∃ r, w.pending.bind decodePending = some r := by
  obtain hn | ⟨t, c, hc⟩ := h.pending
  · exact absurd hn hp
  · exact ⟨pendingFor t c, by simp [hc, decodePending_pendingFor]⟩

theorem restored_of_none (h : Durable w) (hp : w.pending = none) : w.Restored := by
  cases h.covered with
  | inl hr => exact hr
  | inr hn => exact absurd hp hn

theorem write_pending (h : Durable w) (t : UInt64) (c : Config) :
    Durable (w.write (some (encodePending (pendingFor t c))) .pending) where
  confirmed := h.confirmed
  pending := .inr ⟨t, c, rfl⟩
  unseeded := h.unseeded
  covered := .inr (by simp [Camera.write])

/-- A confirmed record may be written over a change in force when it says the same, or when the
change keeps its own record. -/
theorem write_confirmed (h : Durable w) {c : Config}
    (hc : w.applied = c.text ∨ w.pending ≠ none) :
    Durable (w.write (some (encodeConfirmed c.text)) .confirmed) where
  confirmed := .inr ⟨c, rfl⟩
  pending := h.pending
  unseeded := by simp [Camera.write]
  covered := by
    refine hc.imp ?_ id
    intro ha x hx
    rw [good_write_confirmed] at hx
    exact ha.trans (Option.some.inj hx)

theorem clear_pending (h : Durable w) (hr : w.Restored) : Durable (w.write none .pending) where
  confirmed := h.confirmed
  pending := .inl rfl
  unseeded := h.unseeded
  covered := .inl hr

theorem apply (h : Durable w) (hs : w.confirmed ≠ none) {x : Text}
    (hx : w.pending = none → Camera.Restored { w with applied := x }) :
    Durable { w with applied := x } where
  confirmed := h.confirmed
  pending := h.pending
  unseeded hn := absurd hn hs
  covered := by
    by_cases hp : w.pending = none
    · exact .inl (hx hp)
    · exact .inr hp

/-- The next start puts the confirmed configuration back. -/
theorem crashSafe (h : Durable w) : CrashSafe w := by
  intro c hc ha
  have hp : w.pending ≠ none := by
    intro hn
    exact ha (h.restored_of_none hn c hc)
  obtain ⟨r, hr⟩ := h.readable hp
  refine ⟨by simp [hr], ?_⟩
  obtain ⟨t, ht⟩ := Option.ne_none_iff_exists'.mp hp
  have hgood : w.confirmed.bind decodeConfirmed = some c := hc
  simp [Camera.recovered, recover, loadConfirmed, Camera.exec, Camera.record, Camera.write,
    ht, hgood]

end Durable

section effects

variable {α : Type} {j : Job ⊕ Unit} {w : Camera}

/-- The program, run for `j`, keeps the records whole and ends in `Q`. -/
abbrev Wp (j : Job ⊕ Unit) (p : Txn α) (w : Camera) (Q : α → Camera → Prop) : Prop :=
  p.Holds Camera.exec (rules.outcome j) Durable w Q

theorem wp_load {k : Key} {Q : Option Text → Camera → Prop} (hw : Durable w)
    (h : Q (w.record k) w) : Wp j (load k) w Q :=
  ⟨hw, fun _ _ => ⟨hw, h⟩⟩

theorem wp_loadConfirmed {Q : Option Text → Camera → Prop} (hw : Durable w)
    (h : Q w.good w) : Wp j loadConfirmed w Q := by
  unfold loadConfirmed
  apply Prog.holds_bind.mpr
  apply wp_load hw
  exact ⟨hw, h⟩

theorem wp_save {k : Key} {v : Text} {Q : Bool → Camera → Prop} (hw : Durable w)
    (hs : Durable (w.write (some v) k)) (hfail : Q false w)
    (hput : ∀ b, Q b (w.write (some v) k)) : Wp j (save k v) w Q := by
  refine ⟨hw, ?_⟩
  intro o _
  cases o with
  | done => exact ⟨hs, hput true⟩
  | failed => exact ⟨hw, hfail⟩
  | shown => exact ⟨hs, hput false⟩
  | left c => exact ⟨hw, hfail⟩

theorem wp_clear {Q : Unit → Camera → Prop} (hw : Durable w)
    (hr : isConfirm j = true → w.Restored) (hkept : Q () w)
    (hdone : w.Restored → Q () (w.write none .pending)) : Wp j (clear .pending) w Q := by
  refine ⟨hw, ?_⟩
  intro o ho
  cases o with
  | done =>
    have hres : w.Restored := by
      cases hj : isConfirm j with
      | true => exact hr hj
      | false => exact ho hj
    exact ⟨hw.clear_pending hres, hdone hres⟩
  | failed => exact ⟨hw, hkept⟩
  | shown => exact ⟨hw, hkept⟩
  | left c => exact ⟨hw, hkept⟩

theorem wp_apply {c : Text} {Q : Result → Camera → Prop} (hw : Durable w)
    (hs : w.confirmed ≠ none) (hc : w.pending = none → Camera.Restored { w with applied := c })
    (hdone : Q .ok { w with applied := c })
    (herr : ∀ x, Durable { w with applied := x } → Q .error { w with applied := x }) :
    Wp j (apply c) w Q := by
  refine ⟨hw, ?_⟩
  intro o ho
  cases o with
  | done => exact ⟨hw.apply hs hc, hdone⟩
  | failed => exact ⟨hw, herr w.applied hw⟩
  | shown => exact ⟨hw, herr w.applied hw⟩
  | left x => exact ⟨hw.apply hs ho, herr x (hw.apply hs ho)⟩

end effects

/-- The change that waits for confirmation is on record and in force. -/
def Remembers (m : NetworkTxn) (w : Camera) : Prop :=
  m.pending = true → ∃ c : Config,
    w.pending = some (encodePending (pendingFor m.token c)) ∧ w.applied = c.text

section jobs

variable {j : Job ⊕ Unit} {w : Camera} {m : NetworkTxn}

theorem remembers_of_idle (h : m.pending = false) : Remembers m w := by
  intro hp
  exact absurd (h.symm.trans hp) (by decide)

theorem wp_seedConfirmed {Q : SeedOutcome × String → Camera → Prop} (hw : Durable w)
    (h : ∀ r w', Durable w' → Q r w') : Wp j (seedConfirmed bootConfig.text) w Q := by
  unfold seedConfirmed
  apply Prog.holds_bind.mpr
  apply wp_loadConfirmed hw
  obtain ⟨hg, hn⟩ | ⟨c, hg, -⟩ := hw.good_eq
  · rw [hg]
    have hs := hw.write_confirmed (.inl (hw.unseeded hn))
    apply Prog.holds_bind.mpr
    apply wp_save hw hs
    · exact ⟨hw, h _ _ hw⟩
    · rintro (_ | _)
      · exact ⟨hs, h _ _ hs⟩
      · exact ⟨hs, h _ _ hs⟩
  · rw [hg]
    exact ⟨hw, h _ _ hw⟩

theorem skipToken_pending (m : NetworkTxn) (r : Option PendingRecord) :
    (m.skipToken r).pending = m.pending := by
  cases r with
  | none => rfl
  | some pr =>
    unfold NetworkTxn.skipToken
    dsimp only
    split <;> rfl

/-- Putting the confirmed configuration back keeps what is on the disk in order. -/
theorem wp_restore {α : Type} {c : Config} {f : Result → Txn α} {Q : α → Camera → Prop}
    (hw : Durable w) (hg : w.good = some c.text) (hj : isConfirm j = false)
    (h : ∀ rc w', Durable w' → Wp j (f rc) w' Q) :
    Wp j (do clear .pending; f (← apply c.text)) w Q := by
  have hs : w.confirmed ≠ none := Durable.seeded hg
  have hback : Camera.Restored { w with applied := c.text } := by
    intro x hx
    exact Option.some.inj (hg.symm.trans hx)
  apply Prog.holds_bind.mpr
  apply wp_clear hw
  · intro ht
    exact absurd (hj.symm.trans ht) (by decide)
  · apply Prog.holds_bind.mpr
    apply wp_apply hw hs (fun _ => hback)
    · exact h _ _ (hw.apply hs fun _ => hback)
    · exact fun x hx => h _ _ hx
  · intro hr
    have hcl := hw.clear_pending hr
    apply Prog.holds_bind.mpr
    apply wp_apply hcl hs (fun _ => hback)
    · exact h _ _ (hcl.apply hs fun _ => hback)
    · exact fun x hx => h _ _ hx

theorem wp_recover (hw : Durable w) (hm : m.pending = false) :
    Wp (.inr ()) (recover m) w fun r _ => r.2.pending = false := by
  unfold recover
  apply Prog.holds_bind.mpr
  apply wp_load hw
  dsimp only
  have hskip : (m.skipToken ((w.record .pending).bind decodePending)).pending = false := by
    rw [skipToken_pending, hm]
  split
  · exact ⟨hw, hskip⟩
  · apply Prog.holds_bind.mpr
    apply wp_loadConfirmed hw
    obtain ⟨hg, -⟩ | ⟨c, hg, -⟩ := hw.good_eq
    · rw [hg]
      exact ⟨hw, hskip⟩
    · rw [hg]
      apply wp_restore hw hg rfl
      intro rc w' hw'
      split
      · exact ⟨hw', rfl⟩
      · exact ⟨hw', rfl⟩

theorem wp_rollbackLocked {now : UInt32} (hw : Durable w) :
    Wp (.inl (.tick now)) (rollbackLocked m) w fun r _ => r.2.pending = false := by
  unfold rollbackLocked
  apply Prog.holds_bind.mpr
  apply wp_loadConfirmed hw
  obtain ⟨hg, -⟩ | ⟨c, hg, -⟩ := hw.good_eq
  · rw [hg]
    apply Prog.holds_bind.mpr
    apply wp_clear hw (by simp [isConfirm])
    · exact ⟨hw, rfl⟩
    · exact fun hr => ⟨hw.clear_pending hr, rfl⟩
  · rw [hg]
    apply wp_restore hw hg rfl
    exact fun rc w' hw' => ⟨hw', rfl⟩

theorem wp_tick {now : UInt32} (hw : Durable w) (hm : Remembers m w) :
    Wp (.inl (.tick now)) (tick now m) w fun r => Remembers r.2 := by
  unfold tick
  split
  · exact ⟨hw, hm⟩
  · apply Prog.holds_bind.mpr
    refine (wp_rollbackLocked hw).mono ?_
    exact fun r w' hw' hr => ⟨hw', remembers_of_idle hr⟩

theorem wp_begin {c : Config} {now window : UInt32} (hw : Durable w) (hm : Remembers m w) :
    Wp (.inl (.begin c now window)) (begin c.text now window m) w fun r => Remembers r.2 := by
  unfold begin
  split
  · exact ⟨hw, hm⟩
  · split
    · exact ⟨hw, hm⟩
    · rename_i hidle
      have hp : m.pending = false := by simpa using hidle
      apply Prog.holds_bind.mpr
      apply wp_loadConfirmed hw
      obtain ⟨hg, -⟩ | ⟨good, hg, hset⟩ := hw.good_eq
      · rw [hg]
        exact ⟨hw, hm⟩
      · rw [hg]
        dsimp only
        -- the record comes before the change, so a crash between the two finds the way back
        have hrec := hw.write_pending m.nextToken c
        apply Prog.holds_bind.mpr
        apply wp_save hw hrec
        · exact ⟨hw, remembers_of_idle hp⟩
        · rintro (_ | _)
          · exact ⟨hrec, remembers_of_idle hp⟩
          · apply Prog.holds_bind.mpr
            have hset' : (w.write (some (encodePending (pendingFor m.nextToken c)))
                .pending).confirmed ≠ none := Durable.seeded hg
            apply wp_apply hrec hset'
            · exact fun hn => absurd hn (by simp [Camera.write])
            · rw [if_neg (by simp)]
              refine ⟨hrec.apply hset' fun hn => absurd hn (by simp [Camera.write]), ?_⟩
              exact fun _ => ⟨c, rfl, rfl⟩
            -- the change was refused: the last good one is applied again before the record goes
            · intro x hx
              rw [if_pos (by simp)]
              apply wp_restore (f := fun _ => pure _) hx hg rfl
              exact fun rc w' hw' => ⟨hw', remembers_of_idle hp⟩

theorem wp_confirm {t : UInt64} (hw : Durable w) (hm : Remembers m w) :
    Wp (.inl (.confirm t)) (confirm t m) w fun r => Remembers r.2 := by
  unfold confirm
  split
  · exact ⟨hw, hm⟩
  · split
    · exact ⟨hw, hm⟩
    · rename_i hpend htok
      have hp : m.pending = true := by simpa using hpend
      have ht : t = m.token := by simpa using htok
      obtain ⟨c, hrec, happ⟩ := hm hp
      have hdec : (w.record .pending).bind decodePending = some (pendingFor t c) := by
        rw [ht]
        simp [Camera.record, hrec, decodePending_pendingFor]
      apply Prog.holds_bind.mpr
      apply wp_load hw
      rw [hdec]
      dsimp only
      rw [if_neg (by simp [pendingFor])]
      -- what becomes the good configuration is what the record has and what is live
      have hconf := hw.write_confirmed (.inl happ)
      apply Prog.holds_bind.mpr
      apply wp_save hw hconf
      · exact ⟨hw, hm⟩
      · rintro (_ | _)
        · exact ⟨hconf, fun _ => ⟨c, hrec, happ⟩⟩
        · rw [if_neg (by simp)]
          have hres : (w.write (some (encodeConfirmed c.text)) .confirmed).Restored := by
            intro x hx
            rw [good_write_confirmed] at hx
            exact happ.trans (Option.some.inj hx)
          apply Prog.holds_bind.mpr
          -- a crash before this clear rolls back to the same configuration
          apply wp_clear hconf (fun _ => hres)
          · exact ⟨hconf, remembers_of_idle rfl⟩
          · exact fun hr => ⟨hconf.clear_pending hr, remembers_of_idle rfl⟩

theorem wp_boot (hw : Durable w) : Wp (.inr ()) boot w Remembers := by
  unfold boot
  apply Prog.holds_bind.mpr
  apply wp_seedConfirmed hw
  intro r w' hw'
  apply Prog.holds_bind.mpr
  refine (wp_recover hw' rfl).mono ?_
  exact fun r w'' hw'' hr => ⟨hw'', remembers_of_idle hr⟩

theorem daemon_keeps : daemon.Keeps rules Durable Remembers where
  job j m w hw hm _ := by
    cases j with
    | begin c now window =>
      apply Prog.holds_bind.mpr
      exact (wp_begin hw hm).mono fun r w' hw' hr => ⟨hw', hr⟩
    | confirm t =>
      apply Prog.holds_bind.mpr
      exact (wp_confirm hw hm).mono fun r w' hw' hr => ⟨hw', hr⟩
    | tick now =>
      apply Prog.holds_bind.mpr
      exact (wp_tick hw hm).mono fun r w' hw' hr => ⟨hw', hr⟩
  boot _ w hw _ := wp_boot hw

theorem durable_init : Durable {} where
  confirmed := .inl rfl
  pending := .inl rfl
  unseeded _ := rfl
  covered := .inl fun _ hc => nomatch hc

end jobs

/-- An outcome against the rules leaves a change nobody confirmed without its record. -/
theorem not_crashSafe_of_outcome {j : Job ⊕ Unit} {w : Camera} {e : Effect} {o : Outcome}
    (h : ¬ rules.outcome j w e o) : ¬ CrashSafe (Camera.exec e o w).2 := by
  have hunsafe : ∀ w : Camera, w.pending = none → ¬ w.Restored → ¬ CrashSafe w := by
    intro w hp hr hs
    apply hr
    intro c hc
    by_contra ha
    have hsome := (hs c hc ha).1
    simp [hp] at hsome
  unfold rules at h
  dsimp only at h
  split at h
  · exact hunsafe _ rfl fun hr => h fun _ => hr
  · rename_i c x
    have hp : w.pending = none := by
      by_contra hp
      exact h fun hn => absurd hn hp
    exact hunsafe _ hp fun hr => h fun _ => hr
  · exact absurd trivial h

/-- In a run over any crashes and failures every point is safe to crash at, just when the pending
record is never taken away before the confirmed configuration is back. -/
theorem crashSafe_run (is : List (Input Outcome Job Unit)) :
    Always daemon.step (fun s => CrashSafe s.world) firstStart is ↔
      Along daemon.step rules.Admissible firstStart is := by
  apply daemon_keeps.run_iff
  · exact fun w hw => hw.crashSafe
  · exact fun _ _ _ => trivial
  · exact fun _ _ => trivial
  · exact fun j w e o _ h => not_crashSafe_of_outcome h
  · exact wp_boot durable_init

/-- Nothing fails in the first start. -/
def booted : List (Input Outcome Job Unit) := List.replicate 3 (.answer .done)

/-- A change to some other configuration, in force and on record. -/
def changed (c : Config) : List (Input Outcome Job Unit) :=
  .start (.begin c 0 1000) :: List.replicate 3 (.answer .done)

def wifiConfig : Config := ⟨"wifi".toList, by decide⟩

def apConfig : Config := ⟨"ap".toList, by decide⟩

/-- One change is confirmed; the camera dies before the next one is applied, and comes back. -/
example : Along daemon.step rules.Admissible firstStart
    (booted ++ changed wifiConfig ++ .start (.confirm 1) :: List.replicate 3 (.answer .done) ++
      .start (.begin apConfig 5 1000) :: .answer .done :: .answer .shown :: .crash () ::
        List.replicate 5 (.answer .done)) := by
  decide

/-- A window that passes takes the record away first: the change nobody confirmed is in force
then, and a crash there leaves it so. -/
theorem not_crashSafe_tick :
    ¬ ∀ is, Always daemon.step (fun s => CrashSafe s.world) firstStart is := by
  intro h
  have hs := h (booted ++ changed wifiConfig ++ .start (.tick 1000) ::
    List.replicate 2 (.answer .done)) _ List.prefix_rfl
  revert hs
  decide

open Codes

theorem takeLine_torn (pre : Text) {p : Text} (h : '\n' ∉ p) :
    takeLine (pre ++ p) pre.length = none := by
  unfold takeLine
  rw [List.drop_left, List.findIdx?_eq_none_iff.mpr]
  intro c hc
  have hne : c ≠ '\n' := by
    rintro rfl
    exact h hc
  simpa using hne

/-- A blob that is cut off, in its length or behind it, is not taken. -/
theorem takeBlob_torn (pre : Text) {p s : Text} (hlen : (pre ++ blob s).length < ulongSize)
    (hp : p <+: blob s) (hne : p ≠ blob s) : takeBlob (pre ++ p) pre.length = none := by
  have hsize : (pre ++ blob s).length =
      pre.length + (Nat.toDigits 10 s.length).length + 1 + s.length := by
    simp [blob]
    omega
  rcases prefix_line hp with hp | ⟨q, rfl, hq⟩
  · unfold takeBlob
    rw [takeLine_torn pre fun hn => newline_notMem_toDigits s.length (hp.subset hn)]
  · have hshort : q.length < s.length := by
      refine lt_of_le_of_ne hq.length_le fun he => hne ?_
      rw [hq.eq_of_length he]
      rfl
    unfold takeBlob
    rw [takeLine_append pre q (newline_notMem_toDigits s.length)]
    dsimp only
    -- the length is read as it is, and reaches beyond the end of what is left
    rw [if_neg Nat.toDigits_ne_nil, all_isDigit_toDigits, strtoul_toDigits (by omega),
      Nat.mod_eq_of_lt (by omega), if_neg (by simp), if_pos]
    simp
    omega

theorem decodeConfirmed_torn {cfg p : Text} (h : (encodeConfirmed cfg).length < ulongSize)
    (hp : p <+: encodeConfirmed cfg) (hne : p ≠ encodeConfirmed cfg) :
    decodeConfirmed p = none := by
  unfold decodeConfirmed
  rcases prefix_line hp with hp | ⟨q, rfl, hq⟩
  · have hline : takeLine p 0 = none :=
      takeLine_torn [] fun hn => absurd (hp.subset hn) (by decide)
    rw [hline]
  · have hline : takeLine (kConfirmedTag ++ '\n' :: q) 0 = some (kConfirmedTag, 3) :=
      takeLine_append [] q (by decide : '\n' ∉ kConfirmedTag)
    have hblob : takeBlob (['c', '1', '\n'] ++ q) 3 = none :=
      takeBlob_torn ['c', '1', '\n'] h hq fun he => hne (by rw [he]; rfl)
    rw [hline]
    dsimp only
    rw [if_neg (by simp)]
    exact congrArg (Option.map Prod.fst) hblob

theorem decodePending_torn {r : PendingRecord} {p : Text}
    (h : (encodePending r).length < ulongSize) (hp : p <+: encodePending r)
    (hne : p ≠ encodePending r) : decodePending p = none := by
  have hlines : encodePending r =
      kPendingTag ++ '\n' :: (Nat.toDigits 10 r.token.toNat ++ '\n' :: blob r.candidate) := by
    simp [encodePending]
  rw [hlines] at h hp hne
  unfold decodePending
  rcases prefix_line hp with hp | ⟨q, rfl, hq⟩
  · have hline : takeLine p 0 = none :=
      takeLine_torn [] fun hn => absurd (hp.subset hn) (by decide)
    rw [hline]
  have htag : takeLine (kPendingTag ++ '\n' :: q) 0 = some (kPendingTag, 3) :=
    takeLine_append [] q (by decide : '\n' ∉ kPendingTag)
  have hcut : kPendingTag ++ '\n' :: q = ['v', '1', '\n'] ++ q := rfl
  have hnl := newline_notMem_toDigits r.token.toNat
  rw [htag]
  dsimp only
  rw [if_neg (by simp), hcut]
  rcases prefix_line hq with hq | ⟨b, rfl, hb⟩
  · have hline : takeLine (['v', '1', '\n'] ++ q) 3 = none :=
      takeLine_torn ['v', '1', '\n'] fun hn => hnl (hq.subset hn)
    rw [hline]
  · have hline := takeLine_append ['v', '1', '\n'] b hnl
    have hsplit (b : Text) : ['v', '1', '\n'] ++ (Nat.toDigits 10 r.token.toNat ++ '\n' :: b) =
        (['v', '1', '\n'] ++ (Nat.toDigits 10 r.token.toNat ++ ['\n'])) ++ b := by simp
    have hpos : (['v', '1', '\n'] ++ (Nat.toDigits 10 r.token.toNat ++ ['\n'])).length =
        3 + (Nat.toDigits 10 r.token.toNat).length + 1 := by
      simp
      omega
    have hblob := takeBlob_torn (['v', '1', '\n'] ++ (Nat.toDigits 10 r.token.toNat ++ ['\n']))
      (hsplit (blob r.candidate) ▸ h) hb fun he => hne (by rw [he])
    rw [← hsplit, hpos] at hblob
    rw [List.length_cons, List.length_cons, List.length_singleton] at hline
    rw [hline]
    dsimp only
    rw [if_neg Nat.toDigits_ne_nil, all_isDigit_toDigits, if_neg (by simp), hblob]
    rfl

/-- A `std::string` of the camera can hold the text. -/
def Holdable (s : Text) : Prop := s.length < 2 ^ 31

theorem pending_prefixCode :
    PrefixCode (fun r : PendingRecord => Holdable r.candidate) encodePending decodePending where
  round r hr := decodePending_pendingFor r.token ⟨r.candidate, hr⟩
  torn r hr _ := decodePending_torn (length_encodePending r.token ⟨r.candidate, hr⟩)

theorem confirmed_prefixCode : PrefixCode Holdable encodeConfirmed decodeConfirmed where
  round cfg hc := decodeConfirmed_config ⟨cfg, hc⟩
  torn cfg hc _ := decodeConfirmed_torn (length_encodeConfirmed ⟨cfg, hc⟩)

/-- No pending record begins with another one. -/
theorem encodePending_prefix_free {r r' : PendingRecord} (hr : Holdable r.candidate)
    (hr' : Holdable r'.candidate) (h : encodePending r <+: encodePending r') : r = r' :=
  pending_prefixCode.prefix_free hr hr' h

/-- A pending record with any token and candidate, and a confirmed one with any configuration,
reads back, and neither is ever taken for complete before its last byte. -/
theorem records_code :
    PrefixCode (fun r : PendingRecord => Holdable r.candidate) encodePending decodePending ∧
      PrefixCode Holdable encodeConfirmed decodeConfirmed :=
  ⟨pending_prefixCode, confirmed_prefixCode⟩

end Machino.Net
