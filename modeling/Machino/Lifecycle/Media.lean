import Machino.Lifecycle.Chain

namespace Machino.Lifecycle

open Ledger PipelineManager

/-- Each chain is either empty or runs, and the ledgers say what is held. -/
structure Sound (m : PipelineManager) : Prop where
  chain : ∀ i, (m.unit i).chain = {} ∨ (m.unit i).chain.Live
  ledger : ∀ i, LedgerAt i m
  jpegLedger : held [] (jpegLedger m.log) = some (m.jpeg.enc.toList.map .encoder)

/-- Nothing is up and nothing exists. -/
structure Cold (m : PipelineManager) : Prop where
  chain : ∀ i, (m.unit i).chain = {}
  enc : m.jpeg.enc = none
  up : platformUp m.log = false

theorem Sound.running {m : PipelineManager} (h : Sound m) {i : Slot}
    (hr : (m.unit i).chain.running = true) : (m.unit i).chain.Live :=
  (h.chain i).resolve_left fun he => by simp [he] at hr

theorem Chain.Live.running {c : Chain} (h : c.Live) : c.running = true := by
  obtain ⟨_, _, rfl⟩ := h
  rfl

/-- Nothing but the state and the books' fields that no chain, ledger or platform fact reads. -/
theorem Sound.of_eq {m m' : PipelineManager} (h : Sound m)
    (hc : ∀ i, (m'.unit i).chain = (m.unit i).chain) (he : m'.jpeg.enc = m.jpeg.enc)
    (hl : ∀ i, Lifecycle.ledger i m'.log = Lifecycle.ledger i m.log)
    (hj : Lifecycle.jpegLedger m'.log = Lifecycle.jpegLedger m.log) : Sound m' where
  chain i := by rw [hc i]; exact h.chain i
  ledger i := by
    unfold LedgerAt
    rw [hl i, hc i]
    exact h.ledger i
  jpegLedger := by rw [hj, he]; exact h.jpegLedger

theorem Cold.of_eq {m m' : PipelineManager} (h : Cold m)
    (hc : ∀ i, (m'.unit i).chain = (m.unit i).chain) (he : m'.jpeg.enc = m.jpeg.enc)
    (hu : platformUp m'.log = platformUp m.log) : Cold m' where
  chain i := by rw [hc i]; exact h.chain i
  enc := he.trans h.enc
  up := hu.trans h.up

/-- A step of one chain keeps the other one and the snapshot path sound. -/
theorem UnitStep.sound {i : Slot} {m m' : PipelineManager} (hs : UnitStep i m m') (h : Sound m)
    (hc : (m'.unit i).chain = {} ∨ (m'.unit i).chain.Live) (hl : LedgerAt i m') : Sound m' where
  chain j := by
    by_cases hj : j = i
    · subst hj; exact hc
    · rw [hs.chain j hj]; exact h.chain j
  ledger j := by
    by_cases hj : j = i
    · subst hj; exact hl
    · unfold LedgerAt
      rw [hs.ledger j hj, hs.chain j hj]
      exact h.ledger j
  jpegLedger := by rw [hs.jpegLedger, hs.jpeg]; exact h.jpegLedger

theorem Sound.stopUnitLocked {m : PipelineManager} (h : Sound m) (i : Slot) :
    Sound (stopUnitLocked i m) :=
  (stopUnitLocked_step i m).sound h (.inl (stopUnitLocked_chain i m))
    (stopUnitLocked_ledger (h.ledger i))

@[simp] theorem stopJpegLocked_enc (m : PipelineManager) : (stopJpegLocked m).jpeg.enc = none := by
  unfold stopJpegLocked
  split
  · assumption
  · rfl

@[simp] theorem stopJpegLocked_units (m : PipelineManager) :
    (stopJpegLocked m).units = m.units := by
  unfold stopJpegLocked
  split <;> rfl

@[simp] theorem stopJpegLocked_state (m : PipelineManager) :
    (stopJpegLocked m).state = m.state := by
  unfold stopJpegLocked
  split <;> rfl

@[simp] theorem stopJpegLocked_up (m : PipelineManager) :
    platformUp (stopJpegLocked m).log = platformUp m.log := by
  unfold stopJpegLocked
  split
  · rfl
  · simp [platformUp]

theorem stopJpegLocked_unit (m : PipelineManager) (i : Slot) :
    (stopJpegLocked m).unit i = m.unit i := by simp [unit]

theorem ledger_stopJpegLocked (m : PipelineManager) (i : Slot) :
    ledger i (stopJpegLocked m).log = ledger i m.log := by
  unfold stopJpegLocked
  split
  · rfl
  · simp [ledger, Call.entry]

/-- The books survive the snapshot encoder, except that a manager whose cache was filled
without one keeps it. -/
theorem stopJpegLocked_books (m : PipelineManager) : (stopJpegLocked m).books = m.books := by
  unfold stopJpegLocked
  split <;> rfl

theorem Sound.stopJpegLocked {m : PipelineManager} (h : Sound m) :
    Sound (PipelineManager.stopJpegLocked m) where
  chain i := by rw [stopJpegLocked_unit]; exact h.chain i
  ledger i := by
    unfold LedgerAt
    rw [ledger_stopJpegLocked, stopJpegLocked_unit]
    exact h.ledger i
  jpegLedger := by
    have hj := h.jpegLedger
    unfold PipelineManager.stopJpegLocked
    split
    · exact hj
    · rename_i enc henc
      have hlog : Lifecycle.jpegLedger (m.tell (.destroyJpeg enc)).log =
          Lifecycle.jpegLedger m.log ++ [.undone (.encoder enc)] := by
        simp [Lifecycle.jpegLedger, Call.jpegEntry]
      change held [] (Lifecycle.jpegLedger (m.tell (.destroyJpeg enc)).log) = some []
      rw [hlog, held_append_of_eq hj, henc]
      simp

section platform

variable (platform : ℕ → Result)

/-- What a start of the snapshot encoder may do. -/
structure JpegStartSpec (m : PipelineManager) (r : Bool × PipelineManager) : Prop where
  books : r.2.books = m.books
  units : r.2.units = m.units
  up : platformUp r.2.log = platformUp m.log
  live : r.1 = true → r.2.jpeg.enc.isSome
  idle : r.1 = false → r.2.jpeg.enc = none
  kept : m.jpeg.enc.isSome → r.2.jpeg.enc = m.jpeg.enc
  sound : Sound m → Sound r.2

theorem startJpegLocked_spec (m : PipelineManager) :
    JpegStartSpec m (startJpegLocked platform m) := by
  unfold startJpegLocked
  dsimp only
  generalize (if m.jpeg.params.width ≤ 0 ∨ m.jpeg.params.height ≤ 0 then _ else _ : JpegParams) = p
  generalize m.log.length = n
  generalize platform n = r
  by_cases he : m.jpeg.enc.isSome
  · rw [if_pos he]
    exact ⟨rfl, rfl, rfl, fun _ => he, by simp, fun _ => rfl, id⟩
  have hnone : m.jpeg.enc = none := by simpa using he
  rw [if_neg he]
  have hup : platformUp (m.log ++ [.createJpeg n p r]) = platformUp m.log := by simp [platformUp]
  have hled (i : Slot) : ledger i (m.log ++ [.createJpeg n p r]) = ledger i m.log := by
    simp [ledger, Call.entry]
  split
  · rename_i hr
    refine ⟨rfl, rfl, hup, fun _ => rfl, by simp, fun h => absurd h he, fun h => ?_⟩
    refine ⟨h.chain, fun i => (congrArg (held []) (hled i)).trans (h.ledger i), ?_⟩
    have hj : jpegLedger (m.log ++ [.createJpeg n p r]) =
        jpegLedger m.log ++ [.acquired (.encoder n)] := by simp [jpegLedger, Call.jpegEntry, hr]
    change held [] (jpegLedger (m.log ++ [.createJpeg n p r])) = some [.encoder n]
    rw [hj, held_append_of_eq h.jpegLedger, hnone]
    simp
  · rename_i hr
    refine ⟨rfl, rfl, hup, by simp, fun _ => hnone, fun h => absurd h he, fun h => ?_⟩
    refine h.of_eq (fun _ => rfl) rfl hled ?_
    simp [jpegLedger, Call.jpegEntry, hr]

/-- What taking the base down does. -/
structure BaseStopSpec (m m' : PipelineManager) : Prop where
  books : m'.books = m.books
  cold : Cold m'
  sound : Sound m → Sound m'

theorem stopBaseLocked_spec (m : PipelineManager) : BaseStopSpec m (stopBaseLocked m) := by
  unfold stopBaseLocked
  dsimp only
  have hsub := stopUnitLocked_step .sub m
  have hmain := stopUnitLocked_step .main (stopUnitLocked .sub m)
  have hchain (i : Slot) :
      ((stopUnitLocked .main (stopUnitLocked .sub m)).unit i).chain = {} := by
    cases i with
    | main => exact stopUnitLocked_chain .main _
    | sub => rw [hmain.chain .sub (by decide)]; exact stopUnitLocked_chain .sub m
  generalize hm : stopUnitLocked .main (stopUnitLocked .sub m) = m₂ at hmain hchain
  refine ⟨?_, ⟨?_, ?_, ?_⟩, fun h => ?_⟩
  · exact (stopJpegLocked_books m₂).trans (hmain.books.trans hsub.books)
  · intro i
    exact (congrArg StreamUnit.chain (stopJpegLocked_unit m₂ i)).trans (hchain i)
  · exact stopJpegLocked_enc m₂
  · exact platformUp_tearDown _
  · have h₂ : Sound m₂ := hm ▸ (h.stopUnitLocked .sub).stopUnitLocked .main
    refine h₂.stopJpegLocked.of_eq (fun _ => rfl) rfl ?_ ?_
    · intro i; simp [ledger, Call.entry]
    · simp [jpegLedger, Call.jpegEntry]

/-- The units a base start must bring up. -/
def Wanted (first : Option UnitId) (m : PipelineManager) (i : Slot) : Prop :=
  first = some i.unitId ∨ (m.unit i).configured = true ∧ 0 < (m.unit i).total

/-- What bringing the wanted units up may do. -/
structure UnitsStartSpec (first : Option UnitId) (is : List Slot) (m : PipelineManager)
    (r : Bool × PipelineManager) : Prop where
  books : r.2.books = m.books
  sound : Sound m → Sound r.2
  jpeg : r.2.jpeg = m.jpeg
  up : platformUp r.2.log = platformUp m.log
  live : r.1 = true → ∀ i ∈ is, Wanted first m i → (r.2.unit i).chain.Live
  kept : ∀ i, (m.unit i).chain.Live → (r.2.unit i).chain = (m.unit i).chain
  idle : ∀ i, ¬ Wanted first m i → (r.2.unit i).chain = (m.unit i).chain

theorem Wanted.of_books {first : Option UnitId} {m m' : PipelineManager}
    (h : m'.books = m.books) (i : Slot) : Wanted first m' i ↔ Wanted first m i := by
  have hu := unitBooks_eq h i
  have hc : (m'.unit i).configured = (m.unit i).configured := (congrArg StreamUnit.configured hu :)
  have ht : (m'.unit i).total = (m.unit i).total := (congrArg StreamUnit.total hu :)
  unfold Wanted
  rw [hc, ht]

theorem startWanted_spec (first : Option UnitId) (is : List Slot) {m : PipelineManager}
    (hm : Sound m) : UnitsStartSpec first is m (startWanted platform first is m) := by
  -- induction on the units still to start; those before them are live and stay so (`kept`)
  induction is generalizing m with
  | nil => exact ⟨rfl, id, rfl, rfl, by simp, fun _ _ => rfl, fun _ _ => rfl⟩
  | cons i is ih =>
    unfold startWanted
    by_cases hw : wanted first m i = true
    · rw [if_pos hw]
      obtain ⟨hreq, hidle⟩ : Wanted first m i ∧ ¬ (m.unit i).chain.running := by
        simpa [wanted, Wanted] using hw
      have hempty : (m.unit i).chain = {} := by
        refine (hm.chain i).resolve_right fun h => hidle h.running
      have hs := startUnitLocked_spec platform (.inl hempty)
      have hne (j : Slot) (hj : (m.unit j).chain.Live) : j ≠ i := by
        rintro rfl
        exact hidle hj.running
      have hnw (j : Slot) (hj : ¬ Wanted first m j) : j ≠ i := by
        rintro rfl
        exact hj hreq
      match hr : startUnitLocked platform i m, hs with
      | (true, m'), hs =>
        have hlive := hs.live rfl
        have hm' : Sound m' := hs.step.sound hm (.inr hlive) (hs.ledger (hm.ledger i))
        have hrest := ih hm'
        refine ⟨hrest.books.trans hs.step.books, fun _ => hrest.sound hm',
          hrest.jpeg.trans hs.step.jpeg, hrest.up.trans hs.step.up, ?_, ?_, ?_⟩
        · intro ht j hj hwj
          rcases List.mem_cons.mp hj with rfl | hj
          · rw [hrest.kept j hlive]; exact hlive
          · exact hrest.live ht j hj ((Wanted.of_books hs.step.books j).mpr hwj)
        · intro j hj
          have hc := hs.step.chain j (hne j hj)
          rw [hrest.kept j (by rw [hc]; exact hj), hc]
        · intro j hj
          have hc := hs.step.chain j (hnw j hj)
          rw [hrest.idle j fun h => hj ((Wanted.of_books hs.step.books j).mp h), hc]
      -- the first failure ends the walk
      | (false, m'), hs =>
        have hm' : Sound m' := hs.step.sound hm (.inl (hs.idle rfl)) (hs.ledger (hm.ledger i))
        exact ⟨hs.step.books, fun _ => hm', hs.step.jpeg, hs.step.up, by simp,
          fun j hj => hs.step.chain j (hne j hj), fun j hj => hs.step.chain j (hnw j hj)⟩
    · rw [if_neg hw]
      have hrest := ih hm
      refine ⟨hrest.books, hrest.sound, hrest.jpeg, hrest.up, ?_, hrest.kept, hrest.idle⟩
      intro ht j hj hwj
      rcases List.mem_cons.mp hj with rfl | hj
      · have hlive : (m.unit j).chain.Live := by
          refine hm.running (by_contra fun hnr => hw ?_)
          simpa [wanted, Wanted, hnr] using hwj
        rw [hrest.kept j hlive]; exact hlive
      · exact hrest.live ht j hj hwj

/-- From `m` to `m'` the log has at most grown by calls that acquire and undo nothing. -/
structure Quiet (m m' : PipelineManager) : Prop where
  books : m'.books = m.books
  units : m'.units = m.units
  jpeg : m'.jpeg = m.jpeg
  up : platformUp m'.log = platformUp m.log
  ledger : ∀ i, ledger i m'.log = ledger i m.log
  jpegLedger : jpegLedger m'.log = jpegLedger m.log

namespace Quiet

theorem refl (m : PipelineManager) : Quiet m m := ⟨rfl, rfl, rfl, rfl, fun _ => rfl, rfl⟩

theorem trans {a b c : PipelineManager} (h : Quiet a b) (h' : Quiet b c) : Quiet a c :=
  ⟨h'.books.trans h.books, h'.units.trans h.units, h'.jpeg.trans h.jpeg, h'.up.trans h.up,
    fun i => (h'.ledger i).trans (h.ledger i), h'.jpegLedger.trans h.jpegLedger⟩

theorem setSensorFps (m : PipelineManager) (fps : Int) (r : Result) :
    Quiet m (m.tell (.setSensorFps fps r)) := by
  refine ⟨rfl, rfl, rfl, ?_, fun i => ?_, ?_⟩
  · simp [platformUp]
  · simp [Lifecycle.ledger, Call.entry]
  · simp [Lifecycle.jpegLedger, Call.jpegEntry]

theorem postStart (m : PipelineManager) : Quiet m (m.tell .postStart) := by
  refine ⟨rfl, rfl, rfl, ?_, fun i => ?_, ?_⟩
  · simp [platformUp]
  · simp [Lifecycle.ledger, Call.entry]
  · simp [Lifecycle.jpegLedger, Call.jpegEntry]

theorem unit {m m' : PipelineManager} (h : Quiet m m') (i : Slot) : m'.unit i = m.unit i :=
  congrArg (fun us => us.get i) h.units

theorem sound {m m' : PipelineManager} (h : Quiet m m') (hm : Sound m) : Sound m' :=
  hm.of_eq (fun i => by rw [h.unit i]) (by rw [h.jpeg]) h.ledger h.jpegLedger

end Quiet

/-- What bringing the base up may do: everything wanted runs, or nothing does. -/
structure BaseStartSpec (first : Option UnitId) (m : PipelineManager)
    (r : Bool × PipelineManager) : Prop where
  books : r.2.books = m.books
  sound : Sound r.2
  cold : r.1 = false → Cold r.2
  up : r.1 = true → platformUp r.2.log = true
  jpeg : r.1 = true → r.2.jpeg = m.jpeg
  live : r.1 = true → ∀ i, Wanted first m i → (r.2.unit i).chain.Live
  idle : r.1 = true → ∀ i, ¬ Wanted first m i → (r.2.unit i).chain = (m.unit i).chain

theorem startBaseTail_quiet (m : PipelineManager) : Quiet m (startBaseTail platform m) := by
  unfold startBaseTail
  dsimp only
  have hfps : Quiet m (if 0 < m.sensorFpsTarget then
      m.tell (.setSensorFps m.sensorFpsTarget (platform m.log.length)) else m) := by
    split
    · exact .setSensorFps m _ _
    · exact .refl m
  generalize (if 0 < m.sensorFpsTarget then _ else m) = m₁ at hfps ⊢
  have hhook : Quiet m₁ (if m₁.postStart then m₁.tell .postStart else m₁) := by
    split
    · exact .postStart m₁
    · exact .refl m₁
  exact (hfps.trans hhook).trans ⟨rfl, rfl, rfl, rfl, fun _ => rfl, rfl⟩

theorem startBaseLocked_spec (first : Option UnitId) {m : PipelineManager} (hm : Sound m) :
    BaseStartSpec first m (startBaseLocked platform first m) := by
  unfold startBaseLocked
  dsimp only
  generalize platform m.log.length = r
  generalize hm₁ : PipelineManager.tell { m with startCount := _, lastError := "" } (.bringUp r) = m₁
  have hbooks : m₁.books = m.books := by rw [← hm₁]; rfl
  have hunit (i : Slot) : m₁.unit i = m.unit i := by rw [← hm₁]; rfl
  have hjpeg : m₁.jpeg = m.jpeg := by rw [← hm₁]; rfl
  have hup : platformUp m₁.log = (r.isOk || platformUp m.log) := by rw [← hm₁]; simp
  have hsound : Sound m₁ := by
    refine hm.of_eq (fun i => by rw [hunit i]) (by rw [hjpeg]) ?_ ?_
    · intro i; simp [← hm₁, ledger, Call.entry]
    · simp [← hm₁, jpegLedger, Call.jpegEntry]
  by_cases hr : r.isOk = true
  · rw [if_pos hr]
    have hw := startWanted_spec platform first [.main, .sub] hsound
    generalize startWanted platform first [.main, .sub] m₁ = out at hw ⊢
    obtain ⟨ok, m₂⟩ := out
    cases ok with
    -- a unit failed to start: everything comes down again, the platform included
    | false =>
      have hstop := stopBaseLocked_spec m₂
      dsimp only
      generalize stopBaseLocked m₂ = m₃ at hstop ⊢
      exact ⟨hstop.books.trans (hw.books.trans hbooks),
        (hstop.sound (hw.sound hsound)).of_eq (fun _ => rfl) rfl (fun _ => rfl) rfl,
        fun _ => hstop.cold.of_eq (fun _ => rfl) rfl rfl, by simp, by simp, by simp, by simp⟩
    | true =>
      have hup₂ : platformUp m₂.log = true := by rw [hw.up, hup, hr]; rfl
      have hwanted (i : Slot) : Wanted first m₁ i ↔ Wanted first m i := Wanted.of_books hbooks i
      have hquiet := startBaseTail_quiet platform m₂
      refine ⟨hquiet.books.trans (hw.books.trans hbooks), hquiet.sound (hw.sound hsound), by simp,
        fun _ => hquiet.up.trans hup₂, fun _ => hquiet.jpeg.trans (hw.jpeg.trans hjpeg),
        fun _ i hi => ?_, fun _ i hi => ?_⟩
      · change ((startBaseTail platform m₂).unit i).chain.Live
        rw [hquiet.unit i]
        exact hw.live rfl i (by cases i <;> decide) ((hwanted i).mpr hi)
      · change ((startBaseTail platform m₂).unit i).chain = _
        rw [hquiet.unit i, hw.idle i fun h => hi ((hwanted i).mp h), hunit i]
  · rw [if_neg hr]
    have hstop := stopBaseLocked_spec
      { m₁ with lastError := "platform bring-up failed (" ++ toString r.code ++ ")" }
    generalize stopBaseLocked _ = m₂ at hstop ⊢
    exact ⟨hstop.books.trans hbooks,
      (hstop.sound (hsound.of_eq (fun _ => rfl) rfl (fun _ => rfl) rfl)).of_eq
        (fun _ => rfl) rfl (fun _ => rfl) rfl,
      fun _ => hstop.cold.of_eq (fun _ => rfl) rfl rfl, by simp, by simp, by simp, by simp⟩

end platform

end Machino.Lifecycle
