import Machino.Basic.Runs
import Machino.Media.ImageCalls

namespace Machino.Media

open Api Power Runs

namespace World

variable (w : World)

/-- What a control is held at, past an override that is about to be undone. -/
def hold (c : ImageControl) : ℤ :=
  match w.night with
  | some (.undo d before) => if d = c then before else w.service.override c
  | _ => w.service.override c

/-- The night mode has yet to write what it holds. -/
def Owes (c : ImageControl) : Prop := w.night = some (.write c (w.hold c))

/-- Nothing is under way, and the pipeline runs. -/
def Settled : Prop := (∀ i, w.http i = none) ∧ w.night = none ∧ w.pipeline = .running

/-- Every control under override has its value. -/
def Held : Prop := w.Settled → ∀ c, 0 ≤ w.service.override c →
  w.isp c = some (w.service.override c)

/-- What a start leaves of a control. -/
def written (c : ImageControl) : Option ℤ :=
  if w.service.image = false ∨ w.wanted c < 0 then none else some (w.wanted c)

/-- No call, no hold and no picture. -/
def Fresh : Prop :=
  (∀ i, w.http i = none) ∧ w.night = none ∧ w.pipeline = .down ∧ ∀ c, w.service.override c < 0

/-- An HTTP thread does not write past a hold that has come into force since it looked, and a start
does not copy an override that is about to be undone to another hold. -/
def Fair : Step → Prop
  | .http i _ => ∀ c value, w.http i = some (.write c value) → w.pipeline = .running →
      0 ≤ w.hold c → value = w.hold c ∨ w.Owes c
  | .apply _ => ∀ thread c before, w.pipeline = .opening thread →
      w.night = some (.undo c before) → 0 ≤ before → w.wanted c = before
  | _ => True

/-- The held value is there, or a start is still to write it. -/
def InForce (c : ImageControl) : Prop :=
  match w.pipeline with
  | .down => True
  | .opening _ => True
  | .applying _ values todo =>
    (c ∈ todo → values c = w.hold c) ∧ (c ∉ todo → w.isp c = some (w.hold c))
  | .noting _ values _ _ todo =>
    (c ∈ todo → values c = w.hold c) ∧ (c ∉ todo → w.isp c = some (w.hold c))
  | .running => w.isp c = some (w.hold c)

structure Kept : Prop where
  force : ∀ c, 0 ≤ w.hold c → w.Owes c ∨ w.InForce c
  image : ∀ c, 0 ≤ w.hold c → w.service.image = true
  owed : ∀ c value, w.night = some (.write c value) → w.hold c < 0 ∨ value = w.hold c

variable {w}

theorem kept_of_fresh (h : w.Fresh) : w.Kept := by
  obtain ⟨-, hnight, hpipe, hover⟩ := h
  have hhold (c : ImageControl) : w.hold c < 0 := by
    rw [hold, hnight]
    exact hover c
  refine ⟨fun c hc => ?_, fun c hc => ?_, fun c value hw => ?_⟩
  · exact absurd hc (not_le.mpr (hhold c))
  · exact absurd hc (not_le.mpr (hhold c))
  · exact .inl (hhold c)

theorem Kept.held (h : w.Kept) : w.Held := by
  rintro ⟨-, hnight, hpipe⟩ c hc
  have hhold : w.hold c = w.service.override c := by rw [hold, hnight]
  rcases h.force c (by rwa [hhold]) with howes | hforce
  · rw [Owes, hnight] at howes
    exact absurd howes (by simp)
  · rw [InForce, hpipe, hhold] at hforce
    exact hforce

theorem hold_congr {v : World} (hnight : v.night = w.night)
    (hover : v.service.override = w.service.override) (c : ImageControl) : v.hold c = w.hold c := by
  unfold hold
  rw [hnight, hover]

/-- Nothing that is about the holds has changed. -/
theorem Kept.of_eq (h : w.Kept) {v : World} (himage : v.service.image = w.service.image)
    (hover : v.service.override = w.service.override) (hisp : v.isp = w.isp)
    (hpipe : v.pipeline = w.pipeline) (hnight : v.night = w.night) : v.Kept := by
  have hhold := hold_congr hnight hover
  refine ⟨fun c hc => ?_, fun c hc => ?_, fun c value hw => ?_⟩
  · rw [hhold] at hc
    unfold Owes InForce
    rw [hnight, hpipe, hisp, hhold]
    exact h.force c hc
  · rw [hhold] at hc
    rw [himage]
    exact h.image c hc
  · rw [hnight] at hw
    rw [hhold]
    exact h.owed c value hw

/-- A pipeline that stops, or that starts anew, owes every value again. -/
theorem Kept.of_closed (h : w.Kept) {v : World} (himage : v.service.image = w.service.image)
    (hover : v.service.override = w.service.override) (hnight : v.night = w.night)
    (hpipe : v.pipeline = .down ∨ ∃ thread, v.pipeline = .opening thread) : v.Kept := by
  have hhold := hold_congr hnight hover
  refine ⟨fun c _ => .inr ?_, fun c hc => ?_, fun c value hw => ?_⟩
  · unfold InForce
    rcases hpipe with hpipe | ⟨thread, hpipe⟩
    · rw [hpipe]
      trivial
    · rw [hpipe]
      trivial
  · rw [hhold] at hc
    rw [himage]
    exact h.image c hc
  · rw [hnight] at hw
    rw [hhold]
    exact h.owed c value hw

theorem Kept.setImage (h : w.Kept) (i : ℕ) (c : ImageControl) (value : ℤ) (record : Bool) :
    (w.setImage i c value record).Kept := by
  unfold World.setImage
  split
  · dsimp only
    split_ifs
    · exact h.of_eq rfl rfl rfl rfl rfl
    · exact h.of_eq rfl rfl rfl rfl rfl
    · exact h.of_eq rfl rfl rfl rfl rfl
    · exact h.of_eq rfl rfl rfl rfl rfl
  · exact h

theorem Kept.clearImage (h : w.Kept) (i : ℕ) (c : ImageControl) : (w.clearImage i c).Kept := by
  unfold World.clearImage
  split
  · exact h
  · split_ifs
    · exact h
    · exact h.of_eq rfl rfl rfl rfl rfl

/-- A write of the held value, or one that the night mode's own follows. -/
theorem Kept.write (h : w.Kept) (hpipe : w.pipeline = .running) {c : ImageControl} {value : ℤ}
    (hfair : 0 ≤ w.hold c → value = w.hold c ∨ w.Owes c) : (w.write c value).Kept := by
  have hhold (d : ImageControl) : (w.write c value).hold d = w.hold d := rfl
  refine ⟨fun d hd => ?_, h.image, h.owed⟩
  rw [hhold] at hd
  have howes : (w.write c value).Owes d ↔ w.Owes d := Iff.rfl
  rw [howes]
  by_cases hdc : d = c
  · subst hdc
    rcases hfair hd with hvalue | howes
    · refine .inr ?_
      unfold InForce
      have hrunning : (w.write d value).pipeline = .running := hpipe
      rw [hrunning, hhold, ← hvalue]
      exact if_pos rfl
    · exact .inl howes
  · refine (h.force d hd).imp_right fun hforce => ?_
    unfold InForce at hforce ⊢
    have hrunning : (w.write c value).pipeline = .running := hpipe
    rw [hpipe] at hforce
    rw [hrunning, hhold, ← hforce]
    exact if_neg hdc

theorem Kept.httpNext (h : w.Kept) {i : ℕ} {eff : ℤ} (hfair : w.Fair (.http i eff)) :
    (w.httpNext i eff).Kept := by
  unfold World.httpNext
  split
  · rename_i c value hcall hpipe
    exact (h.write hpipe (hfair c value hcall hpipe)).of_eq rfl rfl rfl rfl rfl
  · exact h.of_eq rfl rfl rfl rfl rfl
  · exact h.of_eq rfl rfl rfl rfl rfl
  · exact h.of_eq rfl rfl rfl rfl rfl
  · exact h.of_eq rfl rfl rfl rfl rfl
  · exact h.of_closed rfl rfl rfl (.inr ⟨some i, rfl⟩)
  · exact h.of_eq rfl rfl rfl rfl rfl
  · exact h

/-- With no call of the night mode under way nothing is owed. -/
theorem Kept.inForce (h : w.Kept) (hnight : ∀ c value, w.night ≠ some (.write c value))
    {c : ImageControl} (hc : 0 ≤ w.hold c) : w.InForce c :=
  (h.force c hc).resolve_left (hnight c _)

theorem image_of_checkImage {s : Tuning} {c : ImageControl} {value : ℤ} {u : Unit}
    (h : s.checkImage c value = .ok u) : s.image = true := by
  unfold Tuning.checkImage at h
  split_ifs at h with h1
  by_contra himage
  exact h1 (.inl (by simpa using himage))

/-- The same holds but for one control, for a night mode that owes none but that one. -/
theorem Kept.of_hold (h : w.Kept) {v : World} {c : ImageControl}
    (hnight : ∀ c value, w.night ≠ some (.write c value))
    (himage : v.service.image = w.service.image) (hisp : v.isp = w.isp)
    (hpipe : v.pipeline = w.pipeline) (hother : ∀ d, d ≠ c → v.hold d = w.hold d)
    (hhere : v.hold c = w.hold c ∨ v.hold c < 0 ∨ v.service.image = true ∧ v.Owes c)
    (howed : ∀ d value, v.night = some (.write d value) → v.hold d < 0 ∨ value = v.hold d) :
    v.Kept := by
  have hsame {d : ImageControl} (hd : v.hold d = w.hold d) (h0 : 0 ≤ v.hold d) : v.InForce d := by
    have hforce := h.inForce hnight (hd ▸ h0)
    unfold InForce at hforce ⊢
    rwa [hpipe, hisp, hd]
  refine ⟨fun d hd => ?_, fun d hd => ?_, howed⟩
  · by_cases hdc : d = c
    · subst hdc
      rcases hhere with hhere | hhere | ⟨-, howes⟩
      · exact .inr (hsame hhere hd)
      · exact absurd hd (not_le.mpr hhere)
      · exact .inl howes
    · exact .inr (hsame (hother d hdc) hd)
  · by_cases hdc : d = c
    · subst hdc
      rcases hhere with hhere | hhere | ⟨himage', -⟩
      · rw [himage]
        exact h.image d (hhere ▸ hd)
      · exact absurd hd (not_le.mpr hhere)
      · exact himage'
    · rw [himage]
      exact h.image d (hother d hdc ▸ hd)

theorem hold_of_night (h : w.night = none) (c : ImageControl) :
    w.hold c = w.service.override c := by
  rw [hold, h]

theorem Kept.setImageOverride (h : w.Kept) (c : ImageControl) (value : ℤ) :
    (w.setImageOverride c value).Kept := by
  unfold World.setImageOverride
  split
  · exact h
  · rename_i hnight
    have hidle : ∀ c value, w.night ≠ some (.write c value) := by
      rw [hnight]
      exact fun _ _ => by simp
    cases hcheck : w.service.checkImage c value with
    | ok u =>
      refine h.of_hold (c := c) hidle rfl rfl rfl (fun d hd => ?_) (.inr (.inr ?_)) ?_
      · rw [hold_of_night hnight]
        exact if_neg hd
      · refine ⟨image_of_checkImage hcheck, ?_⟩
        have hhold : update w.service.override c value c = value := if_pos rfl
        exact congrArg (fun v => some (NightCall.write c v)) hhold.symm
      · intro d v hw
        obtain ⟨rfl, rfl⟩ := NightCall.write.inj (Option.some.inj hw)
        exact .inr (if_pos rfl).symm
    | error e =>
      refine h.of_hold (c := c) hidle rfl rfl rfl (fun d hd => ?_) (.inl ?_) ?_
      · rw [hold_of_night hnight]
        exact (if_neg (Ne.symm hd)).trans (if_neg hd)
      · rw [hold_of_night hnight]
        exact if_pos rfl
      · intro d v hw
        exact absurd (Option.some.inj hw) (by simp)

theorem Kept.clearImageOverride (h : w.Kept) (c : ImageControl) (fallback : ℤ) :
    (w.clearImageOverride c fallback).Kept := by
  unfold World.clearImageOverride
  split
  · exact h
  · rename_i hnight
    dsimp only
    generalize (if w.service.requested c < 0 then fallback else w.service.requested c) = back
    have hidle : ∀ c value, w.night ≠ some (.write c value) := by
      rw [hnight]
      exact fun _ _ => by simp
    have hgone : update w.service.override c (-1) c < 0 := by
      rw [update, if_pos rfl]
      decide
    split_ifs
    · refine h.of_hold (c := c) hidle rfl rfl rfl (fun d hd => ?_) (.inr (.inl hgone)) ?_
      · rw [hold_of_night hnight]
        exact if_neg hd
      · intro d v hw
        exact absurd (Option.some.inj hw) (by simp)
    · refine h.of_hold (c := c) hidle rfl rfl rfl (fun d hd => ?_) (.inr (.inl hgone)) ?_
      · rw [hold_of_night hnight]
        exact if_neg hd
      · intro d v hw
        exact absurd hw (by simp)

/-- The night mode's own write, after which it owes nothing. -/
theorem Kept.paid (h : w.Kept) {c : ImageControl} {value : ℤ}
    (hnight : w.night = some (.write c value)) (hpipe : w.pipeline = .running) (eff : ℤ) :
    { w.write c value with night := some (.note c eff) }.Kept := by
  have hhold (d : ImageControl) :
      { w.write c value with night := some (.note c eff) }.hold d = w.hold d := by
    rw [hold, hold, hnight]
    rfl
  refine ⟨fun d hd => .inr ?_, fun d hd => h.image d (hhold d ▸ hd), fun d v hw => ?_⟩
  · rw [hhold] at hd
    have hrunning :
        { w.write c value with night := some (.note c eff) }.pipeline = .running := hpipe
    unfold InForce
    rw [hrunning, hhold]
    by_cases hdc : d = c
    · subst hdc
      have hvalue := (h.owed d value hnight).resolve_left (not_lt.mpr hd)
      exact hvalue ▸ if_pos rfl
    · have hforce := (h.force d hd).resolve_left fun howes => by
        rw [Owes, hnight] at howes
        exact hdc (NightCall.write.inj (Option.some.inj howes)).1.symm
      rw [InForce, hpipe] at hforce
      exact (if_neg hdc).trans hforce
  · exact absurd (Option.some.inj hw) (by simp)

theorem Kept.nightNext (h : w.Kept) (eff : ℤ) : (w.nightNext eff).Kept := by
  unfold World.nightNext
  split
  · rename_i c value hnight hpipe
    exact h.paid hnight hpipe eff
  · rename_i c value hnight hpipe
    have hhold (d : ImageControl) : { w with night := none }.hold d = w.hold d := by
      rw [hold, hold, hnight]
    refine ⟨fun d _ => .inr ?_, fun d hd => h.image d (hhold d ▸ hd), fun d v hw => ?_⟩
    · have hdown : { w with night := none }.pipeline = .down := hpipe
      rw [InForce, hdown]
      trivial
    · exact absurd hw (by simp)
  · rename_i c e hnight
    have hidle : ∀ c value, w.night ≠ some (.write c value) := by simp [hnight]
    have hhold (d : ImageControl) : { w.noted c e with night := none }.hold d = w.hold d := by
      rw [hold, hold, hnight]
      rfl
    exact h.of_hold (c := c) hidle rfl rfl rfl (fun d _ => hhold d) (.inl (hhold c))
      fun d v hw => absurd hw (by simp)
  · rename_i c before hnight
    have hidle : ∀ c value, w.night ≠ some (.write c value) := by simp [hnight]
    refine h.of_hold (c := c) hidle rfl rfl rfl (fun d hd => ?_) (.inl ?_)
      fun d v hw => absurd hw (by simp)
    · rw [hold, hold, hnight]
      exact (if_neg hd).trans (if_neg (Ne.symm hd)).symm
    · rw [hold, hold, hnight]
      exact (if_pos rfl).trans (if_pos rfl).symm
  · rename_i c value hnight
    have hidle : ∀ c value, w.night ≠ some (.write c value) := by simp [hnight]
    have hhold (d : ImageControl) : w.hold d = w.service.override d := by rw [hold, hnight]
    split
    · exact h.of_hold (c := c) hidle rfl rfl rfl (fun d _ => (hhold d).symm) (.inl (hhold c).symm)
        fun d v hw => absurd hw (by simp)
    · split_ifs with hheld
      · exact h.of_hold (c := c) hidle rfl rfl rfl (fun d _ => (hhold d).symm)
          (.inl (hhold c).symm) fun d v hw => absurd hw (by simp)
      · refine h.of_hold (c := c) hidle rfl rfl rfl (fun d _ => (hhold d).symm)
          (.inl (hhold c).symm) fun d v hw => ?_
        obtain ⟨rfl, rfl⟩ := NightCall.write.inj (Option.some.inj hw)
        exact .inl (not_le.mp hheld)
  · exact h

theorem Kept.wake (h : w.Kept) (thread : Option ℕ) : (w.wake thread).Kept := by
  cases thread with
  | none => exact h
  | some i => exact h.of_eq rfl rfl rfl rfl rfl

theorem Kept.start (h : w.Kept) : w.start.Kept := by
  unfold World.start
  split
  · exact h.of_closed rfl rfl rfl (.inr ⟨none, rfl⟩)
  · exact h

theorem Kept.fail (h : w.Kept) : w.fail.Kept := by
  unfold World.fail
  split
  · refine Kept.wake ?_ _
    exact h.of_closed rfl rfl rfl (.inl rfl)
  · exact h

theorem Kept.stop (h : w.Kept) : w.stop.Kept := by
  unfold World.stop
  split
  · exact h.of_closed rfl rfl rfl (.inl rfl)
  · exact h

theorem mem_all (c : ImageControl) : c ∈ ImageControl.all := by
  cases c <;> decide

/-- The same holds, for a pipeline that has gone on with its start. -/
theorem Kept.of_force (h : w.Kept) {v : World} (himage : v.service.image = w.service.image)
    (hover : v.service.override = w.service.override) (hnight : v.night = w.night)
    (hforce : ∀ c, 0 ≤ w.hold c → w.InForce c → v.InForce c) : v.Kept := by
  have hhold := hold_congr hnight hover
  refine ⟨fun c hc => ?_, fun c hc => ?_, fun c value hw => ?_⟩
  · rw [hhold] at hc
    unfold Owes
    rw [hnight, hhold]
    exact (h.force c hc).imp_right (hforce c hc)
  · rw [himage]
    exact h.image c (hhold c ▸ hc)
  · rw [hnight] at hw
    rw [hhold]
    exact h.owed c value hw

/-- What a start copies for a held control is what it is held at. -/
theorem wanted_eq_hold {eff : ℤ} (hfair : w.Fair (.apply eff)) {thread : Option ℕ}
    (hpipe : w.pipeline = .opening thread) {c : ImageControl} (hc : 0 ≤ w.hold c) :
    w.wanted c = w.hold c := by
  have hover (hhold : w.hold c = w.service.override c) : w.wanted c = w.hold c := by
    rw [wanted, hhold, if_pos (hhold ▸ hc)]
  cases hnight : w.night with
  | none => exact hover (hold_of_night hnight c)
  | some call =>
    cases call with
    | undo d before =>
      by_cases hdc : d = c
      · subst hdc
        have hhold : w.hold d = before := by
          rw [hold, hnight]
          exact if_pos rfl
        rw [hhold]
        exact hfair thread d before hpipe hnight (hhold ▸ hc)
      · apply hover
        rw [hold, hnight]
        exact if_neg hdc
    | write d value => exact hover (by rw [hold, hnight])
    | note d e => exact hover (by rw [hold, hnight])
    | giveBack d value => exact hover (by rw [hold, hnight])

theorem Kept.applyNext (h : w.Kept) {eff : ℤ} (hfair : w.Fair (.apply eff)) :
    (w.applyNext eff).Kept := by
  unfold World.applyNext
  split
  · rename_i thread hpipe
    refine h.of_force rfl rfl rfl fun c hc _ => ⟨fun _ => wanted_eq_hold hfair hpipe hc, ?_⟩
    rw [if_pos (h.image c hc)]
    exact fun hnot => absurd (mem_all c) hnot
  · rename_i thread values c todo hpipe
    split_ifs with hneg
    · refine h.of_force rfl rfl rfl fun d hd hforce => ?_
      rw [InForce, hpipe] at hforce
      refine ⟨fun hmem => hforce.1 (List.mem_cons_of_mem c hmem), fun hnot => ?_⟩
      by_cases hdc : d = c
      · subst hdc
        have hvalue := hforce.1 List.mem_cons_self
        exact absurd hneg (not_lt.mpr (hvalue ▸ hd))
      · exact hforce.2 (List.not_mem_cons_of_ne_of_not_mem hdc hnot)
    · refine h.of_force rfl rfl rfl fun d hd hforce => ?_
      rw [InForce, hpipe] at hforce
      refine ⟨fun hmem => hforce.1 (List.mem_cons_of_mem c hmem), fun hnot => ?_⟩
      by_cases hdc : d = c
      · subst hdc
        exact (if_pos rfl).trans (congrArg some (hforce.1 List.mem_cons_self))
      · exact (if_neg hdc).trans (hforce.2 (List.not_mem_cons_of_ne_of_not_mem hdc hnot))
  · rename_i thread values c e todo hpipe
    refine h.of_force rfl rfl rfl fun d hd hforce => ?_
    rw [InForce, hpipe] at hforce
    exact hforce
  · rename_i thread values hpipe
    refine Kept.wake ?_ thread
    refine h.of_force rfl rfl rfl fun d hd hforce => ?_
    rw [InForce, hpipe] at hforce
    exact hforce.2 List.not_mem_nil
  · exact h

theorem Kept.next (h : w.Kept) {step : Step} (hfair : w.Fair step) : (w.next step).Kept := by
  cases step with
  | setImage i c value record => exact h.setImage i c value record
  | clearImage i c => exact h.clearImage i c
  | http i eff => exact h.httpNext hfair
  | setImageOverride c value => exact h.setImageOverride c value
  | clearImageOverride c fallback => exact h.clearImageOverride c fallback
  | night eff => exact h.nightNext eff
  | start => exact h.start
  | fail => exact h.fail
  | stop => exact h.stop
  | apply eff => exact h.applyNext hfair

/-- How far a start has come that no call overlaps. -/
def Starts (w : World) : Prop :=
  match w.pipeline with
  | .opening _ => ∀ c, w.isp c = none
  | .applying _ values todo =>
    values = w.wanted ∧ (todo ≠ [] → w.service.image = true) ∧
      ∀ c, w.isp c = w.written c ∨ c ∈ todo ∧ w.isp c = none
  | .noting _ values _ _ todo =>
    values = w.wanted ∧ (todo ≠ [] → w.service.image = true) ∧
      ∀ c, w.isp c = w.written c ∨ c ∈ todo ∧ w.isp c = none
  | .running => ∀ c, w.isp c = w.written c
  | .down => True

theorem Starts.wake (h : w.Starts) (thread : Option ℕ) : (w.wake thread).Starts := by
  cases thread with
  | none => exact h
  | some i => exact h

theorem Starts.applyNext (h : w.Starts) (eff : ℤ) : (w.applyNext eff).Starts := by
  unfold World.applyNext
  split
  · rename_i thread hpipe
    rw [Starts, hpipe] at h
    refine ⟨rfl, fun hne => ?_, fun c => ?_⟩
    · by_contra himage
      exact hne (if_neg himage)
    · cases himage : w.service.image with
      | true => exact .inr ⟨by rw [if_pos rfl]; exact mem_all c, h c⟩
      | false => exact .inl ((h c).trans (if_pos (.inl himage)).symm)
  · rename_i thread values c todo hpipe
    rw [Starts, hpipe] at h
    obtain ⟨hvalues, himage, hisp⟩ := h
    have hhere := himage (List.cons_ne_nil c todo)
    split_ifs with hneg
    · refine ⟨hvalues, fun _ => hhere, fun d => ?_⟩
      rcases hisp d with hd | ⟨hmem, hd⟩
      · exact .inl hd
      · rcases List.mem_cons.mp hmem with rfl | hmem
        · exact .inl (hd.trans (if_pos (.inr (hvalues ▸ hneg))).symm)
        · exact .inr ⟨hmem, hd⟩
    · refine ⟨hvalues, fun _ => hhere, fun d => ?_⟩
      by_cases hdc : d = c
      · subst hdc
        have hwritten : w.written d = some (values d) := by
          rw [written, if_neg (by simpa [hhere, ← hvalues] using hneg), hvalues]
        exact .inl ((if_pos rfl).trans hwritten.symm)
      · have hisp' : (w.write c (values c)).isp d = w.isp d := if_neg hdc
        rcases hisp d with hd | ⟨hmem, hd⟩
        · exact .inl (hisp'.trans hd)
        · exact .inr ⟨List.mem_of_ne_of_mem hdc hmem, hisp'.trans hd⟩
  · rename_i thread values c e todo hpipe
    rw [Starts, hpipe] at h
    exact h
  · rename_i thread values hpipe
    rw [Starts, hpipe] at h
    refine Starts.wake ?_ thread
    exact fun c => (h.2.2 c).resolve_right fun hmem => List.not_mem_nil hmem.1
  · exact h

theorem pipeline_setImage (i : ℕ) (c : ImageControl) (value : ℤ) (record : Bool) :
    (w.setImage i c value record).pipeline = w.pipeline := by
  unfold World.setImage
  split
  · dsimp only
    split_ifs
    · rfl
    · rfl
    · rfl
    · rfl
  · rfl

theorem pipeline_clearImage (i : ℕ) (c : ImageControl) :
    (w.clearImage i c).pipeline = w.pipeline := by
  unfold World.clearImage
  split
  · rfl
  · split_ifs
    · rfl
    · rfl

theorem pipeline_setImageOverride (c : ImageControl) (value : ℤ) :
    (w.setImageOverride c value).pipeline = w.pipeline := by
  unfold World.setImageOverride
  split
  · rfl
  · rfl

theorem pipeline_clearImageOverride (c : ImageControl) (fallback : ℤ) :
    (w.clearImageOverride c fallback).pipeline = w.pipeline := by
  unfold World.clearImageOverride
  split
  · rfl
  · rfl

theorem pipeline_nightNext (eff : ℤ) : (w.nightNext eff).pipeline = w.pipeline := by
  unfold World.nightNext
  split
  · rfl
  · rfl
  · rfl
  · rfl
  · split
    · rfl
    · split_ifs
      · rfl
      · rfl
  · rfl

/-- A call that restarts the pipeline finds nothing written. -/
theorem httpNext_cases (i : ℕ) (eff : ℤ) :
    (w.httpNext i eff).pipeline = w.pipeline ∨ ∀ c, (w.httpNext i eff).isp c = none := by
  unfold World.httpNext
  split
  · exact .inl rfl
  · exact .inl rfl
  · exact .inl rfl
  · exact .inl rfl
  · exact .inl rfl
  · exact .inr fun _ => rfl
  · exact .inl rfl
  · exact .inl rfl

theorem isp_of_opening {first : Step} {thread : Option ℕ}
    (hfree : w.pipeline = .down ∨ w.pipeline = .running)
    (hopen : (w.next first).pipeline = .opening thread) : ∀ c, (w.next first).isp c = none := by
  have hnot : w.pipeline ≠ .opening thread := by
    rcases hfree with h | h
    · simp [h]
    · simp [h]
  cases first with
  | setImage i c value record =>
    exact absurd ((pipeline_setImage i c value record).symm.trans hopen) hnot
  | clearImage i c => exact absurd ((pipeline_clearImage i c).symm.trans hopen) hnot
  | http i eff =>
    rcases w.httpNext_cases i eff with hsame | hnone
    · exact absurd (hsame.symm.trans hopen) hnot
    · exact hnone
  | setImageOverride c value =>
    exact absurd ((pipeline_setImageOverride c value).symm.trans hopen) hnot
  | clearImageOverride c fallback =>
    exact absurd ((pipeline_clearImageOverride c fallback).symm.trans hopen) hnot
  | night eff => exact absurd ((pipeline_nightNext eff).symm.trans hopen) hnot
  | start =>
    rw [World.next, World.start] at hopen ⊢
    split at hopen
    · exact fun _ => rfl
    · exact absurd hopen hnot
  | fail =>
    rw [World.next, World.fail] at hopen
    rcases hfree with h | h
    · rw [h] at hopen
      exact absurd (h.symm.trans hopen) (by simp)
    · rw [h] at hopen
      exact absurd (h.symm.trans hopen) (by simp)
  | stop =>
    rw [World.next, World.stop] at hopen
    split at hopen
    · exact absurd hopen (by simp)
    · exact absurd hopen hnot
  | apply eff =>
    rw [World.next, World.applyNext] at hopen
    rcases hfree with h | h
    · rw [h] at hopen
      exact absurd (h.symm.trans hopen) (by simp)
    · rw [h] at hopen
      exact absurd (h.symm.trans hopen) (by simp)

end World

/-- A start that no call overlaps, up to where the pipeline runs. -/
def StartsClean (w : World) : Prop :=
  ∀ (first : Step) (thread : Option ℕ) (effs : List ℤ),
    w.pipeline = .down ∨ w.pipeline = .running → (w.next first).pipeline = .opening thread →
      (run World.applyNext (w.next first) effs).pipeline = .running →
        ∀ c, (run World.applyNext (w.next first) effs).isp c =
          (run World.applyNext (w.next first) effs).written c

theorem startsClean (w : World) : StartsClean w := by
  intro first thread effs hfree hopen hrunning c
  have hstart : (w.next first).Starts := by
    rw [World.Starts, hopen]
    exact World.isp_of_opening hfree hopen
  have hrun : (run World.applyNext (w.next first) effs).Starts :=
    run_invariant (fun _ eff h => h.applyNext eff) hstart effs
  rw [World.Starts, hrunning] at hrun
  exact hrun c

/-- Where every step is fair the held controls stay held, and a start sets what it should. -/
theorem held_of_fair {w : World} (h : w.Fresh) {steps : List Step}
    (hfair : Along World.next World.Fair w steps) :
    Always World.next (fun v => v.Held ∧ StartsClean v) w steps :=
  (always_of_along (fun _ _ h hfair => h.next hfair) (World.kept_of_fresh h) hfair).mono
    fun v hv => ⟨hv.held, startsClean v⟩

/-- A camera with its pipeline down. -/
def coldCamera : World :=
  { service :=
      { image := true, caps := fun _ => { support := .supported, apply := .live }
        base := ⟨25, 40, 2, 0⟩, latency := {}, resolved := ⟨.normal, 40, 2, 0, 4⟩
        requested := fun _ => -1, effective := fun _ => -1, override := fun _ => -1
        stream := ⟨25, 40, 2, 0⟩, depth := 4 }
    isp := fun _ => none, pipeline := .down, http := fun _ => none, night := none }

theorem coldCamera_fresh : coldCamera.Fresh := 
  ⟨fun _ => rfl, rfl, rfl, fun _ => (by decide : (-1 : ℤ) < 0)⟩

theorem World.night_applyNext (w : World) (eff : ℤ) : (w.applyNext eff).night = w.night := by
  have hwake (v : World) (thread : Option ℕ) : (v.wake thread).night = v.night := by
    cases thread with
    | none => rfl
    | some i => rfl
  unfold World.applyNext
  split
  · rfl
  · split_ifs
    · rfl
    · rfl
  · rfl
  · exact hwake _ _
  · rfl

/-- A start is fair while the night mode makes no call. -/
theorem World.along_apply {w : World} (h : w.night = none) (n : ℕ) (eff : ℤ) :
    Along World.next World.Fair w (List.replicate n (.apply eff)) := by
  induction n generalizing w with
  | zero => trivial
  | succ n ih =>
    refine ⟨fun _ c before _ hnight => ?_, ih ((w.night_applyNext eff).trans h)⟩
    rw [h] at hnight
    exact nomatch hnight

/-- Night falls while the pipeline is down, the pipeline starts, and the picture page writes. -/
def nightStart : List Step :=
  ([.setImageOverride .runningMode 1, .night 1, .start] ++ List.replicate 22 (.apply 1)) ++
    [.setImage 0 .brightness 3 true, .http 0 3, .http 0 3]

theorem held_at_night :
    (run World.next coldCamera nightStart).Settled ∧
      (run World.next coldCamera nightStart).service.override .runningMode = 1 ∧
      Always World.next (fun v => v.Held ∧ StartsClean v) coldCamera nightStart := by
  have hidle (i : ℕ) : (run World.next coldCamera nightStart).http i = none := by
    have hhttp : (run World.next coldCamera nightStart).http i =
        if i = 0 then none else if i = 0 then some (.note .brightness 3)
          else if i = 0 then some (.write .brightness 3) else none := rfl
    rw [hhttp]
    split_ifs
    · rfl
    · rfl
  refine ⟨⟨hidle, rfl, rfl⟩, rfl, held_of_fair coldCamera_fresh ?_⟩
  refine Along.append.mpr ⟨Along.append.mpr ⟨⟨trivial, trivial, trivial, trivial⟩,
    World.along_apply rfl 22 1⟩, trivial, ?_, ?_, trivial⟩
  · intro c value hcall _ hc
    obtain ⟨rfl, rfl⟩ := HttpCall.write.inj (Option.some.inj hcall)
    exact absurd hc (by decide)
  · intro c value hcall
    exact nomatch Option.some.inj hcall

/-- The picture page looks at the hold, night falls, and only then the page writes. -/
def crossing : List Step :=
  .start :: List.replicate 21 (.apply 0) ++ [.setImage 0 .runningMode 0 true,
    .setImageOverride .runningMode 1, .night 1, .night 1, .http 0 0, .http 0 0]

theorem not_held_of_crossing :
    coldCamera.Fresh ∧
      ¬Always World.next (fun v => v.Held ∧ StartsClean v) coldCamera crossing := by
  refine ⟨coldCamera_fresh, fun h => ?_⟩
  have hend := (h crossing List.prefix_rfl).1
  have hidle (i : ℕ) : (run World.next coldCamera crossing).http i = none := by
    have hhttp : (run World.next coldCamera crossing).http i =
        if i = 0 then none else if i = 0 then some (.note .runningMode 0)
          else if i = 0 then some (.write .runningMode 0) else none := rfl
    rw [hhttp]
    split_ifs
    · rfl
    · rfl
  have hisp := hend ⟨hidle, rfl, rfl⟩ .runningMode (by decide)
  exact absurd hisp (by decide)

end Machino.Media
