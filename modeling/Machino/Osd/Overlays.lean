import Mathlib.Data.Finset.Basic
import Machino.Osd.OsdService

namespace Machino.Osd

inductive Input where
  | setConfig (cfg : OsdConfig)
  | setStreams (streams : List StreamGeometry)
  | pump (unixS ms : ℤ)

/-- The units that have been drawn on and not been cleared since. -/
def carry (units : Finset ℤ) : Call → Finset ℤ
  | .draw d => insert d.unit units
  | .clear _ unit => units.erase unit

def step (host : Host) (st : OsdService × Finset ℤ) : Input → OsdService × Finset ℤ
  | .setConfig cfg => (st.1.setConfig cfg, st.2)
  | .setStreams streams => (st.1.setStreams streams, st.2)
  | .pump unixS ms =>
    let r := st.1.pump host unixS ms
    (r.1, r.2.foldl carry st.2)

def run (host : Host) (is : List Input) : OsdService × Finset ℤ := is.foldl (step host) ({}, ∅)

theorem run_concat (host : Host) (is : List Input) (i : Input) :
    run host (is ++ [i]) = step host (run host is) i := by
  unfold run
  rw [List.foldl_concat]

/-- What holds of every pump of a run. -/
def AtPumps (P : List Input → ℤ → ℤ → Prop) (is : List Input) : Prop :=
  ∀ before unixS ms after, is = before ++ .pump unixS ms :: after → P before unixS ms

/-- After each pump the units that carry the overlay are those of its plan. -/
def Follows (host : Host) : List Input → Prop :=
  AtPumps fun before unixS ms => (run host (before ++ [.pump unixS ms])).2 =
    ((run host before).1.buildPlan host unixS ms).units.toFinset

/-- No plan leaves out some of the units of the one before and keeps others. -/
def AllOrNothing (host : Host) : List Input → Prop :=
  AtPumps fun before unixS ms =>
    ((run host before).1.buildPlan host unixS ms).units = [] ∨
      (run host before).1.lastUnits ⊆ ((run host before).1.buildPlan host unixS ms).units

theorem atPumps_concat {P : List Input → ℤ → ℤ → Prop} {is : List Input} {i : Input} :
    AtPumps P (is ++ [i]) ↔ AtPumps P is ∧ ∀ unixS ms, i = .pump unixS ms → P is unixS ms := by
  constructor
  · intro h
    refine ⟨fun before unixS ms after heq => ?_, fun unixS ms heq => ?_⟩
    · exact h before unixS ms (after ++ [i]) (by simp [heq])
    · exact h is unixS ms [] (by rw [heq])
  · rintro ⟨hold, hlast⟩ before unixS ms after heq
    rcases List.eq_nil_or_concat after with rfl | ⟨after, j, rfl⟩
    · obtain ⟨rfl, hi⟩ := List.append_inj' heq rfl
      exact hlast unixS ms (List.cons.inj hi).1
    · have hsplit : is ++ [i] = (before ++ .pump unixS ms :: after) ++ [j] := by simpa using heq
      exact hold before unixS ms after (List.append_inj' hsplit rfl).1

/-- What there is to draw of a text. -/
def itemsFor (host : Host) (s : OsdService) (text : Text) : List Draw :=
  match s.scale with
  | none => []
  | some scale => s.streams.filterMap (drawOn host s.cfg scale text)

section pump

variable {host : Host} {s : OsdService}

theorem buildPlan_draw (host : Host) (s : OsdService) (unixS ms : ℤ) :
    ((s.buildPlan host unixS ms).draw = true ↔ (s.buildPlan host unixS ms).units ≠ []) ∧
      ((s.buildPlan host unixS ms).draw = true → (s.buildPlan host unixS ms).text ≠ [] ∧
        (s.buildPlan host unixS ms).items = itemsFor host s (s.buildPlan host unixS ms).text) := by
  unfold OsdService.buildPlan itemsFor
  cases s.scale with
  | none => simp [Plan.units]
  | some scale =>
    dsimp only
    split
    · simp [Plan.units]
    · split
      · simp [Plan.units]
      · rename_i htext
        simp [Plan.units, htext]

/-- What is remembered of the last plan; a text stands for what it was drawn with. -/
structure Remembers (host : Host) (s : OsdService) : Prop where
  drew : s.drew = true ↔ s.lastUnits ≠ []
  text : s.drew = true → s.lastText ≠ [] →
    s.lastUnits = (itemsFor host s s.lastText).map (·.unit)

theorem foldl_carry_draw (ds : List Draw) (units : Finset ℤ) :
    (ds.map Call.draw).foldl carry units = units ∪ (ds.map (·.unit)).toFinset := by
  induction ds generalizing units with
  | nil => simp
  | cons d ds ih =>
    rw [List.map_cons, List.foldl_cons, ih]
    ext u
    simp only [carry, List.map_cons, List.toFinset_cons, Finset.mem_union, Finset.mem_insert]
    rw [or_assoc, or_left_comm]

theorem foldl_carry_clear (us : List ℤ) (units : Finset ℤ) :
    (us.map (Call.clear 0)).foldl carry units = units \ us.toFinset := by
  induction us generalizing units with
  | nil => simp
  | cons u us ih =>
    rw [List.map_cons, List.foldl_cons, ih]
    ext v
    simp [carry]
    tauto

/-- A pump remembers its plan, and does one of three things. -/
theorem pump_spec (h : Remembers host s) (unixS ms : ℤ) :
    Remembers host (s.pump host unixS ms).1 ∧
      (s.pump host unixS ms).1.lastUnits = (s.buildPlan host unixS ms).units ∧
      (((s.buildPlan host unixS ms).units = s.lastUnits ∧ (s.pump host unixS ms).2 = []) ∨
        ((s.buildPlan host unixS ms).units = [] ∧
          (s.pump host unixS ms).2 = s.lastUnits.map (Call.clear 0)) ∨
        ((s.buildPlan host unixS ms).units ≠ [] ∧
          (s.pump host unixS ms).2 = (s.buildPlan host unixS ms).items.map Call.draw)) := by
  obtain ⟨hunits, htext⟩ := buildPlan_draw host s unixS ms
  unfold OsdService.pump
  dsimp only
  generalize s.buildPlan host unixS ms = p at hunits htext ⊢
  split
  · -- the same text, and what is drawn of it is what was drawn
    rename_i hsame
    simp only [Bool.and_eq_true, decide_eq_true_eq] at hsame
    obtain ⟨⟨⟨hdraw, hdrew⟩, hlast⟩, -⟩ := hsame
    obtain ⟨hne, hitems⟩ := htext hdraw
    have hp : p.units = s.lastUnits := by
      rw [h.text hdrew (hlast ▸ hne), ← hlast, ← hitems]
      rfl
    exact ⟨h, hp.symm, .inl ⟨hp, rfl⟩⟩
  · cases hdraw : p.draw with
    | true =>
      obtain ⟨hne, hitems⟩ := htext hdraw
      refine ⟨⟨?_, fun _ _ => ?_⟩, rfl, .inr (.inr ⟨hunits.mp hdraw, rfl⟩)⟩
      · exact iff_of_true rfl (hunits.mp hdraw)
      · change p.units = _
        unfold Plan.units
        rw [hitems]
        rfl
    | false =>
      have hnil : p.units = [] := by
        by_contra hne
        exact absurd (hunits.mpr hne) (by simp [hdraw])
      refine ⟨⟨by simp, by simp⟩, hnil.symm, .inr (.inl ⟨hnil, ?_⟩)⟩
      cases hdrew : s.drew with
      | true => rfl
      | false =>
        have hlast : s.lastUnits = [] := by
          by_contra hne
          exact absurd (h.drew.mpr hne) (by simp [hdrew])
        rw [hlast]
        rfl

end pump

theorem Remembers.step {host : Host} {st : OsdService × Finset ℤ} (h : Remembers host st.1)
    (i : Input) : Remembers host (step host st i).1 := by
  cases i with
  | setConfig cfg => exact ⟨h.drew, fun _ hne => absurd rfl hne⟩
  | setStreams streams => exact ⟨h.drew, fun _ hne => absurd rfl hne⟩
  | pump unixS ms => exact (pump_spec h unixS ms).1

theorem remembers_run (host : Host) (is : List Input) : Remembers host (run host is).1 := by
  induction is using List.reverseRecOn with
  | nil => exact ⟨by simp [run], by simp [run]⟩
  | append_singleton is i ih =>
    rw [run_concat]
    exact ih.step i

/-- Where the remembered units carry the overlay, the next plan is followed just when it has all of
them or is empty. -/
theorem carried_iff {host : Host} {s : OsdService} (h : Remembers host s) (unixS ms : ℤ) :
    (s.pump host unixS ms).2.foldl carry s.lastUnits.toFinset =
        (s.buildPlan host unixS ms).units.toFinset ↔
      (s.buildPlan host unixS ms).units = [] ∨
        s.lastUnits ⊆ (s.buildPlan host unixS ms).units := by
  obtain ⟨-, -, ⟨hsame, hcalls⟩ | ⟨hnil, hcalls⟩ | ⟨hne, hcalls⟩⟩ :=
    pump_spec h unixS ms
  · rw [hcalls, hsame]
    exact iff_of_true rfl (.inr (List.Subset.refl _))
  · rw [hcalls, foldl_carry_clear, hnil, Finset.sdiff_self]
    exact iff_of_true rfl (.inl rfl)
  · -- a plan that draws clears nothing
    rw [hcalls, foldl_carry_draw]
    change _ ∪ (s.buildPlan host unixS ms).units.toFinset = _ ↔ _
    rw [Finset.union_eq_right]
    constructor
    · intro hsub
      exact .inr fun u hu => List.mem_toFinset.mp (hsub (List.mem_toFinset.mpr hu))
    · intro hor u hu
      exact List.mem_toFinset.mpr (hor.resolve_left hne (List.mem_toFinset.mp hu))

/-- While the plans have been followed, the units that carry the overlay are the remembered ones. -/
theorem follows_iff_carried (host : Host) (is : List Input) :
    (Follows host is ↔ AllOrNothing host is) ∧
      (Follows host is → (run host is).2 = (run host is).1.lastUnits.toFinset) := by
  induction is using List.reverseRecOn with
  | nil =>
    refine ⟨iff_of_true ?_ ?_, fun _ => rfl⟩ <;>
      exact fun before unixS ms after heq => absurd heq (by simp)
  | append_singleton is i ih =>
    obtain ⟨hiff, hcarried⟩ := ih
    unfold Follows AllOrNothing at hiff ⊢
    rw [atPumps_concat, atPumps_concat, ← hiff]
    have hstep : Follows host is → ∀ unixS ms,
        ((run host (is ++ [.pump unixS ms])).2 =
            ((run host is).1.buildPlan host unixS ms).units.toFinset ↔
          ((run host is).1.buildPlan host unixS ms).units = [] ∨
            (run host is).1.lastUnits ⊆ ((run host is).1.buildPlan host unixS ms).units) := by
      intro hold unixS ms
      rw [run_concat, step, hcarried hold]
      exact carried_iff (remembers_run host is) unixS ms
    refine ⟨and_congr_right fun hold => forall_congr' fun unixS => forall_congr' fun ms =>
      imp_congr_right fun _ => hstep hold unixS ms, ?_⟩
    rintro ⟨hold, hlast⟩
    -- only a pump draws and clears; the others make the next pump look again
    cases i with
    | setConfig cfg =>
      rw [run_concat]
      exact hcarried hold
    | setStreams streams =>
      rw [run_concat]
      exact hcarried hold
    | pump unixS ms =>
      rw [hlast unixS ms rfl, run_concat]
      exact congrArg List.toFinset (pump_spec (remembers_run host is) unixS ms).2.1.symm

theorem follows_iff (host : Host) (is : List Input) : Follows host is ↔ AllOrNothing host is :=
  (follows_iff_carried host is).1

/-- A font of fixed size and a clock that prints its template. -/
def plainHost : Host where
  measure _ _ _ := ⟨100, 20, 32⟩
  strftime _ tmpl := tmpl

/-- The overlay of the sub stream is switched off and stays on its video. -/
def partialSwitchOff : List Input :=
  [.setConfig { enabled := true }, .setStreams [⟨0, 1920, 1080, true⟩, ⟨1, 640, 360, true⟩],
    .pump 0 0, .setStreams [⟨0, 1920, 1080, true⟩, ⟨1, 640, 360, false⟩]]

theorem not_follows : ¬∀ (host : Host) (is : List Input), Follows host is := by
  intro h
  have hlast := h plainHost (partialSwitchOff ++ [.pump 1 0]) partialSwitchOff 1 0 [] rfl
  exact absurd hlast (by decide +kernel)

end Machino.Osd
