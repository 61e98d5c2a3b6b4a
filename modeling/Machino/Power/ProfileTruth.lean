import Machino.Basic.Runs
import Machino.Power.PerformanceService

namespace Machino.Power

open Api Runs

/-- A profile that is not custom says what the rates are; the sensor's where it has a control. -/
def Truthful (s : Service) : Prop :=
  s.profile ≠ .custom →
    s.stream = ⟨(s.presetFps s.profile).1, s.presetBitrate s.profile⟩ ∧
      (s.sensorFpsMode ≠ .unsupported → s.sensorFpsReq = (s.presetFps s.profile).1)

instance (s : Service) : Decidable (Truthful s) :=
  inferInstanceAs (Decidable (_ → _ ∧ (_ → _)))

namespace Service

variable (s : Service)

/-- All parts of a profile can be applied. -/
def Taken (p : Profile) (ans : Answers) : Prop :=
  s.checkProfile p = .ok () ∧
    (s.stream.fps = (s.presetFps p).1 ∨ ans.fps.isFailed = false) ∧
    (s.sensorFpsMode = .unsupported ∨ ans.sensor.isFailed = false) ∧
    (s.stream.bitrateKbps = s.presetBitrate p ∨ s.bitrateMode = .live ∨
      ans.bitrateRestart.isFailed = false)

/-- The bitrate that is in effect when another one is asked for. -/
def bitrateGiven (kbps : ℤ) (ans : Answers) : ℤ :=
  if s.stream.bitrateKbps ≠ kbps ∧ s.bitrateMode = .live then
    match ans.bitrate with
    | .done eff => if 0 < eff then eff else kbps
    | _ => kbps
  else kbps

end Service

/-- The steps that leave a profile behind which no longer says what the rates are: a sensor rate
set or a rate reset without a look at the profile, and an encoder that reads back another bitrate. -/
def Misleads (s : Service) : Op × Answers → Prop
  | (.applyProfile p, ans) =>
    p ≠ .custom ∧ s.Taken p ans ∧ s.bitrateGiven (s.presetBitrate p) ans ≠ s.presetBitrate p
  | (.setSensorFps fps, _) =>
    s.profile ≠ .custom ∧ s.sensorFpsMode ≠ .unsupported ∧ s.checkSensorFps fps = .ok () ∧
      fps ≠ (s.presetFps s.profile).1
  | (.clearStreamFps, _) => s.profile ≠ .custom ∧ s.hw.mode.fps ≠ (s.presetFps s.profile).1
  | (.clearSensorFps, _) =>
    s.profile ≠ .custom ∧ s.sensorFpsMode ≠ .unsupported ∧
      s.hw.mode.fps ≠ (s.presetFps s.profile).1
  | _ => False

namespace Service

variable {s : Service}

theorem applyStreamRestart_ok (fps : ℤ) (what : String) (r : Restart) :
    (s.applyStreamRestart fps what r).1.ok = !r.isFailed := by
  cases r with
  | cold => rfl
  | done => rfl
  | failed err => rfl

theorem applyStreamRestart_snd (fps : ℤ) (what : String) (r : Restart) :
    (s.applyStreamRestart fps what r).2 = { s with stream := { s.stream with fps } } := by
  cases r with
  | cold => rfl
  | done => rfl
  | failed err => rfl

theorem liveSensorFps_ok (fps : ℤ) (r : Live) : (s.liveSensorFps fps r).ok = !r.isFailed := by
  cases r with
  | busy => rfl
  | failed status => rfl
  | done eff => rfl

/-- A rate that is there already is no change, and the profile stays; another one is custom. -/
theorem setStreamFps_of_check {fps : ℤ} (h : s.checkStreamFps fps = .ok ()) (ans : Answers) :
    (s.setStreamFps fps ans).2 =
        { s with
          profile := if s.stream.fps = fps then s.profile else .custom
          stream := { s.stream with fps } } ∧
      ((s.setStreamFps fps ans).1.ok = true ↔
        s.stream.fps = fps ∨ ans.fps.isFailed = false) := by
  unfold setStreamFps
  rw [h]
  dsimp only
  by_cases hsame : s.stream.fps = fps
  · subst hsame
    rw [if_pos rfl, if_pos rfl]
    exact ⟨rfl, by simp [ApplyResult.applied]⟩
  · rw [if_neg hsame, if_neg hsame, applyStreamRestart_snd, applyStreamRestart_ok]
    exact ⟨rfl, by simp [hsame]⟩

theorem storeBitrate_snd (kbps : ℤ) (r : Restart) :
    (s.storeBitrate kbps r).2 = { s with stream := { s.stream with bitrateKbps := kbps } } := by
  unfold storeBitrate
  by_cases hlive : s.bitrateMode = .live
  · rw [if_pos hlive]
  · rw [if_neg hlive]
    cases r with
    | cold => rfl
    | done => rfl
    | failed err => rfl

theorem storeBitrate_ok (kbps : ℤ) (r : Restart) :
    (s.storeBitrate kbps r).1.ok = true ↔ s.bitrateMode = .live ∨ r.isFailed = false := by
  unfold storeBitrate
  by_cases hlive : s.bitrateMode = .live
  · rw [if_pos hlive]
    exact ⟨fun _ => .inl hlive, fun _ => rfl⟩
  · rw [if_neg hlive]
    cases r with
    | cold => exact ⟨fun _ => .inr rfl, fun _ => rfl⟩
    | done => exact ⟨fun _ => .inr rfl, fun _ => rfl⟩
    | failed err => simp [hlive, ApplyResult.rejected, Restart.isFailed]

theorem setBitrate_of_check {kbps : ℤ} (h : s.checkBitrate kbps = .ok ()) (ans : Answers) :
    (s.setBitrate kbps ans).2 =
        { s with
          profile := if s.stream.bitrateKbps = kbps then s.profile else .custom
          stream := { s.stream with bitrateKbps := s.bitrateGiven kbps ans } } ∧
      ((s.setBitrate kbps ans).1.ok = true ↔ s.stream.bitrateKbps = kbps ∨
        s.bitrateMode = .live ∨ ans.bitrateRestart.isFailed = false) := by
  have hstored := s.custom.storeBitrate_snd kbps ans.bitrateRestart
  have hok : _ ↔ s.bitrateMode = .live ∨ ans.bitrateRestart.isFailed = false :=
    s.custom.storeBitrate_ok kbps ans.bitrateRestart
  unfold setBitrate bitrateGiven
  rw [h]
  dsimp only
  by_cases hsame : s.stream.bitrateKbps = kbps
  · subst hsame
    rw [if_pos rfl, if_pos rfl, if_neg (fun h => h.1 rfl)]
    exact ⟨rfl, fun _ => .inl rfl, fun _ => rfl⟩
  · rw [if_neg hsame, if_neg hsame]
    by_cases hlive : s.bitrateMode = .live
    · rw [if_pos hlive, if_pos ⟨hsame, hlive⟩]
      cases ans.bitrate with
      | done eff => exact ⟨rfl, fun _ => .inr (.inl hlive), fun _ => rfl⟩
      | busy => exact ⟨hstored, fun _ => .inr (.inl hlive), fun _ => hok.mpr (.inl hlive)⟩
      | failed status =>
        exact ⟨hstored, fun _ => .inr (.inl hlive), fun _ => hok.mpr (.inl hlive)⟩
    · rw [if_neg hlive, if_neg (fun h => hlive h.2)]
      exact ⟨hstored, hok.trans (or_iff_right hsame).symm⟩

/-- With a control and a rate in its range. -/
theorem setSensorFps_of_check {fps : ℤ} (hmode : s.sensorFpsMode ≠ .unsupported)
    (h : s.checkSensorFps fps = .ok ()) (ans : Answers) :
    s.setSensorFps fps ans = (s.liveSensorFps fps ans.sensor, { s with sensorFpsReq := fps }) := by
  have hpos : ¬ fps ≤ 0 := by
    intro hle
    unfold checkSensorFps at h
    rw [if_pos hle] at h
    exact absurd h (by simp)
  unfold setSensorFps
  dsimp only
  rw [if_neg hpos, if_neg hmode, h]

theorem checkProfile_eq_ok {p : Profile} : s.checkProfile p = .ok () ↔
    s.checkStreamFps (s.presetFps p).1 = .ok () ∧ s.checkBitrate (s.presetBitrate p) = .ok () ∧
      (s.sensorFpsMode ≠ .unsupported → s.checkSensorFps (s.presetFps p).1 = .ok ()) := by
  have hmap (f : String → ApplyMode × String) (x : Except String Unit) :
      x.mapError f = .ok () ↔ x = .ok () := by
    cases x with
    | error e => simp [Except.mapError]
    | ok u => simp [Except.mapError]
  unfold checkProfile
  dsimp only
  rw [except_check_eq_ok, hmap, except_check_eq_ok, hmap]
  by_cases hmode : s.sensorFpsMode ≠ .unsupported
  · rw [if_pos hmode, hmap]
    simp [hmode]
  · rw [if_neg hmode]
    simp [hmode, pure, Except.pure]

/-- The sensor rate and the bitrate of a profile are both applied, or the service is at custom. -/
theorem applyRest_cases (s : Service) (p : Profile) {fps kbps : ℤ} (ans : Answers) (r1 : ApplyResult)
    (note : String) (hkbps : s.checkBitrate kbps = .ok ())
    (hsensor : s.sensorFpsMode ≠ .unsupported → s.checkSensorFps fps = .ok ()) :
    ((s.sensorFpsMode = .unsupported ∨ ans.sensor.isFailed = false) ∧
        (s.stream.bitrateKbps = kbps ∨ s.bitrateMode = .live ∨
          ans.bitrateRestart.isFailed = false) ∧
        (s.applyRest p fps kbps ans r1 note).2 =
          { s with
            profile := p
            stream := { s.stream with bitrateKbps := s.bitrateGiven kbps ans }
            sensorFpsReq := if s.sensorFpsMode ≠ .unsupported then fps else s.sensorFpsReq }) ∨
      (¬ ((s.sensorFpsMode = .unsupported ∨ ans.sensor.isFailed = false) ∧
          (s.stream.bitrateKbps = kbps ∨ s.bitrateMode = .live ∨
            ans.bitrateRestart.isFailed = false)) ∧
        (s.applyRest p fps kbps ans r1 note).2.profile = .custom) := by
  obtain ⟨r2, hr2, hok⟩ : ∃ r2 : ApplyResult,
      (if s.sensorFpsMode ≠ .unsupported then s.setSensorFps fps ans
        else (.applied .unsupported (-1) "platform has no sensor rate control", s)) =
        (r2, { s with
          sensorFpsReq := if s.sensorFpsMode ≠ .unsupported then fps else s.sensorFpsReq }) ∧
      (r2.ok = true ↔ s.sensorFpsMode = .unsupported ∨ ans.sensor.isFailed = false) := by
    by_cases hmode : s.sensorFpsMode ≠ .unsupported
    · rw [if_pos hmode, if_pos hmode, setSensorFps_of_check hmode (hsensor hmode)]
      refine ⟨_, rfl, ?_⟩
      rw [liveSensorFps_ok, or_iff_right hmode, Bool.not_eq_true']
    · rw [if_neg hmode, if_neg hmode]
      exact ⟨_, rfl, fun _ => .inl (not_not.mp hmode), fun _ => rfl⟩
  generalize (if s.sensorFpsMode ≠ .unsupported then fps else s.sensorFpsReq) = req at hr2 ⊢
  unfold applyRest
  rw [hr2]
  dsimp only
  by_cases hsensorOk : s.sensorFpsMode = .unsupported ∨ ans.sensor.isFailed = false
  · rw [if_neg (by simp [hok.mpr hsensorOk])]
    obtain ⟨hstate, hok3⟩ :=
      setBitrate_of_check (s := { s with sensorFpsReq := req }) hkbps ans
    by_cases hbitrate : s.stream.bitrateKbps = kbps ∨ s.bitrateMode = .live ∨
        ans.bitrateRestart.isFailed = false
    · rw [if_neg (by simp [hok3.mpr hbitrate]), hstate]
      exact .inl ⟨hsensorOk, hbitrate, rfl⟩
    · rw [if_pos (by simpa using fun h => hbitrate (hok3.mp h))]
      exact .inr ⟨fun h => hbitrate h.2, rfl⟩
  · rw [if_pos (by simpa using fun h => hsensorOk (hok.mp h))]
    exact .inr ⟨fun h => hsensorOk h.1, rfl⟩

/-- A profile is applied as a whole, or the service is as before or at custom. -/
theorem applyProfile_cases {p : Profile} (hp : p ≠ .custom) (ans : Answers) :
    (s.Taken p ans ∧ (s.applyProfile p ans).2 =
      { s with
        profile := p
        stream := ⟨(s.presetFps p).1, s.bitrateGiven (s.presetBitrate p) ans⟩
        sensorFpsReq :=
          if s.sensorFpsMode ≠ .unsupported then (s.presetFps p).1 else s.sensorFpsReq }) ∨
    (¬ s.Taken p ans ∧
      ((s.applyProfile p ans).2 = s ∨ (s.applyProfile p ans).2.profile = .custom)) := by
  unfold applyProfile
  rw [if_neg hp]
  dsimp only
  cases hcheck : s.checkProfile p with
  | error e => exact .inr ⟨fun h => absurd (hcheck.symm.trans h.1) (by simp), .inl rfl⟩
  | ok u =>
    obtain ⟨hfps, hkbps, hsensor⟩ := checkProfile_eq_ok.mp hcheck
    obtain ⟨hstate, hok⟩ := setStreamFps_of_check hfps ans
    generalize s.setStreamFps (s.presetFps p).1 ans = r at hstate hok ⊢
    obtain ⟨r1, s1⟩ := r
    dsimp only at hstate hok ⊢
    by_cases hr1 : s.stream.fps = (s.presetFps p).1 ∨ ans.fps.isFailed = false
    · rw [if_neg (by simp [hok.mpr hr1])]
      subst hstate
      rcases applyRest_cases { s with
          profile := if s.stream.fps = (s.presetFps p).1 then s.profile else .custom
          stream := { s.stream with fps := (s.presetFps p).1 } } p ans r1
          (s.presetFps p).2 hkbps hsensor with ⟨h2, h3, hrest⟩ | ⟨hnot, hcustom⟩
      · exact .inl ⟨⟨hcheck, hr1, h2, h3⟩, hrest⟩
      · exact .inr ⟨fun h => hnot ⟨h.2.2.1, h.2.2.2⟩, .inr hcustom⟩
    · rw [if_pos (by simpa using fun h => hr1 (hok.mp h))]
      subst hstate
      have hne : ¬ s.stream.fps = (s.presetFps p).1 := fun h => hr1 (.inl h)
      exact .inr ⟨fun h => hr1 h.2.1, .inr (if_neg hne)⟩

end Service

variable {s : Service}

theorem truthful_of_custom (h : s.profile = .custom) : Truthful s := fun hne => absurd h hne

/-- A sensor rate that is asked for is the profile's, or nothing is said of it. -/
theorem Truthful.sensor (h : Truthful s) {fps : ℤ} (hfps : s.profile ≠ .custom →
    s.sensorFpsMode ≠ .unsupported → fps = (s.presetFps s.profile).1) :
    Truthful { s with sensorFpsReq := fps } :=
  fun hne => ⟨(h hne).1, hfps hne⟩

theorem Truthful.setStreamFps (h : Truthful s) (fps : ℤ) (ans : Answers) :
    Truthful (s.setStreamFps fps ans).2 := by
  cases hcheck : s.checkStreamFps fps with
  | error why =>
    unfold Service.setStreamFps
    rw [hcheck]
    exact h
  | ok u =>
    rw [(Service.setStreamFps_of_check hcheck ans).1]
    by_cases hsame : s.stream.fps = fps
    · subst hsame
      rw [if_pos rfl]
      exact h
    · exact truthful_of_custom (if_neg hsame)

theorem Truthful.setBitrate (h : Truthful s) (kbps : ℤ) (ans : Answers) :
    Truthful (s.setBitrate kbps ans).2 := by
  cases hcheck : s.checkBitrate kbps with
  | error why =>
    unfold Service.setBitrate
    rw [hcheck]
    exact h
  | ok u =>
    rw [(Service.setBitrate_of_check hcheck ans).1]
    by_cases hsame : s.stream.bitrateKbps = kbps
    · subst hsame
      have hgiven : s.bitrateGiven s.stream.bitrateKbps ans = s.stream.bitrateKbps :=
        if_neg fun h => h.1 rfl
      rw [if_pos rfl, hgiven]
      exact h
    · exact truthful_of_custom (if_neg hsame)

theorem Truthful.setSensorFps (h : Truthful s) {fps : ℤ} {ans : Answers}
    (hm : ¬ Misleads s (.setSensorFps fps, ans)) : Truthful (s.setSensorFps fps ans).2 := by
  by_cases hmode : s.sensorFpsMode = .unsupported
  · unfold Service.setSensorFps
    dsimp only
    split_ifs
    · exact h
    · exact h.sensor fun _ hsup => absurd hmode hsup
  · cases hcheck : s.checkSensorFps fps with
    | error why =>
      unfold Service.setSensorFps
      rw [hcheck]
      dsimp only
      split_ifs
      · exact h
      · exact h
    | ok u =>
      rw [Service.setSensorFps_of_check hmode hcheck]
      refine h.sensor fun hne hsup => ?_
      by_contra hfps
      exact hm ⟨hne, hsup, hcheck, hfps⟩

theorem clearStreamFps_snd (ans : Answers) : (s.clearStreamFps ans).2 =
    { s with stream := { s.stream with fps := s.hw.mode.fps } } := by
  unfold Service.clearStreamFps
  split_ifs with hsame
  · rw [← hsame]
  · exact Service.applyStreamRestart_snd _ _ _

/-- Every other step keeps the profile truthful. -/
theorem Truthful.keep (h : Truthful s) {i : Op × Answers} (hm : ¬ Misleads s i) :
    Truthful (step s i) := by
  obtain ⟨op, ans⟩ := i
  cases op with
  | setStreamFps fps => exact h.setStreamFps fps ans
  | setBitrate kbps => exact h.setBitrate kbps ans
  | setSensorFps fps => exact h.setSensorFps hm
  | clearStreamFps =>
    show Truthful (s.clearStreamFps ans).2
    rw [clearStreamFps_snd]
    intro hne
    obtain ⟨hstream, hsensor⟩ := h hne
    have hfps : s.hw.mode.fps = (s.presetFps s.profile).1 := by
      by_contra hfps
      exact hm ⟨hne, hfps⟩
    refine ⟨?_, hsensor⟩
    show (⟨s.hw.mode.fps, s.stream.bitrateKbps⟩ : Stream) = _
    rw [hstream, hfps]
    rfl
  | clearSensorFps =>
    refine h.sensor fun hne hsup => ?_
    by_contra hfps
    exact hm ⟨hne, hsup, hfps⟩
  | applyProfile p =>
    show Truthful (s.applyProfile p ans).2
    by_cases hp : p = .custom
    · unfold Service.applyProfile
      rw [if_pos hp]
      exact truthful_of_custom rfl
    rcases Service.applyProfile_cases hp ans with ⟨htaken, heq⟩ | ⟨-, heq | hcustom⟩
    · have hgiven : s.bitrateGiven (s.presetBitrate p) ans = s.presetBitrate p := by
        by_contra hgiven
        exact hm ⟨hp, htaken, hgiven⟩
      rw [heq, hgiven]
      exact fun _ => ⟨rfl, fun hsup => if_pos hsup⟩
    · rw [heq]
      exact h
    · exact truthful_of_custom hcustom

theorem not_truthful_step {i : Op × Answers} (hm : Misleads s i) :
    ¬ Truthful (step s i) := by
  obtain ⟨op, ans⟩ := i
  cases op with
  | setStreamFps fps => exact absurd hm id
  | setBitrate kbps => exact absurd hm id
  | setSensorFps fps =>
    obtain ⟨hne, hsup, hcheck, hfps⟩ := hm
    show ¬ Truthful (s.setSensorFps fps ans).2
    rw [Service.setSensorFps_of_check hsup hcheck]
    exact fun ht => hfps ((ht hne).2 hsup)
  | clearStreamFps =>
    obtain ⟨hne, hfps⟩ := hm
    show ¬ Truthful (s.clearStreamFps ans).2
    rw [clearStreamFps_snd]
    exact fun ht => hfps (congrArg Stream.fps (ht hne).1)
  | clearSensorFps =>
    obtain ⟨hne, hsup, hfps⟩ := hm
    exact fun ht => hfps ((ht hne).2 hsup)
  | applyProfile p =>
    obtain ⟨hp, htaken, hgiven⟩ := hm
    show ¬ Truthful (s.applyProfile p ans).2
    rcases Service.applyProfile_cases hp ans with ⟨-, heq⟩ | ⟨hnot, -⟩
    · rw [heq]
      exact fun ht => hgiven (congrArg Stream.bitrateKbps (ht hp).1)
    · exact absurd htaken hnot

/-- From the service over a stream that is at the default rates, and from no other, the profile is
truthful all along exactly the runs without a misleading step. -/
theorem always_truthful_iff (hw : Hardware) (caps : Caps) (videoBitrate : ℤ) (stream : Stream)
    (is : List (Op × Answers)) :
    Always step Truthful (.new hw caps videoBitrate stream) is ↔
      stream = ⟨hw.mode.fps, videoBitrate⟩ ∧
        Along step (fun s i => ¬ Misleads s i) (.new hw caps videoBitrate stream) is := by
  have hstart :
      Truthful (.new hw caps videoBitrate stream) ↔ stream = ⟨hw.mode.fps, videoBitrate⟩ := by
    constructor
    · exact fun h => (h (show Profile.performance ≠ .custom by decide)).1
    · exact fun h _ => ⟨h, fun _ => rfl⟩
  have hrun (h : Truthful (.new hw caps videoBitrate stream)) :
      Always step Truthful (.new hw caps videoBitrate stream) is ↔
        Along step (fun s i => ¬ Misleads s i) (.new hw caps videoBitrate stream) is :=
    always_iff_along (fun s i hs hi => hs.keep hi) (fun _ => id)
      (fun s i _ hi => not_truthful_step (not_not.mp hi)) h
  rw [← hstart]
  constructor
  · intro h
    have h0 := h [] List.nil_prefix
    exact ⟨h0, (hrun h0).mp h⟩
  · exact fun h => (hrun h.1).mpr h.2

/-- The stream rate is reset under the battery profile: the stream is at the rate of the mode again,
and the profile is still battery. -/
theorem not_always_truthful :
    ¬ Always step Truthful
      (.new { modes := [⟨1920, 1080, 25⟩, ⟨1920, 1080, 10⟩], mode := ⟨1920, 1080, 25⟩ } {} 3000
        ⟨25, 3000⟩)
      [(.applyProfile .battery, { fps := .done }), (.clearStreamFps, { fps := .done })] := by
  intro h
  exact absurd (h _ (List.prefix_refl _)) (by decide)

end Machino.Power
