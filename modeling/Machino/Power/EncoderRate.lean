import Machino.Power.ProfileTruth

namespace Machino.Power

open Api Runs

/-- The rate an encoder runs at. Where it has refused a live call since it came up or last took a
rate, `before` is the rate that was stored ahead of the first refusal. -/
structure Encoder where
  rate : ℤ
  before : Option ℤ := none
  deriving DecidableEq

/-- The pipeline, with its main encoder where it has one. -/
inductive Pipeline where
  | cold
  | running (encoder : Option Encoder)
  deriving DecidableEq

/-- What the encoder makes of a live call: it stays as it is, or runs at a rate from then on, which
it may let be read back. -/
inductive Reply where
  | refused (status : String)
  | taken (rate : ℤ) (readBack : Bool)

/-- An encoder that takes a rate takes the one it is asked for. -/
def Reply.Obeys (kbps : ℤ) : Reply → Prop
  | .refused _ => True
  | .taken rate _ => rate = kbps

instance (kbps : ℤ) : (reply : Reply) → Decidable (reply.Obeys kbps)
  | .refused _ => .isTrue trivial
  | .taken rate _ => inferInstanceAs (Decidable (rate = kbps))

namespace Pipeline

def encoder : Pipeline → Option Encoder
  | .cold => none
  | .running e => e

/-- The main encoder comes up with the rate that is stored. -/
def restart (kbps : ℤ) (error : Option String) : Pipeline → Restart × Pipeline
  | .cold => (.cold, .cold)
  | .running _ =>
    match error with
    | none => (.done, .running (some { rate := kbps }))
    | some err => (.failed err, .cold)

def liveBitrate (stored : ℤ) (reply : Reply) : Pipeline → Live × Pipeline
  | .cold => (.busy, .cold)
  | .running none => (.busy, .running none)
  | .running (some e) =>
    match reply with
    -- of several refusals the first counts
    | .refused status =>
      (.failed status, .running (some { e with before := some (e.before.getD stored) }))
    | .taken rate readBack => (.done (if readBack then rate else -1), .running (some { rate }))

def liveSensorFps (reply : Except String ℤ) : Pipeline → Live
  | .cold => .busy
  | .running _ =>
    match reply with
    | .error status => .failed status
    | .ok effective => .done effective

/-- Demand for the main stream, or for something else only. -/
def up (main : Bool) (kbps : ℤ) : Pipeline → Pipeline
  | .cold => .running (if main then some { rate := kbps } else none)
  | .running e => .running (e <|> if main then some { rate := kbps } else none)

def mainDown : Pipeline → Pipeline
  | .cold => .cold
  | .running _ => .running none

end Pipeline

/-- What the platform has to say during one operation. -/
structure Replies where
  fpsError : Option String := none
  sensor : Except String ℤ := .ok (-1)
  bitrate : Reply := .refused "error"
  bitrateError : Option String := none

/-- A call of `setBitrate`, its result, and the rate the encoder runs at then. -/
structure RateCall where
  requested : ℤ
  result : ApplyResult
  encoder : Option ℤ

/-- What is said to be applied is what the encoder runs at. -/
def RateCall.Truthful (c : RateCall) : Prop :=
  c.result.ok = true → c.result.deferred = false → ∀ e ∈ c.encoder, e = c.requested

instance (c : RateCall) : Decidable c.Truthful :=
  inferInstanceAs (Decidable (_ → _ → ∀ e ∈ c.encoder, e = c.requested))

/-- The service over its pipeline, and the calls of `setBitrate` so far. -/
structure Rig where
  service : Service
  pipeline : Pipeline := .cold
  calls : List RateCall := []

namespace Rig

variable (rig : Rig)

/-- A rate that passes its check and is another than the stream's is asked of the pipeline. -/
def setStreamFps (fps : ℤ) (o : Replies) : ApplyResult × Rig :=
  let restart := rig.pipeline.restart rig.service.stream.bitrateKbps o.fpsError
  let r := rig.service.setStreamFps fps { fps := restart.1 }
  let asked := (rig.service.checkStreamFps fps).isOk && rig.service.stream.fps ≠ fps
  (r.1, { rig with service := r.2, pipeline := if asked then restart.2 else rig.pipeline })

def setSensorFps (fps : ℤ) (o : Replies) : ApplyResult × Rig :=
  let r := rig.service.setSensorFps fps { sensor := rig.pipeline.liveSensorFps o.sensor }
  (r.1, { rig with service := r.2 })

def clearStreamFps (o : Replies) : ApplyResult × Rig :=
  let restart := rig.pipeline.restart rig.service.stream.bitrateKbps o.fpsError
  let r := rig.service.clearStreamFps { fps := restart.1 }
  let asked := rig.service.stream.fps ≠ rig.service.hw.mode.fps
  (r.1, { rig with service := r.2, pipeline := if asked then restart.2 else rig.pipeline })

def clearSensorFps (o : Replies) : ApplyResult × Rig :=
  let r := rig.service.clearSensorFps { sensor := rig.pipeline.liveSensorFps o.sensor }
  (r.1, { rig with service := r.2 })

/-- Where there is a live control, a failed call is not followed by a restart. -/
def setBitrate (kbps : ℤ) (o : Replies) : ApplyResult × Rig :=
  let live := rig.pipeline.liveBitrate rig.service.stream.bitrateKbps o.bitrate
  let restart := rig.pipeline.restart kbps o.bitrateError
  let r := rig.service.setBitrate kbps { bitrate := live.1, bitrateRestart := restart.1 }
  let asked := (rig.service.checkBitrate kbps).isOk && rig.service.stream.bitrateKbps ≠ kbps
  let pipeline :=
    if asked then (if rig.service.bitrateMode = .live then live.2 else restart.2)
    else rig.pipeline
  (r.1, ⟨r.2, pipeline, rig.calls ++ [⟨kbps, r.1, pipeline.encoder.map Encoder.rate⟩]⟩)

/-- The sensor rate of a profile, where there is a control. -/
def profileSensor (fps : ℤ) (o : Replies) : ApplyResult × Rig :=
  if rig.service.sensorFpsMode ≠ .unsupported then rig.setSensorFps fps o
  else (.applied .unsupported (-1) "platform has no sensor rate control", rig)

/-- A profile up to the call of `setBitrate`, if it gets there. -/
def untilBitrate (p : Profile) (o : Replies) : Except (ApplyResult × Rig) (ApplyResult × Rig) :=
  if p = .custom then
    .error (.applied .live 3 "custom: individual settings apply",
      { rig with service := rig.service.custom })
  else
    let fps := (rig.service.presetFps p).1
    match rig.service.checkProfile p with
    | .error (mode, why) => .error (.rejected mode why, rig)
    | .ok _ =>
      let (r1, rig) := rig.setStreamFps fps o
      if !r1.ok then .error (r1, rig)
      else
        let (r2, rig) := rig.profileSensor fps o
        if !r2.ok then
          let r := rig.service.partialProfile p fps r2 "sensor fps"
          .error (r.1, { rig with service := r.2 })
        else .ok (r1, rig)

def applyProfile (p : Profile) (o : Replies) : ApplyResult × Rig :=
  match rig.untilBitrate p o with
  | .error r => r
  | .ok (r1, at_) =>
    let (fps, note) := rig.service.presetFps p
    let (r3, rig) := at_.setBitrate (rig.service.presetBitrate p) o
    if !r3.ok then
      let r := rig.service.partialProfile p fps r3 "bitrate"
      (r.1, { rig with service := r.2 })
    else
      ({ ApplyResult.applied r1.mode r1.effective note with deferred := r1.deferred },
        { rig with service := { rig.service with profile := p } })

/-- What the pipeline answers while a profile is applied. -/
def answers (p : Profile) (o : Replies) : Answers :=
  let at_ := (rig.setStreamFps (rig.service.presetFps p).1 o).2
  { fps := (rig.pipeline.restart rig.service.stream.bitrateKbps o.fpsError).1
    sensor := at_.pipeline.liveSensorFps o.sensor
    bitrate := (at_.pipeline.liveBitrate at_.service.stream.bitrateKbps o.bitrate).1
    bitrateRestart := (at_.pipeline.restart (rig.service.presetBitrate p) o.bitrateError).1 }

theorem setSensorFps_stream (s : Service) (fps : ℤ) (ans : Answers) :
    (s.setSensorFps fps ans).2.stream = s.stream := by
  unfold Service.setSensorFps
  dsimp only
  split_ifs
  · rfl
  · rfl
  · split <;> rfl

theorem profileSensor_service (fps : ℤ) (o : Replies) (ans : Answers)
    (hans : ans.sensor = rig.pipeline.liveSensorFps o.sensor) :
    (if rig.service.sensorFpsMode ≠ .unsupported then rig.service.setSensorFps fps ans
      else (.applied .unsupported (-1) "platform has no sensor rate control", rig.service)) =
        ((rig.profileSensor fps o).1, (rig.profileSensor fps o).2.service) ∧
      (rig.profileSensor fps o).2.pipeline = rig.pipeline ∧
      (rig.profileSensor fps o).2.service.stream = rig.service.stream := by
  have hset : rig.service.setSensorFps fps ans =
      rig.service.setSensorFps fps { sensor := rig.pipeline.liveSensorFps o.sensor } := by
    unfold Service.setSensorFps
    rw [hans]
  unfold profileSensor
  by_cases hmode : rig.service.sensorFpsMode ≠ .unsupported
  · rw [if_pos hmode, if_pos hmode, hset]
    exact ⟨rfl, rfl, setSensorFps_stream _ _ _⟩
  · rw [if_neg hmode, if_neg hmode]
    exact ⟨rfl, rfl, rfl⟩

theorem setBitrate_service {kbps : ℤ} {o : Replies} {ans : Answers}
    (hlive : ans.bitrate = (rig.pipeline.liveBitrate rig.service.stream.bitrateKbps o.bitrate).1)
    (hrestart : ans.bitrateRestart = (rig.pipeline.restart kbps o.bitrateError).1) :
    rig.service.setBitrate kbps ans =
      ((rig.setBitrate kbps o).1, (rig.setBitrate kbps o).2.service) := by
  unfold setBitrate Service.setBitrate
  rw [hlive, hrestart]

/-- Beside the pipeline, the service does what it does for the answers of the pipeline. -/
theorem applyProfile_service (p : Profile) (o : Replies) :
    ((rig.applyProfile p o).1, (rig.applyProfile p o).2.service) =
      rig.service.applyProfile p (rig.answers p o) := by
  unfold applyProfile untilBitrate Service.applyProfile
  by_cases hp : p = .custom
  · rw [if_pos hp, if_pos hp]
  rw [if_neg hp, if_neg hp]
  dsimp only
  cases rig.service.checkProfile p with
  | error e => rfl
  | ok u =>
    have hfps : rig.service.setStreamFps (rig.service.presetFps p).1 (rig.answers p o) =
      ((rig.setStreamFps (rig.service.presetFps p).1 o).1,
        (rig.setStreamFps (rig.service.presetFps p).1 o).2.service) := rfl
    dsimp only
    rw [hfps]
    unfold answers
    generalize rig.setStreamFps (rig.service.presetFps p).1 o = x
    obtain ⟨r1, rig1⟩ := x
    cases hr1 : r1.ok with
    | false => rfl
    | true =>
      dsimp only
      unfold Service.applyRest
      obtain ⟨hsensor, hpipeline, hstream⟩ :=
        rig1.profileSensor_service (rig.service.presetFps p).1 o
        ⟨(rig.pipeline.restart rig.service.stream.bitrateKbps o.fpsError).1,
          rig1.pipeline.liveSensorFps o.sensor,
          (rig1.pipeline.liveBitrate rig1.service.stream.bitrateKbps o.bitrate).1,
          (rig1.pipeline.restart (rig.service.presetBitrate p) o.bitrateError).1⟩ rfl
      rw [hsensor, ← hpipeline, ← hstream]
      generalize rig1.profileSensor (rig.service.presetFps p).1 o = y
      obtain ⟨r2, rig2⟩ := y
      cases hr2 : r2.ok with
      | false => simp [hr2]
      | true =>
        simp only [hr2, Bool.not_true, Bool.false_eq_true, if_false]
        rw [rig2.setBitrate_service (o := o) rfl rfl]
        generalize rig2.setBitrate (rig.service.presetBitrate p) o = z
        obtain ⟨r3, rig3⟩ := z
        cases r3.ok with
        | false => simp
        | true => simp

def perform (o : Replies) : Op → ApplyResult × Rig
  | .applyProfile p => rig.applyProfile p o
  | .setStreamFps fps => rig.setStreamFps fps o
  | .setSensorFps fps => rig.setSensorFps fps o
  | .setBitrate kbps => rig.setBitrate kbps o
  | .clearStreamFps => rig.clearStreamFps o
  | .clearSensorFps => rig.clearSensorFps o

end Rig

/-- An operation of the service, or what happens to the pipeline beside it: demand comes and goes,
and another setting restarts it. -/
inductive RigEvent where
  | op (op : Op) (o : Replies)
  | up (main : Bool)
  | mainDown
  | down
  | restart (error : Option String)

namespace Rig

def step (rig : Rig) : RigEvent → Rig
  | .op op o => (rig.perform o op).2
  | .up main => { rig with pipeline := rig.pipeline.up main rig.service.stream.bitrateKbps }
  | .mainDown => { rig with pipeline := rig.pipeline.mainDown }
  | .down => { rig with pipeline := .cold }
  | .restart error =>
    { rig with pipeline := (rig.pipeline.restart rig.service.stream.bitrateKbps error).2 }

/-- Every call so far has been answered truthfully. -/
def Truthful (rig : Rig) : Prop := ∀ c ∈ rig.calls, c.Truthful

instance (rig : Rig) : Decidable rig.Truthful :=
  inferInstanceAs (Decidable (∀ c ∈ rig.calls, c.Truthful))

/-- The call of `setBitrate` that an event makes, and where it makes it. -/
def bitrateCall (rig : Rig) : RigEvent → Option (Rig × ℤ × Replies)
  | .op (.setBitrate kbps) o => some (rig, kbps, o)
  | .op (.applyProfile p) o =>
    match rig.untilBitrate p o with
    | .error _ => none
    | .ok (_, at_) => some (at_, rig.service.presetBitrate p, o)
  | _ => none

/-- Where the rate asked for is stored already, a running encoder has refused no live call since it
came up or last took a rate, or that rate was stored ahead of the first it refused; where it is
another one, a live call that the encoder takes it obeys. -/
def InStep (rig : Rig) (kbps : ℤ) (o : Replies) : Prop :=
  (rig.service.checkBitrate kbps).isOk = true → ∀ e ∈ rig.pipeline.encoder,
    if rig.service.stream.bitrateKbps = kbps then ∀ before ∈ e.before, before = kbps
    else rig.service.bitrateMode = .live → o.bitrate.Obeys kbps

/-- The call as it is noted. -/
def rateCall (rig : Rig) (kbps : ℤ) (o : Replies) : RateCall :=
  ⟨kbps, (rig.setBitrate kbps o).1, (rig.setBitrate kbps o).2.pipeline.encoder.map Encoder.rate⟩

variable {rig : Rig} {kbps : ℤ} {o : Replies}

theorem rateCall_of_stored {c : RateCall} (h : c.result.ok = true → c.result.deferred = true) :
    c.Truthful := by
  intro hok hnow
  exact absurd ((h hok).symm.trans hnow) Bool.false_ne_true.symm

theorem storeBitrate_deferred (s : Service) (kbps : ℤ) (r : Restart)
    (h : (s.storeBitrate kbps r).1.ok = true) : (s.storeBitrate kbps r).1.deferred = true := by
  unfold Service.storeBitrate at h ⊢
  by_cases hlive : s.bitrateMode = .live
  · rw [if_pos hlive]
    rfl
  · rw [if_neg hlive] at h ⊢
    cases r with
    | cold => rfl
    | done => rfl
    | failed err => exact absurd h Bool.false_ne_true

/-- A running encoder is at the stored rate, or at the one that was stored ahead of what it has
refused. -/
def InSync (rig : Rig) : Prop :=
  ∀ e ∈ rig.pipeline.encoder, e.rate = e.before.getD rig.service.stream.bitrateKbps

/-- A call is answered truthfully just where the encoder is in step. -/
theorem rateCall_truthful (hsync : rig.InSync) :
    (rig.rateCall kbps o).Truthful ↔ rig.InStep kbps o := by
  have hstored (s : Service) (r : Restart) (e : Option ℤ) :
      (⟨kbps, (s.storeBitrate kbps r).1, e⟩ : RateCall).Truthful :=
    rateCall_of_stored (storeBitrate_deferred s kbps r)
  unfold rateCall setBitrate InStep Service.setBitrate
  cases hcheck : rig.service.checkBitrate kbps with
  | error why =>
    exact ⟨fun _ h => absurd h Bool.false_ne_true, fun _ h => absurd h Bool.false_ne_true⟩
  | ok u =>
    have hok : (Except.ok (ε := String) u).isOk = true := rfl
    by_cases hsame : rig.service.stream.bitrateKbps = kbps
    -- the short cut answers for the encoder, which is where the invariant says
    · simp only [hok, hsame, if_true, ne_eq, not_true_eq_false, decide_false, Bool.and_false,
        Bool.false_eq_true, if_false, forall_const]
      constructor
      · intro h e he before hbefore
        have hrate : e.rate = kbps := h rfl rfl e.rate (Option.mem_map_of_mem Encoder.rate he)
        rw [← hrate, hsync e he, hbefore]
        rfl
      · intro h _ _ rate hrate
        obtain ⟨e, he, rfl⟩ := Option.mem_map.mp hrate
        have hrefused := h e he
        change e.rate = kbps
        rw [hsync e he, hsame]
        cases hbefore : e.before with
        | none => rfl
        | some before => exact hrefused before hbefore
    simp only [hok, hsame, if_false, ne_eq, not_false_eq_true, decide_true, Bool.and_true, if_true,
      forall_const]
    by_cases hlive : rig.service.bitrateMode = .live
    · simp only [hlive, if_true, forall_const]
      match hpipeline : rig.pipeline with
      | .cold => exact ⟨fun _ => nofun, fun _ => hstored _ _ _⟩
      | .running none => exact ⟨fun _ => nofun, fun _ => hstored _ _ _⟩
      | .running (some e) =>
        cases hreply : o.bitrate with
        | refused status => exact ⟨fun _ _ _ => trivial, fun _ => hstored _ _ _⟩
        | taken rate readBack =>
          exact ⟨fun h _ _ => h rfl rfl rate rfl, fun h _ _ e' he' => Option.some.inj he' ▸ h e rfl⟩
    · simp only [hlive, if_false, false_implies, implies_true, iff_true]
      exact hstored _ _ _

theorem encoder_restart {pipeline : Pipeline} {error : Option String} {e : Encoder}
    (he : e ∈ (pipeline.restart kbps error).2.encoder) : e = { rate := kbps } := by
  unfold Pipeline.restart at he
  split at he
  · exact nomatch he
  · split at he
    · exact (Option.some.inj he).symm
    · exact nomatch he

/-- What leaves the stored rate alone leaves the encoder alone, or starts it anew. -/
theorem InSync.keep {rig' : Rig} (h : rig.InSync)
    (hstored : rig'.service.stream.bitrateKbps = rig.service.stream.bitrateKbps)
    (hpipeline : ∀ e ∈ rig'.pipeline.encoder,
      e ∈ rig.pipeline.encoder ∨ e = { rate := rig.service.stream.bitrateKbps }) :
    rig'.InSync := by
  intro e he
  rw [hstored]
  rcases hpipeline e he with hold | rfl
  · exact h e hold
  · rfl

theorem setStreamFps_bitrate (s : Service) (fps : ℤ) (ans : Answers) :
    (s.setStreamFps fps ans).2.stream.bitrateKbps = s.stream.bitrateKbps := by
  unfold Service.setStreamFps
  split
  · rfl
  · split_ifs
    · rfl
    · rw [Service.applyStreamRestart_snd]
      rfl

theorem InSync.setStreamFps (h : rig.InSync) (fps : ℤ) : (rig.setStreamFps fps o).2.InSync := by
  refine h.keep (setStreamFps_bitrate _ _ _) fun e he => ?_
  unfold Rig.setStreamFps at he
  dsimp only at he
  split_ifs at he
  · exact .inr (encoder_restart he)
  · exact .inl he

theorem InSync.clearStreamFps (h : rig.InSync) : (rig.clearStreamFps o).2.InSync := by
  refine h.keep ?_ fun e he => ?_
  · change (rig.service.clearStreamFps _).2.stream.bitrateKbps = _
    unfold Service.clearStreamFps
    split_ifs
    · rfl
    · rw [Service.applyStreamRestart_snd]
  · unfold Rig.clearStreamFps at he
    dsimp only at he
    split_ifs at he
    · exact .inr (encoder_restart he)
    · exact .inl he

theorem InSync.setSensorFps (h : rig.InSync) (fps : ℤ) : (rig.setSensorFps fps o).2.InSync :=
  h.keep (congrArg _ (setSensorFps_stream _ _ _)) fun _ => .inl

theorem InSync.profileSensor (h : rig.InSync) (fps : ℤ) : (rig.profileSensor fps o).2.InSync := by
  unfold Rig.profileSensor
  split_ifs
  · exact h.setSensorFps fps
  · exact h

/-- A rate is stored while the encoder refuses it, takes it, or starts with it. -/
theorem InSync.setBitrate (h : rig.InSync) (hok : rig.InStep kbps o) :
    (rig.setBitrate kbps o).2.InSync := by
  unfold InStep at hok
  unfold Rig.setBitrate Service.setBitrate
  cases hcheck : rig.service.checkBitrate kbps with
  | error why => exact h
  | ok u =>
    rw [hcheck] at hok
    have htrue : (Except.ok (ε := String) u).isOk = true := rfl
    by_cases hsame : rig.service.stream.bitrateKbps = kbps
    · simp only [hsame, if_true, ne_eq, not_true_eq_false, decide_false, Bool.and_false,
        Bool.false_eq_true, if_false]
      exact h
    simp only [htrue, hsame, if_false, forall_const] at hok
    simp only [htrue, hsame, if_false, ne_eq, not_false_eq_true, decide_true, Bool.and_true,
      if_true]
    by_cases hlive : rig.service.bitrateMode = .live
    · simp only [hlive, if_true, forall_const] at hok ⊢
      match hpipeline : rig.pipeline with
      | .cold => exact fun e he => nomatch he
      | .running none => exact fun e he => nomatch he
      | .running (some e) =>
        rw [hpipeline] at hok
        have hrate := h e (by rw [hpipeline]; rfl)
        cases hreply : o.bitrate with
        -- the encoder stays where it was, and so does what was stored ahead of the first refusal
        | refused status =>
          intro e' he'
          obtain rfl := Option.some.inj he'
          exact hrate
        | taken rate readBack =>
          have hobeys : rate = kbps := by
            have := hok e rfl
            rwa [hreply] at this
          intro e' he'
          obtain rfl := Option.some.inj he'
          subst hobeys
          cases readBack with
          | false => rfl
          | true => exact (ite_self rate).symm
    · simp only [hlive, if_false]
      intro e he
      rw [encoder_restart he, Service.storeBitrate_snd]
      rfl

/-- What the parts of a profile in front of its bitrate keep. -/
theorem untilBitrate_keeps {P : Rig → Prop} (h : P rig)
    (hfps : ∀ rig fps, P rig → P (rig.setStreamFps fps o).2)
    (hsensor : ∀ rig fps, P rig → P (rig.profileSensor fps o).2)
    (hcustom : ∀ rig : Rig, P rig → P { rig with service := rig.service.custom }) {p : Profile}
    {x : ApplyResult × Rig}
    (hx : rig.untilBitrate p o = .error x ∨ rig.untilBitrate p o = .ok x) : P x.2 := by
  unfold untilBitrate at hx
  by_cases hp : p = .custom
  · rw [if_pos hp] at hx
    obtain hx | hx := hx
    · rw [← Except.error.inj hx]
      exact hcustom rig h
    · exact nomatch hx
  rw [if_neg hp] at hx
  dsimp only at hx
  cases hcheck : rig.service.checkProfile p with
  | error e =>
    rw [hcheck] at hx
    obtain hx | hx := hx
    · rw [← Except.error.inj hx]
      exact h
    · exact nomatch hx
  | ok u =>
    rw [hcheck] at hx
    have hrate := hfps rig (rig.service.presetFps p).1 h
    have hboth := hsensor _ (rig.service.presetFps p).1 hrate
    dsimp only at hx
    split at hx
    · obtain hx | hx := hx
      · rw [← Except.error.inj hx]
        exact hrate
      · exact nomatch hx
    split at hx
    · obtain hx | hx := hx
      · rw [← Except.error.inj hx]
        exact hcustom _ hboth
      · exact nomatch hx
    · obtain hx | hx := hx
      · exact nomatch hx
      · rw [← Except.ok.inj hx]
        exact hboth

theorem InSync.untilBitrate (h : rig.InSync) {p : Profile} {x : ApplyResult × Rig}
    (hx : rig.untilBitrate p o = .error x ∨ rig.untilBitrate p o = .ok x) : x.2.InSync :=
  untilBitrate_keeps h (fun _ fps h => h.setStreamFps fps) (fun _ fps h => h.profileSensor fps)
    (fun _ h => h.keep rfl fun _ => .inl) hx

/-- Where an event calls `setBitrate`, the encoder is in sync still. -/
theorem InSync.bitrateCall (h : rig.InSync) {e : RigEvent} {c : Rig × ℤ × Replies}
    (hc : c ∈ rig.bitrateCall e) : c.1.InSync := by
  unfold Rig.bitrateCall at hc
  split at hc
  · obtain rfl := Option.some.inj hc
    exact h
  · split at hc
    · exact nomatch hc
    · rename_i huntil
      obtain rfl := Option.some.inj hc
      exact h.untilBitrate (.inr huntil)
  · exact nomatch hc

theorem InSync.applyProfile (h : rig.InSync) {p : Profile}
    (hok : ∀ c ∈ rig.bitrateCall (.op (.applyProfile p) o), c.1.InStep c.2.1 c.2.2) :
    (rig.applyProfile p o).2.InSync := by
  unfold Rig.applyProfile
  unfold Rig.bitrateCall at hok
  dsimp only at hok
  cases huntil : rig.untilBitrate p o with
  | error x => exact h.untilBitrate (.inl huntil)
  | ok x =>
    rw [huntil] at hok
    have hat : x.2.InSync := h.untilBitrate (.inr huntil)
    have hset : (x.2.setBitrate (rig.service.presetBitrate p) o).2.InSync :=
      hat.setBitrate (hok (x.2, rig.service.presetBitrate p, o) rfl)
    dsimp only
    generalize x.2.setBitrate (rig.service.presetBitrate p) o = y at hset ⊢
    split
    · exact hset.keep rfl fun _ => .inl
    · exact hset.keep rfl fun _ => .inl

/-- Every event keeps the encoder in sync, a call of `setBitrate` where it finds it in step. -/
theorem InSync.step (h : rig.InSync) {e : RigEvent}
    (hok : ∀ c ∈ rig.bitrateCall e, c.1.InStep c.2.1 c.2.2) : (rig.step e).InSync := by
  cases e with
  | op op o =>
    cases op with
    | setBitrate kbps => exact h.setBitrate (hok _ rfl)
    | applyProfile p => exact h.applyProfile hok
    | setStreamFps fps => exact h.setStreamFps fps
    | setSensorFps fps => exact h.setSensorFps fps
    | clearStreamFps => exact h.clearStreamFps
    | clearSensorFps => exact h.keep rfl fun _ => .inl
  | up main =>
    refine h.keep rfl fun e he => ?_
    change e ∈ (rig.pipeline.up main rig.service.stream.bitrateKbps).encoder at he
    have hnew {e : Encoder} {kbps : ℤ} (he : e ∈ if main then some { rate := kbps } else none) :
        e = { rate := kbps } := by
      split_ifs at he
      · exact (Option.some.inj he).symm
      · exact nomatch he
    match hpipeline : rig.pipeline with
    | .cold =>
      rw [hpipeline] at he
      exact .inr (hnew he)
    | .running none =>
      rw [hpipeline] at he
      exact .inr (hnew he)
    | .running (some e') =>
      rw [hpipeline] at he
      exact .inl he
  | mainDown =>
    refine h.keep rfl fun e he => ?_
    change e ∈ rig.pipeline.mainDown.encoder at he
    unfold Pipeline.mainDown at he
    split at he <;> exact nomatch he
  | down => exact fun e he => nomatch he
  | restart error => exact h.keep rfl fun e he => .inr (encoder_restart he)

theorem profileSensor_calls (fps : ℤ) : (rig.profileSensor fps o).2.calls = rig.calls := by
  unfold profileSensor
  split
  · rfl
  · rfl

/-- Up to the call of `setBitrate` there is none. -/
theorem untilBitrate_calls {p : Profile} {x : ApplyResult × Rig}
    (hx : rig.untilBitrate p o = .error x ∨ rig.untilBitrate p o = .ok x) :
    x.2.calls = rig.calls :=
  untilBitrate_keeps (P := fun rig' => rig'.calls = rig.calls) rfl (fun _ _ h => h)
    (fun rig' fps h => (rig'.profileSensor_calls fps).trans h) (fun _ h => h) hx

theorem step_calls (rig : Rig) (e : RigEvent) : (rig.step e).calls =
    rig.calls ++ (rig.bitrateCall e).toList.map fun c => c.1.rateCall c.2.1 c.2.2 := by
  cases e with
  | op op o =>
    cases op with
    | setBitrate kbps => rfl
    | applyProfile p =>
      show (rig.applyProfile p o).2.calls = _
      unfold applyProfile bitrateCall
      dsimp only
      cases huntil : rig.untilBitrate p o with
      | error x => exact (untilBitrate_calls (.inl huntil)).trans (List.append_nil _).symm
      | ok x =>
        have hcalls : x.2.calls ++ [x.2.rateCall (rig.service.presetBitrate p) o] =
            rig.calls ++ [x.2.rateCall (rig.service.presetBitrate p) o] :=
          congrArg (· ++ _) (untilBitrate_calls (.inr huntil))
        dsimp only
        split
        · exact hcalls
        · exact hcalls
    | setStreamFps fps => exact (List.append_nil _).symm
    | setSensorFps fps => exact (List.append_nil _).symm
    | clearStreamFps => exact (List.append_nil _).symm
    | clearSensorFps => exact (List.append_nil _).symm
  | up main => exact (List.append_nil _).symm
  | mainDown => exact (List.append_nil _).symm
  | down => exact (List.append_nil _).symm
  | restart error => exact (List.append_nil _).symm

/-- Every call of every run is answered truthfully just when each finds the encoder in step. -/
theorem always_truthful_calls_iff (service : Service) (is : List RigEvent) :
    Always step Truthful { service } is ↔
      Along step (fun rig e => ∀ c ∈ rig.bitrateCall e, c.1.InStep c.2.1 c.2.2) { service } is := by
  have hstep (rig : Rig) (e : RigEvent) (h : rig.Truthful ∧ rig.InSync) :
      (rig.step e).Truthful ↔ ∀ c ∈ rig.bitrateCall e, c.1.InStep c.2.1 c.2.2 := by
    have hcall (c : Rig × ℤ × Replies) (hc : c ∈ rig.bitrateCall e) :
        (c.1.rateCall c.2.1 c.2.2).Truthful ↔ c.1.InStep c.2.1 c.2.2 :=
      rateCall_truthful (h.2.bitrateCall hc)
    obtain ⟨htruthful, -⟩ := h
    unfold Truthful at htruthful ⊢
    rw [step_calls, List.forall_mem_append, and_iff_right htruthful]
    cases hc : rig.bitrateCall e with
    | none => simp
    | some c => simp [hcall c hc]
  refine always_iff_along (P := fun rig => rig.Truthful ∧ rig.InSync)
    (fun rig e h hok => ⟨(hstep rig e h).mpr hok, h.2.step hok⟩) (fun _ => And.left)
    (fun rig e h hbad => fun ht => hbad ((hstep rig e h).mp ht)) ⟨?_, ?_⟩
  · exact fun c hc => absurd hc List.not_mem_nil
  · exact fun e he => nomatch he

/-- The encoder refuses a live rate, which is stored; asked for once more it is unchanged, and the
encoder runs on at the old one. -/
theorem not_truthful_refused :
    ¬ Truthful (run step
      { service := .new { modes := [⟨1920, 1080, 25⟩], mode := ⟨1920, 1080, 25⟩ }
          { bitrate := { support := .supported, apply := .live } } 3000 ⟨25, 3000⟩ }
      [.up true, .op (.setBitrate 2000) { bitrate := .refused "error" },
        .op (.setBitrate 2000) { bitrate := .refused "error" }]) := by
  decide

end Rig

end Machino.Power
