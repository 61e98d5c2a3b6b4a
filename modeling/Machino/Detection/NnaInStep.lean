import Machino.Basic.Runs
import Machino.Detection.NnaDetector

namespace Machino.Nna

open Runs

/-- A frame was sent with this time, and is answered like that. -/
structure Sent where
  pts : Int64
  block : Block

structure Polled where
  res : Result
  out : DetectionResult
  sent : Option Sent

/-- Detector and process, and what the latest call returned if that was a poll. -/
structure State where
  d : NnaDetector
  p : NnaProcess := {}
  polled : Option Polled := none

inductive Input where
  | start (a : Answers) (source : Result)
  | stop (a : Answers)
  | poll (a : Answers)

/-- The poll comes to hand the helper a frame. -/
def sends (a : Answers) (d : NnaDetector) (p : NnaProcess) : Bool :=
  d.running && d.helper = .ready && (d.pace a.now).isSome && a.got.isOk && a.filed && p.fds &&
    a.written

section runs

variable (wrap : ℤ → ℤ)

def step (s : State) : Input → State
  | .start a source =>
    let (_, d, p) := s.d.start a source s.p
    { d, p }
  | .stop a =>
    let (_, d, p) := s.d.stop a s.p
    { d, p }
  | .poll a =>
    let (res, out, d, p) := s.d.poll a wrap {} s.p
    let frame : Sent := { pts := a.frame.ptsUs, block := a.block }
    { d, p, polled := some { res, out, sent := if sends a s.d s.p then some frame else none } }

/-- What a poll that succeeds reports is the answer to the frame it has sent. -/
def InStep (s : State) : Prop :=
  ∀ l, s.polled = some l → l.res.isOk = true → ∃ pts dets few,
    l.sent = some { pts, block := .result dets few } ∧ l.out.framePtsUs = pts ∧
      l.out.detections = dets.filterMap fun det => parseDetLine wrap (det.text ++ ['\n'])

/-- No frame is sent while something the helper has said, or will for an earlier frame, is still to
be read. -/
def InTurn (s : State) : Input → Prop
  | .poll a => sends a s.d s.p = true → s.p.unread = []
  | _ => True

instance (s : State) : (i : Input) → Decidable (InTurn s i)
  | .poll a => inferInstanceAs (Decidable (sends a s.d s.p = true → s.p.unread = []))
  | .start _ _ => .isTrue trivial
  | .stop _ => .isTrue trivial

end runs

section lines

variable {p p' : NnaProcess} {line : Text}

/-- What is handed out is the first line of what is unread. -/
def TakesLine (p p' : NnaProcess) (line : Text) : Prop :=
  ∃ l, line = l ++ ['\n'] ∧ '\n' ∉ l ∧ p.unread = l ++ '\n' :: p'.unread

theorem takesLine_takeLine (h : p.takeLine = some (line, p')) : TakesLine p p' line := by
  unfold NnaProcess.takeLine at h
  split at h
  · exact absurd h (by simp)
  · rename_i nl rest hdrop
    obtain ⟨rfl, rfl⟩ := Prod.mk.inj (Option.some.inj h)
    have hnl : nl = '\n' := by
      have hhead := List.head?_dropWhile_not (· ≠ '\n') p.buf
      rw [hdrop] at hhead
      simpa using hhead
    subst hnl
    refine ⟨_, rfl, fun hmem => ?_, ?_⟩
    · simpa using List.mem_takeWhile_imp hmem
    · have hbuf := List.takeWhile_append_dropWhile (p := (· ≠ '\n')) (l := p.buf)
      rw [hdrop] at hbuf
      unfold NnaProcess.unread
      conv_lhs => rw [← hbuf]
      simp

theorem takesLine_readMore {chunks : List ℕ} (h : p.readMore chunks = (some line, p')) :
    TakesLine p p' line := by
  induction chunks generalizing p with
  | nil => exact absurd h (by simp [NnaProcess.readMore])
  | cons k chunks ih =>
    rw [NnaProcess.readMore] at h
    dsimp only at h
    split_ifs at h with htmp
    · exact absurd h (by simp)
    · have hsame (q : NnaProcess) (hq : TakesLine { p with
          buf := p.buf ++ p.pipe.take (min k 512), pipe := p.pipe.drop (min k 512) } q line) :
          TakesLine p q line := by
        obtain ⟨l, hline, hl, hunread⟩ := hq
        refine ⟨l, hline, hl, Eq.trans ?_ hunread⟩
        unfold NnaProcess.unread
        rw [List.append_assoc, List.take_append_drop]
      split at h
      · rename_i line' p₁ htake
        obtain ⟨hline, rfl⟩ := Prod.mk.inj h
        obtain rfl := Option.some.inj hline
        exact hsame _ (takesLine_takeLine htake)
      · exact hsame _ (ih h)

theorem takesLine_readLine {chunks : List ℕ} (h : p.readLine chunks = (some line, p')) :
    TakesLine p p' line := by
  unfold NnaProcess.readLine at h
  split_ifs at h
  · exact absurd h (by simp)
  · split at h
    · rename_i line' p₁ htake
      obtain ⟨hline, rfl⟩ := Prod.mk.inj h
      obtain rfl := Option.some.inj hline
      exact takesLine_takeLine htake
    · exact takesLine_readMore h

/-- Where the unread text is known to begin with a line, that is the one handed out. -/
theorem TakesLine.first {l rest : Text} (h : TakesLine p p' line) (hl : '\n' ∉ l)
    (hunread : p.unread = l ++ '\n' :: rest) : line = l ++ ['\n'] ∧ p'.unread = rest := by
  obtain ⟨l', rfl, hl', hunread'⟩ := h
  have heq : l' ++ '\n' :: p'.unread = l ++ '\n' :: rest := hunread'.symm.trans hunread
  have hsplit := congrArg (Lines.split '\n') heq
  rw [Lines.split_append_cons hl', Lines.split_append_cons hl] at hsplit
  obtain rfl := (List.cons.inj hsplit).1
  exact ⟨rfl, (List.cons.inj (List.append_cancel_left heq)).2⟩

end lines

section answer

variable {wrap : ℤ → ℤ} {a : Answers} {d : NnaDetector} {p p' : NnaProcess}

theorem scanInt_ofInt {bits : ℕ} {v : ℤ} (hlo : -2 ^ (bits - 1) ≤ v) (hhi : v < 2 ^ (bits - 1))
    {rest : Text} (hrest : ∀ c, rest.head? = some c → 10 ≤ Text.digitValue c) :
    scanInt wrap bits (' ' :: (Text.ofInt v ++ rest)) = some (v, rest) := by
  unfold scanInt
  rw [Text.scanNumber_ofInt_append v hrest, Option.map_some]
  have hv : (if decide (v < 0) then -(v.natAbs : ℤ) else v.natAbs) = v := by
    split_ifs with hneg
    · have hlt : v < 0 := of_decide_eq_true hneg
      omega
    · have hge : ¬ v < 0 := fun hlt => hneg (decide_eq_true hlt)
      omega
  dsimp only
  rw [hv, if_pos ⟨hlo, hhi⟩]

theorem ofInt_natCast (n : ℕ) : Text.ofInt n = Text.ofNat n := by
  unfold Text.ofInt
  rw [if_neg (by omega), Int.natAbs_natCast]

/-- A result line is read back. -/
theorem scanResult_resultLine (pts : Int64) {n : ℕ} (hn : n ≤ 256) :
    scanResult wrap (resultLine pts n ++ ['\n']) = some (pts, (n : ℤ)) := by
  have hline : resultLine pts n ++ ['\n'] = "result".toList ++
      ' ' :: (Text.ofInt pts.toInt ++ ' ' :: (Text.ofInt n ++ ['\n'])) := by
    unfold resultLine
    rw [← ofInt_natCast n, List.append_assoc "result".toList, List.cons_append,
      List.append_assoc (Text.ofInt _), List.cons_append]
  have hseen : Text.cString (resultLine pts n ++ ['\n']) = resultLine pts n ++ ['\n'] := by
    refine Text.cString_eq_self fun c hc => ?_
    rw [hline] at hc
    simp only [List.mem_append, List.mem_cons, List.not_mem_nil, or_false] at hc
    rcases hc with hc | rfl | hc | rfl | hc | rfl
    · revert c
      decide
    · decide
    · exact Text.toNat_ne_zero_of_mem_ofInt hc
    · decide
    · exact Text.toNat_ne_zero_of_mem_ofInt hc
    · decide
  have hdrop (s : Text) : ("result".toList ++ s).dropPrefix? "result".toList = some s :=
    List.dropPrefix?_eq_some_iff.mpr ⟨_, rfl, by decide⟩
  have hpts : scanInt wrap 64 (' ' :: (Text.ofInt pts.toInt ++ ' ' :: (Text.ofInt n ++ ['\n']))) =
      some (pts.toInt, ' ' :: (Text.ofInt n ++ ['\n'])) := by
    refine scanInt_ofInt pts.le_toInt pts.toInt_lt fun c hc => ?_
    obtain rfl := Option.some.inj hc
    decide
  have hcount : scanInt wrap 32 (' ' :: (Text.ofInt n ++ ['\n'])) = some ((n : ℤ), ['\n']) := by
    refine scanInt_ofInt (by omega) (by omega) fun c hc => ?_
    obtain rfl := Option.some.inj hc
    decide
  unfold scanResult
  rw [hseen, hline, hdrop]
  simp only [Option.bind_eq_bind, Option.bind_some, hpts, hcount, Int64.ofInt_toInt]
  rfl

theorem readDets_all {dets : List Line} {i : ℕ} {found found' : List Detection} {rest : Text}
    (hunread : p.unread = Lines.join '\n' (dets.map Line.text) ++ rest)
    (h : NnaDetector.readDets a wrap dets.length i found p = (true, found', p')) :
    found' = found ++ dets.filterMap (fun det => parseDetLine wrap (det.text ++ ['\n'])) ∧
      p'.unread = rest := by
  induction dets generalizing i found p with
  | nil =>
    obtain ⟨rfl, rfl⟩ := Prod.mk.inj (Prod.mk.inj h).2
    exact ⟨by simp, by simpa [Lines.join] using hunread⟩
  | cons det dets ih =>
    rw [List.length_cons, NnaDetector.readDets] at h
    have hfirst :
        p.unread = det.text ++ '\n' :: (Lines.join '\n' (dets.map Line.text) ++ rest) := by
      rw [hunread]
      simp [Lines.join]
    split at h
    · exact absurd h (by simp)
    · rename_i line p₁ hread
      -- Each line of the answer is the next that is unread.
      obtain ⟨rfl, hrest⟩ := (takesLine_readLine hread).first det.oneLine hfirst
      obtain ⟨rfl, hunread'⟩ := ih hrest h
      refine ⟨?_, hunread'⟩
      rw [List.filterMap_cons]
      cases hdet : parseDetLine wrap (det.text ++ ['\n']) with
      | none => simp
      | some d => simp

theorem notMem_ofInt {v : ℤ} {c : Char} (hdigit : c.isDigit = false) (hminus : c ≠ '-') :
    c ∉ Text.ofInt v := by
  have hnat : c ∉ Text.ofNat v.natAbs := fun h =>
    absurd (Text.isDigit_of_mem_ofNat h) (by simp [hdigit])
  unfold Text.ofInt
  split_ifs
  · simpa [hminus] using hnat
  · exact hnat

theorem notMem_resultLine (pts : Int64) (n : ℕ) : '\n' ∉ resultLine pts n := by
  have hpts : '\n' ∉ Text.ofInt pts.toInt := notMem_ofInt (by decide) (by decide)
  have hcount : '\n' ∉ Text.ofNat n := fun h => absurd (Text.isDigit_of_mem_ofNat h) (by decide)
  have hword : '\n' ∉ "result".toList := by decide
  simp only [resultLine, List.mem_append, List.mem_cons, not_or]
  exact ⟨hword, by decide, hpts, by decide, hcount⟩

/-- With nothing else unread, an error that is answered fails the poll. -/
theorem readAnswer_error {pts : Int64} {what : Line}
    (hunread : p.unread = (Block.error what).text pts) :
    (d.readAnswer a wrap {} p).1.isOk = false := by
  unfold NnaDetector.readAnswer
  cases hread : p.readLine (a.reads 0) with
  | mk line p₁ =>
    cases line with
    | none => rfl
    | some line =>
      have htext : p.unread = ("error".toList ++ what.text) ++ '\n' :: [] := hunread
      have hone : '\n' ∉ "error".toList ++ what.text := by
        rw [List.mem_append, not_or]
        exact ⟨by decide, what.oneLine⟩
      obtain ⟨rfl, -⟩ := (takesLine_readLine hread).first hone htext
      have hmark :
          "error".toList.isPrefixOf ("error".toList ++ what.text ++ ['\n']) = true := by
        rw [List.isPrefixOf_iff_prefix, List.append_assoc]
        exact List.prefix_append ..
      dsimp only
      rw [if_pos hmark]
      rfl

/-- With nothing else unread, the answer that is read is the one to the frame. -/
theorem readAnswer_ok {pts : Int64} {block : Block} (hunread : p.unread = block.text pts)
    (h : (d.readAnswer a wrap {} p).1.isOk = true) : ∃ dets few, block = .result dets few ∧
      (d.readAnswer a wrap {} p).2.1.framePtsUs = pts ∧
      (d.readAnswer a wrap {} p).2.1.detections =
        dets.filterMap fun det => parseDetLine wrap (det.text ++ ['\n']) := by
  cases block with
  | error what => exact absurd h (by simp [readAnswer_error hunread])
  | result dets few =>
    refine ⟨dets, few, rfl, ?_⟩
    unfold NnaDetector.readAnswer at h ⊢
    cases hread : p.readLine (a.reads 0) with
    | mk line p₁ =>
      rw [hread] at h
      cases line with
      | none => exact absurd h (by simp)
      | some line =>
        obtain ⟨rfl, hrest⟩ :=
          (takesLine_readLine hread).first (notMem_resultLine pts dets.length) hunread
        -- A result line is no error, and its count is in range.
        have hmark : "error".toList.isPrefixOf (resultLine pts dets.length ++ ['\n']) = false :=
          rfl
        have hcount : ¬ ((dets.length : ℤ) < 0 ∨ 256 < (dets.length : ℤ)) := by omega
        dsimp only at h ⊢
        rw [hmark, scanResult_resultLine pts few] at h ⊢
        simp only [Bool.false_eq_true, if_false, if_neg hcount, Int.toNat_natCast] at h ⊢
        cases hdets : NnaDetector.readDets a wrap dets.length 1 [] p₁ with
        | mk all rest =>
          obtain ⟨found, p₂⟩ := rest
          rw [hdets] at h
          cases all with
          | false => exact absurd h (by simp)
          | true =>
            have hjoin : p₁.unread = Lines.join '\n' (dets.map Line.text) ++ [] := by
              rw [List.append_nil]
              exact hrest
            exact ⟨rfl, by simpa using (readDets_all hjoin hdets).1⟩

theorem isOk_advanceLoading : (d.advanceLoading a p).1.isOk = false := by
  unfold NnaDetector.advanceLoading
  split
  · split_ifs <;> rfl
  · dsimp only
    split_ifs <;> rfl

theorem unread_writeLine (line reply : Text) {written : Bool} (hfds : p.fds = true)
    (hwritten : written = true) : ∃ q, p.writeLine written line reply = (true, q) ∧
      q.unread = p.unread ++ reply := by
  refine ⟨{ p with stdin := p.stdin ++ line, pipe := p.pipe ++ reply }, ?_, ?_⟩
  · simp [NnaProcess.writeLine, hfds, hwritten]
  · simp [NnaProcess.unread]

/-- Only where the frame goes to the helper can an answer to it be read. -/
theorem inferOne_ok (h : (d.inferOne a wrap {} p).1.isOk = true) :
    (a.got.isOk = true ∧ a.filed = true ∧ p.fds = true ∧ a.written = true) ∧
      ∃ q, q.unread = p.unread ++ a.block.text a.frame.ptsUs ∧
        d.inferOne a wrap {} p = d.readAnswer a wrap {} q := by
  unfold NnaDetector.inferOne at h ⊢
  cases hgot : a.got.isOk with
  | false =>
    simp only [hgot, Bool.not_false, if_true] at h
    split_ifs at h
    · exact absurd h (by simp)
    · exact absurd (hgot.symm.trans h) (by simp)
  | true =>
    simp only [hgot, Bool.not_true, Bool.false_eq_true, if_false] at h ⊢
    cases hfiled : a.filed with
    | false => simp [hfiled] at h
    | true =>
      rw [if_pos hfiled] at h
      rw [if_pos rfl]
      -- The frame goes out only over pipes that are open.
      by_cases hsent : p.fds = true ∧ a.written = true
      · obtain ⟨hfds, hwritten⟩ := hsent
        obtain ⟨q, hq, hunread⟩ := unread_writeLine (frameLine a.frame d.cfg.framePath)
          (a.block.text a.frame.ptsUs) hfds hwritten
        exact ⟨⟨trivial, rfl, hfds, hwritten⟩, q, hunread, by rw [hq]; rfl⟩
      · have hnot : p.writeLine a.written (frameLine a.frame d.cfg.framePath)
            (a.block.text a.frame.ptsUs) = (false, p) := by
          cases hfds : p.fds with
          | false => simp [NnaProcess.writeLine, hfds]
          | true => simp [NnaProcess.writeLine, hfds, Bool.eq_false_of_not_eq_true
              fun hwritten => hsent ⟨hfds, hwritten⟩]
        rw [hnot] at h
        exact absurd h (by simp)

/-- A poll that succeeds has sent a frame and reports what is answered to it. -/
theorem poll_ok (hturn : sends a d p = true → p.unread = [])
    (h : (d.poll a wrap {} p).1.isOk = true) : sends a d p = true ∧
      ∃ dets few, a.block = .result dets few ∧
        (d.poll a wrap {} p).2.1.framePtsUs = a.frame.ptsUs ∧
        (d.poll a wrap {} p).2.1.detections =
          dets.filterMap fun det => parseDetLine wrap (det.text ++ ['\n']) := by
  unfold NnaDetector.poll at h ⊢
  cases hrunning : d.running with
  | false => simp [hrunning] at h
  | true =>
    cases hhelper : d.helper with
    | down =>
      simp only [hrunning, hhelper, Bool.not_true, Bool.false_eq_true, if_false] at h
      split_ifs at h
      all_goals exact absurd h (by simp)
    | loading =>
      simp only [hrunning, hhelper, Bool.not_true, Bool.false_eq_true, if_false,
        isOk_advanceLoading] at h
    | ready =>
      simp only [hrunning, hhelper, Bool.not_true, Bool.false_eq_true, if_false] at h ⊢
      cases hpace : d.pace a.now with
      | none => simp [hpace] at h
      | some d' =>
        rw [hpace] at h
        dsimp only at h ⊢
        obtain ⟨⟨hgot, hfiled, hfds, hwritten⟩, q, hunread, hanswer⟩ := inferOne_ok h
        have hsends : sends a d p = true := by
          simp [sends, hrunning, hhelper, hpace, hgot, hfiled, hfds, hwritten]
        rw [hturn hsends, List.nil_append] at hunread
        rw [hanswer] at h ⊢
        exact ⟨hsends, readAnswer_ok hunread h⟩

end answer

section run

variable (wrap : ℤ → ℤ)

theorem inStep_step {s : State} {i : Input} (hturn : InTurn s i) : InStep wrap (step wrap s i) := by
  intro l hl hok
  cases i with
  | start a source => exact absurd hl (by simp [step])
  | stop a => exact absurd hl (by simp [step])
  | poll a =>
    obtain rfl := Option.some.inj hl
    obtain ⟨hsends, dets, few, hblock, hpts, hdets⟩ := poll_ok hturn hok
    refine ⟨a.frame.ptsUs, dets, few, ?_, hpts, hdets⟩
    dsimp only
    rw [if_pos hsends, hblock]

/-- Along every run in which frames are sent in turn, polls report the answers to their own
frames. -/
theorem inStep_run (cfg : NnaDetectorConfig) {is : List Input}
    (his : Along (step wrap) InTurn { d := { cfg } } is) :
    Always (step wrap) (InStep wrap) { d := { cfg } } is :=
  always_of_along (fun _ _ _ hturn => inStep_step wrap hturn) (fun l hl => absurd hl (by simp)) his

end run

/-- A call at a time, with a frame that is answered by a block, which arrives in such pieces. -/
def callAt (now : ℤ) (pts : Int64) (block : Block) (pieces : List ℕ) : Answers where
  now := now
  output := "ready\n".toList
  frame := { size := 3456, width := 64, height := 36, stride := 64, ptsUs := pts }
  block := block
  reads _ := pieces

/-- One well-formed line and one that is not. -/
def twoDets : Block :=
  .result [⟨"det 0 87 0.25 0.3 0.2 0.4 person".toList, by decide⟩, ⟨"det".toList, by decide⟩]
    (by decide)

def noDets : Block := .result [] (by decide)

/-- Two frames whose answers are read before the next one. -/
theorem inStep_two_frames : Always (step id) (InStep id) { d := { cfg := {} } }
    [.start (callAt 1000 0 noDets []) .ok, .poll (callAt 1000 0 noDets [512]),
      .poll (callAt 1000 41 twoDets [5, 512]), .poll (callAt 1200 42 noDets [512])] :=
  inStep_run id {} (by decide)

/-- The first answer comes late: it is reported for the second frame. -/
theorem not_inStep_late : ¬ Always (step id) (InStep id) { d := { cfg := {} } }
    [.start (callAt 1000 0 noDets []) .ok, .poll (callAt 1000 0 noDets [512]),
      .poll (callAt 1000 41 noDets []), .poll (callAt 1200 42 noDets [512])] := by
  intro h
  obtain ⟨pts, dets, few, hsent, hpts, -⟩ := h _ List.prefix_rfl _ rfl (by decide)
  have hsame : pts = 42 := congrArg Sent.pts (Option.some.inj hsent).symm
  rw [hsame] at hpts
  exact absurd hpts (by decide)

end Machino.Nna
