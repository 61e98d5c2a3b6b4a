import Machino.Basic.DurableFs
import Machino.Core.Text

/-! Records that are to survive a crash: each is one file, written beside and renamed. -/
namespace Machino.StateStore

open DurableFs

abbrev Record := List UInt8

def flat (c : Char) : Char := if c = '/' ∨ c = '\\' ∨ c = '.' then '_' else c

def pathFor (dir key : Text) : Text := dir ++ '/' :: key.map flat ++ ".state".toList

def tmpFor (path : Text) : Text := path ++ ".tmp".toList

/-- The names that the store writes to before it renames. -/
def IsTmp (name : Text) : Prop := ".tmp".toList <:+ name

/-- What an observer of the records sees. -/
inductive Obs where
  /-- A save begins. -/
  | saving (path : Text) (value : Record)
  /-- It has returned true, with the directory synchronised or not. -/
  | saved (path : Text) (value : Record) (durable : Bool)
  | clearing (path : Text)
  | crashed (found : Text → Option Record)
  /-- A load has returned, false or with a value; `clean` where none of its calls failed. -/
  | loaded (path : Text) (value : Option Record) (clean : Bool)

/-- What each record may be. -/
structure Records where
  /-- What a load may find. -/
  now : Text → List (Option Record) := fun _ => [none]
  /-- What a crash may leave. -/
  left : Text → List (Option Record) := fun _ => [none]

/-- The record may come to be this one, too. -/
def Records.offer (m : Records) (p : Text) (v : Option Record) : Records where
  now := Function.update m.now p (v :: m.now p)
  left := Function.update m.left p (v :: m.left p)

def Records.after (m : Records) : Obs → Records
  | .saving p v => m.offer p (some v)
  | .saved p v durable => {
      now := Function.update m.now p [some v]
      left := if durable then Function.update m.left p [some v] else m.left }
  | .clearing p => m.offer p none
  | .crashed r => { now := fun p => [r p], left := fun p => [r p] }
  | .loaded p v true => { m with now := Function.update m.now p [v] }
  | .loaded _ _ false => m

def Obs.Fits (m : Records) : Obs → Prop
  | .crashed r => ∀ p, ¬ IsTmp p → r p ∈ m.left p
  | .loaded p v true => v ∈ m.now p
  | .loaded p v false => ∀ u ∈ v, ∃ w, some w ∈ m.now p ∧ u <+: w
  | _ => True

/-- Loads and crashes find only what the records may be: one of those that were saved whole, or
none; one that was reported saved is that one until the next save or clear, and a crash settles
which one it is. A load with a call that fails finds none, or the front of one. -/
def Allowed : Records → List Obs → Prop
  | _, [] => True
  | m, o :: os => o.Fits m ∧ Allowed (m.after o) os

theorem Allowed.append {m : Records} {os os' : List Obs} (h : Allowed m os)
    (h' : Allowed (os.foldl Records.after m) os') : Allowed m (os ++ os') := by
  induction os generalizing m with
  | nil => exact h'
  | cons o os ih => exact ⟨h.1, ih h.2 h'⟩

theorem Allowed.drop {m : Records} {os os' : List Obs} (h : Allowed m (os ++ os')) :
    Allowed (os.foldl Records.after m) os' := by
  induction os generalizing m with
  | nil => exact h
  | cons o os ih => exact ih h.2

/-- Whether the observation is of a call that changes this record. -/
def Obs.touches (path : Text) : Obs → Prop
  | .saving p _ => p = path
  | .saved p _ _ => p = path
  | .clearing p => p = path
  | _ => False

/-- The record is this one, and a crash will find it so. -/
structure Records.Settled (m : Records) (path : Text) (v : Option Record) : Prop where
  now : m.now path = [v]
  left : m.left path = [v]

theorem Records.Settled.after {m : Records} {path : Text} {v : Option Record}
    (h : m.Settled path v) (hpath : ¬ IsTmp path) {o : Obs} (ho : ¬ o.touches path)
    (hfits : o.Fits m) : (m.after o).Settled path v := by
  cases o with
  | saving p u =>
    have hne : path ≠ p := fun heq => ho heq.symm
    exact ⟨(Function.update_of_ne hne _ _).trans h.now,
      (Function.update_of_ne hne _ _).trans h.left⟩
  | saved p u durable =>
    have hne : path ≠ p := fun heq => ho heq.symm
    refine ⟨(Function.update_of_ne hne _ _).trans h.now, ?_⟩
    cases durable with
    | false => exact h.left
    | true => exact (Function.update_of_ne hne _ _).trans h.left
  | clearing p =>
    have hne : path ≠ p := fun heq => ho heq.symm
    exact ⟨(Function.update_of_ne hne _ _).trans h.now,
      (Function.update_of_ne hne _ _).trans h.left⟩
  | crashed r =>
    have hfound := hfits path hpath
    rw [h.left, List.mem_singleton] at hfound
    rw [← hfound]
    exact ⟨rfl, rfl⟩
  | loaded p u clean =>
    cases clean with
    | false => exact h
    | true =>
    refine ⟨?_, h.left⟩
    show Function.update m.now p [u] path = [v]
    by_cases heq : path = p
    · subst heq
      have hu : u ∈ m.now path := hfits
      rw [h.now, List.mem_singleton] at hu
      rw [Function.update_self, hu]
    · exact (Function.update_of_ne heq _ _).trans h.now

/-- A settled record is loaded as it is, over any crashes and whatever happens to the others; by a
load with a call that fails, no more than its front. -/
theorem Allowed.loaded_eq {m : Records} {os after : List Obs} {path : Text} {v w : Option Record}
    {clean : Bool} (h : Allowed m (os ++ .loaded path w clean :: after)) (hpath : ¬ IsTmp path)
    (hset : m.Settled path v) (hos : ∀ o ∈ os, ¬ o.touches path) :
    (clean = true → w = v) ∧ ∀ u ∈ w, ∃ x ∈ v, u <+: x := by
  induction os generalizing m with
  | nil =>
    have hw := h.1
    cases clean with
    | true =>
      have heq : w ∈ m.now path := hw
      rw [hset.now, List.mem_singleton] at heq
      subst heq
      exact ⟨fun _ => rfl, fun u hu => ⟨u, hu, List.prefix_rfl⟩⟩
    | false =>
      refine ⟨nofun, fun u hu => ?_⟩
      obtain ⟨x, hx, hpre⟩ := hw u hu
      rw [hset.now, List.mem_singleton] at hx
      exact ⟨x, hx.symm, hpre⟩
  | cons o os ih =>
    rw [List.forall_mem_cons] at hos
    exact ih h.2 (hset.after hpath hos.1 h.1) hos.2

/-- How a system call ends: with a count, with `EINTR`, with one of the errors that a directory is
let off for, or with another one. -/
inductive Answer where
  | ok (n : ℕ)
  | eintr | tolerated | failed
  deriving DecidableEq

/-- Which call is next; a save has its path and its value with it. -/
inductive Pc where
  | idle
  | opening (p : Text) (v : Record)
  | writing (p : Text) (v : Record) (fd off : ℕ)
  | syncing (p : Text) (v : Record) (fd : ℕ)
  | closing (p : Text) (v : Record) (fd : ℕ)
  /-- Behind a call that failed. -/
  | giving
  | moving (p : Text) (v : Record)
  | unlinking (p : Text)
  | removing (p : Text)
  | openingDir (saved : Option (Text × Record))
  | syncingDir (saved : Option (Text × Record))
  | finding (p : Text)
  /-- A load, with what it has read so far. -/
  | reading (p : Text) (fd : ℕ) (got : Record)
  deriving DecidableEq

structure Sys where
  fs : Fs Text := {}
  pc : Pc := .idle

inductive Event where
  | save (key : Text) (value : Record)
  | clear (key : Text)
  | load (key : Text)
  /-- The system call that is next ends. -/
  | answer (a : Answer)
  /-- The power is cut: the medium has the directory `k` steps back. -/
  | crash (k : ℕ) (junk : ℕ → Record)

/-- Behind `off` bytes: the next `write`, or all is written. -/
def nextWrite (p : Text) (v : Record) (fd off : ℕ) : Pc :=
  if off < v.length then .writing p v fd off else .syncing p v fd

/-- What a save says that ends well; a clear says nothing. -/
def report (saved : Option (Text × Record)) (durable : Bool) : List Obs :=
  (saved.map fun (p, v) => Obs.saved p v durable).toList

def answered (s : Sys) (a : Answer) : Sys × List Obs :=
  match s.pc, a with
  | .idle, _ => (s, [])
  | .opening p v, .ok _ =>
    let (fd, fs) := s.fs.openTrunc (tmpFor p)
    ({ fs, pc := nextWrite p v fd 0 }, [])
  | .opening _ _, _ => ({ s with pc := .idle }, [])
  | .writing p v fd off, .ok n =>
    let written := (v.drop off).take n
    ({ fs := s.fs.append fd written, pc := nextWrite p v fd (off + written.length) }, [])
  | .writing _ _ _ _, .eintr => (s, [])
  | .writing _ _ _ _, _ => ({ s with pc := .giving }, [])
  | .syncing p v fd, .ok _ => ({ fs := s.fs.fsync fd, pc := .closing p v fd }, [])
  | .syncing _ _ _, _ => ({ s with pc := .giving }, [])
  | .closing p v _, .ok _ => ({ s with pc := .moving p v }, [])
  | .closing _ _ _, _ => ({ s with pc := .idle }, [])
  | .giving, _ => ({ s with pc := .idle }, [])
  | .moving p v, .ok _ =>
    ({ fs := s.fs.rename (tmpFor p) p, pc := .openingDir (some (p, v)) }, [])
  | .moving p _, _ => ({ s with pc := .unlinking p }, [])
  | .unlinking p, .ok _ => ({ fs := s.fs.unlink (tmpFor p), pc := .idle }, [])
  | .unlinking _, _ => ({ s with pc := .idle }, [])
  | .removing p, .ok _ => ({ fs := s.fs.unlink p, pc := .openingDir none }, [])
  | .removing _, _ => ({ s with pc := .openingDir none }, [])
  | .openingDir saved, .ok _ => ({ s with pc := .syncingDir saved }, [])
  | .openingDir saved, .tolerated => ({ s with pc := .idle }, report saved false)
  | .openingDir _, _ => ({ s with pc := .idle }, [])
  | .syncingDir saved, .ok _ => ({ fs := s.fs.fsyncDir, pc := .idle }, report saved true)
  | .syncingDir _, .eintr => (s, [])
  | .syncingDir saved, .tolerated => ({ s with pc := .idle }, report saved false)
  | .syncingDir _, .failed => ({ s with pc := .idle }, [])
  | .finding p, .ok _ =>
    match s.fs.entry p with
    -- no such name
    | none => ({ s with pc := .idle }, [.loaded p none true])
    | some fd => ({ s with pc := .reading p fd [] }, [])
  | .finding p, _ => ({ s with pc := .idle }, [.loaded p none false])
  | .reading p fd got, .ok n =>
    -- a read gives a byte at least, until there are no more
    let more := ((s.fs.content fd).drop got.length).take (n + 1)
    if more = [] then ({ s with pc := .idle }, [.loaded p (some got) true])
    else ({ s with pc := .reading p fd (got ++ more) }, [])
  | .reading _ _ _, .eintr => (s, [])
  -- the stream keeps what it has, and the load goes on to return true
  | .reading p _ got, _ => ({ s with pc := .idle }, [.loaded p (some got) false])

/-- A call of the store comes when none is running. -/
def step (dir : Text) (s : Sys) : Event → Sys × List Obs
  | .save key value =>
    let p := pathFor dir key
    if s.pc = .idle then ({ s with pc := .opening p value }, [.saving p value]) else (s, [])
  | .clear key =>
    let p := pathFor dir key
    if s.pc = .idle then ({ s with pc := .removing p }, [.clearing p]) else (s, [])
  | .load key =>
    if s.pc = .idle then ({ s with pc := .finding (pathFor dir key) }, []) else (s, [])
  | .answer a => answered s a
  | .crash k junk =>
    let fs := s.fs.crash k junk
    ({ fs }, [.crashed fs.read])

/-- What is observed over a run. -/
def observed (dir : Text) : Sys → List Event → List Obs
  | _, [] => []
  | s, e :: evs => (step dir s e).2 ++ observed dir (step dir s e).1 evs

theorem pathFor_not_tmp (dir key : Text) : ¬ IsTmp (pathFor dir key) := by
  intro htmp
  have hstate : ".state".toList <:+ pathFor dir key := List.suffix_append _ _
  rcases List.suffix_or_suffix_of_suffix htmp hstate with h | h
  · exact absurd h (by decide)
  · exact absurd h (by decide)

theorem tmpFor_isTmp (p : Text) : IsTmp (tmpFor p) := List.suffix_append _ _

/-- The record of this name may be this one, as far as anyone knows. -/
structure Records.May (m : Records) (p : Text) (v : Option Record) : Prop where
  name : ¬ IsTmp p
  now : v ∈ m.now p
  left : v ∈ m.left p

/-- The file that is worked on for a name, with what has been written to it. -/
structure Draft (fs : Fs Text) (p : Text) (fd : ℕ) (written : Record) : Prop where
  entry : fs.entry (tmpFor p) = some fd
  content : fs.content fd = written

/-- What a call that is running has come to. -/
def Pc.Fits (fs : Fs Text) (m : Records) : Pc → Prop
  | .idle | .giving | .unlinking _ => True
  | .opening p v => m.May p (some v)
  | .writing p v fd off => m.May p (some v) ∧ Draft fs p fd (v.take off)
  | .syncing p v fd => m.May p (some v) ∧ Draft fs p fd v
  | .closing p v fd => m.May p (some v) ∧ Draft fs p fd v ∧ fs.settled fd = true
  | .moving p v => m.May p (some v) ∧ ∃ fd, Draft fs p fd v ∧ fs.settled fd = true
  | .removing p => m.May p none
  | .openingDir saved | .syncingDir saved =>
    ∀ p v, saved = some (p, v) → ¬ IsTmp p ∧ fs.read p = some v
  | .finding p => ¬ IsTmp p
  | .reading p fd got => ¬ IsTmp p ∧ fs.entry p = some fd ∧ got <+: fs.content fd

structure Inv (s : Sys) (m : Records) : Prop where
  whole : Whole IsTmp (fun p v => v ∈ m.left p) s.fs
  now : ∀ p, ¬ IsTmp p → s.fs.read p ∈ m.now p
  fits : s.pc.Fits s.fs m

theorem Inv.init : Inv {} {} where
  whole := Whole.init fun _ _ => List.mem_singleton.mpr rfl
  now _ _ := List.mem_singleton.mpr rfl
  fits := trivial

/-- The invariant over one step, and what is observed of it. -/
def Kept (m : Records) (r : Sys × List Obs) : Prop :=
  Allowed m r.2 ∧ Inv r.1 (r.2.foldl Records.after m)

theorem Inv.quiet {s : Sys} {m : Records} (h : Inv s m) : Kept m (s, []) := ⟨trivial, h⟩

theorem Inv.to {s : Sys} {m : Records} (h : Inv s m) {pc : Pc} (hfits : pc.Fits s.fs m) :
    Kept m ({ s with pc }, []) := ⟨trivial, h.whole, h.now, hfits⟩

theorem nextWrite_fits {fs : Fs Text} {m : Records} {p : Text} {v : Record} {fd off : ℕ}
    (hmay : m.May p (some v)) (hdraft : Draft fs p fd (v.take off)) :
    (nextWrite p v fd off).Fits fs m := by
  unfold nextWrite
  split_ifs with hoff
  · exact ⟨hmay, hdraft⟩
  · refine ⟨hmay, hdraft.entry, ?_⟩
    rw [hdraft.content, List.take_of_length_le (Nat.le_of_not_lt hoff)]

theorem Inv.opened {s : Sys} {m : Records} (h : Inv s m) {p : Text} {v : Record}
    (hmay : m.May p (some v)) :
    Inv { fs := (s.fs.openTrunc (tmpFor p)).2
          pc := nextWrite p v (s.fs.openTrunc (tmpFor p)).1 0 } m := by
  have htmp := tmpFor_isTmp p
  have hopen := h.whole.openTrunc htmp
  refine ⟨hopen.1, fun q hq => ?_, nextWrite_fits hmay ⟨hopen.2, s.fs.content_openTrunc _⟩⟩
  rw [h.whole.read_openTrunc htmp hq]
  exact h.now q hq

theorem Inv.wrote {s : Sys} {m : Records} (h : Inv s m) {p : Text} {v : Record} {fd off : ℕ}
    (hmay : m.May p (some v)) (hdraft : Draft s.fs p fd (v.take off)) (n : ℕ) :
    Inv { fs := s.fs.append fd ((v.drop off).take n)
          pc := nextWrite p v fd (off + ((v.drop off).take n).length) } m := by
  have htmp := tmpFor_isTmp p
  refine ⟨h.whole.write htmp hdraft.entry _ false, fun q hq => ?_,
    nextWrite_fits hmay ⟨hdraft.entry, ?_⟩⟩
  · have hsame := h.whole.map_write htmp hdraft.entry
      (s.fs.content fd ++ (v.drop off).take n) List.mem_cons_self hq
    show (s.fs.entry q).map (Function.update s.fs.content fd _) ∈ m.now q
    rw [hsame]
    exact h.now q hq
  · show Function.update s.fs.content fd (s.fs.content fd ++ (v.drop off).take n) fd = _
    rw [Function.update_self, hdraft.content, List.take_add, List.length_take,
      ← List.take_eq_take_min]

theorem Inv.synced {s : Sys} {m : Records} (h : Inv s m) {p : Text} {v : Record} {fd : ℕ}
    (hmay : m.May p (some v)) (hdraft : Draft s.fs p fd v) :
    Inv { fs := s.fs.fsync fd, pc := .closing p v fd } m := by
  have hwrite := h.whole.write (tmpFor_isTmp p) hdraft.entry (s.fs.content fd) true
  rw [Function.update_eq_self] at hwrite
  exact ⟨hwrite, h.now, hmay, ⟨hdraft.entry, hdraft.content⟩, Function.update_self _ _ _⟩

theorem Inv.renamed {s : Sys} {m : Records} (h : Inv s m) {p : Text} {v : Record} {fd : ℕ}
    (hmay : m.May p (some v)) (hdraft : Draft s.fs p fd v) (hset : s.fs.settled fd = true) :
    Inv { fs := s.fs.rename (tmpFor p) p, pc := .openingDir (some (p, v)) } m := by
  have htmp := tmpFor_isTmp p
  have hne : tmpFor p ≠ p := fun heq => hmay.name (heq ▸ htmp)
  have hread : (s.fs.rename (tmpFor p) p).read p = some v := by
    rw [s.fs.read_rename hne, Fs.read, hdraft.entry, Option.map_some, hdraft.content]
  refine ⟨h.whole.rename htmp hmay.name hdraft.entry hset ?_, fun q hq => ?_, ?_⟩
  · rw [hdraft.content]
    exact hmay.left
  · by_cases hqp : q = p
    · subst hqp
      rw [hread]
      exact hmay.now
    · rw [s.fs.read_rename_of_ne (fun heq : q = tmpFor p => hq (heq ▸ htmp)) hqp]
      exact h.now q hq
  · intro q w hw
    cases hw
    exact ⟨hmay.name, hread⟩

theorem Inv.unlinked {s : Sys} {m : Records} (h : Inv s m) {p : Text} {pc : Pc}
    (hmay : ¬ IsTmp p → none ∈ m.now p ∧ none ∈ m.left p)
    (hfits : pc.Fits (s.fs.unlink p) m) : Inv { fs := s.fs.unlink p, pc } m := by
  refine ⟨h.whole.unlink fun hp => (hmay hp).2, fun q hq => ?_, hfits⟩
  by_cases hqp : q = p
  · subst hqp
    rw [s.fs.read_unlink]
    exact (hmay hq).1
  · rw [s.fs.read_unlink_of_ne hqp]
    exact h.now q hq

/-- A save says that it is done, the directory being synchronised or let off. -/
theorem Inv.reported {s : Sys} {m : Records} (h : Inv s m) {saved : Option (Text × Record)}
    (hsaved : ∀ p v, saved = some (p, v) → ¬ IsTmp p ∧ s.fs.read p = some v) {durable : Bool}
    (hdur : durable = true → s.fs.past = []) :
    Kept m ({ s with pc := .idle }, report saved durable) := by
  cases saved with
  | none => exact ⟨trivial, h.whole, h.now, trivial⟩
  | some pv =>
    obtain ⟨p, v⟩ := pv
    obtain ⟨hp, hread⟩ := hsaved p v rfl
    refine ⟨⟨trivial, trivial⟩, ?_, fun q hq => ?_, trivial⟩
    · cases durable with
      | false => exact h.whole
      | true =>
        refine h.whole.settle (hdur rfl) fun q hq => ?_
        show s.fs.read q ∈ Function.update m.left p [some v] q
        by_cases hqp : q = p
        · subst hqp
          rw [Function.update_self, hread]
          exact List.mem_cons_self
        · rw [Function.update_of_ne hqp]
          exact h.whole.read_good hq
    · show s.fs.read q ∈ Function.update m.now p [some v] q
      by_cases hqp : q = p
      · subst hqp
        rw [Function.update_self, hread]
        exact List.mem_cons_self
      · rw [Function.update_of_ne hqp]
        exact h.now q hq

/-- A load with a call that failed settles nothing. -/
theorem Inv.unclean {s : Sys} {m : Records} (h : Inv s m) {p : Text} {v : Option Record}
    (hv : ∀ u ∈ v, ∃ w, some w ∈ m.now p ∧ u <+: w) :
    Kept m ({ s with pc := .idle }, [.loaded p v false]) :=
  ⟨⟨hv, trivial⟩, h.whole, h.now, trivial⟩

/-- The record is what the load has found. -/
theorem Inv.clean {s : Sys} {m : Records} (h : Inv s m) {p : Text} (hp : ¬ IsTmp p)
    {v : Option Record} (hv : s.fs.read p = v) :
    Kept m ({ s with pc := .idle }, [.loaded p v true]) := by
  refine ⟨⟨hv ▸ h.now p hp, trivial⟩, h.whole, fun q hq => ?_, trivial⟩
  show s.fs.read q ∈ Function.update m.now p [v] q
  by_cases hqp : q = p
  · rw [hqp, Function.update_self, hv]
    exact List.mem_cons_self
  · rw [Function.update_of_ne hqp]
    exact h.now q hq

theorem Inv.read {s : Sys} {m : Records} (h : Inv s m) {p : Text} {fd : ℕ} {got : Record}
    (hp : ¬ IsTmp p) (hentry : s.fs.entry p = some fd) (hgot : got <+: s.fs.content fd) (n : ℕ) :
    Kept m (StateStore.answered { s with pc := .reading p fd got } (.ok n)) := by
  obtain ⟨rest, hrest⟩ := hgot
  have hmore : (s.fs.content fd).drop got.length = rest := by rw [← hrest, List.drop_left]
  unfold StateStore.answered
  dsimp only
  rw [hmore]
  split_ifs with hend
  · refine h.clean hp ?_
    have hall : rest = [] := by
      cases rest with
      | nil => rfl
      | cons b rest => exact absurd hend (List.cons_ne_nil _ _)
    rw [Fs.read, hentry, Option.map_some, ← hrest, hall, List.append_nil]
  · refine h.to ⟨hp, hentry, ?_⟩
    rw [← hrest]
    exact (List.prefix_append_right_inj got).mpr (List.take_prefix _ _)

theorem Inv.answered {s : Sys} {m : Records} (h : Inv s m) (a : Answer) :
    Kept m (answered s a) := by
  have hfits := h.fits
  obtain ⟨fs, pc⟩ := s
  cases pc with
  | idle => exact h.quiet
  | opening p v =>
    cases a with
    | ok n => exact ⟨trivial, h.opened hfits⟩
    | eintr => exact h.to trivial
    | tolerated => exact h.to trivial
    | failed => exact h.to trivial
  | writing p v fd off =>
    cases a with
    | ok n => exact ⟨trivial, h.wrote hfits.1 hfits.2 n⟩
    | eintr => exact h.quiet
    | tolerated => exact h.to trivial
    | failed => exact h.to trivial
  | syncing p v fd =>
    cases a with
    | ok n => exact ⟨trivial, h.synced hfits.1 hfits.2⟩
    | eintr => exact h.to trivial
    | tolerated => exact h.to trivial
    | failed => exact h.to trivial
  | closing p v fd =>
    cases a with
    | ok n => exact h.to ⟨hfits.1, fd, hfits.2⟩
    | eintr => exact h.to trivial
    | tolerated => exact h.to trivial
    | failed => exact h.to trivial
  | giving => exact h.to trivial
  | moving p v =>
    obtain ⟨hmay, fd, hdraft, hset⟩ := hfits
    cases a with
    | ok n => exact ⟨trivial, h.renamed hmay hdraft hset⟩
    | eintr => exact h.to trivial
    | tolerated => exact h.to trivial
    | failed => exact h.to trivial
  | unlinking p =>
    cases a with
    | ok n => exact ⟨trivial, h.unlinked (fun hp => absurd (tmpFor_isTmp p) hp) trivial⟩
    | eintr => exact h.to trivial
    | tolerated => exact h.to trivial
    | failed => exact h.to trivial
  | removing p =>
    have hnone : (Pc.openingDir none).Fits fs m := by
      intro q w hw
      cases hw
    cases a with
    | ok n =>
      refine ⟨trivial, h.unlinked (fun _ => ⟨hfits.now, hfits.left⟩) ?_⟩
      intro q w hw
      cases hw
    | eintr => exact h.to hnone
    | tolerated => exact h.to hnone
    | failed => exact h.to hnone
  | openingDir saved =>
    cases a with
    | ok n => exact h.to hfits
    | eintr => exact h.to trivial
    | tolerated => exact h.reported hfits (fun hd => by cases hd)
    | failed => exact h.to trivial
  | syncingDir saved =>
    cases a with
    | ok n =>
      have hsync : Inv ⟨fs.fsyncDir, .syncingDir saved⟩ m := ⟨h.whole.fsyncDir, h.now, hfits⟩
      exact hsync.reported hfits fun _ => rfl
    | eintr => exact h.quiet
    | tolerated => exact h.reported hfits (fun hd => by cases hd)
    | failed => exact h.to trivial
  | finding p =>
    have hnone : ∀ u ∈ (none : Option Record), ∃ w, some w ∈ m.now p ∧ u <+: w := nofun
    cases a with
    | ok n =>
      unfold StateStore.answered
      dsimp only
      cases hentry : fs.entry p with
      | none => exact h.clean hfits (by rw [Fs.read, hentry]; rfl)
      | some fd => exact h.to ⟨hfits, hentry, List.nil_prefix⟩
    | eintr => exact h.unclean hnone
    | tolerated => exact h.unclean hnone
    | failed => exact h.unclean hnone
  | reading p fd got =>
    obtain ⟨hp, hentry, hgot⟩ := hfits
    have hfront : ∀ u ∈ some got, ∃ w, some w ∈ m.now p ∧ u <+: w := by
      intro u hu
      obtain rfl := Option.some.inj hu
      have hnow := h.now p hp
      rw [Fs.read, hentry] at hnow
      exact ⟨_, hnow, hgot⟩
    cases a with
    | ok n => exact h.read hp hentry hgot n
    | eintr => exact h.quiet
    | tolerated => exact h.unclean hfront
    | failed => exact h.unclean hfront

theorem Inv.crash {s : Sys} {m : Records} (h : Inv s m) (k : ℕ) (junk : ℕ → Record) :
    Kept m ({ fs := s.fs.crash k junk }, [.crashed (s.fs.crash k junk).read]) := by
  have hcrash := h.whole.crash k junk
  refine ⟨⟨fun p hp => hcrash.read_good hp, trivial⟩, hcrash.settle rfl ?_, ?_, trivial⟩
  · exact fun _ _ => List.mem_cons_self
  · exact fun _ _ => List.mem_cons_self

theorem mem_update_cons {f : Text → List (Option Record)} {p q : Text} {u v : Option Record}
    (h : q = p ∧ u = v ∨ u ∈ f q) : u ∈ Function.update f p (v :: f p) q := by
  rw [Function.update_apply]
  split_ifs with hqp
  · subst hqp
    rcases h with ⟨_, rfl⟩ | h
    · exact List.mem_cons_self
    · exact List.mem_cons_of_mem _ h
  · rcases h with ⟨heq, _⟩ | h
    · exact absurd heq hqp
    · exact h

/-- A call begins that may change a record. -/
theorem Inv.offer {s : Sys} {m : Records} (h : Inv s m) {p : Text} (hp : ¬ IsTmp p)
    (v : Option Record) {pc : Pc}
    (hfits : (m.offer p v).May p v → pc.Fits s.fs (m.offer p v)) :
    Inv { s with pc } (m.offer p v) where
  whole := h.whole.mono fun _ _ hu => mem_update_cons (.inr hu)
  now q hq := mem_update_cons (.inr (h.now q hq))
  fits := hfits ⟨hp, mem_update_cons (.inl ⟨rfl, rfl⟩), mem_update_cons (.inl ⟨rfl, rfl⟩)⟩

theorem Inv.step {s : Sys} {m : Records} (h : Inv s m) (dir : Text) (e : Event) :
    Kept m (step dir s e) := by
  cases e with
  | save key value =>
    unfold StateStore.step
    dsimp only
    split_ifs
    · exact ⟨⟨trivial, trivial⟩, h.offer (pathFor_not_tmp dir key) (some value) id⟩
    · exact h.quiet
  | clear key =>
    unfold StateStore.step
    dsimp only
    split_ifs
    · exact ⟨⟨trivial, trivial⟩, h.offer (pathFor_not_tmp dir key) none id⟩
    · exact h.quiet
  | load key =>
    unfold StateStore.step
    dsimp only
    split_ifs
    · exact h.to (pathFor_not_tmp dir key)
    · exact h.quiet
  | answer a => exact h.answered a
  | crash k junk => exact h.crash k junk

theorem Inv.observed {s : Sys} {m : Records} (h : Inv s m) (dir : Text) (evs : List Event) :
    Allowed m (observed dir s evs) := by
  induction evs generalizing s m with
  | nil => trivial
  | cons e evs ih =>
    have hstep := h.step dir e
    exact hstep.1.append (ih hstep.2)

/-- A record that was reported saved, the directory being synchronised, is what a load finds until
the next save or clear of it, over any number of power cuts and whichever calls fail: a load whose
own calls go through finds it whole, and any load no more than its front. -/
theorem saved_survives (dir : Text) (evs : List Event) {before os after : List Obs} {key : Text}
    {v : Record} {w : Option Record} {clean : Bool}
    (hrun : observed dir {} evs = before ++ .saved (pathFor dir key) v true ::
      (os ++ .loaded (pathFor dir key) w clean :: after))
    (hos : ∀ o ∈ os, ¬ o.touches (pathFor dir key)) :
    (clean = true → w = some v) ∧ ∀ u ∈ w, u <+: v := by
  have hall := Inv.init.observed dir evs
  rw [hrun] at hall
  have hset : (((before.foldl Records.after {}).after
      (.saved (pathFor dir key) v true))).Settled (pathFor dir key) (some v) :=
    ⟨Function.update_self _ _ _, Function.update_self _ _ _⟩
  obtain ⟨hclean, hfront⟩ := hall.drop.2.loaded_eq (pathFor_not_tmp dir key) hset hos
  refine ⟨hclean, fun u hu => ?_⟩
  obtain ⟨x, hx, hpre⟩ := hfront u hu
  obtain rfl := Option.some.inj hx
  exact hpre

/-- A save that goes through, in two pieces and over an interruption, a cut of the power, and a load
in two pieces. -/
def cutAfterSave : List Event :=
  [.save "k".toList [1, 2], .answer (.ok 0), .answer (.ok 1), .answer .eintr, .answer (.ok 1),
    .answer (.ok 0), .answer (.ok 0), .answer (.ok 0), .answer (.ok 0), .answer (.ok 0),
    .crash 3 (fun _ => []), .load "k".toList, .answer (.ok 0), .answer (.ok 0), .answer (.ok 0),
    .answer (.ok 0)]

theorem saved_survives_cut : ∃ found w, observed "/s".toList {} cutAfterSave =
      [.saving (pathFor "/s".toList "k".toList) [1, 2],
        .saved (pathFor "/s".toList "k".toList) [1, 2] true, .crashed found,
        .loaded (pathFor "/s".toList "k".toList) w true] ∧ w = some [1, 2] := by
  refine ⟨_, _, rfl, ?_⟩
  refine (@saved_survives "/s".toList cutAfterSave [.saving _ _] [.crashed _] [] "k".toList _ _ true
    rfl ?_).1 rfl
  intro o ho
  rw [List.mem_singleton.mp ho]
  exact id

end Machino.StateStore
