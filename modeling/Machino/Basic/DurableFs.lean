import Mathlib.Data.List.Basic
import Mathlib.Logic.Function.Basic

/-! A directory of files behind a cache, what a crash may leave of it, and files that are only ever
replaced whole. -/
namespace Machino.DurableFs

/-- Names lead to files by number. The medium has the present directory or one from before, as
nothing was synchronised since, and of a file that is not settled it may have anything. -/
structure Fs (ν : Type) where
  entry : ν → Option ℕ := fun _ => none
  past : List (ν → Option ℕ) := []
  content : ℕ → List UInt8 := fun _ => []
  settled : ℕ → Bool := fun _ => true
  fresh : ℕ := 0

variable {ν : Type}

namespace Fs

section

variable (fs : Fs ν)

def dirs : List (ν → Option ℕ) := fs.entry :: fs.past

def read (n : ν) : Option (List UInt8) := (fs.entry n).map fs.content

variable [DecidableEq ν]

/-- Opens a file for writing: one that is there is cut off, else there is a new one. -/
def openTrunc (n : ν) : ℕ × Fs ν :=
  match fs.entry n with
  | some i => (i, { fs with
      content := Function.update fs.content i []
      settled := Function.update fs.settled i false })
  | none => (fs.fresh,
    { entry := Function.update fs.entry n (some fs.fresh)
      past := fs.entry :: fs.past
      content := Function.update fs.content fs.fresh []
      settled := Function.update fs.settled fs.fresh false
      fresh := fs.fresh + 1 })

def append (i : ℕ) (bytes : List UInt8) : Fs ν := { fs with
  content := Function.update fs.content i (fs.content i ++ bytes)
  settled := Function.update fs.settled i false }

def fsync (i : ℕ) : Fs ν := { fs with settled := Function.update fs.settled i true }

def rename (a b : ν) : Fs ν := { fs with
  entry := Function.update (Function.update fs.entry b (fs.entry a)) a none
  past := fs.entry :: fs.past }

def unlink (n : ν) : Fs ν := { fs with
  entry := Function.update fs.entry n none
  past := fs.entry :: fs.past }

def fsyncDir : Fs ν := { fs with past := [] }

/-- The directory `k` steps back, and junk in what had not settled. -/
def crash (k : ℕ) (junk : ℕ → List UInt8) : Fs ν := { fs with
  entry := fs.dirs.getD k fs.entry
  past := []
  content := fun i => if fs.settled i then fs.content i else junk i
  settled := fun _ => true }

theorem content_openTrunc (w : ν) :
    (fs.openTrunc w).2.content (fs.openTrunc w).1 = [] := by
  unfold Fs.openTrunc
  cases fs.entry w with
  | some i => exact Function.update_self _ _ _
  | none => exact Function.update_self _ _ _

theorem read_rename {a b : ν} (hab : a ≠ b) : (fs.rename a b).read b = fs.read a := by
  show ((Function.update (Function.update fs.entry b (fs.entry a)) a none) b).map fs.content = _
  rw [Function.update_of_ne hab.symm, Function.update_self]
  rfl

theorem read_rename_of_ne {a b n : ν} (ha : n ≠ a) (hb : n ≠ b) :
    (fs.rename a b).read n = fs.read n := by
  show ((Function.update (Function.update fs.entry b (fs.entry a)) a none) n).map fs.content = _
  rw [Function.update_of_ne ha, Function.update_of_ne hb]
  rfl

theorem read_unlink {n : ν} : (fs.unlink n).read n = none := by
  show ((Function.update fs.entry n none) n).map fs.content = none
  rw [Function.update_self]
  rfl

theorem read_unlink_of_ne {a n : ν} (hn : n ≠ a) : (fs.unlink a).read n = fs.read n := by
  show ((Function.update fs.entry a none) n).map fs.content = _
  rw [Function.update_of_ne hn]
  rfl

end

end Fs

variable (work : ν → Prop) (good : ν → Option (List UInt8) → Prop)

/-- Outside of the names to work on, every directory that a crash may leave leads to settled files
with admissible contents, and not to a file that is being worked on. -/
structure Whole (fs : Fs ν) : Prop where
  below : ∀ d ∈ fs.dirs, ∀ n i, d n = some i → i < fs.fresh
  inj : ∀ d ∈ fs.dirs, ∀ n m i, d n = some i → d m = some i → n = m
  apart : ∀ w, work w → ∀ i, fs.entry w = some i → ∀ d ∈ fs.past, ∀ n, ¬ work n → d n ≠ some i
  settled : ∀ d ∈ fs.dirs, ∀ n, ¬ work n → ∀ i, d n = some i → fs.settled i = true
  good : ∀ d ∈ fs.dirs, ∀ n, ¬ work n → good n ((d n).map fs.content)

namespace Whole

variable {work good}

theorem init (hgood : ∀ n, ¬ work n → good n none) : Whole work good {} where
  below d hd n i hi := by
    rw [List.mem_singleton.mp hd] at hi
    cases hi
  inj d hd n k i hi := by
    rw [List.mem_singleton.mp hd] at hi
    cases hi
  apart w _ i hi := by cases hi
  settled _ _ _ _ _ _ := rfl
  good d hd n hn := by
    rw [List.mem_singleton.mp hd]
    exact hgood n hn

variable {fs : Fs ν} (h : Whole work good fs)

include h

theorem read_good {n : ν} (hn : ¬ work n) : good n (fs.read n) :=
  h.good fs.entry List.mem_cons_self n hn

/-- What holds of the files once the directory is the only one that a crash may leave. -/
theorem settle {good' : ν → Option (List UInt8) → Prop} (hpast : fs.past = [])
    (hgood : ∀ n, ¬ work n → good' n (fs.read n)) : Whole work good' fs := by
  refine { h with good := fun d hd n hn => ?_ }
  rw [Fs.dirs, hpast, List.mem_singleton] at hd
  rw [hd]
  exact hgood n hn

theorem mono {good' : ν → Option (List UInt8) → Prop} (himp : ∀ n v, good n v → good' n v) :
    Whole work good' fs :=
  { h with good := fun d hd n hn => himp n _ (h.good d hd n hn) }

/-- No directory leads from another name to a file that is being worked on. -/
theorem ne_of_work {w : ν} (hw : work w) {i : ℕ} (hi : fs.entry w = some i)
    {d : ν → Option ℕ} (hd : d ∈ fs.dirs) {n : ν} (hn : ¬ work n) : d n ≠ some i := by
  rcases List.mem_cons.mp hd with rfl | hpast
  · intro hni
    have heq := h.inj fs.entry hd n w i hni hi
    exact hn (heq ▸ hw)
  · exact h.apart w hw i hi d hpast n hn

/-- A crash leaves one of the directories, and what they lead to is settled. -/
theorem crash (k : ℕ) (junk : ℕ → List UInt8) : Whole work good (fs.crash k junk) := by
  have hmem : fs.dirs.getD k fs.entry ∈ fs.dirs := by
    rw [List.getD_eq_getElem?_getD]
    cases hk : fs.dirs[k]? with
    | none => exact List.mem_cons_self
    | some d => exact List.mem_of_getElem? hk
  have honly {d : ν → Option ℕ} (hd : d ∈ (fs.crash k junk).dirs) : d ∈ fs.dirs :=
    List.mem_singleton.mp hd ▸ hmem
  exact {
    below := fun d hd => h.below d (honly hd)
    inj := fun d hd => h.inj d (honly hd)
    apart := fun _ _ _ _ d hd => absurd hd List.not_mem_nil
    settled := fun _ _ _ _ _ _ => rfl
    good := fun d hd n hn => by
      have hsame : (d n).map (fs.crash k junk).content = (d n).map fs.content := by
        apply Option.map_congr
        intro i hi
        exact if_pos (h.settled d (honly hd) n hn i hi)
      rw [hsame]
      exact h.good d (honly hd) n hn }

theorem fsyncDir : Whole work good fs.fsyncDir where
  below d hd := h.below d (List.mem_singleton.mp hd ▸ List.mem_cons_self)
  inj d hd := h.inj d (List.mem_singleton.mp hd ▸ List.mem_cons_self)
  apart _ _ _ _ _ hd := absurd hd List.not_mem_nil
  settled d hd := h.settled d (List.mem_singleton.mp hd ▸ List.mem_cons_self)
  good d hd := h.good d (List.mem_singleton.mp hd ▸ List.mem_cons_self)

theorem map_write {w : ν} (hw : work w) {i : ℕ} (hi : fs.entry w = some i)
    (bytes : List UInt8) {d : ν → Option ℕ} (hd : d ∈ fs.dirs) {n : ν} (hn : ¬ work n) :
    (d n).map (Function.update fs.content i bytes) = (d n).map fs.content := by
  apply Option.map_congr
  intro j hj
  have hne : j ≠ i := fun heq => h.ne_of_work hw hi hd hn (heq ▸ hj)
  exact Function.update_of_ne hne _ _

/-- The file behind a name to work on may be written. -/
theorem write {w : ν} (hw : work w) {i : ℕ} (hi : fs.entry w = some i) (bytes : List UInt8)
    (b : Bool) : Whole work good { fs with
      content := Function.update fs.content i bytes
      settled := Function.update fs.settled i b } where
  below := h.below
  inj := h.inj
  apart := h.apart
  settled d hd n hn j hj := by
    have hne : j ≠ i := fun heq => h.ne_of_work hw hi hd hn (heq ▸ hj)
    show Function.update fs.settled i b j = true
    rw [Function.update_of_ne hne]
    exact h.settled d hd n hn j hj
  good d hd n hn := by
    show good n ((d n).map (Function.update fs.content i bytes))
    rw [h.map_write hw hi bytes hd hn]
    exact h.good d hd n hn

/-- A directory that takes the place of the present one. -/
theorem enter {d' : ν → Option ℕ} (hbelow : ∀ n i, d' n = some i → i < fs.fresh)
    (hinj : ∀ n m i, d' n = some i → d' m = some i → n = m)
    (hapart : ∀ w i, work w → d' w = some i → ∀ d ∈ fs.dirs, ∀ n, ¬ work n → d n ≠ some i)
    (hsettled : ∀ n, ¬ work n → ∀ i, d' n = some i → fs.settled i = true)
    (hgood : ∀ n, ¬ work n → good n ((d' n).map fs.content)) :
    Whole work good { fs with entry := d', past := fs.dirs } where
  below := List.forall_mem_cons.mpr ⟨hbelow, h.below⟩
  inj := List.forall_mem_cons.mpr ⟨hinj, h.inj⟩
  apart w hw i hi := hapart w i hw hi
  settled := List.forall_mem_cons.mpr ⟨hsettled, h.settled⟩
  good := List.forall_mem_cons.mpr ⟨hgood, h.good⟩

theorem map_allot {d : ν → Option ℕ} (hd : d ∈ fs.dirs) (n : ν) :
    (d n).map (Function.update fs.content fs.fresh []) = (d n).map fs.content := by
  apply Option.map_congr
  intro i hi
  exact Function.update_of_ne (Nat.ne_of_lt (h.below d hd n i hi)) _ _

/-- A file that no directory leads to. -/
theorem allot : Whole work good { fs with
    content := Function.update fs.content fs.fresh []
    settled := Function.update fs.settled fs.fresh false
    fresh := fs.fresh + 1 } where
  below d hd n i hi := Nat.lt_succ_of_lt (h.below d hd n i hi)
  inj := h.inj
  apart := h.apart
  settled d hd n hn i hi := by
    show Function.update fs.settled fs.fresh false i = true
    rw [Function.update_of_ne (Nat.ne_of_lt (h.below d hd n i hi))]
    exact h.settled d hd n hn i hi
  good d hd n hn := by
    show good n ((d n).map (Function.update fs.content fs.fresh []))
    rw [h.map_allot hd n]
    exact h.good d hd n hn

variable [DecidableEq ν]

theorem openTrunc {w : ν} (hw : work w) : Whole work good (fs.openTrunc w).2 ∧
    (fs.openTrunc w).2.entry w = some (fs.openTrunc w).1 := by
  unfold Fs.openTrunc
  cases hentry : fs.entry w with
  | some i => exact ⟨h.write hw hentry [] false, hentry⟩
  | none =>
    have hnew := h.allot
    have hold {n : ν} {i : ℕ} (hn : n ≠ w)
        (hi : Function.update fs.entry w (some fs.fresh) n = some i) : fs.entry n = some i := by
      rwa [Function.update_of_ne hn] at hi
    have hself {i : ℕ} (hi : Function.update fs.entry w (some fs.fresh) w = some i) :
        fs.fresh = i := by
      rw [Function.update_self] at hi
      exact Option.some.inj hi
    have hlt {d : ν → Option ℕ} (hd : d ∈ fs.dirs) {n : ν} : d n ≠ some fs.fresh := fun hn =>
      Nat.lt_irrefl _ (h.below d hd n _ hn)
    refine ⟨hnew.enter ?_ ?_ ?_ ?_ ?_, Function.update_self _ _ _⟩
    · intro n i hi
      by_cases hn : n = w
      · subst hn
        rw [← hself hi]
        exact Nat.lt_succ_self _
      · exact hnew.below _ List.mem_cons_self n i (hold hn hi)
    · intro n m i hni hmi
      by_cases hn : n = w
      · by_cases hm : m = w
        · rw [hn, hm]
        · subst hn
          rw [← hself hni] at hmi
          exact absurd (hold hm hmi) (hlt List.mem_cons_self)
      · by_cases hm : m = w
        · subst hm
          rw [← hself hmi] at hni
          exact absurd (hold hn hni) (hlt List.mem_cons_self)
        · exact h.inj _ List.mem_cons_self n m i (hold hn hni) (hold hm hmi)
    · intro m i hm hi d hd n hn
      by_cases heq : m = w
      · subst heq
        rw [← hself hi]
        exact hlt hd
      · exact h.ne_of_work hm (hold heq hi) hd hn
    · intro n hn i hi
      have hne : n ≠ w := fun heq => hn (heq ▸ hw)
      exact hnew.settled _ List.mem_cons_self n hn i (hold hne hi)
    · intro n hn
      have hne : n ≠ w := fun heq => hn (heq ▸ hw)
      rw [Function.update_of_ne hne]
      exact hnew.good _ List.mem_cons_self n hn

theorem read_openTrunc {w : ν} (hw : work w) {n : ν} (hn : ¬ work n) :
    (fs.openTrunc w).2.read n = fs.read n := by
  have hne : n ≠ w := fun heq => hn (heq ▸ hw)
  have hpres := List.mem_cons_self (a := fs.entry) (l := fs.past)
  unfold Fs.openTrunc
  cases hentry : fs.entry w with
  | some i => exact h.map_write hw hentry [] hpres hn
  | none =>
    show (Function.update fs.entry w (some fs.fresh) n).map _ = _
    rw [Function.update_of_ne hne]
    exact h.map_allot hpres n

/-- A settled file takes the place of another one, whole. -/
theorem rename {w n : ν} (hw : work w) (hn : ¬ work n) {i : ℕ} (hi : fs.entry w = some i)
    (hset : fs.settled i = true) (hgood : good n (some (fs.content i))) :
    Whole work good (fs.rename w n) := by
  have hwn : w ≠ n := fun heq => hn (heq ▸ hw)
  have hentry (m : ν) : (fs.rename w n).entry m =
      if m = w then none else if m = n then some i else fs.entry m := by
    show Function.update (Function.update fs.entry n (fs.entry w)) w none m = _
    by_cases hm : m = w
    · rw [hm, Function.update_self, if_pos rfl]
    · rw [Function.update_of_ne hm, if_neg hm, hi, Function.update_apply]
  have hcases {m : ν} {j : ℕ} (hm : (fs.rename w n).entry m = some j) :
      m ≠ w ∧ (m = n ∧ j = i ∨ m ≠ n ∧ fs.entry m = some j) := by
    rw [hentry] at hm
    split_ifs at hm with h1 h2
    · exact ⟨h1, .inl ⟨h2, (Option.some.inj hm).symm⟩⟩
    · exact ⟨h1, .inr ⟨h2, hm⟩⟩
  have hpres := List.mem_cons_self (a := fs.entry) (l := fs.past)
  change Whole work good { fs with entry := (fs.rename w n).entry, past := fs.dirs }
  refine h.enter ?_ ?_ ?_ ?_ ?_
  · intro m j hm
    obtain ⟨_, ⟨_, rfl⟩ | ⟨_, hmj⟩⟩ := hcases hm
    · exact h.below _ hpres w j hi
    · exact h.below _ hpres m j hmj
  · intro m m' j hm hm'
    obtain ⟨h1, ⟨rfl, rfl⟩ | ⟨h2, hmj⟩⟩ := hcases hm
    · obtain ⟨h1', ⟨rfl, _⟩ | ⟨_, hmj'⟩⟩ := hcases hm'
      · rfl
      · exact absurd (h.inj _ hpres m' w j hmj' hi) h1'
    · obtain ⟨h1', ⟨rfl, rfl⟩ | ⟨_, hmj'⟩⟩ := hcases hm'
      · exact absurd (h.inj _ hpres m w j hmj hi) h1
      · exact h.inj _ hpres m m' j hmj hmj'
  · intro m j hm hmj d hd n' hn'
    obtain ⟨_, ⟨rfl, _⟩ | ⟨_, hold⟩⟩ := hcases hmj
    · exact absurd hm hn
    · exact h.ne_of_work hm hold hd hn'
  · intro m hm j hmj
    obtain ⟨_, ⟨_, rfl⟩ | ⟨_, hold⟩⟩ := hcases hmj
    · exact hset
    · exact h.settled _ hpres m hm j hold
  · intro m hm
    have hmw : m ≠ w := fun heq => hm (heq ▸ hw)
    rw [hentry, if_neg hmw]
    by_cases hmn : m = n
    · rw [if_pos hmn, hmn]
      exact hgood
    · rw [if_neg hmn]
      exact h.good _ hpres m hm

theorem unlink {n : ν} (hgood : ¬ work n → good n none) : Whole work good (fs.unlink n) := by
  have hcases {m : ν} {j : ℕ} (hm : Function.update fs.entry n none m = some j) :
      fs.entry m = some j := by
    by_cases hmn : m = n
    · rw [hmn, Function.update_self] at hm
      cases hm
    · rwa [Function.update_of_ne hmn] at hm
  have hpres := List.mem_cons_self (a := fs.entry) (l := fs.past)
  refine h.enter ?_ ?_ ?_ ?_ ?_
  · exact fun m j hm => h.below _ hpres m j (hcases hm)
  · exact fun m m' j hm hm' => h.inj _ hpres m m' j (hcases hm) (hcases hm')
  · exact fun w j hw hj d hd m hm => h.ne_of_work hw (hcases hj) hd hm
  · exact fun m hm j hj => h.settled _ hpres m hm j (hcases hj)
  · intro m hm
    by_cases hmn : m = n
    · rw [hmn, Function.update_self]
      exact hgood (hmn ▸ hm)
    · rw [Function.update_of_ne hmn]
      exact h.good _ hpres m hm

end Whole

end Machino.DurableFs
