import Machino.Basic.Runs

namespace Machino.Effects

/-- A program that asks its surroundings for one effect at a time; `A e` answers `e`. -/
inductive Prog (E : Type) (A : E → Type) (α : Type) where
  | ret (a : α)
  | call (e : E) (k : A e → Prog E A α)

variable {E : Type} {A : E → Type} {α β : Type} {W O : Type}

namespace Prog

def bind : Prog E A α → (α → Prog E A β) → Prog E A β
  | ret a, f => f a
  | call e k, f => call e fun a => (k a).bind f

instance : Monad (Prog E A) where
  pure := ret
  bind := bind

def perform (e : E) : Prog E A (A e) := call e ret

/-- Running to the end when nothing interferes. -/
def eval (exec : (e : E) → W → A e × W) : Prog E A α → W → α × W
  | ret a, w => (a, w)
  | call e k, w => (k (exec e w).1).eval exec (exec e w).2

section eval

variable (exec : (e : E) → W → A e × W) (w : W)

@[simp] theorem eval_pure (a : α) : (pure a : Prog E A α).eval exec w = (a, w) := rfl

@[simp] theorem eval_perform (e : E) :
    (perform e : Prog E A (A e)).eval exec w = ((exec e w).1, (exec e w).2) := rfl

@[simp] theorem eval_bind (p : Prog E A α) (f : α → Prog E A β) :
    (p >>= f).eval exec w = (f (p.eval exec w).1).eval exec (p.eval exec w).2 := by
  induction p generalizing w with
  | ret a => rfl
  | call e k ih => exact ih (exec e w).1 (exec e w).2

/-- The result depends on the answers only. -/
theorem eval_fst {W' : Type} {exec : (e : E) → W → A e × W} {exec' : (e : E) → W' → A e × W'}
    (h : ∀ e w w', (exec e w).1 = (exec' e w').1) (p : Prog E A α) (w : W) (w' : W') :
    (p.eval exec w).1 = (p.eval exec' w').1 := by
  induction p generalizing w w' with
  | ret a => rfl
  | call e k ih =>
    have hrest := ih (exec e w).1 (exec e w).2 (exec' e w').2
    rw [h e w w'] at hrest
    exact (congrArg (fun a => ((k a).eval exec (exec e w).2).1) (h e w w')).trans hrest

end eval

/-- Running with the effects answered one after the other, and what was asked for. -/
def asked : Prog E A α → (ℕ → (e : E) → A e) → α × List E
  | ret a, _ => (a, [])
  | call e k, answers =>
    let r := (k (answers 0 e)).asked fun n => answers (n + 1)
    (r.1, e :: r.2)

/-- `P` holds before, between and after the effects, whatever admissible outcome each of them
has, and `Q` holds of the result. -/
def Holds (exec : (e : E) → O → W → A e × W) (ok : W → E → O → Prop) (P : W → Prop) :
    Prog E A α → W → (α → W → Prop) → Prop
  | ret a, w, Q => P w ∧ Q a w
  | call e k, w, Q =>
    P w ∧ ∀ o, ok w e o → (k (exec e o w).1).Holds exec ok P (exec e o w).2 Q

section Holds

variable {exec : (e : E) → O → W → A e × W} {ok : W → E → O → Prop} {P : W → Prop} {w : W}

theorem Holds.now {p : Prog E A α} {Q : α → W → Prop} (h : p.Holds exec ok P w Q) : P w := by
  cases p with
  | ret a => exact h.1
  | call e k => exact h.1

theorem Holds.mono {p : Prog E A α} {Q R : α → W → Prop} (h : p.Holds exec ok P w Q)
    (hqr : ∀ a w, P w → Q a w → R a w) : p.Holds exec ok P w R := by
  induction p generalizing w with
  | ret a => exact ⟨h.1, hqr a w h.1 h.2⟩
  | call e k ih => exact ⟨h.1, fun o ho => ih _ (h.2 o ho)⟩

/-- The rest of a program runs in what its beginning leaves. -/
theorem holds_bind {p : Prog E A α} {f : α → Prog E A β} {Q : β → W → Prop} :
    (p >>= f).Holds exec ok P w Q ↔
      p.Holds exec ok P w fun a w => (f a).Holds exec ok P w Q := by
  induction p generalizing w with
  | ret a => exact ⟨fun h => ⟨h.now, h⟩, fun h => h.2⟩
  | call e k ih =>
    constructor
    · exact fun h => ⟨h.1, fun o ho => (ih _).mp (h.2 o ho)⟩
    · exact fun h => ⟨h.1, fun o ho => (ih _).mpr (h.2 o ho)⟩

/-- An effect, whatever its outcome, and then the rest. -/
theorem holds_ask {e : E} {k : A e → Prog E A β} {Q : β → W → Prop} (hw : P w)
    (h : ∀ o, ok w e o → (k (exec e o w).1).Holds exec ok P (exec e o w).2 Q) :
    (perform e >>= k).Holds exec ok P w Q := ⟨hw, h⟩

end Holds

/-- The program among others' effects. -/
def lift {E₂ : Type} {A₂ : E₂ → Type} : Prog E A α → Prog (E ⊕ E₂) (Sum.elim A A₂) α
  | ret a => ret a
  | call e k => call (.inl e) fun a => (k a).lift

/-- What is kept beside the world is the same before and after a lifted program. -/
theorem Holds.lift {E₂ : Type} {A₂ : E₂ → Type} {D : Type}
    {exec : (e : E) → O → W → A e × W} {ok : W → E → O → Prop} {P : W → Prop}
    {exec' : (e : E ⊕ E₂) → O → W × D → Sum.elim A A₂ e × (W × D)}
    (hexec : ∀ e o w d, exec' (.inl e) o (w, d) = ((exec e o w).1, ((exec e o w).2, d)))
    {ok' : W × D → E ⊕ E₂ → O → Prop} {P' : W × D → Prop} {Q' : α → W × D → Prop} {d : D}
    {p : Prog E A α} {w : W} {Q : α → W → Prop} (h : p.Holds exec ok P w Q)
    (hok : ∀ w e o, ok' (w, d) (.inl e) o → ok w e o) (hP : ∀ w, P w → P' (w, d))
    (hQ : ∀ a w, Q a w → Q' a (w, d)) : p.lift.Holds exec' ok' P' (w, d) Q' := by
  induction p generalizing w with
  | ret a => exact ⟨hP w h.1, hQ a w h.2⟩
  | call e k ih =>
    refine ⟨hP w h.1, fun o ho => ?_⟩
    rw [hexec]
    exact ih _ (h.2 o (hok w e o ho))

/-- Whatever the answers, the program asks for allowed effects only and its result has `Q`. -/
def Yields (allowed : E → Prop) : Prog E A α → (α → Prop) → Prop
  | ret a, Q => Q a
  | call e k, Q => allowed e ∧ ∀ a, (k a).Yields allowed Q

/-- Whatever the answers, the program asks for allowed effects only. -/
abbrev Uses (allowed : E → Prop) (p : Prog E A α) : Prop := p.Yields allowed fun _ => True

section Uses

variable {allowed : E → Prop}

theorem uses_perform {e : E} (h : allowed e) : (perform e : Prog E A (A e)).Uses allowed :=
  ⟨h, fun _ => trivial⟩

theorem Yields.bind {p : Prog E A α} {f : α → Prog E A β} {Q : α → Prop} {R : β → Prop}
    (hp : p.Yields allowed Q) (hf : ∀ a, Q a → (f a).Yields allowed R) :
    (p >>= f).Yields allowed R := by
  induction p with
  | ret a => exact hf a hp
  | call e k ih => exact ⟨hp.1, fun a => ih a (hp.2 a)⟩

theorem Uses.bind {p : Prog E A α} {f : α → Prog E A β} {R : β → Prop} (hp : p.Uses allowed)
    (hf : ∀ a, (f a).Yields allowed R) : (p >>= f).Yields allowed R :=
  Yields.bind hp fun a _ => hf a

theorem Yields.mono {p : Prog E A α} {Q : α → Prop} (hp : p.Yields allowed Q) {more : E → Prop}
    {R : α → Prop} (h : ∀ e, allowed e → more e) (hqr : ∀ a, Q a → R a) : p.Yields more R := by
  induction p with
  | ret a => exact hqr a hp
  | call e k ih => exact ⟨h e hp.1, fun a => ih a (hp.2 a)⟩

theorem Uses.mono {p : Prog E A α} (hp : p.Uses allowed) {more : E → Prop}
    (h : ∀ e, allowed e → more e) : p.Uses more := Yields.mono hp h fun _ _ => trivial

theorem Yields.eval {p : Prog E A α} {Q : α → Prop} (hp : p.Yields allowed Q)
    (exec : (e : E) → W → A e × W) (w : W) : Q (p.eval exec w).1 := by
  induction p generalizing w with
  | ret a => exact hp
  | call e k ih => exact ih _ (hp.2 _) _

theorem Yields.asked {p : Prog E A α} {Q : α → Prop} (hp : p.Yields allowed Q)
    (answers : ℕ → (e : E) → A e) :
    Q (p.asked answers).1 ∧ ∀ e ∈ (p.asked answers).2, allowed e := by
  induction p generalizing answers with
  | ret a => exact ⟨hp, fun e he => absurd he List.not_mem_nil⟩
  | call e k ih =>
    obtain ⟨hresult, hrest⟩ := ih _ (hp.2 _) fun n => answers (n + 1)
    exact ⟨hresult, List.forall_mem_cons.mpr ⟨hp.1, hrest⟩⟩

/-- What every allowed effect keeps, the program keeps. -/
theorem Yields.holds {exec : (e : E) → O → W → A e × W} {ok : W → E → O → Prop} {P I : W → Prop}
    {p : Prog E A α} {Q : α → Prop} (hp : p.Yields allowed Q) (hI : ∀ w, I w → P w)
    (hkeep : ∀ e o w, allowed e → I w → I (exec e o w).2) {w : W} (hw : I w) :
    p.Holds exec ok P w fun a w => I w ∧ Q a := by
  induction p generalizing w with
  | ret a => exact ⟨hI w hw, hw, hp⟩
  | call e k ih => exact ⟨hI w hw, fun o _ => ih _ (hp.2 _) (hkeep e o w hp.1 hw)⟩

theorem Uses.holds {exec : (e : E) → O → W → A e × W} {ok : W → E → O → Prop} {P I : W → Prop}
    {p : Prog E A α} (hp : p.Uses allowed) (hI : ∀ w, I w → P w)
    (hkeep : ∀ e o w, allowed e → I w → I (exec e o w).2) {w : W} (hw : I w) :
    p.Holds exec ok P w fun _ w => I w :=
  (Yields.holds hp hI hkeep hw).mono fun _ _ _ h => h.1

theorem uses_any (p : Prog E A α) : p.Uses fun _ => True := by
  induction p with
  | ret a => trivial
  | call e k ih => exact ⟨trivial, ih⟩

/-- A run to the end keeps what every allowed effect keeps. -/
theorem Yields.eval_keeps {p : Prog E A α} {Q : α → Prop} (hp : p.Yields allowed Q) {I : W → Prop}
    {exec : (e : E) → W → A e × W} (hkeep : ∀ e w, allowed e → I w → I (exec e w).2) {w : W}
    (hw : I w) : I (p.eval exec w).2 := by
  induction p generalizing w with
  | ret a => exact hw
  | call e k ih => exact ih _ (hp.2 _) (hkeep e w hp.1 hw)

end Uses

end Prog

section machine

variable {J B M : Type}

/-- A process with memory `M` that runs one job at a time against the world, after a start from
what it is given then. -/
structure Machine (E : Type) (A : E → Type) (O W J B M : Type) where
  exec : (e : E) → O → W → A e × W
  job : J → M → Prog E A M
  boot : B → Prog E A M

/-- What the world holds, the job or start that runs, and what is left of it. -/
structure State (E : Type) (A : E → Type) (W J B M : Type) where
  world : W
  job : J ⊕ B
  proc : Prog E A M

/-- A job begins, the effect the process waits for happens, or the process dies and starts. -/
inductive Input (O J B : Type) where
  | start (j : J)
  | answer (o : O)
  | crash (b : B)

/-- Which jobs and starts may happen, and which outcomes their effects may have. -/
structure Rules (E O W J B M : Type) where
  starts : J → M → W → Prop
  outcome : J ⊕ B → W → E → O → Prop
  reboots : B → W → Prop

/-- The input keeps the rules in the state it finds. -/
def Rules.Admissible (rules : Rules E O W J B M) (s : State E A W J B M) : Input O J B → Prop
  | .start j =>
    match s.proc with
    | .ret m => rules.starts j m s.world
    | .call _ _ => True
  | .answer o =>
    match s.proc with
    | .ret _ => True
    | .call e _ => rules.outcome s.job s.world e o
  | .crash b => rules.reboots b s.world

instance (rules : Rules E O W J B M) [∀ j m w, Decidable (rules.starts j m w)]
    [∀ j w e o, Decidable (rules.outcome j w e o)] [∀ b w, Decidable (rules.reboots b w)]
    (s : State E A W J B M) : (i : Input O J B) → Decidable (rules.Admissible s i)
  | .start j =>
    match h : s.proc with
    | .ret m => decidable_of_iff (rules.starts j m s.world) (by simp [Rules.Admissible, h])
    | .call _ _ => .isTrue (by simp [Rules.Admissible, h])
  | .answer o =>
    match h : s.proc with
    | .ret _ => .isTrue (by simp [Rules.Admissible, h])
    | .call e _ => decidable_of_iff (rules.outcome s.job s.world e o) (by simp [Rules.Admissible, h])
  | .crash b => inferInstanceAs (Decidable (rules.reboots b s.world))

namespace Machine

variable (mach : Machine E A O W J B M)

def step (s : State E A W J B M) : Input O J B → State E A W J B M
  | .start j =>
    match s.proc with
    | .ret m => { s with job := .inl j, proc := mach.job j m }
    | .call _ _ => s
  | .answer o =>
    match s.proc with
    | .ret _ => s
    | .call e k => { s with world := (mach.exec e o s.world).2, proc := k (mach.exec e o s.world).1 }
  | .crash b => { s with job := .inr b, proc := mach.boot b }

/-- `P` holds of the world at every point, and `R` of memory and world between two jobs. -/
structure Keeps (rules : Rules E O W J B M) (P : W → Prop) (R : M → W → Prop) : Prop where
  job : ∀ j m w, P w → R m w → rules.starts j m w →
    (mach.job j m).Holds mach.exec (rules.outcome (.inl j)) P w R
  boot : ∀ b w, P w → rules.reboots b w →
    (mach.boot b).Holds mach.exec (rules.outcome (.inr b)) P w R

/-- What is left of the running job keeps `P` and ends in `R`. -/
def Good (rules : Rules E O W J B M) (P : W → Prop) (R : M → W → Prop) (s : State E A W J B M) :
    Prop :=
  s.proc.Holds mach.exec (rules.outcome s.job) P s.world R

variable {mach} {rules : Rules E O W J B M} {P : W → Prop} {R : M → W → Prop}

theorem Keeps.step (hk : mach.Keeps rules P R) {s : State E A W J B M} {i : Input O J B}
    (h : mach.Good rules P R s) (hi : rules.Admissible s i) :
    mach.Good rules P R (mach.step s i) := by
  have hw : P s.world := h.now
  obtain ⟨w, job, proc⟩ := s
  cases i with
  | start j =>
    cases proc with
    | ret m => exact hk.job j m w hw h.2 hi
    | call e k => exact h
  | answer o =>
    cases proc with
    | ret m => exact h
    | call e k => exact h.2 o hi
  | crash b => exact hk.boot b w hw hi

/-- Along a run that keeps the rules, `P` holds of the world at every point. -/
theorem Keeps.run (hk : mach.Keeps rules P R) {s : State E A W J B M} {is : List (Input O J B)}
    (h : mach.Good rules P R s) (his : Runs.Along mach.step rules.Admissible s is) :
    Runs.Always mach.step (fun s => P s.world) s is :=
  (Runs.always_of_along (fun _ _ hg hi => hk.step hg hi) h his).mono fun _ hs => hs.now

/-- Along such a run, `R` holds besides whenever no job is under way. -/
theorem Keeps.run_idle (hk : mach.Keeps rules P R) {s : State E A W J B M}
    {is : List (Input O J B)} (h : mach.Good rules P R s)
    (his : Runs.Along mach.step rules.Admissible s is) :
    Runs.Always mach.step (fun s => P s.world ∧ ∀ m, s.proc = .ret m → R m s.world) s is := by
  refine (Runs.always_of_along (fun _ _ hg hi => hk.step hg hi) h his).mono fun s hs => ?_
  refine ⟨hs.now, fun m hm => ?_⟩
  unfold Good at hs
  rw [hm] at hs
  exact hs.2

/-- Where any job may start and an outcome against the rules breaks `S`, the runs that keep `S`
at every point are those that keep the rules. -/
theorem Keeps.run_iff (hk : mach.Keeps rules P R) {S : W → Prop} (hS : ∀ w, P w → S w)
    (hstarts : ∀ j m w, rules.starts j m w) (hreboots : ∀ b w, rules.reboots b w)
    (hbad : ∀ j w e o, P w → ¬ rules.outcome j w e o → ¬ S (mach.exec e o w).2)
    {s : State E A W J B M} {is : List (Input O J B)} (h : mach.Good rules P R s) :
    Runs.Always mach.step (fun s => S s.world) s is ↔
      Runs.Along mach.step rules.Admissible s is := by
  refine Runs.always_iff_along (P := mach.Good rules P R) (fun _ _ hg hi => hk.step hg hi)
    (fun s hg => hS s.world hg.now) ?_ h
  intro s i hg hi
  have hw : P s.world := hg.now
  obtain ⟨w, job, proc⟩ := s
  cases i with
  | start j =>
    cases proc with
    | ret m => exact absurd (hstarts j m w) hi
    | call e k => exact absurd trivial hi
  | answer o =>
    cases proc with
    | ret m => exact absurd trivial hi
    | call e k => exact hbad job w e o hw hi
  | crash b => exact absurd (hreboots b w) hi

end Machine

end machine

end Machino.Effects
