import Mathlib.Data.List.Nodup
import Machino.Basic.Runs
import Machino.Http.SessionGate

namespace Machino.Http

open Runs

theorem earliest_le (e : Session) (es : List Session) : ∀ f ∈ e :: es, (earliest e es).2 ≤ f.2 := by
  induction es generalizing e with
  | nil =>
    intro f hf
    obtain rfl := List.mem_singleton.mp hf
    exact Int64.le_refl _
  | cons g es ih =>
    intro f hf
    unfold earliest
    have hall := ih (if g.2 < e.2 then g else e)
    have hfirst := hall _ List.mem_cons_self
    rcases List.mem_cons.mp hf with rfl | hf
    · split_ifs at hfirst ⊢ with hlt
      · exact Int64.le_trans hfirst (Int64.le_of_lt hlt)
      · exact hfirst
    · rcases List.mem_cons.mp hf with rfl | hf
      · split_ifs at hfirst ⊢ with hlt
        · exact hfirst
        · exact Int64.le_trans hfirst (Int64.not_lt.mp hlt)
      · exact hall f (List.mem_cons_of_mem _ hf)

namespace Tokens

theorem eq_of_token_eq {t : Tokens} {e f : Session} (he : e ∈ t.entries) (hf : f ∈ t.entries)
    (h : e.1 = f.1) : e = f := List.inj_on_of_nodup_map t.distinct he hf h

theorem mem_of_find {t : Tokens} {tok : Text} {expiry : Int64} (h : t.find tok = some expiry) :
    (tok, expiry) ∈ t.entries := by
  obtain ⟨e, he, rfl⟩ := Option.map_eq_some_iff.mp h
  have htok : e.1 = tok := by simpa using List.find?_some he
  rw [← htok]
  exact List.mem_of_find?_eq_some he

/-- What is left of a table in which `e` had been, when room had to be made. -/
structure Shrunk (t s : Tokens) : Prop where
  room : s.entries.length < maxSessions
  subset : ∀ e ∈ s.entries, e ∈ t.entries
  victim : ∀ e ∈ t.entries, e ∉ s.entries →
    maxSessions ≤ t.entries.length ∧ ∀ f ∈ s.entries, e.2 ≤ f.2

theorem shrunk_self {t : Tokens} (h : t.entries.length < maxSessions) : Shrunk t t :=
  ⟨h, fun _ he => he, fun _ he hne => absurd he hne⟩

/-- The entry that expires first goes, and then those that must go besides. -/
theorem Shrunk.of_erase {t s : Tokens} {oldest : Session} (hmem : oldest ∈ t.entries)
    (hle : ∀ f ∈ t.entries, oldest.2 ≤ f.2) (hfull : maxSessions ≤ t.entries.length)
    (h : Shrunk (t.erase oldest.1) s) : Shrunk t s := by
  refine ⟨h.room, fun e he => (mem_erase.mp (h.subset e he)).1, ?_⟩
  intro e he hne
  refine ⟨hfull, ?_⟩
  by_cases htok : e.1 = oldest.1
  · obtain rfl := eq_of_token_eq he hmem htok
    intro f hf
    exact hle f (mem_erase.mp (h.subset f hf)).1
  · exact (h.victim e (mem_erase.mpr ⟨he, htok⟩) hne).2

theorem shrunk_shrink (t : Tokens) : Shrunk t t.shrink := by
  induction hn : t.entries.length using Nat.strong_induction_on generalizing t with
  | _ n ih =>
    unfold shrink
    split
    case h_1 hes => exact shrunk_self (by rw [hes]; decide)
    case h_2 e es hes =>
      split_ifs with hfull
      · have hmem : earliest e es ∈ t.entries := hes ▸ earliest_mem e es
        have hle : ∀ f ∈ t.entries, (earliest e es).2 ≤ f.2 := hes ▸ earliest_le e es
        exact (ih _ (hn ▸ length_erase_lt hmem) _ rfl).of_erase hmem hle hfull
      · exact shrunk_self (Nat.lt_of_not_le hfull)

end Tokens

namespace SessionGate

/-- The sessions that have not expired. -/
def live (nowMs : Int64) (t : Tokens) : List Session := t.entries.filter fun e => !(e.2 < nowMs)

/-- The table behind `evict`: a session that has not expired is given up only where no expired one
is left, the table is full, and it expires first. -/
structure Evicted (nowMs : Int64) (t s : Tokens) : Prop where
  room : s.entries.length < maxSessions
  subset : ∀ e ∈ s.entries, e ∈ t.entries
  unexpired : ∀ e ∈ s.entries, nowMs ≤ e.2
  victim : ∀ e ∈ t.entries, e ∉ s.entries → nowMs ≤ e.2 →
    maxSessions ≤ (live nowMs t).length ∧ ∀ f ∈ s.entries, e.2 ≤ f.2

theorem evicted_evict (nowMs : Int64) (order : HashOrder) (g : SessionGate) :
    Evicted nowMs g.tokens (g.evict nowMs order).tokens := by
  unfold evict
  have hperm : (((g.tokens.arranged order).filter fun e => !(e.2 < nowMs)).entries).Perm
      (live nowMs g.tokens) := (order.perm g.tokens.entries).filter _
  generalize (g.tokens.arranged order).filter (fun e => !(e.2 < nowMs)) = t at hperm ⊢
  have hmem (e : Session) : e ∈ t.entries ↔ e ∈ g.tokens.entries ∧ nowMs ≤ e.2 := by
    rw [hperm.mem_iff, live, List.mem_filter, Bool.not_eq_true', decide_eq_false_iff_not,
      Int64.not_lt]
  have h := Tokens.shrunk_shrink t
  refine ⟨h.room, ?_, ?_, ?_⟩
  · intro e he
    exact ((hmem e).mp (h.subset e he)).1
  · intro e he
    exact ((hmem e).mp (h.subset e he)).2
  · intro e he hne hlive
    rw [← hperm.length_eq]
    exact h.victim e ((hmem e).mpr ⟨he, hlive⟩) hne

/-- What a login can do: it is refused, or there is room for its session. -/
inductive LoggedIn (body : Text) (nowMs : Int64) (tok : Text) (order : HashOrder)
    (g : SessionGate) : LoginResult × SessionGate → Prop
  | refused (status : ℕ) : status ≠ 200 → LoggedIn body nowMs tok order g (⟨status, []⟩, g)
  | noToken : LoggedIn body nowMs tok order g (⟨500, []⟩, g.evict nowMs order)
  | granted (cookie : Text) : tok ≠ [] → LoggedIn body nowMs tok order g (⟨200, cookie⟩,
      { g.evict nowMs order with
        tokens := (g.evict nowMs order).tokens.insert tok
          (nowMs + if remembered body then rememberMs else sessionMs) })

theorem loggedIn_login (body : Text) (nowMs : Int64) (tok : Text) (order : HashOrder)
    (g : SessionGate) : LoggedIn body nowMs tok order g (g.login body nowMs tok order) := by
  unfold login
  dsimp only
  by_cases huser : formValue body "username".toList = []
  · rw [if_pos huser]
    exact .refused 400 (by omega)
  rw [if_neg huser]
  by_cases hroot : formValue body "username".toList ≠ "root".toList
  · rw [if_pos hroot]
    exact .refused 403 (by omega)
  rw [if_neg hroot]
  by_cases hcheck : (!(g.check.map fun check => check (formValue body "username".toList)
      (formValue body "password".toList)).getD false) = true
  · rw [if_pos hcheck]
    exact .refused 403 (by omega)
  rw [if_neg hcheck]
  by_cases htok : tok = []
  · rw [if_pos htok]
    exact .noToken
  · rw [if_neg htok]
    exact .granted _ htok

/-- What a mint can do. -/
inductive Minted (nowMs : Int64) (tok : Text) (order : HashOrder) (g : SessionGate) :
    Text × SessionGate → Prop
  | noToken : Minted nowMs tok order g ([], g.evict nowMs order)
  | granted (cookie : Text) : cookie ≠ [] → tok ≠ [] → Minted nowMs tok order g (cookie,
      { g.evict nowMs order with
        tokens := (g.evict nowMs order).tokens.insert tok (nowMs + sessionMs) })

theorem minted_mint (nowMs : Int64) (tok : Text) (order : HashOrder) (g : SessionGate) :
    Minted nowMs tok order g (g.mint nowMs tok order) := by
  unfold mint
  by_cases htok : tok = []
  · simp only [if_pos htok]
    exact .noToken
  · simp only [if_neg htok]
    exact .granted _ (List.append_ne_nil_of_right_ne_nil _ (List.cons_ne_nil _ _)) htok

theorem sublist_authed (cookieHeader : Text) (nowMs : Int64) (g : SessionGate) :
    (g.authed cookieHeader nowMs).2.tokens.entries.Sublist g.tokens.entries := by
  unfold authed
  dsimp only
  split_ifs
  · exact List.Sublist.refl _
  · split
    · exact List.Sublist.refl _
    · split_ifs
      · exact List.filter_sublist
      · exact List.Sublist.refl _

theorem sublist_logout (cookieHeader : Text) (g : SessionGate) :
    (g.logout cookieHeader).tokens.entries.Sublist g.tokens.entries := by
  unfold logout
  dsimp only
  split_ifs
  · exact List.Sublist.refl _
  · exact List.filter_sublist

/-- A cookie is good only where its session is in the table and has not expired. -/
theorem find_of_authed {cookieHeader : Text} {nowMs : Int64} {g : SessionGate}
    (h : (g.authed cookieHeader nowMs).1 = true) :
    ∃ expiry, (cookieValue cookieHeader cookieName, expiry) ∈ g.tokens.entries ∧
      nowMs ≤ expiry := by
  unfold authed at h
  dsimp only at h
  split_ifs at h
  split at h
  · exact absurd h Bool.false_ne_true
  · rename_i expiry hfind
    split_ifs at h with hexp
    exact ⟨expiry, Tokens.mem_of_find hfind, Int64.not_lt.mp hexp⟩

/-- What a check of a cookie takes out of the table has expired. -/
theorem expired_of_authed {cookieHeader : Text} {nowMs : Int64} {g : SessionGate} {e : Session}
    (he : e ∈ g.tokens.entries) (h : e ∉ (g.authed cookieHeader nowMs).2.tokens.entries) :
    e.2 < nowMs := by
  unfold authed at h
  dsimp only at h
  split_ifs at h
  · exact absurd he h
  · split at h
    · exact absurd he h
    · rename_i expiry hfind
      split_ifs at h with hexp
      · have htok : e.1 = cookieValue cookieHeader cookieName := by
          by_contra hne
          exact h (Tokens.mem_erase.mpr ⟨he, hne⟩)
        obtain rfl := Tokens.eq_of_token_eq he (Tokens.mem_of_find hfind) htok
        exact hexp
      · exact absurd he h

end SessionGate

theorem Tokens.mem_insert {tok : Text} {expiry : Int64} {t : Tokens} {e : Session} :
    e ∈ (t.insert tok expiry).entries ↔ e = (tok, expiry) ∨ e ∈ t.entries ∧ e.1 ≠ tok := by
  rw [insert, List.mem_cons, mem_erase]

theorem Tokens.length_insert_le (tok : Text) (expiry : Int64) (t : Tokens) :
    (t.insert tok expiry).entries.length ≤ t.entries.length + 1 :=
  Nat.succ_le_succ (List.length_filter_le _ _)

theorem toInt_sessionMs : sessionMs.toInt = 43200000 := by decide +kernel

theorem toInt_rememberMs : rememberMs.toInt = 2592000000 := by decide +kernel

/-- A sum that wraps is too small. -/
theorem toInt_add_le {a b : Int64} (hb : 0 ≤ b.toInt) : (a + b).toInt ≤ a.toInt + b.toInt := by
  have ha := a.le_toInt
  have hbound := b.toInt_lt
  have ha' := a.toInt_lt
  rw [Int64.toInt_add]
  unfold Int.bmod
  dsimp only
  split_ifs
  · omega
  · omega

/-- What can be asked of the gate, with the clock, the randomness and the order of the hash map that
it meets. -/
inductive GateOp where
  | authed (cookieHeader : Text) (nowMs : Int64)
  | login (body : Text) (nowMs : Int64) (tok : Text) (order : HashOrder)
  | mint (nowMs : Int64) (tok : Text) (order : HashOrder)
  | logout (cookieHeader : Text)

/-- The gate, beside the sessions that were given out and not ended since: up to when each of them
is good. -/
structure GateRun where
  gate : SessionGate
  known : Text → Option ℤ := fun _ => none

namespace GateRun

def give (tok : Text) (nowMs span : Int64) (known : Text → Option ℤ) : Text → Option ℤ :=
  Function.update known tok (some (nowMs.toInt + span.toInt))

def authed (cookieHeader : Text) (nowMs : Int64) (w : GateRun) : GateRun :=
  { w with gate := (w.gate.authed cookieHeader nowMs).2 }

def login (body : Text) (nowMs : Int64) (tok : Text) (order : HashOrder) (w : GateRun) : GateRun :=
  let r := w.gate.login body nowMs tok order
  if r.1.status = 200 then
    let span := if SessionGate.remembered body then rememberMs else sessionMs
    { gate := r.2, known := give tok nowMs span w.known }
  else { w with gate := r.2 }

def mint (nowMs : Int64) (tok : Text) (order : HashOrder) (w : GateRun) : GateRun :=
  let r := w.gate.mint nowMs tok order
  if r.1 ≠ [] then { gate := r.2, known := give tok nowMs sessionMs w.known }
  else { w with gate := r.2 }

theorem gate_login (body : Text) (nowMs : Int64) (tok : Text) (order : HashOrder) (w : GateRun) :
    (w.login body nowMs tok order).gate = (w.gate.login body nowMs tok order).2 := by
  unfold login
  by_cases h : (w.gate.login body nowMs tok order).1.status = 200
  · simp only [if_pos h]
  · simp only [if_neg h]

theorem gate_mint (nowMs : Int64) (tok : Text) (order : HashOrder) (w : GateRun) :
    (w.mint nowMs tok order).gate = (w.gate.mint nowMs tok order).2 := by
  unfold mint
  by_cases h : (w.gate.mint nowMs tok order).1 ≠ []
  · simp only [if_pos h]
  · simp only [if_neg h]

def logout (cookieHeader : Text) (w : GateRun) : GateRun where
  gate := w.gate.logout cookieHeader
  known := Function.update w.known (cookieValue cookieHeader cookieName) none

def step (w : GateRun) : GateOp → GateRun
  | .authed cookieHeader nowMs => w.authed cookieHeader nowMs
  | .login body nowMs tok order => w.login body nowMs tok order
  | .mint nowMs tok order => w.mint nowMs tok order
  | .logout cookieHeader => w.logout cookieHeader

def start (check : Option (Text → Text → Bool)) : GateRun := { gate := { check := check } }

/-- The table has its bound, and what it holds is known and not good for longer than it should. -/
structure Inv (w : GateRun) : Prop where
  room : w.gate.tokens.entries.length ≤ maxSessions
  named : ∀ e ∈ w.gate.tokens.entries, e.1 ≠ []
  known : ∀ e ∈ w.gate.tokens.entries, ∃ x, w.known e.1 = some x ∧ e.2.toInt ≤ x

theorem inv_start (check : Option (Text → Text → Bool)) : (start check).Inv where
  room := Nat.zero_le _
  named := fun _ he => absurd he List.not_mem_nil
  known := fun _ he => absurd he List.not_mem_nil

/-- Some sessions go. -/
theorem Inv.sub {w : GateRun} (h : w.Inv) {g : SessionGate}
    (hlen : g.tokens.entries.length ≤ maxSessions)
    (hsub : ∀ e ∈ g.tokens.entries, e ∈ w.gate.tokens.entries) : Inv { w with gate := g } :=
  ⟨hlen, fun e he => h.named e (hsub e he), fun e he => h.known e (hsub e he)⟩

theorem Inv.evict {w : GateRun} (h : w.Inv) (nowMs : Int64) (order : HashOrder) :
    Inv { w with gate := w.gate.evict nowMs order } := by
  have hev := SessionGate.evicted_evict nowMs order w.gate
  exact h.sub (Nat.le_of_lt hev.room) hev.subset

/-- A session comes in, once room has been made. -/
theorem Inv.insert {w : GateRun} (h : w.Inv) (nowMs : Int64) {tok : Text} (htok : tok ≠ [])
    (order : HashOrder) {span : Int64} (hspan : 0 ≤ span.toInt) :
    Inv { gate := { w.gate.evict nowMs order with
            tokens := (w.gate.evict nowMs order).tokens.insert tok (nowMs + span) }
          known := give tok nowMs span w.known } := by
  have hev := SessionGate.evicted_evict nowMs order w.gate
  refine ⟨Nat.le_trans (Tokens.length_insert_le _ _ _) hev.room, ?_, ?_⟩
  · intro e he
    rcases Tokens.mem_insert.mp he with rfl | ⟨hold, -⟩
    · exact htok
    · exact h.named e (hev.subset e hold)
  · intro e he
    unfold give
    rcases Tokens.mem_insert.mp he with rfl | ⟨hold, hne⟩
    · exact ⟨_, Function.update_self _ _ _, toInt_add_le hspan⟩
    · dsimp only
      rw [Function.update_of_ne hne]
      exact h.known e (hev.subset e hold)

theorem Inv.authed {w : GateRun} (h : w.Inv) (cookieHeader : Text) (nowMs : Int64) :
    (w.authed cookieHeader nowMs).Inv := by
  have hsub := SessionGate.sublist_authed cookieHeader nowMs w.gate
  exact h.sub (hsub.length_le.trans h.room) fun e he => hsub.subset he

theorem Inv.login {w : GateRun} (h : w.Inv) (body : Text) (nowMs : Int64) (tok : Text)
    (order : HashOrder) : (w.login body nowMs tok order).Inv := by
  have hlogin := SessionGate.loggedIn_login body nowMs tok order w.gate
  unfold GateRun.login
  generalize w.gate.login body nowMs tok order = r at hlogin ⊢
  cases hlogin with
  | refused status hstatus =>
    dsimp only
    rw [if_neg hstatus]
    exact h
  | noToken => exact h.evict nowMs order
  | granted cookie htok =>
    refine h.insert nowMs htok order ?_
    split_ifs
    · rw [toInt_rememberMs]
      omega
    · rw [toInt_sessionMs]
      omega

theorem Inv.mint {w : GateRun} (h : w.Inv) (nowMs : Int64) (tok : Text) (order : HashOrder) :
    (w.mint nowMs tok order).Inv := by
  have hmint := SessionGate.minted_mint nowMs tok order w.gate
  unfold GateRun.mint
  generalize w.gate.mint nowMs tok order = r at hmint ⊢
  cases hmint with
  | noToken => exact h.evict nowMs order
  | granted cookie hcookie htok =>
    dsimp only
    rw [if_pos hcookie]
    exact h.insert nowMs htok order (by rw [toInt_sessionMs]; omega)

theorem Inv.logout {w : GateRun} (h : w.Inv) (cookieHeader : Text) :
    (w.logout cookieHeader).Inv := by
  have hsub := SessionGate.sublist_logout cookieHeader w.gate
  refine ⟨hsub.length_le.trans h.room, fun e he => h.named e (hsub.subset he), ?_⟩
  intro e he
  have hne : e.1 ≠ cookieValue cookieHeader cookieName := by
    unfold GateRun.logout SessionGate.logout at he
    dsimp only at he
    split_ifs at he with hnil
    · rw [hnil]
      exact h.named e he
    · exact (Tokens.mem_erase.mp he).2
  unfold GateRun.logout
  dsimp only
  rw [Function.update_of_ne hne]
  exact h.known e (hsub.subset he)

theorem Inv.step {w : GateRun} (h : w.Inv) (op : GateOp) : (w.step op).Inv := by
  cases op with
  | authed cookieHeader nowMs => exact h.authed cookieHeader nowMs
  | login body nowMs tok order => exact h.login body nowMs tok order
  | mint nowMs tok order => exact h.mint nowMs tok order
  | logout cookieHeader => exact h.logout cookieHeader

/-- Why a session is no longer in the table. -/
def GoneBy (w : GateRun) (e : Session) : GateOp → Prop
  | .authed _ nowMs => e.2 < nowMs
  | .logout cookieHeader => e.1 = cookieValue cookieHeader cookieName
  | .login _ nowMs _ order | .mint nowMs _ order =>
    e.2 < nowMs ∨ maxSessions ≤ (SessionGate.live nowMs w.gate.tokens).length ∧
      ∀ f ∈ (w.gate.evict nowMs order).tokens.entries, nowMs ≤ f.2 ∧ e.2 ≤ f.2

/-- What `evict` gives up has expired, or nothing that is left has. -/
theorem gone_evict {w : GateRun} {nowMs : Int64} {order : HashOrder} {e : Session}
    (he : e ∈ w.gate.tokens.entries) (hne : e ∉ (w.gate.evict nowMs order).tokens.entries) :
    e.2 < nowMs ∨ maxSessions ≤ (SessionGate.live nowMs w.gate.tokens).length ∧
      ∀ f ∈ (w.gate.evict nowMs order).tokens.entries, nowMs ≤ f.2 ∧ e.2 ≤ f.2 := by
  have hev := SessionGate.evicted_evict nowMs order w.gate
  rcases e.2.lt_or_le nowMs with hexp | hlive
  · exact .inl hexp
  · have hvictim := hev.victim e he hne hlive
    exact .inr ⟨hvictim.1, fun f hf => ⟨hev.unexpired f hf, hvictim.2 f hf⟩⟩

theorem not_mem_of_insert {t : Tokens} {tok : Text} {expiry : Int64} {e : Session}
    (h : ∀ x, (e.1, x) ∉ (t.insert tok expiry).entries) : e ∉ t.entries := by
  intro het
  by_cases htok : e.1 = tok
  · exact h expiry (Tokens.mem_insert.mpr (.inl (by rw [htok])))
  · exact h e.2 (Tokens.mem_insert.mpr (.inr ⟨het, htok⟩))

/-- A session whose token is not in the table behind a step has gone for a reason. -/
theorem goneBy_step (w : GateRun) (op : GateOp) {e : Session} (he : e ∈ w.gate.tokens.entries)
    (hgone : ∀ x, (e.1, x) ∉ (w.step op).gate.tokens.entries) : GoneBy w e op := by
  cases op with
  | authed cookieHeader nowMs => exact SessionGate.expired_of_authed he (hgone e.2)
  | login body nowMs tok order =>
    have hlogin := SessionGate.loggedIn_login body nowMs tok order w.gate
    unfold GateRun.step at hgone
    dsimp only at hgone
    rw [gate_login] at hgone
    generalize w.gate.login body nowMs tok order = r at hlogin hgone
    cases hlogin with
    | refused status hstatus => exact absurd he (hgone e.2)
    | noToken => exact gone_evict he (hgone e.2)
    | granted cookie htok => exact gone_evict he (not_mem_of_insert hgone)
  | mint nowMs tok order =>
    have hmint := SessionGate.minted_mint nowMs tok order w.gate
    unfold GateRun.step at hgone
    dsimp only at hgone
    rw [gate_mint] at hgone
    generalize w.gate.mint nowMs tok order = r at hmint hgone
    cases hmint with
    | noToken => exact gone_evict he (hgone e.2)
    | granted cookie hcookie htok => exact gone_evict he (not_mem_of_insert hgone)
  | logout cookieHeader =>
    by_contra hne
    refine hgone e.2 ?_
    unfold GateRun.step GateRun.logout SessionGate.logout
    dsimp only
    split_ifs
    · exact he
    · exact Tokens.mem_erase.mpr ⟨he, hne⟩

/-- In every state that the gate can be in, the table has its bound, only a session that was given
out and is still good lets anyone in, and a session that is good gives way to another one only where
no expired one is left. -/
theorem session_table (check : Option (Text → Text → Bool)) (ops : List GateOp) :
    let w := run step (start check) ops
    w.gate.tokens.entries.length ≤ maxSessions ∧
      (∀ cookieHeader nowMs, (w.gate.authed cookieHeader nowMs).1 = true →
        ∃ x, w.known (cookieValue cookieHeader cookieName) = some x ∧ nowMs.toInt ≤ x) ∧
      ∀ op, ∀ e ∈ w.gate.tokens.entries,
        (∀ x, (e.1, x) ∉ (w.step op).gate.tokens.entries) → GoneBy w e op := by
  intro w
  have h : w.Inv := run_invariant (fun _ op h => h.step op) (inv_start check) ops
  refine ⟨h.room, ?_, fun op e he hgone => goneBy_step w op he hgone⟩
  intro cookieHeader nowMs hauthed
  obtain ⟨expiry, hmem, hle⟩ := SessionGate.find_of_authed hauthed
  obtain ⟨x, hx, hexp⟩ := h.known _ hmem
  exact ⟨x, hx, Int.le_trans (Int64.le_iff_toInt_le.mp hle) hexp⟩

end GateRun

end Machino.Http
