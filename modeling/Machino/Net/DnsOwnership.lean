import Machino.Basic.Runs
import Machino.Net.RouteManager

namespace Machino.Net

open Runs

/-- The servers in the resolver file and, when machino owns it, in the baseline file. -/
structure Resolver where
  servers : List String
  baseline : Option (List String) := none
  deriving DecidableEq, Repr

/-- Which of a pass's calls on the two files succeed. -/
structure FileFaults where
  readsDns : Bool := true
  writesDns : Bool := true
  readsBaseline : Bool := true
  writesBaseline : Bool := true
  clearsBaseline : Bool := true
  deriving DecidableEq, Repr

/-- A write that fails leaves the file as it was; a baseline that is there but cannot be read
reads as empty, and an empty list is never written to the resolver file. -/
def FileFaults.files (f : FileFaults) : ResolverFiles Resolver where
  setDns d r :=
    if d = [] then (.error, r)
    else if f.writesDns then (.ok, { r with servers := d }) else (.error, r)
  dns r := if f.readsDns then some r.servers else none
  dnsBaseline r := r.baseline.map fun b => if f.readsBaseline then b else []
  setDnsBaseline d r :=
    if f.writesBaseline then (.ok, { r with baseline := some d }) else (.error, r)
  clearDnsBaseline r := if f.clearsBaseline then (.ok, { r with baseline := none }) else (.error, r)

/-- The resolver files, with who wrote what: `ours` and `baselineOurs` say that the servers in
the file and in the baseline were written by machino, `before` is the content of the file when
it was taken over, and `abandoned` that it was once given back without anything to restore. -/
structure DnsSys where
  files : Resolver
  ours : Bool := false
  baselineOurs : Bool := false
  before : List String := []
  abandoned : Bool := false
  deriving DecidableEq, Repr

/-- What happens next: a pass over a kernel in any state, or a restart of the daemon. -/
inductive DnsEvent (κ : Type*) where
  | pass (plan : RoutePlan) (kernel : κ) (faults : FileFaults)
  | restart

section kernel

variable {κ : Type*} (nl : Netlink κ)

/-- The bookkeeping of a pass that went from `s` to the files `r` with the report `rep`. -/
def DnsSys.observe (s : DnsSys) (f : FileFaults) (rep : ReconcileReport) (r : Resolver) : DnsSys :=
  let taken := s.files.baseline.isNone && r.baseline.isSome
  let given := s.files.baseline.isSome && r.baseline.isNone
  { files := r
    ours := if rep.dnsWritten then true else if rep.dnsRestored then s.baselineOurs else s.ours
    baselineOurs := if taken then f.readsDns && s.ours else s.baselineOurs
    before := if taken then s.files.servers else s.before
    abandoned := s.abandoned || (given && !rep.dnsRestored) }

/-- The manager keeps nothing in memory between two passes, so a restart changes nothing. -/
def DnsSys.step (s : DnsSys) : DnsEvent κ → DnsSys
  | .pass plan k f =>
    let r := reconcile (linuxRouteBackend nl f.files) plan (k, s.files)
    s.observe f r.1 r.2.2
  | .restart => s

/-- The recorded baseline is nobody else's but the one before machino, and giving the file
back restores what it held before. -/
structure DnsOwnership (s : DnsSys) (e : DnsEvent κ) : Prop where
  recorded : (s.step nl e).files.baseline.isSome = true → (s.step nl e).baselineOurs = false
  returned : s.files.baseline.isSome = true → (s.step nl e).files.baseline = none →
    (s.step nl e).files.servers = s.before

/-- The recorded baseline is machino's own only after a return that had nothing to restore;
a return restores a baseline that says what was there, and without one leaves the file. -/
structure KeepsResolvers (s : DnsSys) (e : DnsEvent κ) : Prop where
  recorded : (s.step nl e).files.baseline.isSome = true → (s.step nl e).baselineOurs = true →
    (s.step nl e).abandoned = true
  restored : ∀ plan k f, e = .pass plan k f → (s.step nl e).files.baseline = none →
    ∀ b, f.files.dnsBaseline s.files = some b → b ≠ [] → (s.step nl e).files.servers = s.before
  left : ∀ plan k f, e = .pass plan k f → (s.step nl e).files.baseline = none →
    f.files.dnsBaseline s.files = some [] → (s.step nl e).files.servers = s.files.servers

/-- The pass does not overwrite the resolver file after failing to record what it held. -/
def NoUnrecordedWrite (s : DnsSys) : DnsEvent κ → Prop
  | .pass plan k f => nl.procNetRoute k ≠ none → s.files.baseline = none →
      plan.dnsOwner ≠ "" ∧ plan.dns ≠ [] → f.writesBaseline = false →
      f.writesDns = false ∨ f.readsDns = true ∧ s.files.servers = plan.dns
  | .restart => True

/-- What taking the file over does. -/
structure TakeSpec (plan : RoutePlan) (f : FileFaults) (r : Resolver)
    (out : ReconcileReport × Resolver) : Prop where
  baseline : out.2.baseline = if r.baseline.isSome then r.baseline
    else if f.writesBaseline then some ((f.files.dns r).getD []) else none
  written : out.1.dnsWritten = true → f.writesDns = true ∧ f.files.dns r ≠ some plan.dns
  restored : out.1.dnsRestored = false

/-- What giving the file back does with the baseline `b` that was read. -/
structure ReturnSpec (b : List String) (r : Resolver) (out : ReconcileReport × Resolver) :
    Prop where
  written : out.1.dnsWritten = false
  baseline : out.2.baseline = r.baseline ∨ out.2.baseline = none
  restored : out.1.dnsRestored = true → b ≠ [] ∧ out.2.servers = b
  kept : out.1.dnsRestored = false → out.2.servers = r.servers ∧
    (b ≠ [] → out.2.baseline = r.baseline)

variable {plan : RoutePlan} {f : FileFaults} {rep : ReconcileReport} {k : κ} {r : Resolver}

theorem recordBaseline_spec (h : rep.dnsFlags = (false, false)) :
    let out := recordBaseline (linuxRouteBackend nl f.files) (f.files.dns r) rep (k, r)
    out.1.dnsFlags = (false, false) ∧ out.2.2 = { r with
      baseline := if f.writesBaseline then some ((f.files.dns r).getD []) else r.baseline } := by
  unfold recordBaseline linuxRouteBackend FileFaults.files
  dsimp only
  by_cases hw : f.writesBaseline = true
  · rw [if_pos hw, if_pos (by simp), if_pos hw]
    exact ⟨h, rfl⟩
  · rw [if_neg hw, if_neg (by simp), if_neg hw]
    exact ⟨(rep.dnsFlags_fail _).trans h, rfl⟩

theorem takeDns_spec (hd : plan.dns ≠ []) (h : rep.dnsFlags = (false, false)) :
    let out := takeDns (linuxRouteBackend nl f.files) plan r.baseline.isSome rep (k, r)
    TakeSpec plan f r (out.1, out.2.2) := by
  unfold takeDns
  dsimp only
  have hrec := recordBaseline_spec nl (f := f) (k := k) (r := r) h
  have hread : (linuxRouteBackend nl f.files).dns (k, r) = f.files.dns r := rfl
  rw [hread]
  have hr : (if r.baseline.isSome then (rep, k, r)
        else recordBaseline (linuxRouteBackend nl f.files) (f.files.dns r) rep (k, r)).1.dnsFlags =
          (false, false) ∧
      (if r.baseline.isSome then (rep, k, r)
        else recordBaseline (linuxRouteBackend nl f.files) (f.files.dns r) rep (k, r)).2.2 =
          { r with baseline := if r.baseline.isSome then r.baseline
              else if f.writesBaseline then some ((f.files.dns r).getD []) else none } := by
    by_cases hs : r.baseline.isSome = true
    · simp [hs, h]
    · have hn : r.baseline = none := by simpa using hs
      rw [if_neg hs, if_neg hs]
      refine ⟨hrec.1, hrec.2.trans ?_⟩
      rw [hn]
  generalize (if r.baseline.isSome then (rep, k, r) else _ : ReconcileReport × κ × Resolver) = p
    at hr ⊢
  obtain ⟨hflags, hfiles⟩ := hr
  have hw : p.1.dnsWritten = false := congrArg Prod.fst hflags
  have hre : p.1.dnsRestored = false := congrArg Prod.snd hflags
  split
  · exact ⟨by rw [hfiles], by simp [hw], hre⟩
  rename_i hne
  have hset : (linuxRouteBackend nl f.files).setDns plan.dns p.2 =
      if f.writesDns then (.ok, p.2.1, { p.2.2 with servers := plan.dns })
      else (.error, p.2.1, p.2.2) := by
    unfold linuxRouteBackend FileFaults.files
    dsimp only
    rw [if_neg hd]
    split <;> rfl
  rw [hset]
  by_cases hwd : f.writesDns = true
  · rw [if_pos hwd, if_pos (by simp)]
    refine ⟨?_, fun _ => ⟨hwd, hne⟩, hre⟩
    dsimp only
    rw [hfiles]
  · rw [if_neg hwd, if_neg (by simp)]
    have hfl := (p.1.dnsFlags_fail "the resolver configuration could not be written").trans hflags
    refine ⟨?_, fun hc => ?_, congrArg Prod.snd hfl⟩
    · dsimp only
      rw [hfiles]
    · have hf := congrArg Prod.fst hfl
      exact absurd (hf.symm.trans hc) (by simp)

theorem returnDns_spec (b : List String) (h : rep.dnsFlags = (false, false)) :
    let out := returnDns (linuxRouteBackend nl f.files) b rep (k, r)
    ReturnSpec b r (out.1, out.2.2) := by
  have hw : rep.dnsWritten = false := congrArg Prod.fst h
  have hre : rep.dnsRestored = false := congrArg Prod.snd h
  have hclear (s : κ × Resolver) :
      ((linuxRouteBackend nl f.files).clearDnsBaseline s).2.2.servers = s.2.servers ∧
        (((linuxRouteBackend nl f.files).clearDnsBaseline s).2.2.baseline = s.2.baseline ∨
          ((linuxRouteBackend nl f.files).clearDnsBaseline s).2.2.baseline = none) := by
    unfold linuxRouteBackend FileFaults.files
    dsimp only
    split
    · exact ⟨rfl, .inr rfl⟩
    · exact ⟨rfl, .inl rfl⟩
  unfold returnDns
  dsimp only
  by_cases hb : b = []
  · rw [if_pos hb]
    obtain ⟨hs, hbase⟩ := hclear (k, r)
    refine ⟨hw, hbase, fun hc => ?_, fun _ => ⟨hs, fun hne => absurd hb hne⟩⟩
    exact absurd (hre.symm.trans hc) (by simp)
  rw [if_neg hb]
  have hset : (linuxRouteBackend nl f.files).setDns b (k, r) =
      if f.writesDns then (.ok, k, { r with servers := b }) else (.error, k, r) := by
    unfold linuxRouteBackend FileFaults.files
    dsimp only
    rw [if_neg hb]
    split <;> rfl
  rw [hset]
  by_cases hwd : f.writesDns = true
  · rw [if_pos hwd, if_pos (by simp)]
    obtain ⟨hs, hbase⟩ := hclear (k, { r with servers := b })
    exact ⟨hw, hbase, fun _ => ⟨hb, hs⟩, by simp⟩
  · rw [if_neg hwd, if_neg (by simp)]
    have hfl := (rep.dnsFlags_fail
      "the previous resolver configuration could not be restored").trans h
    refine ⟨congrArg Prod.fst hfl, .inl rfl, fun hc => ?_, fun _ => ⟨rfl, fun _ => rfl⟩⟩
    have hf := congrArg Prod.snd hfl
    exact absurd (hf.symm.trans hc) (by simp)

/-- A pass that could read the routes ends in the resolver half, with nothing yet reported. -/
theorem reconcile_dns (plan : RoutePlan) (f : FileFaults) (k : κ) (r : Resolver)
    (hk : nl.procNetRoute k ≠ none) : ∃ rep k', rep.dnsFlags = (false, false) ∧
      reconcile (linuxRouteBackend nl f.files) plan (k, r) =
        reconcileDns (linuxRouteBackend nl f.files) plan rep (k', r) := by
  obtain ⟨actual, ha⟩ := Option.ne_none_iff_exists'.mp hk
  have hread : (linuxRouteBackend nl f.files).defaultRoutes (k, r) = some actual := ha
  unfold reconcile
  rw [hread]
  dsimp only
  have hadd := addMissing_files nl f.files actual plan.routes {} (k, r)
  have haf := dnsFlags_addMissing (linuxRouteBackend nl f.files) actual plan.routes {} (k, r)
  generalize addMissing (linuxRouteBackend nl f.files) actual plan.routes {} (k, r) = a
    at hadd haf ⊢
  have hdel := removeStale_files nl f.files plan a.1.2 actual a.1.1 a.2
  have hdf := dnsFlags_removeStale (linuxRouteBackend nl f.files) plan a.1.2 actual a.1.1 a.2
  generalize removeStale (linuxRouteBackend nl f.files) plan a.1.2 actual a.1.1 a.2 = d
    at hdel hdf ⊢
  refine ⟨d.1, d.2.1, hdf.trans haf, ?_⟩
  rw [show d.2 = (d.2.1, r) from Prod.ext rfl (hdel.trans hadd)]

/-- What is known of the files as long as no pass overwrites them unrecorded. -/
structure DnsInv (s : DnsSys) : Prop where
  ours : s.ours = true → s.files.baseline.isSome = true ∨ s.abandoned = true
  baselineOurs : s.baselineOurs = true → s.abandoned = true
  before : ∀ b, s.files.baseline = some b → b = [] ∨ b = s.before

/-- A take-over records what is there, or finds it recorded. -/
theorem DnsInv.take {s : DnsSys} (h : DnsInv s) {out : ReconcileReport × Resolver}
    (ht : TakeSpec plan f s.files out)
    (hok : s.files.baseline = none → f.writesBaseline = false →
      f.writesDns = false ∨ f.readsDns = true ∧ s.files.servers = plan.dns) :
    DnsInv (s.observe f out.1 out.2) := by
  have hb := ht.baseline
  have hre := ht.restored
  match hs : s.files.baseline with
  | some b =>
    rw [hs] at hb
    have hsome : out.2.baseline.isSome = true := by simp [hb]
    refine ⟨fun _ => .inl hsome, fun hc => ?_, fun b' hb' => ?_⟩
    · simp only [DnsSys.observe, hs, Option.isNone_some, Bool.false_and, Bool.false_eq_true,
        if_false] at hc
      simp [DnsSys.observe, h.baselineOurs hc]
    · have hbb : b' = b := by simpa [DnsSys.observe, hb] using hb'.symm
      simpa [DnsSys.observe, hs, hbb] using h.before b hs
  | none =>
    have hcold (ho : s.ours = true) : s.abandoned = true :=
      (h.ours ho).resolve_left (by simp [hs])
    rw [hs] at hb
    by_cases hw : f.writesBaseline = true
    · have hb' : out.2.baseline = some ((f.files.dns s.files).getD []) := by simpa [hw] using hb
      refine ⟨fun _ => .inl (by simp [DnsSys.observe, hb']), fun hc => ?_, fun b hbb => ?_⟩
      · have ho : f.readsDns = true ∧ s.ours = true := by simpa [DnsSys.observe, hs, hb'] using hc
        simp [DnsSys.observe, hcold ho.2]
      · have hbe : (f.files.dns s.files).getD [] = b := by simpa [DnsSys.observe, hb'] using hbb
        subst hbe
        -- an unreadable file is recorded as empty, a readable one as it was
        by_cases hrd : f.readsDns = true
        · right
          simp [DnsSys.observe, hs, hb', FileFaults.files, hrd]
        · left
          simp [FileFaults.files, hrd]
    · have hb' : out.2.baseline = none := by simpa [hw] using hb
      have hnw : out.1.dnsWritten = false := by
        by_contra hc
        obtain ⟨hwd, hne⟩ := ht.written (by simpa using hc)
        rcases hok hs (by simpa using hw) with hno | ⟨hrd, heq⟩
        · simp [hwd] at hno
        · exact hne (by simp [FileFaults.files, hrd, heq])
      refine ⟨fun hc => ?_, fun hc => ?_, fun b hbb => ?_⟩
      · have ho : s.ours = true := by simpa [DnsSys.observe, hnw, hre] using hc
        simp [DnsSys.observe, hcold ho]
      · have ho : s.baselineOurs = true := by simpa [DnsSys.observe, hs, hb'] using hc
        simp [DnsSys.observe, h.baselineOurs ho]
      · simp [DnsSys.observe, hb'] at hbb

/-- A return restores what was recorded, or leaves the file and remembers that it did. -/
theorem DnsInv.giveBack {s : DnsSys} (h : DnsInv s) {b₀ b : List String}
    (hs : s.files.baseline = some b₀) {out : ReconcileReport × Resolver}
    (hr : ReturnSpec b s.files out) : DnsInv (s.observe f out.1 out.2) := by
  have hw := hr.written
  have hours (hc : (s.observe f out.1 out.2).baselineOurs = true) : s.baselineOurs = true := by
    simpa [DnsSys.observe, hs] using hc
  have hbefore : (s.observe f out.1 out.2).before = s.before := by simp [DnsSys.observe, hs]
  refine ⟨fun hc => ?_, fun hc => ?_, fun b' hb' => ?_⟩
  · by_cases hre : out.1.dnsRestored = true
    · have ho : s.baselineOurs = true := by simpa [DnsSys.observe, hw, hre] using hc
      exact .inr (by simp [DnsSys.observe, h.baselineOurs ho])
    · rcases hr.baseline with hk | hk
      · exact .inl (by simp [DnsSys.observe, hk, hs])
      · exact .inr (by simp [DnsSys.observe, hk, hs, hre])
  · simp [DnsSys.observe, h.baselineOurs (hours hc)]
  · rw [hbefore]
    have hb'' : out.2.baseline = some b' := hb'
    rcases hr.baseline with hk | hk
    · exact h.before b' (hk.symm.trans hb'')
    · rw [hk] at hb''
      cases hb''

/-- What a pass does with the files: nothing, a take-over, or a return. -/
theorem step_pass_cases (s : DnsSys) (plan : RoutePlan) (k : κ) (f : FileFaults) :
    (∃ out : ReconcileReport × Resolver, s.step nl (.pass plan k f) = s.observe f out.1 out.2 ∧
      out.1.dnsFlags = (false, false) ∧ out.2 = s.files) ∨
    (∃ out : ReconcileReport × Resolver, s.step nl (.pass plan k f) = s.observe f out.1 out.2 ∧
      nl.procNetRoute k ≠ none ∧
      (plan.dnsOwner ≠ "" ∧ plan.dns ≠ []) ∧ TakeSpec plan f s.files out) ∨
    ∃ (out : ReconcileReport × Resolver) (b : List String),
      s.step nl (.pass plan k f) = s.observe f out.1 out.2 ∧
      f.files.dnsBaseline s.files = some b ∧ ReturnSpec b s.files out := by
  unfold DnsSys.step
  dsimp only
  by_cases hk : nl.procNetRoute k = none
  · refine .inl ⟨(_, _), rfl, ?_, ?_⟩
    · unfold reconcile linuxRouteBackend
      dsimp only
      rw [hk]
      rfl
    · unfold reconcile linuxRouteBackend
      dsimp only
      rw [hk]
  obtain ⟨rep, k', hf, heq⟩ := reconcile_dns nl plan f k s.files hk
  rw [heq]
  unfold reconcileDns
  dsimp only
  have hbase : (linuxRouteBackend nl f.files).dnsBaseline (k', s.files) =
      f.files.dnsBaseline s.files := rfl
  rw [hbase]
  have hisSome : (f.files.dnsBaseline s.files).isSome = s.files.baseline.isSome := by
    simp [FileFaults.files]
  split
  · rename_i ht
    refine .inr (.inl ⟨(_, _), rfl, hk, ht, ?_⟩)
    rw [hisSome]
    exact takeDns_spec nl ht.2 hf
  · match hb : f.files.dnsBaseline s.files with
    | some b => exact .inr (.inr ⟨(_, _), b, rfl, rfl, returnDns_spec nl b hf⟩)
    | none => exact .inl ⟨(_, _), rfl, hf, rfl⟩

/-- What is read of a baseline that is there. -/
theorem dnsBaseline_eq_some {f : FileFaults} {r : Resolver} {b : List String}
    (h : f.files.dnsBaseline r = some b) : ∃ b₀, r.baseline = some b₀ ∧ (b = [] ∨ b = b₀) := by
  obtain ⟨b₀, hb₀, hb⟩ := Option.map_eq_some_iff.mp h
  refine ⟨b₀, hb₀, ?_⟩
  split at hb
  · exact .inr hb.symm
  · exact .inl hb.symm

theorem DnsInv.step {s : DnsSys} (h : DnsInv s) {e : DnsEvent κ} (hok : NoUnrecordedWrite nl s e) :
    DnsInv (s.step nl e) := by
  cases e with
  | restart => exact h
  | pass plan k f =>
    rcases step_pass_cases nl s plan k f with
      ⟨out, heq, hf, hr⟩ | ⟨out, heq, hk, hd, ht⟩ | ⟨out, b, heq, hb, hr⟩
    · rw [heq]
      have hw : out.1.dnsWritten = false := congrArg Prod.fst hf
      have hre : out.1.dnsRestored = false := congrArg Prod.snd hf
      have hsame : s.observe f out.1 out.2 = s := by
        unfold DnsSys.observe
        rw [hr, hw, hre]
        cases hs : s.files.baseline <;> simp
      rw [hsame]
      exact h
    · rw [heq]
      exact h.take ht fun hn hwb => hok hk hn hd hwb
    · rw [heq]
      obtain ⟨b₀, hb₀, -⟩ := dnsBaseline_eq_some hb
      exact h.giveBack hb₀ hr

theorem DnsInv.keeps {s : DnsSys} (h : DnsInv s) {e : DnsEvent κ}
    (hok : NoUnrecordedWrite nl s e) : KeepsResolvers nl s e := by
  have hs' := h.step nl hok
  -- files without a baseline, where one was read, are the outcome of a return
  have hreturn {plan : RoutePlan} {k : κ} {f : FileFaults} {b : List String}
      (he : e = .pass plan k f) (hn : (s.step nl e).files.baseline = none)
      (hb : f.files.dnsBaseline s.files = some b) :
      ∃ out : ReconcileReport × Resolver, (s.step nl e).files = out.2 ∧
        out.2.baseline = none ∧ ReturnSpec b s.files out := by
    subst he
    obtain ⟨b₀, hb₀, -⟩ := dnsBaseline_eq_some hb
    rcases step_pass_cases nl s plan k f with
      ⟨out, heq, -, hr⟩ | ⟨out, heq, -, -, ht⟩ | ⟨out, b', heq, hb', hr⟩
    · rw [heq] at hn
      have hn' : out.2.baseline = none := hn
      rw [hr, hb₀] at hn'
      cases hn'
    · rw [heq] at hn
      have hn' : out.2.baseline = none := hn
      rw [ht.baseline, hb₀] at hn'
      simp at hn'
    · rw [heq] at hn ⊢
      rw [hb] at hb'
      cases hb'
      exact ⟨out, rfl, hn, hr⟩
  refine ⟨fun _ hc => hs'.baselineOurs hc, fun plan k f he hn b hb hne => ?_,
    fun plan k f he hn hb => ?_⟩
  · obtain ⟨out, hf, hnone, hr⟩ := hreturn he hn hb
    obtain ⟨b₀, hb₀, hbb⟩ := dnsBaseline_eq_some hb
    have hre : out.1.dnsRestored = true := by
      by_contra hc
      have hk := (hr.kept (by simpa using hc)).2 hne
      rw [hnone, hb₀] at hk
      cases hk
    have hb' : b = b₀ := hbb.resolve_left hne
    subst hb'
    rw [hf, (hr.restored hre).2]
    exact (h.before b hb₀).resolve_left hne
  · obtain ⟨out, hf, -, hr⟩ := hreturn he hn hb
    have hre : out.1.dnsRestored = false := by
      by_contra hc
      exact (hr.restored (by simpa using hc)).1 rfl
    rw [hf]
    exact (hr.kept hre).1

/-- As long as no pass overwrites the resolver file after failing to record it, every return
puts back what was there, or says that it could not. -/
theorem keeps_resolvers_run (servers : List String) (es : List (DnsEvent κ))
    (h : Along (DnsSys.step nl) (NoUnrecordedWrite nl) { files := { servers } } es) :
    Along (DnsSys.step nl) (KeepsResolvers nl) { files := { servers } } es := by
  have h0 : DnsInv { files := { servers } } := ⟨by simp, by simp, by simp⟩
  generalize ({ files := { servers } } : DnsSys) = s at h h0
  induction es generalizing s with
  | nil => trivial
  | cons e es ih => exact ⟨h0.keeps nl h.1, ih _ h.2 (h0.step nl h.1)⟩

end kernel

/-- A kernel without routes that refuses every message. -/
def emptyNetlink : Netlink Unit where
  nameToIndex _ := 0
  inetPton _ := true
  procNetRoute _ := some []
  exchange _ _ k := (.other, k)

def modemPlan : RoutePlan := { dns := ["10.64.0.1"], dnsOwner := "lte1" }

/-- A take-over, a restart, a failed return and one that succeeds. -/
theorem keeps_resolvers_run_modem :
    Along (DnsSys.step emptyNetlink) (KeepsResolvers emptyNetlink)
      { files := { servers := ["192.168.1.1"] } }
      [.pass modemPlan () {}, .restart, .pass {} () { writesDns := false }, .pass {} () {}] :=
  keeps_resolvers_run _ _ _ ⟨by simp [NoUnrecordedWrite], trivial, by simp [NoUnrecordedWrite],
    by simp [NoUnrecordedWrite], trivial⟩

/-- A resolver file that could not be read when it was taken over is not restored. -/
theorem not_dnsOwnership_unread :
    ¬ Along (DnsSys.step emptyNetlink) (DnsOwnership emptyNetlink)
      { files := { servers := ["192.168.1.1"] } }
      [.pass modemPlan () { readsDns := false }, .pass {} () {}] := by
  intro h
  have hr := h.2.1.returned (by decide) (by decide)
  revert hr
  decide

end Machino.Net
