import Mathlib.Data.List.Count
import Machino.Net.RouteManager

namespace Machino.Net

/-- What a pass asks of the port, apart from reading. -/
inductive Call where
  | addDefault (r : DefaultRoute) (onlink : Bool)
  | delDefault (r : DefaultRoute)
  | setDns (servers : List String)
  | setDnsBaseline (servers : List String)
  | clearDnsBaseline
  deriving DecidableEq, Repr

/-- The calls that have been made, each with whether it succeeded. -/
abbrev CallLog := List (Call × Bool)

def AllDone (l : CallLog) : Prop := ∀ c ∈ l, c.2 = true

instance (l : CallLog) : Decidable (AllDone l) := List.decidableBAll _ l

theorem allDone_concat {l : CallLog} {c : Call} {ok : Bool} :
    AllDone (l ++ [(c, ok)]) ↔ AllDone l ∧ ok = true :=
  List.forall_mem_append.trans (and_congr_right' List.forall_mem_singleton)

/-- A port that keeps a log of its calls. -/
def loggedBackend {σ : Type*} (be : RouteBackend σ) : RouteBackend (σ × CallLog) where
  defaultRoutes s := be.defaultRoutes s.1
  addDefault i g m o s :=
    let rc := be.addDefault i g m o s.1
    (rc.1, rc.2, s.2 ++ [(.addDefault ⟨i, g, m⟩ o, rc.1.isOk)])
  delDefault i g m s :=
    let rc := be.delDefault i g m s.1
    (rc.1, rc.2, s.2 ++ [(.delDefault ⟨i, g, m⟩, rc.1.isOk)])
  setDns d s :=
    let rc := be.setDns d s.1
    (rc.1, rc.2, s.2 ++ [(.setDns d, rc.1.isOk)])
  dns s := be.dns s.1
  dnsBaseline s := be.dnsBaseline s.1
  setDnsBaseline d s :=
    let rc := be.setDnsBaseline d s.1
    (rc.1, rc.2, s.2 ++ [(.setDnsBaseline d, rc.1.isOk)])
  clearDnsBaseline s :=
    let rc := be.clearDnsBaseline s.1
    (rc.1, rc.2, s.2 ++ [(.clearDnsBaseline, rc.1.isOk)])

section loggedBackend

variable {σ : Type*} (be : RouteBackend σ)

theorem logged_addDefault (i g : String) (m : Int) (o : Bool) (s : σ) (l : CallLog) :
    (loggedBackend be).addDefault i g m o (s, l) = ((be.addDefault i g m o s).1,
      (be.addDefault i g m o s).2,
      l ++ [(.addDefault ⟨i, g, m⟩ o, (be.addDefault i g m o s).1.isOk)]) := rfl

theorem logged_delDefault (i g : String) (m : Int) (s : σ) (l : CallLog) :
    (loggedBackend be).delDefault i g m (s, l) = ((be.delDefault i g m s).1,
      (be.delDefault i g m s).2, l ++ [(.delDefault ⟨i, g, m⟩, (be.delDefault i g m s).1.isOk)]) := rfl

theorem logged_setDns (d : List String) (s : σ) (l : CallLog) :
    (loggedBackend be).setDns d (s, l) = ((be.setDns d s).1, (be.setDns d s).2,
      l ++ [(.setDns d, (be.setDns d s).1.isOk)]) := rfl

theorem logged_setDnsBaseline (d : List String) (s : σ) (l : CallLog) :
    (loggedBackend be).setDnsBaseline d (s, l) = ((be.setDnsBaseline d s).1,
      (be.setDnsBaseline d s).2, l ++ [(.setDnsBaseline d, (be.setDnsBaseline d s).1.isOk)]) := rfl

theorem logged_clearDnsBaseline (s : σ) (l : CallLog) :
    (loggedBackend be).clearDnsBaseline (s, l) = ((be.clearDnsBaseline s).1,
      (be.clearDnsBaseline s).2, l ++ [(.clearDnsBaseline, (be.clearDnsBaseline s).1.isOk)]) := rfl

end loggedBackend

/-- The port with a table behind it in which a route may stand several times. A call that succeeds
does what it says, and no call touches anything else. -/
structure TableBackend (σ : Type*) extends RouteBackend σ where
  table : σ → List DefaultRoute
  read : ∀ {s rs}, defaultRoutes s = some rs → rs.Perm (table s)
  add_done : ∀ {i g m o s}, (addDefault i g m o s).1.isOk = true →
    ⟨i, g, m⟩ ∈ table (addDefault i g m o s).2
  add_other : ∀ {i g m} o s r, r ≠ ⟨i, g, m⟩ →
    (table (addDefault i g m o s).2).count r = (table s).count r
  del_done : ∀ {i g m s}, (delDefault i g m s).1.isOk = true →
    (table (delDefault i g m s).2).count ⟨i, g, m⟩ ≤ (table s).count ⟨i, g, m⟩ - 1
  del_other : ∀ {i g m} s r, r ≠ ⟨i, g, m⟩ →
    (table (delDefault i g m s).2).count r = (table s).count r
  add_kept : ∀ i g m o s, (table s).count ⟨i, g, m⟩ ≤
    (table (addDefault i g m o s).2).count ⟨i, g, m⟩
  add_dns : ∀ i g m o s, dns (addDefault i g m o s).2 = dns s
  add_baseline : ∀ i g m o s, dnsBaseline (addDefault i g m o s).2 = dnsBaseline s
  del_dns : ∀ i g m s, dns (delDefault i g m s).2 = dns s
  del_baseline : ∀ i g m s, dnsBaseline (delDefault i g m s).2 = dnsBaseline s
  setDns_done : ∀ {d s}, (setDns d s).1.isOk = true → dns (setDns d s).2 = some d
  setDns_table : ∀ d s, table (setDns d s).2 = table s
  setDns_baseline : ∀ d s, dnsBaseline (setDns d s).2 = dnsBaseline s
  setDnsBaseline_done : ∀ {d s}, (setDnsBaseline d s).1.isOk = true →
    dnsBaseline (setDnsBaseline d s).2 = some d
  setDnsBaseline_table : ∀ d s, table (setDnsBaseline d s).2 = table s
  setDnsBaseline_dns : ∀ d s, dns (setDnsBaseline d s).2 = dns s
  clearDnsBaseline_done : ∀ {s}, (clearDnsBaseline s).1.isOk = true →
    dnsBaseline (clearDnsBaseline s).2 = none
  clearDnsBaseline_table : ∀ s, table (clearDnsBaseline s).2 = table s
  clearDnsBaseline_dns : ∀ s, dns (clearDnsBaseline s).2 = dns s

section quiet

variable {σ : Type*} (be : RouteBackend σ)

theorem addMissing_of_present {actual : List DefaultRoute} {ws : List RouteIntent}
    (h : ∀ w ∈ ws, w.route ∈ actual) (rep : ReconcileReport) (s : σ) :
    addMissing be actual ws rep s = ((rep, ws.map RouteIntent.ifname), s) := by
  induction ws with
  | nil => rfl
  | cons w ws ih =>
    have hw : present actual w = true := decide_eq_true (h w List.mem_cons_self)
    rw [addMissing, if_pos hw, ih fun v hv => h v (List.mem_cons_of_mem _ hv)]
    rfl

/-- A route that a pass leaves alone. -/
def Untouched (plan : RoutePlan) (r : DefaultRoute) : Prop :=
  managed plan r.ifname = false ∨ wanted plan r = true

theorem removeStale_of_untouched {plan : RoutePlan} {rs : List DefaultRoute}
    (h : ∀ r ∈ rs, Untouched plan r) (installed : List String) (rep : ReconcileReport) (s : σ) :
    removeStale be plan installed rs rep s = (rep, s) := by
  induction rs with
  | nil => rfl
  | cons r rs ih =>
    rw [removeStale, ih fun r' hr' => h r' (List.mem_cons_of_mem _ hr')]
    rcases h r List.mem_cons_self with hm | hw
    · rw [if_pos (by rw [hm]; rfl)]
    · rw [if_pos hw, ite_self]

/-- Who owns the resolver file is recorded, and the file says what the plan says of it. -/
def DnsSettled (plan : RoutePlan) (s : σ) : Prop :=
  if plan.dnsOwner ≠ "" ∧ plan.dns ≠ [] then
    (be.dnsBaseline s).isSome = true ∧ be.dns s = some plan.dns
  else be.dnsBaseline s = none

theorem reconcileDns_of_settled {plan : RoutePlan} {s : σ} (h : DnsSettled be plan s)
    (rep : ReconcileReport) : reconcileDns be plan rep s = (rep, s) := by
  unfold DnsSettled at h
  unfold reconcileDns
  split at h
  · rename_i howner
    rw [if_pos howner, takeDns, h.1, if_pos h.2]
    rfl
  · rename_i howner
    rw [if_neg howner, h]

/-- Where the table and the resolver file are as the plan says, a pass changes nothing. -/
theorem reconcile_of_settled {plan : RoutePlan} {s : σ} {actual : List DefaultRoute}
    (hread : be.defaultRoutes s = some actual) (hin : ∀ w ∈ plan.routes, w.route ∈ actual)
    (hours : ∀ r ∈ actual, Untouched plan r) (hdns : DnsSettled be plan s) :
    (reconcile be plan s).2 = s := by
  unfold reconcile
  rw [hread]
  dsimp only
  rw [addMissing_of_present be hin, removeStale_of_untouched be hours,
    reconcileDns_of_settled be hdns]

end quiet

section pass

variable {σ : Type*} (be : TableBackend σ)

/-- What the adds of such a pass have done. -/
structure AddDone (ws : List RouteIntent) (s : σ) (l : CallLog)
    (out : (ReconcileReport × List String) × σ × CallLog) : Prop where
  before : AllDone l
  installed : out.1.2 = ws.map RouteIntent.ifname
  added : ∀ w ∈ ws, w.route ∈ be.table out.2.1
  kept : be.table s ⊆ be.table out.2.1
  other : ∀ r, (∀ w ∈ ws, r ≠ w.route) →
    (be.table out.2.1).count r = (be.table s).count r
  dns : be.dns out.2.1 = be.dns s
  baseline : be.dnsBaseline out.2.1 = be.dnsBaseline s

/-- An add takes no route away. -/
theorem subset_addDefault (i g : String) (m : Int) (o : Bool) (s : σ) :
    be.table s ⊆ be.table (be.addDefault i g m o s).2 := by
  intro r hr
  have hpos : 0 < (be.table s).count r := List.count_pos_iff.mpr hr
  apply List.count_pos_iff.mp
  by_cases heq : r = ⟨i, g, m⟩
  · rw [heq] at hpos ⊢
    exact hpos.trans_le (be.add_kept i g m o s)
  · rwa [be.add_other o s r heq]

theorem addMissing_done {actual : List DefaultRoute} (ws : List RouteIntent)
    (rep : ReconcileReport) {s : σ} {l : CallLog} (ha : actual ⊆ be.table s)
    (hall : AllDone (addMissing (loggedBackend be.toRouteBackend) actual ws rep (s, l)).2.2) :
    AddDone be ws s l (addMissing (loggedBackend be.toRouteBackend) actual ws rep (s, l)) := by
  induction ws generalizing rep s l with
  | nil =>
    exact ⟨hall, rfl, fun _ hw => absurd hw List.not_mem_nil, fun _ hr => hr, fun _ _ => rfl,
      rfl, rfl⟩
  | cons w ws ih =>
    rw [addMissing] at hall ⊢
    by_cases hp : present actual w = true
    · rw [if_pos hp] at hall ⊢
      have h := ih rep ha hall
      have hw : w.route ∈ actual := of_decide_eq_true hp
      refine ⟨h.before, congrArg (w.ifname :: ·) h.installed, ?_, h.kept, ?_, h.dns, h.baseline⟩
      · intro v hv
        rcases List.mem_cons.mp hv with rfl | hv
        · exact h.kept (ha hw)
        · exact h.added v hv
      · exact fun r hr => h.other r fun v hv => hr v (List.mem_cons_of_mem _ hv)
    rw [if_neg hp] at hall ⊢
    have hdone := @be.add_done w.ifname w.gateway w.metric w.onlink s
    have hother := @be.add_other w.ifname w.gateway w.metric w.onlink s
    have hgrow := subset_addDefault be w.ifname w.gateway w.metric w.onlink s
    have hdns := be.add_dns w.ifname w.gateway w.metric w.onlink s
    have hbase := be.add_baseline w.ifname w.gateway w.metric w.onlink s
    rw [logged_addDefault] at hall ⊢
    dsimp only at hall ⊢
    generalize be.addDefault w.ifname w.gateway w.metric w.onlink s = rc at *
    split at hall
    · rename_i hok
      rw [if_pos hok]
      have h := ih _ (fun r hr => hgrow (ha hr)) hall
      obtain ⟨hbefore, -⟩ := allDone_concat.mp h.before
      refine ⟨hbefore, congrArg (w.ifname :: ·) h.installed, ?_, fun _ hr => h.kept (hgrow hr), ?_,
        h.dns.trans hdns, h.baseline.trans hbase⟩
      · intro v hv
        rcases List.mem_cons.mp hv with rfl | hv
        · exact h.kept (hdone hok)
        · exact h.added v hv
      · intro r hr
        rw [h.other r fun v hv => hr v (List.mem_cons_of_mem _ hv)]
        exact hother r (hr w List.mem_cons_self)
    · rename_i hfail
      have h := ih _ (fun r hr => hgrow (ha hr)) hall
      exact absurd (allDone_concat.mp h.before).2 hfail

/-- Deletes only add to the log. -/
theorem allDone_of_removeStale {plan : RoutePlan} {installed : List String}
    (rs : List DefaultRoute) (rep : ReconcileReport) {s : σ} {l : CallLog}
    (hall : AllDone
      (removeStale (loggedBackend be.toRouteBackend) plan installed rs rep (s, l)).2.2) :
    AllDone l := by
  induction rs generalizing rep s l with
  | nil => exact hall
  | cons r rs ih =>
    rw [removeStale] at hall
    split at hall
    · exact ih rep hall
    split at hall
    · exact ih rep hall
    split at hall
    · exact ih rep hall
    rw [logged_delDefault] at hall
    dsimp only at hall
    split at hall
    · exact (allDone_concat.mp (ih _ hall)).1
    · exact (allDone_concat.mp (ih _ hall)).1

/-- What the deletes of such a pass have done. -/
structure RemoveDone (plan : RoutePlan) (rs : List DefaultRoute) (s : σ)
    (out : ReconcileReport × σ × CallLog) : Prop where
  kept : ∀ r, Untouched plan r → (be.table out.2.1).count r = (be.table s).count r
  removed : ∀ r, ¬Untouched plan r →
    (be.table out.2.1).count r ≤ (be.table s).count r - rs.count r
  dns : be.dns out.2.1 = be.dns s
  baseline : be.dnsBaseline out.2.1 = be.dnsBaseline s

variable {be} {plan : RoutePlan} {rs : List DefaultRoute} {s : σ}

/-- A route that is left alone does not count among those that are to go. -/
theorem RemoveDone.skip {out : ReconcileReport × σ × CallLog} (h : RemoveDone be plan rs s out)
    {r : DefaultRoute} (hr : Untouched plan r) : RemoveDone be plan (r :: rs) s out where
  kept := h.kept
  removed x hx := by
    have hne : r ≠ x := fun heq => hx (heq ▸ hr)
    rw [List.count_cons_of_ne hne]
    exact h.removed x hx
  dns := h.dns
  baseline := h.baseline

/-- What a stale route's delete has done counts with what the later ones do. -/
theorem RemoveDone.deleted {out : ReconcileReport × σ × CallLog} {r : DefaultRoute}
    (hstale : ¬Untouched plan r)
    (hok : (be.delDefault r.ifname r.gateway r.metric s).1.isOk = true)
    (h : RemoveDone be plan rs (be.delDefault r.ifname r.gateway r.metric s).2 out) :
    RemoveDone be plan (r :: rs) s out where
  kept x hx := by
    have hne : x ≠ r := fun heq => hstale (heq ▸ hx)
    exact (h.kept x hx).trans (be.del_other s x hne)
  removed x hx := by
    have hle := h.removed x hx
    by_cases heq : x = r
    · have hone : (be.table (be.delDefault r.ifname r.gateway r.metric s).2).count r ≤
          (be.table s).count r - 1 := be.del_done hok
      rw [heq] at hle ⊢
      rw [List.count_cons_self]
      omega
    · rw [be.del_other s x heq] at hle
      rwa [List.count_cons_of_ne (Ne.symm heq)]
  dns := h.dns.trans (be.del_dns _ _ _ s)
  baseline := h.baseline.trans (be.del_baseline _ _ _ s)

variable (be)

theorem removeStale_done {plan : RoutePlan} {installed : List String}
    (hinst : ∀ i, (plan.find i).isSome = true → i ∈ installed) (rs : List DefaultRoute)
    (rep : ReconcileReport) {s : σ} {l : CallLog}
    (hall : AllDone
      (removeStale (loggedBackend be.toRouteBackend) plan installed rs rep (s, l)).2.2) :
    RemoveDone be plan rs s
      (removeStale (loggedBackend be.toRouteBackend) plan installed rs rep (s, l)) := by
  induction rs generalizing rep s l with
  | nil => exact ⟨fun r _ => rfl, fun r _ => le_rfl, rfl, rfl⟩
  | cons r rs ih =>
    rw [removeStale] at hall ⊢
    by_cases hm : managed plan r.ifname = true
    swap
    · rw [Bool.not_eq_true] at hm
      rw [hm] at hall ⊢
      exact (ih rep hall).skip (.inl hm)
    rw [hm] at hall ⊢
    by_cases hw : wanted plan r = true
    · rw [if_neg (by decide), if_pos hw] at hall ⊢
      exact (ih rep hall).skip (.inr hw)
    have hstale : ¬Untouched plan r := by
      rintro (h | h)
      · rw [hm] at h
        cases h
      · exact hw h
    rw [if_neg (by decide), if_neg hw, if_neg fun h => h.2 (hinst _ h.1)] at hall ⊢
    rw [logged_delDefault] at hall ⊢
    dsimp only at hall ⊢
    split at hall
    · rename_i hok
      rw [if_pos hok]
      exact .deleted hstale hok (ih _ hall)
    · rename_i hfail
      have h := allDone_of_removeStale be rs _ hall
      exact absurd (allDone_concat.mp h).2 hfail

theorem recordBaseline_done {current : Option (List String)} {rep : ReconcileReport} {s : σ}
    {l : CallLog}
    (hall : AllDone (recordBaseline (loggedBackend be.toRouteBackend) current rep (s, l)).2.2) :
    AllDone l ∧
      (be.dnsBaseline
        (recordBaseline (loggedBackend be.toRouteBackend) current rep (s, l)).2.1).isSome = true ∧
      be.dns (recordBaseline (loggedBackend be.toRouteBackend) current rep (s, l)).2.1 = be.dns s ∧
      be.table (recordBaseline (loggedBackend be.toRouteBackend) current rep (s, l)).2.1 =
        be.table s := by
  rw [recordBaseline, logged_setDnsBaseline] at hall ⊢
  dsimp only at hall ⊢
  split at hall
  · rename_i hok
    rw [if_pos hok]
    exact ⟨(allDone_concat.mp hall).1, by rw [be.setDnsBaseline_done hok]; rfl,
      be.setDnsBaseline_dns _ s, be.setDnsBaseline_table _ s⟩
  · rename_i hfail
    exact absurd (allDone_concat.mp hall).2 hfail

/-- Both halves of the resolver file's care leave it settled, and the table as it was. -/
theorem takeDns_done {plan : RoutePlan} (howner : plan.dnsOwner ≠ "" ∧ plan.dns ≠ [])
    {rep : ReconcileReport} {s : σ} {l : CallLog}
    (hall : AllDone (takeDns (loggedBackend be.toRouteBackend) plan (be.dnsBaseline s).isSome rep
      (s, l)).2.2) :
    AllDone l ∧
      DnsSettled be.toRouteBackend plan (takeDns (loggedBackend be.toRouteBackend) plan
        (be.dnsBaseline s).isSome rep (s, l)).2.1 ∧
      be.table (takeDns (loggedBackend be.toRouteBackend) plan (be.dnsBaseline s).isSome rep
        (s, l)).2.1 = be.table s := by
  -- before the servers are written the ownership has been recorded
  obtain ⟨r, hr, hrec⟩ : ∃ r : ReconcileReport × σ × CallLog,
      (if (be.dnsBaseline s).isSome = true then (rep, s, l)
        else recordBaseline (loggedBackend be.toRouteBackend) (be.dns s) rep (s, l)) = r ∧
      (AllDone r.2.2 → AllDone l ∧ (be.dnsBaseline r.2.1).isSome = true ∧
        be.dns r.2.1 = be.dns s ∧ be.table r.2.1 = be.table s) := by
    refine ⟨_, rfl, ?_⟩
    split
    · rename_i howned
      exact fun h => ⟨h, howned, rfl, rfl⟩
    · exact fun h => recordBaseline_done be h
  have hread : (loggedBackend be.toRouteBackend).dns (s, l) = be.dns s := rfl
  rw [takeDns] at hall ⊢
  dsimp only at hall ⊢
  rw [hread, hr] at hall ⊢
  unfold DnsSettled
  rw [if_pos howner]
  by_cases hsame : be.dns s = some plan.dns
  · rw [if_pos hsame] at hall ⊢
    obtain ⟨hl, hown, hdns, htable⟩ := hrec hall
    exact ⟨hl, ⟨hown, hdns.trans hsame⟩, htable⟩
  · rw [if_neg hsame] at hall ⊢
    obtain ⟨rep', s', l'⟩ := r
    rw [logged_setDns] at hall ⊢
    dsimp only at hall ⊢ hrec
    split at hall
    · rename_i hok
      rw [if_pos hok]
      obtain ⟨hl, hown, -, htable⟩ := hrec (allDone_concat.mp hall).1
      exact ⟨hl, ⟨by rw [be.setDns_baseline]; exact hown, be.setDns_done hok⟩,
        (be.setDns_table _ _).trans htable⟩
    · rename_i hfail
      exact absurd (allDone_concat.mp hall).2 hfail

theorem returnDns_done {baseline : List String} {rep : ReconcileReport} {s : σ} {l : CallLog}
    (hall : AllDone (returnDns (loggedBackend be.toRouteBackend) baseline rep (s, l)).2.2) :
    AllDone l ∧
      be.dnsBaseline (returnDns (loggedBackend be.toRouteBackend) baseline rep (s, l)).2.1 = none ∧
      be.table (returnDns (loggedBackend be.toRouteBackend) baseline rep (s, l)).2.1 =
        be.table s := by
  rw [returnDns] at hall ⊢
  split at hall
  · rename_i hempty
    rw [if_pos hempty]
    rw [logged_clearDnsBaseline] at hall ⊢
    obtain ⟨hl, hclear⟩ := allDone_concat.mp hall
    exact ⟨hl, be.clearDnsBaseline_done hclear, be.clearDnsBaseline_table s⟩
  · rename_i hne
    rw [if_neg hne]
    rw [logged_setDns] at hall ⊢
    dsimp only at hall ⊢
    split at hall
    · rename_i hok
      rw [if_pos hok]
      rw [logged_clearDnsBaseline] at hall ⊢
      obtain ⟨hset, hclear⟩ := allDone_concat.mp hall
      exact ⟨(allDone_concat.mp hset).1, be.clearDnsBaseline_done hclear,
        (be.clearDnsBaseline_table _).trans (be.setDns_table _ s)⟩
    · rename_i hfail
      exact absurd (allDone_concat.mp hall).2 hfail

theorem reconcileDns_done {plan : RoutePlan} {rep : ReconcileReport} {s : σ} {l : CallLog}
    (hall : AllDone (reconcileDns (loggedBackend be.toRouteBackend) plan rep (s, l)).2.2) :
    AllDone l ∧
      DnsSettled be.toRouteBackend plan
        (reconcileDns (loggedBackend be.toRouteBackend) plan rep (s, l)).2.1 ∧
      be.table (reconcileDns (loggedBackend be.toRouteBackend) plan rep (s, l)).2.1 =
        be.table s := by
  have hread : (loggedBackend be.toRouteBackend).dnsBaseline (s, l) = be.dnsBaseline s := rfl
  rw [reconcileDns] at hall ⊢
  rw [hread] at hall ⊢
  split at hall
  · rename_i howner
    rw [if_pos howner]
    exact takeDns_done be howner hall
  · rename_i howner
    rw [if_neg howner]
    unfold DnsSettled
    rw [if_neg howner]
    cases hbase : be.dnsBaseline s with
    | some baseline =>
      rw [hbase] at hall
      exact returnDns_done be hall
    | none =>
      rw [hbase] at hall
      exact ⟨hall, hbase, rfl⟩

/-- What such a pass leaves. -/
theorem settled_reconcile {plan : RoutePlan} {s : σ} {actual : List DefaultRoute}
    (hread : be.defaultRoutes s = some actual)
    (hall : AllDone (reconcile (loggedBackend be.toRouteBackend) plan (s, [])).2.2) :
    (∀ w ∈ plan.routes,
        w.route ∈ be.table (reconcile (loggedBackend be.toRouteBackend) plan (s, [])).2.1) ∧
      (∀ r ∈ be.table (reconcile (loggedBackend be.toRouteBackend) plan (s, [])).2.1,
        Untouched plan r) ∧
      DnsSettled be.toRouteBackend plan
        (reconcile (loggedBackend be.toRouteBackend) plan (s, [])).2.1 := by
  have hlog : (loggedBackend be.toRouteBackend).defaultRoutes (s, []) = some actual := hread
  have hperm := be.read hread
  unfold reconcile at hall ⊢
  rw [hlog] at hall ⊢
  dsimp only at hall ⊢
  have hadd := @addMissing_done σ be actual plan.routes {} s [] hperm.subset
  generalize addMissing (loggedBackend be.toRouteBackend) actual plan.routes {} (s, []) = added at *
  obtain ⟨⟨rep, installed⟩, s₁, l₁⟩ := added
  dsimp only at hall ⊢
  obtain ⟨hremoved, hdns, htable⟩ := reconcileDns_done be hall
  rw [htable]
  have hadded := hadd (allDone_of_removeStale be actual rep hremoved)
  have hinst : ∀ i, (plan.find i).isSome = true → i ∈ installed := by
    intro i hi
    obtain ⟨w, hw⟩ := Option.isSome_iff_exists.mp hi
    have hin := hadded.installed
    dsimp only at hin
    rw [hin]
    exact List.mem_map.mpr ⟨w, List.mem_of_find?_eq_some hw, by simpa using List.find?_some hw⟩
  have hdel := removeStale_done be hinst actual rep hremoved
  have hwanted {w : RouteIntent} (hw : w ∈ plan.routes) : wanted plan w.route = true :=
    List.any_eq_true.mpr ⟨w, hw, decide_eq_true rfl⟩
  refine ⟨fun w hw => ?_, fun r hr => ?_, hdns⟩
  · rw [← List.count_pos_iff, hdel.kept _ (.inr (hwanted hw)), List.count_pos_iff]
    exact hadded.added w hw
  · by_contra hstale
    have hnew : ∀ w ∈ plan.routes, r ≠ w.route := by
      rintro w hw rfl
      exact hstale (.inr (hwanted hw))
    have hcount : (be.table s₁).count r = (be.table s).count r := hadded.other r hnew
    have hgone := hdel.removed r hstale
    rw [hcount, hperm.count_eq, Nat.sub_self, Nat.le_zero] at hgone
    exact List.count_eq_zero.mp hgone hr

/-- After a pass in which every call succeeded, a second one over the same plan makes no call. -/
theorem reconcile_reconcile (plan : RoutePlan) (s : σ)
    (hread : (be.defaultRoutes s).isSome = true)
    (hall : AllDone (reconcile (loggedBackend be.toRouteBackend) plan (s, [])).2.2) :
    (reconcile (loggedBackend be.toRouteBackend) plan
      ((reconcile (loggedBackend be.toRouteBackend) plan (s, [])).2.1, [])).2 =
        ((reconcile (loggedBackend be.toRouteBackend) plan (s, [])).2.1, []) := by
  obtain ⟨actual, hactual⟩ := Option.isSome_iff_exists.mp hread
  obtain ⟨hin, hours, hdns⟩ := settled_reconcile be hactual hall
  generalize (reconcile (loggedBackend be.toRouteBackend) plan (s, [])).2.1 = after
    at hin hours hdns ⊢
  match hagain : be.defaultRoutes after with
  | none =>
    have hlog : (loggedBackend be.toRouteBackend).defaultRoutes (after, []) = none := hagain
    rw [reconcile, hlog]
  | some actual' =>
    have hperm := be.read hagain
    exact reconcile_of_settled (loggedBackend be.toRouteBackend) (s := (after, [])) hagain
      (fun w hw => hperm.mem_iff.mpr (hin w hw)) (fun r hr => hours r (hperm.mem_iff.mp hr)) hdns

end pass

/-- A table in memory. -/
structure Kernel where
  routes : List DefaultRoute
  resolv : Option (List String) := none
  baseline : Option (List String) := none
  deriving DecidableEq

/-- Every call succeeds; deleting a route takes one of its entries away. -/
def kernelBackend : TableBackend Kernel where
  defaultRoutes k := some k.routes
  addDefault i g m _ k := (.ok, { k with routes := k.routes ++ [⟨i, g, m⟩] })
  delDefault i g m k := (.ok, { k with routes := k.routes.erase ⟨i, g, m⟩ })
  setDns d k := (.ok, { k with resolv := some d })
  dns k := k.resolv
  dnsBaseline k := k.baseline
  setDnsBaseline d k := (.ok, { k with baseline := some d })
  clearDnsBaseline k := (.ok, { k with baseline := none })
  table := Kernel.routes
  read h := by
    obtain rfl := Option.some.inj h
    exact .refl _
  add_done _ := List.mem_append_right _ (List.mem_singleton.mpr rfl)
  add_other o k r hne := by
    rw [List.count_append, List.count_singleton, if_neg (by simpa using hne.symm), Nat.add_zero]
  del_done _ := by rw [List.count_erase_self]
  del_other k r hne := List.count_erase_of_ne hne
  add_kept i g m o k := by
    rw [List.count_append]
    exact Nat.le_add_right _ _
  add_dns _ _ _ _ _ := rfl
  add_baseline _ _ _ _ _ := rfl
  del_dns _ _ _ _ := rfl
  del_baseline _ _ _ _ := rfl
  setDns_done _ := rfl
  setDns_table _ _ := rfl
  setDns_baseline _ _ := rfl
  setDnsBaseline_done _ := rfl
  setDnsBaseline_table _ _ := rfl
  setDnsBaseline_dns _ _ := rfl
  clearDnsBaseline_done _ := rfl
  clearDnsBaseline_table _ := rfl
  clearDnsBaseline_dns _ := rfl

/-- The cellular link is planned, and the table holds a stale route twice. -/
def cellularPlan : RoutePlan where
  routes := [{ uplinkId := "cellular", ifname := "usb0", gateway := "10.64.0.1", metric := 10 }]
  managedIfnames := ["eth0", "usb0"]
  dns := ["10.64.0.1"]
  dnsOwner := "cellular"

def staleTable : Kernel where
  routes := [⟨"eth0", "", 0⟩, ⟨"tun0", "10.8.0.1", 50⟩, ⟨"eth0", "", 0⟩]
  resolv := some ["192.168.1.1"]

theorem reconcile_reconcile_cellular :
    (reconcile (loggedBackend kernelBackend.toRouteBackend) cellularPlan
      ((reconcile (loggedBackend kernelBackend.toRouteBackend) cellularPlan (staleTable, [])).2.1,
        [])).2 =
      ((reconcile (loggedBackend kernelBackend.toRouteBackend) cellularPlan (staleTable, [])).2.1,
        []) :=
  reconcile_reconcile kernelBackend cellularPlan staleTable rfl (by decide)

end Machino.Net
