import Machino.Net.RouteManager

namespace Machino.Net

/-- A kernel whose route table is a list: an exclusive create is refused as soon as any default
route carries the same metric, and a delete takes away at most the route it names. -/
structure Fib (κ : Type*) extends Netlink κ where
  routes : κ → List DefaultRoute
  accepts : DefaultRoute → Prop
  read : ∀ k, procNetRoute k = some (routes k)
  new_exists : ∀ k r, (∃ e ∈ routes k, e.metric = r.metric) → exchange .newRoute r k = (.eexist, k)
  new_fresh : ∀ k r, accepts r → (∀ e ∈ routes k, e.metric ≠ r.metric) →
    (exchange .newRoute r k).1 = .none ∧
      ∀ e, e ∈ routes (exchange .newRoute r k).2 ↔ e = r ∨ e ∈ routes k
  del_kept : ∀ k r e, e ∈ routes k → e ≠ r → e ∈ routes (exchange .delRoute r k).2

/-- The route the kernel is asked for: a metric below zero is sent as zero. -/
def RouteIntent.sent (w : RouteIntent) : DefaultRoute :=
  ⟨w.ifname, w.gateway, if w.metric < 0 then 0 else w.metric⟩

/-- The interface is there, the gateway is an address, and the kernel takes the route. -/
def Fib.Accepted {κ : Type*} (fib : Fib κ) (w : RouteIntent) : Prop :=
  fib.nameToIndex w.ifname ≠ 0 ∧ (w.gateway = "" ∨ fib.inetPton w.gateway = true) ∧
    fib.accepts w.sent

section backend

variable {σ : Type*} (be : RouteBackend σ) (table : σ → List DefaultRoute)

/-- Every add of a pass that reports success has its route in the table. -/
def AddsHonest (actual : List DefaultRoute) : List RouteIntent → σ → Prop
  | [], _ => True
  | w :: ws, s =>
    if present actual w then AddsHonest actual ws s
    else
      let rc := be.addDefault w.ifname w.gateway w.metric w.onlink s
      (rc.1.isOk = true → w.route ∈ table rc.2) ∧ AddsHonest actual ws rc.2

/-- A pass makes no false report of an add, and does not lose the last way out. -/
structure Failover (plan : RoutePlan) (s : σ) : Prop where
  honest : ∀ actual, be.defaultRoutes s = some actual → AddsHonest be table actual plan.routes s
  way : table s ≠ [] → table (reconcile be plan s).2 ≠ []

end backend

/-- The planned routes a pass will ask for. -/
def missing (actual : List DefaultRoute) (ws : List RouteIntent) : List RouteIntent :=
  ws.filter fun w => !present actual w

/-- No missing planned route has the metric of a route in the table, or of another missing one. -/
def Uncontested (routes : List DefaultRoute) (ws : List RouteIntent) : Prop :=
  (∀ w ∈ missing routes ws, 0 ≤ w.metric ∧ ∀ e ∈ routes, e.metric ≠ w.metric) ∧
    (missing routes ws).Pairwise fun w v => w.metric = v.metric → w.route = v.route

instance (routes : List DefaultRoute) (ws : List RouteIntent) :
    Decidable (Uncontested routes ws) := by
  unfold Uncontested
  infer_instance

theorem missing_cons_present {actual : List DefaultRoute} {w : RouteIntent}
    (h : present actual w = true) (ws : List RouteIntent) :
    missing actual (w :: ws) = missing actual ws := by simp [missing, h]

theorem missing_cons_absent {actual : List DefaultRoute} {w : RouteIntent}
    (h : ¬ present actual w = true) (ws : List RouteIntent) :
    missing actual (w :: ws) = w :: missing actual ws := by simp [missing, h]

/-- During the adds of a pass the table is what was read and what has been added since, and
each of the latter has a metric of its own. -/
structure AddedTo (actual added routes : List DefaultRoute) : Prop where
  mem : ∀ e, e ∈ routes ↔ e ∈ added ∨ e ∈ actual
  nonneg : ∀ a ∈ added, 0 ≤ a.metric
  fresh : ∀ a ∈ added, ∀ e ∈ actual, e.metric ≠ a.metric
  distinct : ∀ a ∈ added, ∀ b ∈ added, a.metric = b.metric → a = b

theorem RouteIntent.sent_of_nonneg {w : RouteIntent} (h : 0 ≤ w.metric) : w.sent = w.route := by
  unfold sent route
  rw [if_neg (by omega)]

theorem RouteIntent.sent_nonneg (w : RouteIntent) : 0 ≤ w.sent.metric := by
  unfold sent
  dsimp only
  split <;> omega

section fib

variable {κ ρ : Type*} (fib : Fib κ) (files : ResolverFiles ρ)

/-- The routes in the kernel. -/
def Fib.table (s : κ × ρ) : List DefaultRoute := fib.routes s.1

theorem routeOp_accepted {w : RouteIntent} (h : fib.Accepted w) (msg : RouteMsg) (k : κ) :
    routeOp fib.toNetlink msg w.ifname w.gateway w.metric k =
      (ackResult msg (fib.exchange msg w.sent k).1, (fib.exchange msg w.sent k).2) := by
  obtain ⟨hi, hg, -⟩ := h
  unfold routeOp
  rw [if_neg hi, if_neg]
  · rfl
  · rintro ⟨hne, hno⟩
    rcases hg with hg | hg
    · exact hne hg
    · simp [hg] at hno

/-- An add the kernel has a clash for reports success and changes nothing. -/
theorem addDefault_clash {w : RouteIntent} (h : fib.Accepted w) {s : κ × ρ}
    (hc : ∃ e ∈ fib.routes s.1, e.metric = w.sent.metric) :
    (linuxRouteBackend fib.toNetlink files).addDefault w.ifname w.gateway w.metric w.onlink s =
      (.ok, s) := by
  have hx := fib.new_exists s.1 w.sent hc
  unfold linuxRouteBackend
  dsimp only
  rw [routeOp_accepted fib h, hx]
  rfl

/-- Without a clash the route is put in. -/
theorem addDefault_fresh {w : RouteIntent} (h : fib.Accepted w) {s : κ × ρ}
    (hf : ∀ e ∈ fib.routes s.1, e.metric ≠ w.sent.metric) :
    ∃ k, (linuxRouteBackend fib.toNetlink files).addDefault w.ifname w.gateway w.metric w.onlink s =
        (.ok, k, s.2) ∧ ∀ e, e ∈ fib.routes k ↔ e = w.sent ∨ e ∈ fib.routes s.1 := by
  obtain ⟨hx, hmem⟩ := fib.new_fresh s.1 w.sent h.2.2 hf
  refine ⟨(fib.exchange .newRoute w.sent s.1).2, ?_, hmem⟩
  unfold linuxRouteBackend
  dsimp only
  rw [routeOp_accepted fib h, hx]
  rfl

/-- The route can go in beside what was read and what has been added since. -/
structure Fits (actual added : List DefaultRoute) (w : RouteIntent) : Prop where
  nonneg : 0 ≤ w.metric
  actual : ∀ e ∈ actual, e.metric ≠ w.metric
  added : ∀ a ∈ added, a.metric = w.metric → a = w.route

theorem AddedTo.fits {actual added routes : List DefaultRoute} (h : AddedTo actual added routes)
    {w : RouteIntent} (hw : w.route ∈ added) : Fits actual added w :=
  ⟨h.nonneg _ hw, h.fresh _ hw, fun a ha => h.distinct a ha _ hw⟩

/-- One more route of a metric nobody has. -/
theorem AddedTo.cons {actual added routes routes' : List DefaultRoute}
    (h : AddedTo actual added routes) {r : DefaultRoute} (hr : 0 ≤ r.metric)
    (hf : ∀ e ∈ routes, e.metric ≠ r.metric) (hm : ∀ e, e ∈ routes' ↔ e = r ∨ e ∈ routes) :
    AddedTo actual (r :: added) routes' := by
  have hadded (a : DefaultRoute) (ha : a ∈ added) : a.metric ≠ r.metric :=
    hf a ((h.mem a).mpr (.inl ha))
  refine ⟨fun e => ?_, ?_, ?_, ?_⟩
  · rw [hm e, h.mem e, List.mem_cons, or_assoc]
  · exact List.forall_mem_cons.mpr ⟨hr, h.nonneg⟩
  · exact List.forall_mem_cons.mpr ⟨fun e he => hf e ((h.mem e).mpr (.inr he)), h.fresh⟩
  · intro a ha b hb hab
    rcases List.mem_cons.mp ha with har | ha' <;> rcases List.mem_cons.mp hb with hbr | hb'
    · rw [har, hbr]
    · rw [har] at hab
      exact absurd hab.symm (hadded b hb')
    · rw [hbr] at hab
      exact absurd hab (hadded a ha')
    · exact h.distinct a ha' b hb' hab

theorem addsHonest_iff {actual added : List DefaultRoute} (ws : List RouteIntent) {s : κ × ρ}
    (hacc : ∀ w ∈ ws, fib.Accepted w) (h : AddedTo actual added (fib.routes s.1)) :
    AddsHonest (linuxRouteBackend fib.toNetlink files) fib.table actual ws s ↔
      (∀ w ∈ missing actual ws, Fits actual added w) ∧
        (missing actual ws).Pairwise fun w v => w.metric = v.metric → w.route = v.route := by
  induction ws generalizing added s with
  | nil => simp [AddsHonest, missing]
  | cons w ws ih =>
    have hw := hacc w List.mem_cons_self
    have hws : ∀ v ∈ ws, fib.Accepted v := fun v hv => hacc v (List.mem_cons_of_mem _ hv)
    unfold AddsHonest
    by_cases hp : present actual w = true
    · rw [if_pos hp, missing_cons_present hp]
      exact ih hws h
    have hna : w.route ∉ actual := by simpa [present] using hp
    rw [if_neg hp, missing_cons_absent hp, List.forall_mem_cons, List.pairwise_cons]
    dsimp only
    by_cases hc : ∃ e ∈ fib.routes s.1, e.metric = w.sent.metric
    · rw [addDefault_clash fib files hw hc, ih hws h]
      constructor
      · rintro ⟨hin, hfit, hpair⟩
        have hadd : w.route ∈ added := ((h.mem _).mp (hin rfl)).resolve_right hna
        exact ⟨⟨h.fits hadd, hfit⟩, fun v hv => (hfit v hv).added _ hadd, hpair⟩
      · rintro ⟨⟨hfw, hfit⟩, -, hpair⟩
        refine ⟨fun _ => ?_, hfit, hpair⟩
        -- the clash can only be with the same route, added before
        obtain ⟨e, he, hem⟩ := hc
        rw [RouteIntent.sent_of_nonneg hfw.nonneg] at hem
        have hadd : e ∈ added := ((h.mem e).mp he).resolve_right fun hea => hfw.actual e hea hem
        have heq := hfw.added e hadd hem
        rw [heq] at he
        exact he
    · have hf : ∀ e ∈ fib.routes s.1, e.metric ≠ w.sent.metric := fun e he hem => hc ⟨e, he, hem⟩
      obtain ⟨k, hk, hmem⟩ := addDefault_fresh fib files hw hf
      have hcons := h.cons w.sent_nonneg hf hmem
      rw [hk, ih hws hcons]
      constructor
      · rintro ⟨hin, hfit, hpair⟩
        have hsent : w.route = w.sent := by
          refine ((hmem _).mp (hin rfl)).resolve_right fun hr => ?_
          have hadd : w.route ∈ added := ((h.mem _).mp hr).resolve_right hna
          have h0 := h.nonneg _ hadd
          exact hf _ hr (by rw [RouteIntent.sent_of_nonneg h0])
        have hmet : w.sent.metric = w.metric := congrArg DefaultRoute.metric hsent.symm
        refine ⟨⟨⟨?_, ?_, ?_⟩, fun v hv => ?_⟩, fun v hv hvm => ?_, hpair⟩
        · rw [← hmet]
          exact w.sent_nonneg
        · intro e he
          rw [← hmet]
          exact hf e ((h.mem e).mpr (.inr he))
        · intro a ha ham
          rw [← hmet] at ham
          exact absurd ham (hf a ((h.mem a).mpr (.inl ha)))
        · have hv := hfit v hv
          exact ⟨hv.nonneg, hv.actual, fun a ha => hv.added a (List.mem_cons_of_mem _ ha)⟩
        · rw [hsent]
          exact (hfit v hv).added _ List.mem_cons_self (hmet.trans hvm)
      · rintro ⟨⟨hfw, hfit⟩, hcmp, hpair⟩
        have hsent := RouteIntent.sent_of_nonneg hfw.nonneg
        refine ⟨fun _ => ?_, fun v hv => ?_, hpair⟩
        · rw [← hsent]
          exact (hmem _).mpr (.inl rfl)
        · have hv' := hfit v hv
          refine ⟨hv'.nonneg, hv'.actual, ?_⟩
          refine List.forall_mem_cons.mpr ⟨fun hm => ?_, hv'.added⟩
          rw [hsent] at hm ⊢
          exact hcmp v hv hm

/-- Honest adds leave everything that was there and everything planned in the table. -/
theorem addMissing_honest {actual : List DefaultRoute} (ws : List RouteIntent)
    (rep : ReconcileReport) {s : κ × ρ} (hacc : ∀ w ∈ ws, fib.Accepted w)
    (ha : ∀ e ∈ actual, e ∈ fib.routes s.1)
    (h : AddsHonest (linuxRouteBackend fib.toNetlink files) fib.table actual ws s) :
    let out := (addMissing (linuxRouteBackend fib.toNetlink files) actual ws rep s).2
    (∀ e ∈ fib.routes s.1, e ∈ fib.routes out.1) ∧ ∀ w ∈ ws, w.route ∈ fib.routes out.1 := by
  induction ws generalizing rep s with
  | nil => exact ⟨fun e he => he, by simp⟩
  | cons w ws ih =>
    have hw := hacc w List.mem_cons_self
    have hws : ∀ v ∈ ws, fib.Accepted v := fun v hv => hacc v (List.mem_cons_of_mem _ hv)
    unfold AddsHonest at h
    unfold addMissing
    by_cases hp : present actual w = true
    · rw [if_pos hp] at h ⊢
      obtain ⟨hkept, hin⟩ := ih rep hws ha h
      have hwa : w.route ∈ actual := by simpa [present] using hp
      exact ⟨hkept, List.forall_mem_cons.mpr ⟨hkept _ (ha _ hwa), hin⟩⟩
    rw [if_neg hp] at h ⊢
    dsimp only at h ⊢
    by_cases hc : ∃ e ∈ fib.routes s.1, e.metric = w.sent.metric
    · rw [addDefault_clash fib files hw hc] at h ⊢
      obtain ⟨hkept, hin⟩ := ih { rep with added := rep.added + 1 } hws ha h.2
      exact ⟨hkept, List.forall_mem_cons.mpr ⟨hkept _ (h.1 rfl), hin⟩⟩
    · obtain ⟨k, hk, hmem⟩ := addDefault_fresh fib files hw fun e he hem => hc ⟨e, he, hem⟩
      rw [hk] at h ⊢
      have hgrow : ∀ e ∈ fib.routes s.1, e ∈ fib.routes k := fun e he => (hmem e).mpr (.inr he)
      obtain ⟨hkept, hin⟩ := ih { rep with added := rep.added + 1 } hws
        (fun e he => hgrow e (ha e he)) h.2
      exact ⟨fun e he => hkept e (hgrow e he),
        List.forall_mem_cons.mpr ⟨hkept _ (h.1 rfl), hin⟩⟩

/-- A route survives the deletes of a pass when no delete that is made names it. -/
theorem removeStale_kept (plan : RoutePlan) (installed : List String) (rs : List DefaultRoute)
    (rep : ReconcileReport) {s : κ × ρ} {e : DefaultRoute} (he : e ∈ fib.routes s.1)
    (hne : ∀ r ∈ rs, wanted plan r = false →
      e ≠ ⟨r.ifname, r.gateway, if r.metric < 0 then 0 else r.metric⟩) :
    e ∈ fib.routes
      (removeStale (linuxRouteBackend fib.toNetlink files) plan installed rs rep s).2.1 := by
  induction rs generalizing rep s with
  | nil => exact he
  | cons r rs ih =>
    have hrs := (List.forall_mem_cons.mp hne).2
    unfold removeStale
    split
    · exact ih rep he hrs
    split
    · exact ih rep he hrs
    split
    · exact ih rep he hrs
    rename_i hw _
    have hdel : e ∈ fib.routes
        (routeOp fib.toNetlink .delRoute r.ifname r.gateway r.metric s.1).2 := by
      unfold routeOp
      split
      · exact he
      split
      · exact he
      · exact fib.del_kept _ _ e he (hne r List.mem_cons_self (by simpa using hw))
    dsimp only
    split
    · exact ih _ hdel hrs
    · exact ih _ hdel hrs

/-- The Linux port answers every pass truthfully and keeps a way out exactly when no planned
route has to go in beside another one of its metric. -/
theorem failover_iff {plan : RoutePlan} (hne : plan.routes ≠ [])
    (hacc : ∀ w ∈ plan.routes, fib.Accepted w) (s : κ × ρ) :
    Failover (linuxRouteBackend fib.toNetlink files) fib.table plan s ↔
      Uncontested (fib.routes s.1) plan.routes := by
  have hstart : AddedTo (fib.routes s.1) [] (fib.routes s.1) := by
    refine ⟨fun e => ?_, ?_, ?_, ?_⟩ <;> simp
  have hread : (linuxRouteBackend fib.toNetlink files).defaultRoutes s = some (fib.routes s.1) :=
    fib.read s.1
  have hiff := addsHonest_iff fib files plan.routes hacc hstart
  have hcond : ((∀ w ∈ missing (fib.routes s.1) plan.routes, Fits (fib.routes s.1) [] w) ∧
      (missing (fib.routes s.1) plan.routes).Pairwise fun w v =>
        w.metric = v.metric → w.route = v.route) ↔ Uncontested (fib.routes s.1) plan.routes := by
    unfold Uncontested
    refine and_congr_left fun _ => forall₂_congr fun w _ => ?_
    exact ⟨fun h => ⟨h.nonneg, h.actual⟩, fun h => ⟨h.1, h.2, by simp⟩⟩
  rw [← hcond, ← hiff]
  refine ⟨fun h => h.honest _ hread, fun h => ⟨fun actual ha => ?_, fun _ => ?_⟩⟩
  · rw [hread] at ha
    cases ha
    exact h
  · unfold reconcile
    rw [hread]
    dsimp only
    obtain ⟨hkept, hin⟩ := addMissing_honest fib files plan.routes {} hacc (fun e he => he) h
    generalize addMissing (linuxRouteBackend fib.toNetlink files) (fib.routes s.1) plan.routes {} s
      = added at hkept hin ⊢
    unfold Fib.table
    rw [reconcileDns_kernel]
    by_cases hneg : ∃ e ∈ fib.routes s.1, e.metric < 0
    · -- no delete names a route of a metric below zero
      obtain ⟨e, he, hem⟩ := hneg
      refine List.ne_nil_of_mem
        (removeStale_kept fib files plan added.1.2 _ _ (hkept e he) fun r _ _ heq => ?_)
      rw [heq] at hem
      dsimp only at hem
      split at hem <;> omega
    · obtain ⟨w, hw⟩ := List.exists_mem_of_ne_nil _ hne
      refine List.ne_nil_of_mem
        (removeStale_kept fib files plan added.1.2 _ _ (hin w hw) fun r hr hwanted heq => ?_)
      rw [if_neg fun h => hneg ⟨r, hr, h⟩] at heq
      have hw' : wanted plan r = true := by
        unfold wanted
        rw [List.any_eq_true]
        exact ⟨w, hw, by simp [heq]⟩
      simp [hw'] at hwanted

end fib

/-- A kernel that takes every route and deletes exactly what it is asked to. -/
def listFib : Fib (List DefaultRoute) where
  nameToIndex _ := 1
  inetPton _ := true
  procNetRoute k := some k
  exchange
    | .newRoute, r, k => if k.any (·.metric = r.metric) then (.eexist, k) else (.none, r :: k)
    | .delRoute, r, k => if r ∈ k then (.none, k.filter (· ≠ r)) else (.esrch, k)
  routes k := k
  accepts _ := True
  read _ := rfl
  new_exists k r h := by
    have hany : k.any (·.metric = r.metric) = true := by simpa using h
    simp [hany]
  new_fresh k r _ h := by
    have hany : k.any (·.metric = r.metric) = false := by simpa using h
    simp [hany]
  del_kept k r e he hne := by
    dsimp only
    split
    · exact List.mem_filter.mpr ⟨he, by simpa using hne⟩
    · exact he

/-- No resolver files: every call is refused. -/
def noFiles : ResolverFiles Unit where
  setDns _ r := (.error, r)
  dns _ := none
  dnsBaseline _ := none
  setDnsBaseline _ r := (.error, r)
  clearDnsBaseline r := (.error, r)

/-- The plan after the cable is gone and the station has taken over. -/
def stationPlan : RoutePlan := planRoutes
  [{ id := "eth0", state := .down, info := { ifname := "eth0" } },
    { id := "wlan0", type := .wifi, state := .connected
      info := { ifname := "wlan0", ipv4 := "10.0.0.7", gateway := "10.0.0.1" } }] {} "wlan0"

/-- A station that takes over from a cable whose route has the metric of the unranked. -/
theorem failover_iff_station :
    Failover (linuxRouteBackend listFib.toNetlink noFiles) listFib.table stationPlan
        ([⟨"eth0", "10.1.0.1", 1000⟩], ()) ↔
      Uncontested [⟨"eth0", "10.1.0.1", 1000⟩] stationPlan.routes :=
  failover_iff listFib noFiles (by decide) (fun _ _ => ⟨Nat.one_ne_zero, .inr rfl, trivial⟩) _

/-- A failover between two active metrics: the new route is taken for present, the old one
goes, and none is left. -/
theorem not_failover_station :
    ¬ Failover (linuxRouteBackend listFib.toNetlink noFiles) listFib.table stationPlan
      ([⟨"eth0", "10.1.0.1", 10⟩], ()) := by
  intro h
  have hway := h.way (by decide)
  revert hway
  decide

end Machino.Net
