import Machino.Net.RouteManager
import Mathlib.Data.Set.Basic

namespace Machino.Net

/-- The port with an abstract table behind it. Any call may fail; whatever it answers, it
touches at most the route it names. -/
structure AbstractBackend (σ : Type*) extends RouteBackend σ where
  table : σ → Set DefaultRoute
  read : ∀ {s rs}, defaultRoutes s = some rs → ∀ r, r ∈ rs ↔ r ∈ table s
  add_kept : ∀ i g m o s, table s ⊆ table (addDefault i g m o s).2
  add_only : ∀ i g m o s, table (addDefault i g m o s).2 ⊆ insert ⟨i, g, m⟩ (table s)
  add_done : ∀ i g m o s, (addDefault i g m o s).1.isOk = true →
    ⟨i, g, m⟩ ∈ table (addDefault i g m o s).2
  del_kept : ∀ i g m s r, r ∈ table s → r ≠ ⟨i, g, m⟩ → r ∈ table (delDefault i g m s).2
  del_only : ∀ i g m s, table (delDefault i g m s).2 ⊆ table s
  setDns_table : ∀ d s, table (setDns d s).2 = table s
  setDnsBaseline_table : ∀ d s, table (setDnsBaseline d s).2 = table s
  clearDnsBaseline_table : ∀ s, table (clearDnsBaseline s).2 = table s

/-- A pass took no interface its last way out and touched nobody else's route. -/
structure Unstranded (plan : RoutePlan) (before after : Set DefaultRoute) : Prop where
  unmanaged : ∀ r ∈ before, managed plan r.ifname = false → r ∈ after
  added : ∀ r ∈ after, r ∈ before ∨ ∃ w ∈ plan.routes, r = w.route
  planned : ∀ w ∈ plan.routes, (∃ r ∈ before, r.ifname = w.ifname) →
    ∃ r ∈ after, r.ifname = w.ifname

/-- A route a pass does not delete. -/
def Spared (plan : RoutePlan) (installed : List String) (r : DefaultRoute) : Prop :=
  managed plan r.ifname = false ∨ wanted plan r = true ∨
    ((plan.find r.ifname).isSome = true ∧ r.ifname ∉ installed)

section backend

variable {σ : Type*} (be : AbstractBackend σ)

/-- What the adds of a pass do. -/
structure AddSpec (ws : List RouteIntent) (s : σ) (r : (ReconcileReport × List String) × σ) :
    Prop where
  kept : be.table s ⊆ be.table r.2
  only : ∀ x ∈ be.table r.2, x ∈ be.table s ∨ ∃ w ∈ ws, x = w.route
  installed : ∀ i ∈ r.1.2, ∃ w ∈ ws, w.ifname = i ∧ w.route ∈ be.table r.2

theorem addMissing_spec (actual : List DefaultRoute) (ws : List RouteIntent)
    (rep : ReconcileReport) {s : σ} (ha : ∀ r ∈ actual, r ∈ be.table s) :
    AddSpec be ws s (addMissing be.toRouteBackend actual ws rep s) := by
  induction ws generalizing rep s with
  | nil => exact ⟨subset_rfl, fun x hx => .inl hx, by simp [addMissing]⟩
  | cons w ws ih =>
    unfold addMissing
    by_cases hp : present actual w = true
    · rw [if_pos hp]
      have h := ih rep ha
      refine ⟨h.kept, fun x hx => ?_, fun i hi => ?_⟩
      · rcases h.only x hx with hx | ⟨v, hv, hx⟩
        · exact .inl hx
        · exact .inr ⟨v, List.mem_cons_of_mem _ hv, hx⟩
      · rcases List.mem_cons.mp hi with rfl | hi
        · have hw : w.route ∈ actual := by simpa [present] using hp
          exact ⟨w, List.mem_cons_self, rfl, h.kept (ha _ hw)⟩
        · obtain ⟨v, hv, hvi, hvt⟩ := h.installed i hi
          exact ⟨v, List.mem_cons_of_mem _ hv, hvi, hvt⟩
    rw [if_neg hp]
    dsimp only
    have hkept := be.add_kept w.ifname w.gateway w.metric w.onlink s
    have honly := be.add_only w.ifname w.gateway w.metric w.onlink s
    have hdone := be.add_done w.ifname w.gateway w.metric w.onlink s
    generalize be.addDefault w.ifname w.gateway w.metric w.onlink s = rc at hkept honly hdone ⊢
    have ha' : ∀ r ∈ actual, r ∈ be.table rc.2 := fun r hr => hkept (ha r hr)
    have hfrom {t : σ} (h : ∀ x ∈ be.table t, x ∈ be.table rc.2 ∨ ∃ v ∈ ws, x = v.route)
        (x : DefaultRoute) (hx : x ∈ be.table t) :
        x ∈ be.table s ∨ ∃ v ∈ w :: ws, x = v.route := by
      rcases h x hx with hx | ⟨v, hv, hx⟩
      · rcases Set.mem_insert_iff.mp (honly hx) with rfl | hx
        · exact .inr ⟨w, List.mem_cons_self, rfl⟩
        · exact .inl hx
      · exact .inr ⟨v, List.mem_cons_of_mem _ hv, hx⟩
    split
    · rename_i hok
      have h := ih { rep with added := rep.added + 1 } ha'
      refine ⟨hkept.trans h.kept, hfrom h.only, fun i hi => ?_⟩
      rcases List.mem_cons.mp hi with rfl | hi
      · exact ⟨w, List.mem_cons_self, rfl, h.kept (hdone hok)⟩
      · obtain ⟨v, hv, hvi, hvt⟩ := h.installed i hi
        exact ⟨v, List.mem_cons_of_mem _ hv, hvi, hvt⟩
    · have h := ih (rep.fail ("the default route through " ++ w.ifname ++
        " could not be installed")) ha'
      refine ⟨hkept.trans h.kept, hfrom h.only, fun i hi => ?_⟩
      obtain ⟨v, hv, hvi, hvt⟩ := h.installed i hi
      exact ⟨v, List.mem_cons_of_mem _ hv, hvi, hvt⟩

/-- What the deletes of a pass do. -/
structure RemoveSpec (plan : RoutePlan) (installed : List String) (s : σ)
    (r : ReconcileReport × σ) : Prop where
  kept : ∀ x ∈ be.table s, Spared plan installed x → x ∈ be.table r.2
  only : be.table r.2 ⊆ be.table s

theorem removeStale_spec (plan : RoutePlan) (installed : List String) (rs : List DefaultRoute)
    (rep : ReconcileReport) (s : σ) :
    RemoveSpec be plan installed s (removeStale be.toRouteBackend plan installed rs rep s) := by
  induction rs generalizing rep s with
  | nil => exact ⟨fun x hx _ => hx, subset_rfl⟩
  | cons r rs ih =>
    unfold removeStale
    split
    · exact ih rep s
    split
    · exact ih rep s
    split
    · exact ih rep s
    rename_i hm hw hf
    dsimp only
    have hkept := be.del_kept r.ifname r.gateway r.metric s
    have honly := be.del_only r.ifname r.gateway r.metric s
    generalize be.delDefault r.ifname r.gateway r.metric s = rc at hkept honly ⊢
    -- the one route that may go is not a spared one
    have hstep (out : ReconcileReport × σ) (h : RemoveSpec be plan installed rc.2 out) :
        RemoveSpec be plan installed s out := by
      refine ⟨fun x hx hsp => h.kept x (hkept x hx ?_) hsp, h.only.trans honly⟩
      rintro rfl
      rcases hsp with hsp | hsp | hsp
      · simp [hsp] at hm
      · exact hw hsp
      · exact hf hsp
    split
    · exact hstep _ (ih _ rc.2)
    · exact hstep _ (ih _ rc.2)

theorem reconcileDns_table (plan : RoutePlan) (rep : ReconcileReport) (s : σ) :
    be.table (reconcileDns be.toRouteBackend plan rep s).2 = be.table s := by
  have hrec (b : Option (List String)) :
      be.table (recordBaseline be.toRouteBackend b rep s).2 = be.table s := by
    unfold recordBaseline
    dsimp only
    split <;> exact be.setDnsBaseline_table _ s
  have htake (owned : Bool) : be.table (takeDns be.toRouteBackend plan owned rep s).2 =
      be.table s := by
    unfold takeDns
    have hr : be.table (if owned then (rep, s)
        else recordBaseline be.toRouteBackend (be.dns s) rep s).2 = be.table s := by
      split
      · rfl
      · exact hrec _
    dsimp only
    generalize (if owned then (rep, s) else _ : ReconcileReport × σ) = r at hr ⊢
    split
    · exact hr
    split <;> exact (be.setDns_table _ _).trans hr
  have hreturn (b : List String) : be.table (returnDns be.toRouteBackend b rep s).2 =
      be.table s := by
    unfold returnDns
    dsimp only
    split
    · exact be.clearDnsBaseline_table s
    split
    · exact (be.clearDnsBaseline_table _).trans (be.setDns_table _ _)
    · exact be.setDns_table _ _
  unfold reconcileDns
  dsimp only
  split
  · exact htake _
  split
  · exact hreturn _
  · rfl

/-- Whatever fails, a pass strands no interface, and one that cannot read the table does
nothing at all. -/
theorem reconcile_unstranded (plan : RoutePlan) (s : σ) :
    Unstranded plan (be.table s) (be.table (reconcile be.toRouteBackend plan s).2) ∧
      (be.defaultRoutes s = none → (reconcile be.toRouteBackend plan s).2 = s ∧
        (reconcile be.toRouteBackend plan s).1.readFailed = true) := by
  unfold reconcile
  match hread : be.defaultRoutes s with
  | none => exact ⟨⟨fun r hr _ => hr, fun r hr => .inl hr, fun w _ hr => hr⟩, fun _ => ⟨rfl, rfl⟩⟩
  | some actual =>
    refine ⟨?_, by simp⟩
    dsimp only
    have hadd := addMissing_spec be actual plan.routes {}
      fun r hr => (be.read hread r).mp hr
    generalize addMissing be.toRouteBackend actual plan.routes {} s = added at hadd ⊢
    have hdel := removeStale_spec be plan added.1.2 actual added.1.1 added.2
    generalize removeStale be.toRouteBackend plan added.1.2 actual added.1.1 added.2 = removed
      at hdel ⊢
    rw [reconcileDns_table]
    refine ⟨fun r hr hm => ?_, fun r hr => ?_, fun w hw => ?_⟩
    · exact hdel.kept r (hadd.kept hr) (.inl hm)
    · exact hadd.only r (hdel.only hr)
    · rintro ⟨r, hr, hri⟩
      by_cases hi : w.ifname ∈ added.1.2
      · -- a planned route of the interface is in, and no planned route is deleted
        obtain ⟨v, hv, hvi, hvt⟩ := hadd.installed _ hi
        refine ⟨v.route, hdel.kept _ hvt (.inr (.inl ?_)), hvi⟩
        simpa [wanted] using ⟨v, hv, rfl⟩
      · have hfind : (plan.find r.ifname).isSome = true := by
          unfold RoutePlan.find
          rw [List.find?_isSome]
          exact ⟨w, hw, by simp [hri]⟩
        refine ⟨r, hdel.kept r (hadd.kept hr) (.inr (.inr ⟨hfind, ?_⟩)), hri⟩
        rw [hri]
        exact hi

end backend

/-- A table in memory, with the calls made to it counted. -/
structure RouteTable where
  routes : List DefaultRoute
  resolv : List String := []
  baseline : Option (List String) := none
  calls : ℕ := 0
  deriving DecidableEq

def RouteTable.call (t : RouteTable) (ok : Bool) (t' : RouteTable) : Result × RouteTable :=
  if ok then (.ok, { t' with calls := t.calls + 1 }) else (.error, { t with calls := t.calls + 1 })

/-- The abstract port in which the n-th call succeeds when `answers n` says so. -/
def flakyBackend (readable : Bool) (answers : ℕ → Bool) : AbstractBackend RouteTable where
  defaultRoutes t := if readable then some t.routes else none
  addDefault i g m _ t := t.call (answers t.calls) { t with routes := t.routes ++ [⟨i, g, m⟩] }
  delDefault i g m t := t.call (answers t.calls) { t with routes := t.routes.erase ⟨i, g, m⟩ }
  setDns d t := t.call (answers t.calls) { t with resolv := d }
  dns t := some t.resolv
  dnsBaseline t := t.baseline
  setDnsBaseline d t := t.call (answers t.calls) { t with baseline := some d }
  clearDnsBaseline t := t.call (answers t.calls) { t with baseline := none }
  table t := {r | r ∈ t.routes}
  read h r := by
    split at h
    · cases h; rfl
    · cases h
  add_kept i g m o t r hr := by
    unfold RouteTable.call
    split
    · exact List.mem_append_left _ hr
    · exact hr
  add_only i g m o t r hr := by
    unfold RouteTable.call at hr
    split at hr
    · rcases List.mem_append.mp hr with hr | hr
      · exact .inr hr
      · exact .inl (List.mem_singleton.mp hr)
    · exact .inr hr
  add_done i g m o t h := by
    unfold RouteTable.call at h ⊢
    split at h
    · rename_i hok
      rw [if_pos hok]
      exact List.mem_append_right _ (List.mem_singleton.mpr rfl)
    · simp at h
  del_kept i g m t r hr hne := by
    unfold RouteTable.call
    split
    · exact (List.mem_erase_of_ne hne).mpr hr
    · exact hr
  del_only i g m t r hr := by
    unfold RouteTable.call at hr
    split at hr
    · exact List.mem_of_mem_erase hr
    · exact hr
  setDns_table d t := by unfold RouteTable.call; split <;> rfl
  setDnsBaseline_table d t := by unfold RouteTable.call; split <;> rfl
  clearDnsBaseline_table t := by unfold RouteTable.call; split <;> rfl

-- The planned route is refused: the stale one on its interface stays, the other one goes.
example : (reconcile (flakyBackend true (· ≠ 0)).toRouteBackend
    { routes := [{ ifname := "wlan0", gateway := "10.0.0.1", metric := 10 }]
      managedIfnames := ["eth0", "wlan0"] }
    { routes := [⟨"wlan0", "10.0.0.1", 200⟩, ⟨"eth0", "10.1.0.1", 0⟩] }).2.routes =
      [⟨"wlan0", "10.0.0.1", 200⟩] := by decide

end Machino.Net
