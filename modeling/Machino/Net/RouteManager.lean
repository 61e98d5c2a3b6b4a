import Machino.Core.Result
import Machino.Net.RoutePlan

namespace Machino.Net

/-- A default route; interface, gateway and metric are its identity. -/
structure DefaultRoute where
  ifname : String
  gateway : String
  metric : Int
  deriving DecidableEq, Repr

def RouteIntent.route (w : RouteIntent) : DefaultRoute := ⟨w.ifname, w.gateway, w.metric⟩

/-- The port to the routing table and the resolver file. A read answers `none` when it fails. -/
structure RouteBackend (σ : Type*) where
  defaultRoutes : σ → Option (List DefaultRoute)
  addDefault : String → String → Int → Bool → σ → Result × σ
  delDefault : String → String → Int → σ → Result × σ
  setDns : List String → σ → Result × σ
  dns : σ → Option (List String)
  dnsBaseline : σ → Option (List String)
  setDnsBaseline : List String → σ → Result × σ
  clearDnsBaseline : σ → Result × σ

structure ReconcileReport where
  added : ℕ := 0
  removed : ℕ := 0
  dnsWritten : Bool := false
  dnsRestored : Bool := false
  readFailed : Bool := false
  error : String := ""
  deriving DecidableEq, Repr

/-- Only the first failure is reported. -/
def ReconcileReport.fail (rep : ReconcileReport) (error : String) : ReconcileReport :=
  if rep.error = "" then { rep with error := error } else rep

/-- What a report says of the resolver file: written, and given back. -/
def ReconcileReport.dnsFlags (rep : ReconcileReport) : Bool × Bool :=
  (rep.dnsWritten, rep.dnsRestored)

@[simp] theorem ReconcileReport.dnsFlags_fail (rep : ReconcileReport) (error : String) :
    (rep.fail error).dnsFlags = rep.dnsFlags := by
  unfold fail
  split <;> rfl

def managed (plan : RoutePlan) (ifname : String) : Bool := ifname ∈ plan.managedIfnames

/-- Whether a route read before the pass is the wanted one. -/
def present (actual : List DefaultRoute) (w : RouteIntent) : Bool := w.route ∈ actual

def wanted (plan : RoutePlan) (have_ : DefaultRoute) : Bool :=
  plan.routes.any fun w => have_ = w.route

section backend

variable {σ : Type*} (be : RouteBackend σ)

/-- The first half of a pass, with the interfaces whose planned route is known to be in. -/
def addMissing (actual : List DefaultRoute) :
    List RouteIntent → ReconcileReport → σ → (ReconcileReport × List String) × σ
  | [], rep, s => ((rep, []), s)
  | w :: ws, rep, s =>
    if present actual w then
      let r := addMissing actual ws rep s
      ((r.1.1, w.ifname :: r.1.2), r.2)
    else
      let rc := be.addDefault w.ifname w.gateway w.metric w.onlink s
      if rc.1.isOk then
        let r := addMissing actual ws { rep with added := rep.added + 1 } rc.2
        ((r.1.1, w.ifname :: r.1.2), r.2)
      else
        addMissing actual ws
          (rep.fail ("the default route through " ++ w.ifname ++ " could not be installed")) rc.2

/-- The second half: what is ours and not wanted goes, unless it is the only way out. -/
def removeStale (plan : RoutePlan) (installed : List String) :
    List DefaultRoute → ReconcileReport → σ → ReconcileReport × σ
  | [], rep, s => (rep, s)
  | r :: rs, rep, s =>
    if !managed plan r.ifname then removeStale plan installed rs rep s
    else if wanted plan r then removeStale plan installed rs rep s
    else if (plan.find r.ifname).isSome ∧ r.ifname ∉ installed then
      removeStale plan installed rs rep s
    else
      let rc := be.delDefault r.ifname r.gateway r.metric s
      if rc.1.isOk then
        removeStale plan installed rs { rep with removed := rep.removed + 1 } rc.2
      else
        removeStale plan installed rs
          (rep.fail ("a stale default route through " ++ r.ifname ++ " could not be removed")) rc.2

/-- What was there before is recorded, even when it could not be read: then as nothing. -/
def recordBaseline (current : Option (List String)) (rep : ReconcileReport) (s : σ) :
    ReconcileReport × σ :=
  let rc := be.setDnsBaseline (current.getD []) s
  if rc.1.isOk then (rep, rc.2)
  else (rep.fail ("the previous resolvers could not be recorded - " ++
    "they will not be restored automatically"), rc.2)

/-- The resolver file is taken over for the plan's owner. -/
def takeDns (plan : RoutePlan) (owned : Bool) (rep : ReconcileReport) (s : σ) :
    ReconcileReport × σ :=
  let current := be.dns s
  let r := if owned then (rep, s) else recordBaseline be current rep s
  if current = some plan.dns then r
  else
    let rc := be.setDns plan.dns r.2
    if rc.1.isOk then ({ r.1 with dnsWritten := true }, rc.2)
    else (r.1.fail "the resolver configuration could not be written", rc.2)

/-- Nobody owns the resolver file any more: what was there before comes back. -/
def returnDns (baseline : List String) (rep : ReconcileReport) (s : σ) : ReconcileReport × σ :=
  if baseline = [] then
    ({ rep with error := "the previous resolvers are unknown - the file keeps the " ++
        "ones the last uplink supplied until a lease renews" }, (be.clearDnsBaseline s).2)
  else
    let rc := be.setDns baseline s
    if rc.1.isOk then ({ rep with dnsRestored := true }, (be.clearDnsBaseline rc.2).2)
    else (rep.fail "the previous resolver configuration could not be restored", rc.2)

def reconcileDns (plan : RoutePlan) (rep : ReconcileReport) (s : σ) : ReconcileReport × σ :=
  let baseline := be.dnsBaseline s
  if plan.dnsOwner ≠ "" ∧ plan.dns ≠ [] then takeDns be plan baseline.isSome rep s
  else
    match baseline with
    | some baseline => returnDns be baseline rep s
    | none => (rep, s)

def reconcile (plan : RoutePlan) (s : σ) : ReconcileReport × σ :=
  match be.defaultRoutes s with
  | none => ({ readFailed := true
               error := "the routing table could not be read - nothing was changed" }, s)
  | some actual =>
    let added := addMissing be actual plan.routes {} s
    let removed := removeStale be plan added.1.2 actual added.1.1 added.2
    reconcileDns be plan removed.1 removed.2

theorem dnsFlags_addMissing (actual : List DefaultRoute) (ws : List RouteIntent)
    (rep : ReconcileReport) (s : σ) :
    (addMissing be actual ws rep s).1.1.dnsFlags = rep.dnsFlags := by
  induction ws generalizing rep s with
  | nil => rfl
  | cons w ws ih =>
    unfold addMissing
    split
    · exact ih rep s
    dsimp only
    split
    · exact ih _ _
    · exact (ih _ _).trans (rep.dnsFlags_fail _)

theorem dnsFlags_removeStale (plan : RoutePlan) (installed : List String)
    (rs : List DefaultRoute) (rep : ReconcileReport) (s : σ) :
    (removeStale be plan installed rs rep s).1.dnsFlags = rep.dnsFlags := by
  induction rs generalizing rep s with
  | nil => rfl
  | cons r rs ih =>
    unfold removeStale
    split
    · exact ih rep s
    split
    · exact ih rep s
    split
    · exact ih rep s
    dsimp only
    split
    · exact ih _ _
    · exact (ih _ _).trans (rep.dnsFlags_fail _)

end backend

/-- What the kernel acknowledges a route message with. -/
inductive Errno where
  | none | eexist | esrch | enoent | other
  deriving DecidableEq, Repr

inductive RouteMsg where
  | newRoute | delRoute
  deriving DecidableEq, Repr

/-- The system calls behind the route calls: the interface and address lookups, the route file
and the exchange of one message for its acknowledgement. `κ` is the kernel's state. -/
structure Netlink (κ : Type*) where
  nameToIndex : String → ℕ
  inetPton : String → Bool
  procNetRoute : κ → Option (List DefaultRoute)
  exchange : RouteMsg → DefaultRoute → κ → Errno × κ

/-- The resolver file and the file that records what it held before. -/
structure ResolverFiles (ρ : Type*) where
  setDns : List String → ρ → Result × ρ
  dns : ρ → Option (List String)
  dnsBaseline : ρ → Option (List String)
  setDnsBaseline : List String → ρ → Result × ρ
  clearDnsBaseline : ρ → Result × ρ

variable {κ ρ : Type*}

/-- A message that finds the table already saying what it asks for is taken as done. -/
def ackResult : RouteMsg → Errno → Result
  | _, .none => .ok
  | .newRoute, .eexist => .ok
  | .delRoute, .esrch | .delRoute, .enoent => .ok
  | _, _ => .error

def routeOp (nl : Netlink κ) (msg : RouteMsg) (ifname gateway : String) (metric : Int) (k : κ) :
    Result × κ :=
  if nl.nameToIndex ifname = 0 then (.error, k)
  else if gateway ≠ "" ∧ !nl.inetPton gateway then (.error, k)
  else
    let prio := if metric < 0 then 0 else metric
    let r := nl.exchange msg ⟨ifname, gateway, prio⟩ k
    (ackResult msg r.1, r.2)

/-- The Linux port: routes through the kernel, servers through the files. -/
def linuxRouteBackend (nl : Netlink κ) (files : ResolverFiles ρ) : RouteBackend (κ × ρ) where
  defaultRoutes s := nl.procNetRoute s.1
  addDefault i g m _ s :=
    let r := routeOp nl .newRoute i g m s.1
    (r.1, r.2, s.2)
  delDefault i g m s :=
    let r := routeOp nl .delRoute i g m s.1
    (r.1, r.2, s.2)
  setDns d s :=
    let r := files.setDns d s.2
    (r.1, s.1, r.2)
  dns s := files.dns s.2
  dnsBaseline s := files.dnsBaseline s.2
  setDnsBaseline d s :=
    let r := files.setDnsBaseline d s.2
    (r.1, s.1, r.2)
  clearDnsBaseline s :=
    let r := files.clearDnsBaseline s.2
    (r.1, s.1, r.2)

section backend

variable (nl : Netlink κ) (files : ResolverFiles ρ)

/-- The route half of a pass does not touch the resolver files. -/
theorem addMissing_files (actual : List DefaultRoute) (ws : List RouteIntent)
    (rep : ReconcileReport) (s : κ × ρ) :
    (addMissing (linuxRouteBackend nl files) actual ws rep s).2.2 = s.2 := by
  induction ws generalizing rep s with
  | nil => rfl
  | cons w ws ih =>
    unfold addMissing
    split
    · exact ih rep s
    dsimp only
    split
    · exact ih _ _
    · exact ih _ _

theorem removeStale_files (plan : RoutePlan) (installed : List String) (rs : List DefaultRoute)
    (rep : ReconcileReport) (s : κ × ρ) :
    (removeStale (linuxRouteBackend nl files) plan installed rs rep s).2.2 = s.2 := by
  induction rs generalizing rep s with
  | nil => rfl
  | cons r rs ih =>
    unfold removeStale
    split
    · exact ih rep s
    split
    · exact ih rep s
    split
    · exact ih rep s
    dsimp only
    split
    · exact ih _ _
    · exact ih _ _

/-- Nor does the resolver half touch the kernel. -/
theorem reconcileDns_kernel (plan : RoutePlan) (rep : ReconcileReport) (s : κ × ρ) :
    (reconcileDns (linuxRouteBackend nl files) plan rep s).2.1 = s.1 := by
  have hrec (b : Option (List String)) :
      (recordBaseline (linuxRouteBackend nl files) b rep s).2.1 = s.1 := by
    unfold recordBaseline
    dsimp only
    split <;> rfl
  unfold reconcileDns
  dsimp only
  split
  · unfold takeDns
    generalize (linuxRouteBackend nl files).dns s = current at hrec ⊢
    have hr : (if ((linuxRouteBackend nl files).dnsBaseline s).isSome then (rep, s)
        else recordBaseline (linuxRouteBackend nl files) current rep s).2.1 = s.1 := by
      split
      · rfl
      · exact hrec current
    dsimp only
    generalize (if ((linuxRouteBackend nl files).dnsBaseline s).isSome then (rep, s)
      else _ : ReconcileReport × κ × ρ) = r at hr ⊢
    split
    · exact hr
    split <;> exact hr
  · split
    · unfold returnDns
      dsimp only
      split
      · rfl
      split <;> rfl
    · rfl

end backend

end Machino.Net
