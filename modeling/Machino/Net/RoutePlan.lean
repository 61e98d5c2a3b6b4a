import Mathlib.Data.List.Sort

namespace Machino.Net

inductive UplinkType where
  | ethernet | wifi | cellular
  deriving DecidableEq, Repr

inductive LinkState where
  | absent | down | connecting | connected | failed
  deriving DecidableEq, Repr

def uplinkTypeName : UplinkType → String
  | .ethernet => "ethernet"
  | .wifi => "wifi"
  | .cellular => "cellular"

/-- What a plan reads of an interface's configuration. -/
structure NetworkInfo where
  ifname : String := ""
  ipv4 : String := ""
  gateway : String := ""
  dns : String := ""
  dnsIsOwn : Bool := false
  deriving DecidableEq, Repr

structure UplinkPolicy where
  order : List String := ["ethernet", "wifi", "cellular"]
  deriving DecidableEq, Repr

structure UplinkStatus where
  id : String
  type : UplinkType := .ethernet
  state : LinkState := .absent
  info : NetworkInfo := {}
  deriving DecidableEq, Repr

structure RouteIntent where
  uplinkId : String := ""
  ifname : String
  gateway : String := ""
  metric : Int := 0
  active : Bool := false
  onlink : Bool := false
  deriving DecidableEq, Repr

structure RoutePlan where
  routes : List RouteIntent := []
  managedIfnames : List String := []
  dns : List String := []
  dnsOwner : String := ""
  deriving DecidableEq, Repr

def RoutePlan.find (plan : RoutePlan) (ifname : String) : Option RouteIntent :=
  plan.routes.find? fun r => r.ifname = ifname

def kActiveRouteMetric : Int := 10
def kRouteMetricStep : Int := 100
def kUnrankedRouteMetric : Int := 1000

/-- The scan of `is_dotted_quad`; a final dot stands for the end of the text. -/
def isDottedQuadFrom (octets digits value : ℕ) : List Char → Bool
  | [] => octets = 4
  | c :: cs =>
    if c.isDigit then
      let value := value * 10 + (c.toNat - '0'.toNat)
      if 3 < digits + 1 then false
      else if 255 < value then false
      else isDottedQuadFrom octets (digits + 1) value cs
    else if c = '.' then
      if digits = 0 then false else isDottedQuadFrom (octets + 1) 0 0 cs
    else false

def isDottedQuad (s : List Char) : Bool := isDottedQuadFrom 0 0 0 (s ++ ['.'])

/-- The scan of `split_dns`; a final blank stands for the end of the field. -/
def splitDnsFrom (out : List String) (cur : List Char) : List Char → List String
  | [] => out
  | c :: cs =>
    if c = ' ' ∨ c = '\t' ∨ c = ',' then
      if cur = [] then splitDnsFrom out cur cs
      else if isDottedQuad cur ∧ String.ofList cur ∉ out then
        splitDnsFrom (out ++ [String.ofList cur]) [] cs
      else splitDnsFrom out [] cs
    else splitDnsFrom out (cur ++ [c]) cs

def splitDns (field : String) : List String := splitDnsFrom [] [] (field.toList ++ [' '])

/-- The position of an uplink in the policy: by its id, else by the name of its type. -/
def policyRank (u : UplinkStatus) (policy : UplinkPolicy) : Option ℕ :=
  match policy.order.findIdx? (· = u.id) with
  | some i => some i
  | none => policy.order.findIdx? (· = uplinkTypeName u.type)

def managedIfnames : List UplinkStatus → List String → List String
  | [], names => names
  | u :: us, names =>
    if u.info.ifname = "" ∨ u.info.ifname ∈ names then managedIfnames us names
    else managedIfnames us (names ++ [u.info.ifname])

def routeMetric (active : Bool) (rank : Option ℕ) : Int :=
  if active then kActiveRouteMetric
  else match rank with
    | none => kUnrankedRouteMetric
    | some r => (r + 1) * kRouteMetricStep

/-- The route of one uplink: none without a name, a working link, an address, or a gateway
where the link needs one. -/
def planRoute (policy : UplinkPolicy) (activeId : String) (u : UplinkStatus) :
    Option RouteIntent :=
  if u.info.ifname = "" then none
  else if u.state ≠ .connected ∨ u.info.ipv4 = "" then none
  else if u.info.gateway = "" ∧ u.type ≠ .cellular then none
  else
    let active := activeId ≠ "" && u.id = activeId
    some {
      uplinkId := u.id
      ifname := u.info.ifname
      gateway := u.info.gateway
      active := active
      onlink := u.type = .cellular && u.info.gateway ≠ ""
      metric := routeMetric active (policyRank u policy) }

/-- Most preferred first, ties broken on the id. -/
def RouteIntent.before (a b : RouteIntent) : Prop :=
  if a.metric ≠ b.metric then a.metric < b.metric else a.uplinkId ≤ b.uplinkId

instance : DecidableRel RouteIntent.before := fun a b => by
  unfold RouteIntent.before
  infer_instance

def planDns (uplinks : List UplinkStatus) (activeId : String) : List String × String :=
  match uplinks.find? fun u => activeId ≠ "" && u.id = activeId with
  | none => ([], "")
  | some u =>
    if !u.info.dnsIsOwn then ([], "")
    else
      let servers := splitDns u.info.dns
      if servers = [] then ([], "") else (servers, u.id)

def planRoutes (uplinks : List UplinkStatus) (policy : UplinkPolicy) (activeId : String) :
    RoutePlan :=
  let dns := planDns uplinks activeId
  { routes := (uplinks.filterMap (planRoute policy activeId)).insertionSort RouteIntent.before
    managedIfnames := managedIfnames uplinks []
    dns := dns.1
    dnsOwner := dns.2 }

section plan

variable (uplinks : List UplinkStatus) (policy : UplinkPolicy) (activeId : String)

/-- `r` is the route that is planned for the uplink `u`. -/
structure Planned (u : UplinkStatus) (r : RouteIntent) : Prop where
  uplink : u ∈ uplinks
  route : r ∈ (planRoutes uplinks policy activeId).routes
  made : planRoute policy activeId u = some r

/-- The active route is below all others, a ranked uplink below an unranked one, and no two uplinks
have one metric. -/
def StrictlyOrdered : Prop :=
  ∀ u r u' r', Planned uplinks policy activeId u r → Planned uplinks policy activeId u' r' →
    u.id ≠ u'.id →
      (r.active = true → r.metric < r'.metric) ∧
      ((policyRank u policy).isSome = true → policyRank u' policy = none →
        r.metric < r'.metric) ∧
      r.metric ≠ r'.metric

/-- The rank of an uplink that has one of the first nine places of the policy. -/
def LowRank (rank : Option ℕ) : Prop := ∃ i < 9, rank = some i

/-- What the metrics say: the active route is below all others; of the others, one with a low rank
is below the unranked ones, and two that are ranked are ordered as the policy has them, where those
of one place, like those without one, share a metric. -/
structure Ordered (u : UplinkStatus) (r : RouteIntent) (u' : UplinkStatus) (r' : RouteIntent) :
    Prop where
  active : r.active = true → u.id ≠ u'.id → r.metric < r'.metric
  ranked : r'.active = false → LowRank (policyRank u policy) → policyRank u' policy = none →
    r.metric < r'.metric
  order : r.active = false → r'.active = false → ∀ i i', policyRank u policy = some i →
    policyRank u' policy = some i' → (r.metric < r'.metric ↔ i < i')
  shared : r.active = false → r'.active = false → policyRank u policy = policyRank u' policy →
    r.metric = r'.metric

end plan

section routes

variable {uplinks : List UplinkStatus} {policy : UplinkPolicy} {activeId : String}

theorem mem_planRoutes {r : RouteIntent} :
    r ∈ (planRoutes uplinks policy activeId).routes ↔
      ∃ u ∈ uplinks, planRoute policy activeId u = some r := by
  unfold planRoutes
  dsimp only
  rw [List.mem_insertionSort, List.mem_filterMap]

/-- What a route has of its uplink. -/
theorem planRoute_eq_some {u : UplinkStatus} {r : RouteIntent}
    (h : planRoute policy activeId u = some r) :
    r.uplinkId = u.id ∧ r.active = (activeId ≠ "" && u.id = activeId) ∧
      r.metric = routeMetric r.active (policyRank u policy) := by
  unfold planRoute at h
  split at h
  · cases h
  split at h
  · cases h
  split at h
  · cases h
  obtain rfl := Option.some.inj h
  exact ⟨rfl, rfl, rfl⟩

theorem routeMetric_some (i : ℕ) : routeMetric false (some i) = (i + 1) * 100 := rfl

theorem active_lt_routeMetric (rank : Option ℕ) :
    kActiveRouteMetric < routeMetric false rank := by
  cases rank with
  | none => decide
  | some i =>
    rw [routeMetric_some, kActiveRouteMetric]
    omega

/-- At most one uplink is the active one. -/
theorem active_eq_false {u u' : UplinkStatus} {r r' : RouteIntent}
    (h : planRoute policy activeId u = some r) (h' : planRoute policy activeId u' = some r')
    (hactive : r.active = true) (hne : u.id ≠ u'.id) : r'.active = false := by
  rw [(planRoute_eq_some h).2.1, Bool.and_eq_true, decide_eq_true_eq, decide_eq_true_eq] at hactive
  rw [(planRoute_eq_some h').2.1, Bool.and_eq_false_iff, decide_eq_false_iff_not,
    decide_eq_false_iff_not]
  exact .inr fun heq => hne (hactive.2.trans heq.symm)

theorem ordered_planRoute {u u' : UplinkStatus} {r r' : RouteIntent}
    (h : planRoute policy activeId u = some r) (h' : planRoute policy activeId u' = some r') :
    Ordered policy u r u' r' := by
  have hm := (planRoute_eq_some h).2.2
  have hm' := (planRoute_eq_some h').2.2
  constructor
  · intro hactive hne
    rw [hm, hm', hactive, active_eq_false h h' hactive hne]
    exact active_lt_routeMetric _
  · -- the tenth place has the metric of the unranked ones
    rintro hinactive ⟨i, hi, hrank⟩ hrank'
    rw [hm, hm', hinactive, hrank']
    cases r.active with
    | true => exact active_lt_routeMetric none
    | false =>
      rw [hrank, routeMetric_some]
      change ((i : ℤ) + 1) * 100 < 1000
      omega
  · intro hinactive hinactive' i i' hrank hrank'
    rw [hm, hm', hinactive, hinactive', hrank, hrank', routeMetric_some, routeMetric_some]
    omega
  · intro hinactive hinactive' hrank
    rw [hm, hm', hinactive, hinactive', hrank]

/-- Any two planned routes are ordered by their metrics. -/
theorem ordered_planRoutes (uplinks : List UplinkStatus) (policy : UplinkPolicy)
    (activeId : String) :
    (∀ r ∈ (planRoutes uplinks policy activeId).routes,
        ∃ u, Planned uplinks policy activeId u r) ∧
      ∀ u r u' r', Planned uplinks policy activeId u r → Planned uplinks policy activeId u' r' →
        Ordered policy u r u' r' := by
  refine ⟨fun r hr => ?_, fun u r u' r' h h' => ordered_planRoute h.made h'.made⟩
  obtain ⟨u, hu, hmade⟩ := mem_planRoutes.mp hr
  exact ⟨u, hu, hr, hmade⟩

/-- A wireless uplink with an address. -/
def stationUplink (id : String) : UplinkStatus where
  id := id
  type := .wifi
  state := .connected
  info := { ifname := id, ipv4 := "10.0.0.2", gateway := "10.0.0.1" }

/-- Two uplinks of one type have the place of their type. -/
theorem not_strictlyOrdered :
    ¬ ∀ uplinks policy activeId, StrictlyOrdered uplinks policy activeId := by
  intro h
  have hroute (id : String) (hid : id = "wlan0" ∨ id = "wlan1") :
      Planned [stationUplink "wlan0", stationUplink "wlan1"] {} "" (stationUplink id)
        { uplinkId := id, ifname := id, gateway := "10.0.0.1", metric := 200 } := by
    rcases hid with rfl | rfl
    · exact ⟨by decide, mem_planRoutes.mpr ⟨stationUplink "wlan0", by decide, by decide⟩, by decide⟩
    · exact ⟨by decide, mem_planRoutes.mpr ⟨stationUplink "wlan1", by decide, by decide⟩, by decide⟩
  have hordered := h _ _ _ _ _ _ _ (hroute "wlan0" (.inl rfl)) (hroute "wlan1" (.inr rfl))
  exact (hordered (by decide)).2.2 rfl

end routes

/-- The policy with what the manager reads of it besides the order. -/
structure ManagerPolicy extends UplinkPolicy where
  autoFailover : Bool := true
  returnToPreferred : Bool := true
  failoverDebounceMs : UInt32 := 3000
  returnDebounceMs : UInt32 := 15000
  pinned : Bool := false
  pinnedUplink : String := ""
  deriving DecidableEq, Repr

/-- An uplink as it is registered; `handle` tells apart what may share an id. -/
structure Uplink where
  handle : ℕ
  id : String
  type : UplinkType
  deriving DecidableEq, Repr

/-- What the uplinks answer when they are asked. -/
structure Probe where
  state : Uplink → LinkState
  hasInternet : Uplink → Bool
  info : Uplink → NetworkInfo := fun _ => {}

def Uplink.status (probe : Probe) (u : Uplink) : UplinkStatus where
  id := u.id
  type := u.type
  state := probe.state u
  info := probe.info u

namespace ConnectivityManager

def usable (probe : Probe) (u : Uplink) : Bool :=
  probe.state u = .connected && probe.hasInternet u

/-- The uplink a selector names: by its id, else by the name of its type. -/
def matching (uplinks : List Uplink) (ok : Uplink → Bool) (sel : String) : Option Uplink :=
  match uplinks.find? fun u => u.id = sel && ok u with
  | some u => some u
  | none => uplinks.find? fun u => uplinkTypeName u.type = sel && ok u

def select (uplinks : List Uplink) (policy : ManagerPolicy) (probe : Probe)
    (current : Option Uplink) : Option Uplink :=
  if policy.pinned then matching uplinks (fun _ => true) policy.pinnedUplink
  else
    let best := policy.order.findSome? (matching uplinks (usable probe))
    match current with
    | none => best
    | some u =>
      if usable probe u then
        if !policy.returnToPreferred then some u else best.or (some u)
      else if !policy.autoFailover then some u
      else best

end ConnectivityManager

/-- The active uplink, and the answer that serves its waiting period with its start. -/
structure ConnectivityManager where
  uplinks : List Uplink := []
  policy : ManagerPolicy := {}
  active : Option Uplink := none
  pending : Option Uplink := none
  pendingSinceMs : UInt32 := 0
  deriving DecidableEq, Repr

/-- Where a change of the path comes from and goes to, for those who are told. -/
structure PathChange where
  fromId : String
  toId : String
  deriving DecidableEq, Repr

namespace ConnectivityManager

def activeId (m : ConnectivityManager) : String := (m.active.map (·.id)).getD ""

/-- How long another answer has to stay: leaving what does not work is urgent. -/
def window (m : ConnectivityManager) (probe : Probe) (u : Uplink) : UInt32 :=
  if usable probe u then m.policy.returnDebounceMs else m.policy.failoverDebounceMs

/-- The waiting period of an answer, which starts with each new one. -/
def await (m : ConnectivityManager) (chosen : Option Uplink) (now : UInt32) :
    ConnectivityManager :=
  if m.pending ≠ chosen then { m with pending := chosen, pendingSinceMs := now } else m

/-- The waiting period is over. -/
def ready (m : ConnectivityManager) (window now : UInt32) : Bool :=
  window = 0 || window.toInt32 ≤ (now - m.pendingSinceMs).toInt32

/-- The answer becomes what is active, and a change is told. -/
def switchTo (m : ConnectivityManager) (chosen : Option Uplink) :
    Option PathChange × ConnectivityManager :=
  if chosen = m.active then (none, { m with pending := none })
  else
    let m' := { m with active := chosen, pending := none }
    (some ⟨m.activeId, m'.activeId⟩, m')

/-- The uplinks are asked to select one of them, and the active one again for its window. -/
def evaluate (now : Option UInt32) (probe later : Probe) (m : ConnectivityManager) :
    Option PathChange × ConnectivityManager :=
  let chosen := select m.uplinks m.policy probe m.active
  match now, m.active with
  | some now, some u =>
    if !m.policy.pinned ∧ chosen ≠ some u then
      let w := m.window later u
      let m := m.await chosen now
      if m.ready w now then m.switchTo chosen else (none, m)
    else m.switchTo chosen
  | none, _ | some _, none => m.switchTo chosen

end ConnectivityManager

end Machino.Net
