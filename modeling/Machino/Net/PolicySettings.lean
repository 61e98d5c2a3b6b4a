import Machino.Basic.Lines
import Machino.Cellular.Settings
import Machino.Core.ConfigFile
import Machino.Net.RoutePlan
import Machino.Usb.UsbConfig

namespace Machino.Net

open Cellular (KeyValues boolText boolOf)
open Lines

/-- One entry of the order. -/
def orderEntry : Json → Except String String
  | .string s => if s = [] then .error "order entries must be non-empty strings"
      else .ok (String.ofList s)
  | _ => .error "order entries must be non-empty strings"

def getOrder (body : Json) (out : List String) : Except String (List String) :=
  match body.get "order" with
  | none => .ok out
  | some (.array items) => do
    let v ← items.mapM orderEntry
    ensure (v ≠ []) "order must not be empty"
    return v
  | some _ => .error "order must be an array"

def policyFromJson (body : Json) (p : ManagerPolicy) : Except String ManagerPolicy := do
  ensure body.isObject "body must be an object"
  rejectUnknown body ["order", "autoFailover", "returnToPreferred", "pinned", "pinnedUplink"]
  let order ← getOrder body p.order
  let autoFailover ← getBool body "autoFailover" p.autoFailover
  let returnToPreferred ← getBool body "returnToPreferred" p.returnToPreferred
  let pinned ← getBool body "pinned" p.pinned
  let pinnedUplink ← getString body "pinnedUplink" p.pinnedUplink.toList 64
  ensure (!(pinned && pinnedUplink = []))
    "pinned needs pinnedUplink -- pinning to nothing would silently disable the network"
  return { p with
    order, autoFailover, returnToPreferred, pinned, pinnedUplink := String.ofList pinnedUplink }

/-- The entries with a comma in front of each but the first. -/
def orderText (order : List String) : Text :=
  order.foldl (fun text s => (if text ≠ [] then text ++ [','] else text) ++ s.toList) []

def policyToSettings (p : ManagerPolicy) : KeyValues :=
  [("network.order", orderText p.order),
    ("network.auto_failover", boolText p.autoFailover),
    ("network.return_to_preferred", boolText p.returnToPreferred),
    ("network.pinned", boolText p.pinned),
    ("network.pinned_uplink", p.pinnedUplink.toList)]

def isSpace (c : Char) : Bool := c = ' '

/-- The pieces between commas without the spaces around them; blank ones do not count. -/
def orderList (v : Text) : List Text :=
  ((split ',' v).map (Text.strip isSpace isSpace)).filter (· ≠ [])

def policySetting (next : ManagerPolicy) (kv : String × Text) : Except String ManagerPolicy :=
  let v := kv.2
  match kv.1 with
  | "network.order" =>
    if v = [] then .ok next
    else if orderList v = [] then .error "network.order lists no usable entry"
    else .ok { next with order := (orderList v).map String.ofList }
  | "network.auto_failover" => .ok { next with autoFailover := boolOf v }
  | "network.return_to_preferred" => .ok { next with returnToPreferred := boolOf v }
  | "network.pinned" => .ok { next with pinned := boolOf v }
  | "network.pinned_uplink" => .ok { next with pinnedUplink := String.ofList v }
  | _ => .ok next

def policyFromSettings (kvs : KeyValues) (p : ManagerPolicy) : Except String ManagerPolicy := do
  let next ← kvs.foldlM policySetting p
  ensure (!(next.pinned && next.pinnedUplink = "")) "network.pinned needs network.pinned_uplink"
  return next

/-- An entry that stands in a list as it is. -/
def Listable (id : String) : Prop :=
  ',' ∉ id.toList ∧ id.toList.head? ≠ some ' ' ∧ id.toList.getLast? ≠ some ' '

instance (id : String) : Decidable (Listable id) := inferInstanceAs (Decidable (_ ∧ _))

theorem listable_of_mem_orderList {v item : Text} (h : item ∈ orderList v) :
    Listable (String.ofList item) := by
  obtain ⟨hmem, -⟩ := List.mem_filter.mp h
  obtain ⟨piece, hpiece, rfl⟩ := List.mem_map.mp hmem
  obtain ⟨hhead, hlast⟩ := Text.strip_ends (p := isSpace) (q := isSpace) piece
  have hsub : (Text.strip isSpace isSpace piece).Sublist piece :=
    (List.rdropWhile_prefix _ _).sublist.trans (List.dropWhile_suffix _).sublist
  unfold Listable
  rw [String.toList_ofList]
  refine ⟨fun hc => not_mem_of_mem_split hpiece (hsub.subset hc), fun hc => ?_, fun hc => ?_⟩
  · exact absurd (hhead _ hc) (by decide)
  · exact absurd (hlast _ hc) (by decide)

theorem Listable.strip {id : String} (h : Listable id) :
    Text.strip isSpace isSpace id.toList = id.toList := by
  obtain ⟨-, hhead, hlast⟩ := h
  refine Text.strip_eq_self (fun c hc => decide_eq_false ?_) fun c hc => decide_eq_false ?_
  · rintro rfl
    exact hhead hc
  · rintro rfl
    exact hlast hc

theorem orderText_cons {id : String} (h : id.toList ≠ []) (order : List String) :
    orderText (id :: order) = id.toList ++ order.flatMap fun s => ',' :: s.toList := by
  have hfold : ∀ text : Text, text ≠ [] →
      order.foldl (fun text s => (if text ≠ [] then text ++ [','] else text) ++ s.toList) text =
        text ++ order.flatMap fun s => ',' :: s.toList := by
    induction order with
    | nil => simp
    | cons s order ih =>
      intro text htext
      rw [List.foldl_cons, ih _ (by simp [htext]), if_pos htext]
      simp
  exact hfold _ h

theorem split_orderText {order : List String} (h : ∀ id ∈ order, id.toList ≠ [])
    (hcomma : ∀ id ∈ order, ',' ∉ id.toList) :
    split ',' (orderText order) = order.map String.toList := by
  cases order with
  | nil => rfl
  | cons id order =>
    rw [orderText_cons (h id List.mem_cons_self)]
    induction order generalizing id with
    | nil =>
      rw [List.flatMap_nil, List.append_nil]
      exact split_of_not_mem (hcomma id List.mem_cons_self) (h id List.mem_cons_self)
    | cons id' order ih =>
      have hrest := ih id' (fun i hi => h i (List.mem_cons_of_mem _ hi))
        fun i hi => hcomma i (List.mem_cons_of_mem _ hi)
      rw [List.flatMap_cons, List.cons_append, split_append_cons (hcomma id List.mem_cons_self),
        hrest]
      rfl

/-- An order of such entries is read back as it was. -/
theorem orderList_orderText {order : List String} (h : ∀ id ∈ order, id.toList ≠ [])
    (hlist : ∀ id ∈ order, Listable id) :
    orderList (orderText order) = order.map String.toList := by
  have hstrip : (order.map String.toList).map (Text.strip isSpace isSpace) =
      order.map String.toList := by
    rw [List.map_map]
    exact List.map_congr_left fun id hid => (hlist id hid).strip
  unfold orderList
  rw [split_orderText h fun id hid => (hlist id hid).1, hstrip, List.filter_eq_self]
  intro item hitem
  obtain ⟨id, hid, rfl⟩ := List.mem_map.mp hitem
  exact decide_eq_true (h id hid)

/-- What holds of every policy in force. -/
structure PolicyInForce (p : ManagerPolicy) : Prop where
  order_ne : p.order ≠ []
  entry_ne : ∀ id ∈ p.order, id.toList ≠ []
  failoverDebounceMs : p.failoverDebounceMs = 3000
  returnDebounceMs : p.returnDebounceMs = 15000
  pinned : p.pinned = true → p.pinnedUplink ≠ ""

/-- A policy that a file gives at the start, or that changes over the interface lead to from
there. -/
inductive Reached : ManagerPolicy → Prop
  | stored {kvs : KeyValues} {p : ManagerPolicy} :
      policyFromSettings kvs {} = .ok p → Reached p
  | patched {body : Json} {p n : ManagerPolicy} :
      Reached p → policyFromJson body p = .ok n → Reached n

theorem policySetting_keeps {p n : ManagerPolicy} {kv : String × Text}
    (h : policySetting p kv = .ok n)
    (hp : p.order ≠ [] ∧ (∀ id ∈ p.order, id.toList ≠ []) ∧ p.failoverDebounceMs = 3000 ∧
      p.returnDebounceMs = 15000) :
    n.order ≠ [] ∧ (∀ id ∈ n.order, id.toList ≠ []) ∧ n.failoverDebounceMs = 3000 ∧
      n.returnDebounceMs = 15000 := by
  unfold policySetting at h
  dsimp only at h
  split at h
  · split at h
    · exact Except.ok.inj h ▸ hp
    · split at h
      · exact absurd h (by simp)
      · rename_i hne
        obtain rfl := Except.ok.inj h
        refine ⟨by simpa using hne, fun id hid => ?_, hp.2.2⟩
        obtain ⟨item, hitem, rfl⟩ := List.mem_map.mp hid
        rw [String.toList_ofList]
        simpa using (List.mem_filter.mp hitem).2
  all_goals exact Except.ok.inj h ▸ hp

def entryName : Json → Option String
  | .string s => some (String.ofList s)
  | _ => none

/-- The order that is asked for, or the one there is. -/
def requestedOrder (body : Json) (p : ManagerPolicy) : List String :=
  match body.get "order" with
  | some (.array items) => items.filterMap entryName
  | _ => p.order

theorem mapM_orderEntry {items : List Json} {v : List String} (h : items.mapM orderEntry = .ok v) :
    v = items.filterMap entryName ∧ ∀ id ∈ v, id.toList ≠ [] := by
  induction items generalizing v with
  | nil =>
    obtain rfl := Except.ok.inj h
    exact ⟨rfl, List.forall_mem_nil _⟩
  | cons item items ih =>
    rw [List.mapM_cons] at h
    obtain ⟨id, hid, h⟩ := except_bind_eq_ok.mp h
    obtain ⟨ids, hids, h⟩ := except_bind_eq_ok.mp h
    obtain rfl := Except.ok.inj h
    obtain ⟨hv, hne⟩ := ih hids
    unfold orderEntry at hid
    split at hid
    · split at hid
      · exact absurd hid (by simp)
      · rename_i hs
        obtain rfl := Except.ok.inj hid
        refine ⟨congrArg (_ :: ·) hv, List.forall_mem_cons.mpr ⟨?_, hne⟩⟩
        rwa [String.toList_ofList]
    · exact absurd hid (by simp)

theorem getOrder_ok {body : Json} {p : ManagerPolicy} {v : List String}
    (h : getOrder body p.order = .ok v) :
    v = requestedOrder body p ∧ (v = p.order ∨ v ≠ [] ∧ ∀ id ∈ v, id.toList ≠ []) := by
  unfold getOrder at h
  unfold requestedOrder
  split at h
  · rename_i hnone
    obtain rfl := Except.ok.inj h
    rw [hnone]
    exact ⟨rfl, .inl rfl⟩
  · rename_i items hitems
    obtain ⟨w, hw, h⟩ := except_bind_eq_ok.mp h
    obtain ⟨hensure, h⟩ := except_check_eq_ok.mp h
    obtain rfl := Except.ok.inj h
    obtain ⟨hv, hne⟩ := mapM_orderEntry hw
    rw [hitems]
    exact ⟨hv, .inr ⟨of_decide_eq_true (ensure_eq_ok.mp hensure), hne⟩⟩
  · exact absurd h (by simp)

/-- What an accepted change leaves. -/
theorem policyFromJson_ok {body : Json} {p n : ManagerPolicy} (h : policyFromJson body p = .ok n) :
    getOrder body p.order = .ok n.order ∧ n.failoverDebounceMs = p.failoverDebounceMs ∧
      n.returnDebounceMs = p.returnDebounceMs ∧ (n.pinned = true → n.pinnedUplink ≠ "") := by
  unfold policyFromJson at h
  simp only [except_bind_eq_ok, ensure_eq_ok] at h
  obtain ⟨-, -, -, -, order, horder, failover, -, back, -, pinned, -, pin, -, -, hpin, h⟩ := h
  obtain rfl := Except.ok.inj h
  refine ⟨horder, rfl, rfl, fun hpinned hnil => ?_⟩
  have hpinned : pinned = true := hpinned
  have hnil : pin = [] := by
    have hlist := congrArg String.toList hnil
    rwa [String.toList_ofList] at hlist
  rw [hpinned, hnil] at hpin
  exact absurd hpin (by decide)

theorem Reached.inForce {p : ManagerPolicy} (h : Reached p) : PolicyInForce p := by
  induction h with
  | stored h =>
    unfold policyFromSettings at h
    obtain ⟨n, hn, h⟩ := except_bind_eq_ok.mp h
    obtain ⟨hpin, h⟩ := except_check_eq_ok.mp h
    obtain rfl := Except.ok.inj h
    obtain ⟨hne, hentry, hfail, hback⟩ := foldlM_keeps
      (fun s t kv _ hs ht => policySetting_keeps ht hs) ⟨by decide, by decide, rfl, rfl⟩ hn
    refine ⟨hne, hentry, hfail, hback, fun hpinned hnil => ?_⟩
    rw [ensure_eq_ok, hpinned, hnil] at hpin
    exact absurd hpin (by decide)
  | patched _ h ih =>
    obtain ⟨horder, hfail, hback, hpin⟩ := policyFromJson_ok h
    obtain ⟨-, hsame | ⟨hne, hentry⟩⟩ := getOrder_ok horder
    · exact ⟨hsame ▸ ih.order_ne, hsame ▸ ih.entry_ne, hfail.trans ih.failoverDebounceMs,
        hback.trans ih.returnDebounceMs, hpin⟩
    · exact ⟨hne, hentry, hfail.trans ih.failoverDebounceMs, hback.trans ih.returnDebounceMs, hpin⟩

section keys

variable (p : ManagerPolicy) (on : Bool)

theorem policySetting_autoFailover :
    policySetting p ("network.auto_failover", boolText on) = .ok { p with autoFailover := on } := by
  cases on <;> rfl

theorem policySetting_returnToPreferred :
    policySetting p ("network.return_to_preferred", boolText on) =
      .ok { p with returnToPreferred := on } := by
  cases on <;> rfl

theorem policySetting_pinned :
    policySetting p ("network.pinned", boolText on) = .ok { p with pinned := on } := by
  cases on <;> rfl

theorem policySetting_pinnedUplink (id : String) :
    policySetting p ("network.pinned_uplink", id.toList) = .ok { p with pinnedUplink := id } := by
  have hset (v : Text) : policySetting p ("network.pinned_uplink", v) =
      .ok { p with pinnedUplink := String.ofList v } := rfl
  rw [hset, String.ofList_toList]

/-- A given order goes through the list it is written as. -/
theorem policySetting_order {v : Text} (hv : v ≠ []) :
    policySetting p ("network.order", v) =
      if orderList v = [] then .error "network.order lists no usable entry"
      else .ok { p with order := (orderList v).map String.ofList } := if_neg hv

end keys

/-- What a start makes of the order that is written for the policy. -/
theorem policyFromSettings_toSettings {p q : ManagerPolicy} (h : PolicyInForce p)
    (hq : policyFromSettings (policyToSettings p) {} = .ok q) :
    q.order = (orderList (orderText p.order)).map String.ofList := by
  obtain ⟨id, order, horder⟩ := List.exists_cons_of_ne_nil h.order_ne
  have htext : orderText p.order ≠ [] := by
    have hid : id.toList ≠ [] := h.entry_ne id (horder ▸ List.mem_cons_self)
    rw [horder, orderText_cons hid]
    simp [hid]
  unfold policyFromSettings at hq
  obtain ⟨n, hn, hq⟩ := except_bind_eq_ok.mp hq
  obtain ⟨-, hq⟩ := except_check_eq_ok.mp hq
  obtain rfl := Except.ok.inj hq
  unfold policyToSettings at hn
  rw [List.foldlM_cons] at hn
  obtain ⟨m, hm, hn⟩ := except_bind_eq_ok.mp hn
  have hfirst : m.order = (orderList (orderText p.order)).map String.ofList := by
    rw [policySetting_order _ htext] at hm
    split at hm
    · exact absurd hm (by simp)
    · exact Except.ok.inj hm ▸ rfl
  simp only [List.foldlM_cons, List.foldlM_nil, policySetting_autoFailover,
    policySetting_returnToPreferred, policySetting_pinned, policySetting_pinnedUplink, bind,
    Except.bind] at hn
  rw [← Except.ok.inj hn]
  exact hfirst

/-- The policy is read back exactly where each entry of its order is listable. -/
theorem policyFromSettings_iff {p : ManagerPolicy} (h : PolicyInForce p) :
    policyFromSettings (policyToSettings p) {} = .ok p ↔ ∀ id ∈ p.order, Listable id := by
  constructor
  · intro hp id hid
    rw [policyFromSettings_toSettings h hp] at hid
    obtain ⟨item, hitem, rfl⟩ := List.mem_map.mp hid
    exact listable_of_mem_orderList hitem
  · intro hlist
    have horder := orderList_orderText h.entry_ne hlist
    have hback : (p.order.map String.toList).map String.ofList = p.order := by
      rw [List.map_map]
      exact (List.map_congr_left fun id _ => String.ofList_toList).trans (List.map_id _)
    have hread (m : ManagerPolicy) : policySetting m ("network.order", orderText p.order) =
        .ok { m with order := p.order } := by
      have hne : orderList (orderText p.order) ≠ [] := by
        rw [horder]
        simpa using h.order_ne
      have htext : orderText p.order ≠ [] := by
        intro hnil
        rw [hnil] at hne
        exact hne rfl
      rw [policySetting_order _ htext, if_neg hne, horder, hback]
    have hpin : (!(p.pinned && p.pinnedUplink = "")) = true := by
      cases hpinned : p.pinned with
      | false => rfl
      | true => simp [h.pinned hpinned]
    have hwindows : ({ p with failoverDebounceMs := 3000, returnDebounceMs := 15000 } :
        ManagerPolicy) = p := by
      rw [← h.failoverDebounceMs, ← h.returnDebounceMs]
    have hfold : (policyToSettings p).foldlM policySetting {} = .ok p := by
      unfold policyToSettings
      simp only [List.foldlM_cons, List.foldlM_nil, hread, policySetting_autoFailover,
        policySetting_returnToPreferred, policySetting_pinned, policySetting_pinnedUplink, bind,
        Except.bind]
      exact congrArg Except.ok hwindows
    unfold policyFromSettings
    rw [hfold]
    exact except_check_eq_ok.mpr ⟨ensure_eq_ok.mpr hpin, rfl⟩

open Cellular Usb

theorem cellularSetting_dataLink_ok (c : CellularConfig) {v : Text}
    (h : (dataLinkKindParse v).isSome = true) :
    cellularSetting c ("cellular.data_link", v) = .ok { c with dataLink := v } := by
  obtain ⟨kind, hkind⟩ := Option.isSome_iff_exists.mp h
  have hset : cellularSetting c ("cellular.data_link", v) =
      (Cellular.word (dataLinkKindParse v)
        ("cellular.data_link is not ecm or ppp: " ++ String.ofList v)).map
          fun _ => { c with dataLink := v } := rfl
  rw [hset, hkind]
  rfl

/-- Every cellular configuration with a data link there is is read back, but for whether it runs. -/
theorem cellularConfigFromSettings_toSettings_self {c : CellularConfig}
    (h : (dataLinkKindParse c.dataLink).isSome = true) :
    cellularConfigFromSettings (cellularConfigToSettings c) {} = .ok { c with enabled := false } := by
  have hset {d : CellularConfig} {kv : String × Text} {d' : CellularConfig}
      (hkey : Cellular.keySetting d kv = .ok d') (hne : kv.2 ≠ []) :
      cellularSetting d kv = .ok d' := by
    unfold Cellular.keySetting at hkey
    rwa [if_neg hne] at hkey
  have hbool (b : Bool) : boolText b ≠ [] := by cases b <;> decide
  have hpdp (t : PdpType) : pdpTypeName t ≠ [] := by cases t <;> decide
  have hauth (a : AuthMode) : authModeName a ≠ [] := by cases a <;> decide
  have hnet (m : NetMode) : netModeName m ≠ [] := by cases m <;> decide
  have hprofile (p : BandProfile) : bandProfileName p ≠ [] := by cases p <;> decide
  have hapn (d : CellularConfig) (v : Text) :
      cellularSetting d ("cellular.apn", v) = .ok { d with apn := v } := rfl
  have huser (d : CellularConfig) (v : Text) :
      cellularSetting d ("cellular.username", v) = .ok { d with username := v } := rfl
  have hpass (d : CellularConfig) (v : Text) :
      cellularSetting d ("cellular.password", v) = .ok { d with password := v } := rfl
  have hdial (d : CellularConfig) (v : Text) :
      cellularSetting d ("cellular.dial", v) = .ok { d with dial := v } := rfl
  have hpin (d : CellularConfig) (v : Text) :
      cellularSetting d ("cellular.sim_pin", v) = .ok { d with simPin := v } := rfl
  unfold cellularConfigFromSettings cellularConfigToSettings
  simp only [List.foldlM_cons, List.foldlM_nil, hapn, huser, hpass, hdial, hpin,
    cellularSetting_dataLink_ok _ h, fun d t => hset (keySetting_pdp d t) (hpdp t),
    fun d a => hset (keySetting_auth d a) (hauth a),
    fun d m => hset (keySetting_netMode d m) (hnet m),
    fun d p => hset (keySetting_bandProfile d p) (hprofile p),
    fun d b => hset (keySetting_autoConnect d b) (hbool b),
    fun d b => hset (keySetting_nicMode d b) (hbool b),
    fun d m => hset (keySetting_bandMask d m) (maskHex_ne_nil m), bind, Except.bind]
  rfl

/-- What the file is given for the three configurations is read back as them. -/
def SurvivesRestart (u : UsbConfig) (c : CellularConfig) (p : ManagerPolicy) : Prop :=
  usbConfigFromSettings (usbConfigToSettings u) {} = .ok u ∧
    cellularConfigFromSettings (cellularConfigToSettings c) {} = .ok { c with enabled := false } ∧
    policyFromSettings (policyToSettings p) {} = .ok p

/-- What the interface accepts survives exactly where the order that is asked for, or else the one
there is, holds listable entries only; that is for the policy, the other two always do. -/
theorem survivesRestart_iff {usbBody : Json} {usb u : UsbConfig}
    (_ : usbConfigFromJson usbBody usb = .ok u) {cellBody : Json} {cell c : CellularConfig}
    (hc : cellularConfigFromJson cellBody cell = .ok c) {body : Json} {p n : ManagerPolicy}
    (hp : Reached p) (hn : policyFromJson body p = .ok n) :
    SurvivesRestart u c n ↔ ∀ id ∈ requestedOrder body p, Listable id := by
  obtain ⟨horder, -⟩ := policyFromJson_ok hn
  have hpolicy : policyFromSettings (policyToSettings n) {} = .ok n ↔
      ∀ id ∈ requestedOrder body p, Listable id := by
    rw [policyFromSettings_iff (Reached.patched hp hn).inForce, (getOrder_ok horder).1]
  have hcell := cellularConfigFromSettings_toSettings_self (cellularConfigFromJson_ok.mp hc).link
  exact ⟨fun h => hpolicy.mp h.2.2,
    fun h => ⟨usbConfigFromSettings_toSettings u {}, hcell, hpolicy.mpr h⟩⟩

theorem reached_default : Reached {} := @Reached.stored [] _ rfl

/-- Two uplinks in one entry of the order. -/
def twoInOne : Json := .object [("order".toList, .array [.string "wifi,ethernet".toList])]

def lteFirst : Json :=
  .object [("order".toList, .array [.string "lte1".toList, .string "ethernet".toList])]

theorem survivesRestart_lteFirst :
    SurvivesRestart {} {} { order := ["lte1", "ethernet"] } :=
  (@survivesRestart_iff (.object []) {} {} rfl (.object []) {} {} rfl lteFirst {}
    { order := ["lte1", "ethernet"] } reached_default rfl).mpr (by decide)

theorem not_survivesRestart_comma :
    ¬ ∀ (usbBody : Json) (usb u : UsbConfig), usbConfigFromJson usbBody usb = .ok u →
      ∀ (cellBody : Json) (cell c : CellularConfig), cellularConfigFromJson cellBody cell = .ok c →
      ∀ (body : Json) (p n : ManagerPolicy), Reached p → policyFromJson body p = .ok n →
        SurvivesRestart u c n := by
  intro h
  have hread := (h (.object []) {} {} rfl (.object []) {} {} rfl twoInOne {}
    { order := ["wifi,ethernet"] } reached_default rfl).2.2
  exact absurd hread (by decide)

end Machino.Net
