import Machino.Net.RoutePlan

namespace Machino.Net

open ConnectivityManager

/-- No usable uplink stands before `u` in the order. -/
def RankedFirst (uplinks : List Uplink) (policy : ManagerPolicy) (probe : Probe) (u : Uplink) :
    Prop :=
  ∃ r, policyRank (u.status probe) policy.toUplinkPolicy = some r ∧
    ∀ v ∈ uplinks, usable probe v = true →
      ∀ s, policyRank (v.status probe) policy.toUplinkPolicy = some s → r ≤ s

/-- What is picked when nothing is active stands first in the order. -/
def SelectsFirst (uplinks : List Uplink) (policy : ManagerPolicy) (probe : Probe) : Prop :=
  ∀ u, select uplinks policy probe none = some u → RankedFirst uplinks policy probe u

/-- Where the first entry of the order that fits a usable uplink is the name of a type and no
usable one's id, the first usable uplink of that type is not listed under its own id behind another
usable uplink. -/
def Unovertaken (uplinks : List Uplink) (policy : ManagerPolicy) (probe : Probe) : Prop :=
  ∀ before sel after, policy.order = before ++ sel :: after →
    (∀ v ∈ uplinks, usable probe v = true →
      v.id ∉ before ∧ uplinkTypeName v.type ∉ before ∧ v.id ≠ sel) →
    ∀ u, uplinks.find? (fun u => uplinkTypeName u.type = sel && usable probe u) = some u →
      ∀ j, policy.order.findIdx? (· = u.id) = some j →
        ∀ v ∈ uplinks, usable probe v = true →
          ∀ s, policyRank (v.status probe) policy.toUplinkPolicy = some s → j ≤ s

variable {uplinks : List Uplink} {policy : ManagerPolicy} {probe : Probe} {u : Uplink}

theorem matching_eq_none {ok : Uplink → Bool} {sel : String} :
    matching uplinks ok sel = none ↔
      ∀ v ∈ uplinks, ok v = true → v.id ≠ sel ∧ uplinkTypeName v.type ≠ sel := by
  unfold matching
  cases hid : uplinks.find? fun u => u.id = sel && ok u with
  | some u =>
    have hu := List.find?_some hid
    simp only [Bool.and_eq_true, decide_eq_true_eq] at hu
    simp only [reduceCtorEq, false_iff]
    exact fun h => (h u (List.mem_of_find?_eq_some hid) hu.2).1 hu.1
  | none =>
    rw [List.find?_eq_none] at hid
    rw [List.find?_eq_none]
    refine forall₂_congr fun v hv => ?_
    have hne := hid v hv
    grind

theorem findIdx?_append_of_notMem {before after : List String} {s : String} (h : s ∉ before) :
    (before ++ after).findIdx? (· = s) =
      (after.findIdx? (· = s)).map (· + before.length) := by
  rw [List.findIdx?_append, List.findIdx?_eq_none_iff.mpr]
  · rfl
  · intro x hx
    have hne : x ≠ s := by
      rintro rfl
      exact h hx
    simpa using hne

theorem policyRank_of_id {v : UplinkStatus} {p : UplinkPolicy} {j : ℕ}
    (h : p.order.findIdx? (· = v.id) = some j) : policyRank v p = some j := by
  unfold policyRank
  rw [h]

theorem policyRank_of_type {v : UplinkStatus} {p : UplinkPolicy}
    (h : p.order.findIdx? (· = v.id) = none) :
    policyRank v p = p.order.findIdx? (· = uplinkTypeName v.type) := by
  unfold policyRank
  rw [h]

/-- Neither the id nor the type of an uplink stands in a beginning of the order: it ranks behind. -/
theorem length_le_policyRank {before after : List String} {v : UplinkStatus} {p : UplinkPolicy}
    (hp : p.order = before ++ after) (hid : v.id ∉ before)
    (htype : uplinkTypeName v.type ∉ before) {r : ℕ} (hr : policyRank v p = some r) :
    before.length ≤ r := by
  unfold policyRank at hr
  rw [hp, findIdx?_append_of_notMem hid, findIdx?_append_of_notMem htype] at hr
  split at hr
  · rename_i i hi
    obtain ⟨k, -, rfl⟩ := Option.map_eq_some_iff.mp hi
    cases hr
    exact Nat.le_add_left _ _
  · obtain ⟨k, -, rfl⟩ := Option.map_eq_some_iff.mp hr
    exact Nat.le_add_left _ _

theorem findIdx?_first {before after : List String} {s : String} (h : s ∉ before) :
    (before ++ s :: after).findIdx? (· = s) = some before.length := by
  rw [findIdx?_append_of_notMem h, List.findIdx?_cons]
  simp

theorem select_none_eq_some (hp : policy.pinned = false) :
    select uplinks policy probe none = some u ↔
      ∃ before sel after, policy.order = before ++ sel :: after ∧
        matching uplinks (usable probe) sel = some u ∧
        ∀ s ∈ before, matching uplinks (usable probe) s = none := by
  unfold select
  rw [if_neg (by simp [hp])]
  exact List.findSome?_eq_some_iff

/-- With nothing active, the manager's walk along the order and the plan's ranking agree on the
most preferred usable uplink just when no entry for a type is met before the uplink's own. -/
theorem selectsFirst_iff (hp : policy.pinned = false) :
    SelectsFirst uplinks policy probe ↔ Unovertaken uplinks policy probe := by
  constructor
  · intro h before sel after horder hfree u hfind j hj v hv hok s hs
    have hselect : select uplinks policy probe none = some u := by
      refine (select_none_eq_some hp).mpr ⟨before, sel, after, horder, ?_, fun s hs => ?_⟩
      · unfold matching
        rw [List.find?_eq_none.mpr]
        · exact hfind
        · intro w hw hsel
          simp only [Bool.and_eq_true, decide_eq_true_eq] at hsel
          exact (hfree w hw hsel.2).2.2 hsel.1
      · refine matching_eq_none.mpr fun w hw hok => ?_
        have hw := hfree w hw hok
        exact ⟨fun he => hw.1 (he ▸ hs), fun he => hw.2.1 (he ▸ hs)⟩
    obtain ⟨r, hr, hmin⟩ := h u hselect
    have hrank : policyRank (u.status probe) policy.toUplinkPolicy = some j := policyRank_of_id hj
    rw [hrank] at hr
    cases hr
    exact hmin v hv hok s hs
  · intro h u hselect
    obtain ⟨before, sel, after, horder, hmatch, hnone⟩ := (select_none_eq_some hp).mp hselect
    have hfree (v : Uplink) (hv : v ∈ uplinks) (hok : usable probe v = true) :
        v.id ∉ before ∧ uplinkTypeName v.type ∉ before :=
      ⟨fun hm => (matching_eq_none.mp (hnone _ hm) v hv hok).1 rfl,
        fun hm => (matching_eq_none.mp (hnone _ hm) v hv hok).2 rfl⟩
    have hbehind (v : Uplink) (hv : v ∈ uplinks) (hok : usable probe v = true) (s : ℕ)
        (hs : policyRank (v.status probe) policy.toUplinkPolicy = some s) : before.length ≤ s :=
      length_le_policyRank horder (hfree v hv hok).1 (hfree v hv hok).2 hs
    unfold matching at hmatch
    split at hmatch
    · -- the entry is the id of the uplink, which ranks there
      rename_i hid
      cases hmatch
      have hu := List.find?_some hid
      simp only [Bool.and_eq_true, decide_eq_true_eq] at hu
      obtain ⟨rfl, hok⟩ := hu
      have hmem := List.mem_of_find?_eq_some hid
      refine ⟨before.length, policyRank_of_id ?_, hbehind⟩
      rw [horder]
      exact findIdx?_first (hfree u hmem hok).1
    · rename_i hid
      have hu := List.find?_some hmatch
      simp only [Bool.and_eq_true, decide_eq_true_eq] at hu
      have hmem := List.mem_of_find?_eq_some hmatch
      cases hj : policy.order.findIdx? (· = u.id) with
      | some j =>
        -- the entry names its type, and its own one further down is what ranks it
        refine ⟨j, policyRank_of_id hj,
          h before sel after horder (fun v hv hok => ?_) u hmatch j hj⟩
        refine ⟨(hfree v hv hok).1, (hfree v hv hok).2, fun he => ?_⟩
        have hno := List.find?_eq_none.mp hid v hv
        simp [he, hok] at hno
      | none =>
        obtain ⟨rfl, hok⟩ := hu
        refine ⟨before.length, (policyRank_of_type hj).trans ?_, hbehind⟩
        rw [horder]
        exact findIdx?_first (hfree u hmem hok).2

/-- Two modems that carry traffic, the one that is registered first listed by its id. -/
def modems : List Uplink := [⟨0, "lte2", .cellular⟩, ⟨1, "lte1", .cellular⟩]

def carrying : Probe where
  state _ := .connected
  hasInternet _ := true

theorem selectsFirst_iff_modems :
    SelectsFirst modems { order := ["lte2", "cellular"] } carrying ↔
      Unovertaken modems { order := ["lte2", "cellular"] } carrying :=
  selectsFirst_iff rfl

/-- Any modem before the named one: the walk picks the named one for its type, which the ranking
puts behind the other. -/
theorem not_selectsFirst_modems :
    ¬ ∀ uplinks policy probe, policy.pinned = false → SelectsFirst uplinks policy probe := by
  intro h
  obtain ⟨r, hr, hmin⟩ := h modems { order := ["cellular", "lte2"] } carrying rfl
    ⟨0, "lte2", .cellular⟩ (by decide)
  have hrank : r ≤ 0 := hmin ⟨1, "lte1", .cellular⟩ (by decide) rfl 0 (by decide)
  obtain rfl : 1 = r := Option.some.inj (Eq.trans (by decide) hr)
  exact absurd hrank (by decide)

end Machino.Net
