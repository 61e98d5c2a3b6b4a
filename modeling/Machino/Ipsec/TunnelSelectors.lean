import Machino.Basic.Cidr
import Machino.Core.Text

namespace Machino.Tunnel

open Cidr

/-- Four octets, the first one in front. -/
abbrev Addr := BitVec 32

inductive Source where
  | tsr | cp
  deriving DecidableEq

structure Route where
  net : Addr
  prefixLength : ℕ
  source : Source
  deriving DecidableEq

/-- A traffic selector; `family` is 4 or 6, and the addresses are those of a 4. -/
structure Ts where
  family : ℕ
  start : Addr
  stop : Addr

/-- A subnet that the gateway assigns. -/
structure CpSubnet where
  subnet : Addr
  subnetMask : Addr

structure ChildSa where
  remoteTs : Ts
  remoteTsList : List Ts

def ChildSa.selectors (c : ChildSa) : List Ts :=
  if c.remoteTsList = [] then [c.remoteTs] else c.remoteTsList

def childRemoteCoversRange (c : ChildSa) (lo hi : Addr) : Bool :=
  c.selectors.any fun ts => ts.family = 4 && decide (ts.start ≤ lo) && decide (hi ≤ ts.stop)

def tsRangeToCidr (ts : Ts) : Option (Addr × ℕ) :=
  if ts.family ≠ 4 then none
  else if ts.stop < ts.start then none
  else
    let span := ts.stop - ts.start
    if span &&& (span + 1#32) ≠ 0#32 then none
    else if ts.start &&& span ≠ 0#32 then none
    else some (ts.start, countDown span.toNat 32)

/-- The selectors that are blocks, as far as there is room, and whether one is everything. -/
def collectTs (cap : ℕ) : List Ts → List Route × Bool → List Route × Bool
  | [], acc => acc
  | ts :: rest, (out, full) =>
    if out.length < cap then
      match tsRangeToCidr ts with
      | none => collectTs cap rest (out, full)
      | some (net, p) =>
        if p = 0 then collectTs cap rest (out, true)
        else collectTs cap rest (out ++ [⟨net, p, .tsr⟩], full)
    else (out, full)

/-- The subnets that lie within one selector, as far as there is room. -/
def collectCp (c : ChildSa) (cap : ℕ) : List CpSubnet → List Route → List Route
  | [], out => out
  | s :: rest, out =>
    if out.length < cap then
      let p := leadingOnes s.subnetMask 32
      let base := s.subnet &&& s.subnetMask
      let bcast := base ||| ~~~s.subnetMask
      if p = 0 then collectCp c cap rest out
      else if childRemoteCoversRange c base bcast then
        collectCp c cap rest (out ++ [⟨base, p, .cp⟩])
      else collectCp c cap rest out
    else out

def collectRoutes (c : ChildSa) (cp : Option (List CpSubnet)) (cap : ℕ) : List Route × Bool :=
  let (out, full) := collectTs cap c.selectors ([], false)
  (collectCp c cap (cp.getD []) out, full)

def Ts.Contains (ts : Ts) (x : Addr) : Prop := ts.family = 4 ∧ ts.start ≤ x ∧ x ≤ ts.stop

def Route.Catches (r : Route) (x : Addr) : Prop := Covers r.net r.prefixLength x

/-- A selector is turned into a block if and only if it is that block. -/
theorem tsRangeToCidr_eq_some_iff (ts : Ts) (net : Addr) (p : ℕ) :
    tsRangeToCidr ts = some (net, p) ↔ ts.family = 4 ∧ p ≤ 32 ∧ Clean net p ∧
      ∀ x, Covers net p x ↔ ts.start ≤ x ∧ x ≤ ts.stop := by
  unfold tsRangeToCidr
  by_cases hfam : ts.family = 4
  swap
  · simp [hfam]
  rw [if_neg (not_not.mpr hfam)]
  by_cases hord : ts.stop < ts.start
  · rw [if_pos hord]
    refine iff_of_false nofun fun ⟨_, _, _, hall⟩ => ?_
    have hnet := (hall net).mp rfl
    rw [BitVec.le_def, BitVec.le_def] at hnet
    rw [BitVec.lt_def] at hord
    omega
  rw [if_neg hord, range_eq_block_iff (BitVec.not_lt.mp hord) net p]
  dsimp only
  by_cases hones : (ts.stop - ts.start) &&& (ts.stop - ts.start + 1#32) = 0#32
  swap
  · rw [if_pos hones]
    refine iff_of_false nofun fun ⟨_, _, hp, hsize, _⟩ => hones ?_
    exact (and_add_one_eq_zero_iff _).mpr ⟨32 - p, Nat.sub_le _ _, hsize⟩
  rw [if_neg (not_not.mpr hones)]
  obtain ⟨k, hk, hsize⟩ := (and_add_one_eq_zero_iff _).mp hones
  have halign : ts.start &&& (ts.stop - ts.start) = 0#32 ↔ 2 ^ k ∣ ts.start.toNat := by
    have hspan : (ts.stop - ts.start).toNat = 2 ^ k - 1 := by omega
    rw [← BitVec.toNat_inj, BitVec.toNat_and, hspan, Nat.and_two_pow_sub_one_eq_mod,
      BitVec.toNat_ofNat, Nat.zero_mod, Nat.dvd_iff_mod_eq_zero]
  have hcount : countDown (ts.stop - ts.start).toNat 32 = 32 - k := by
    rw [show (ts.stop - ts.start).toNat = 2 ^ k - 1 by omega, countDown_ones]
  have hsame : ts.family = 4 ∧ net = ts.start ∧ p ≤ 32 ∧
      (ts.stop - ts.start).toNat + 1 = 2 ^ (32 - p) ∧ 2 ^ (32 - p) ∣ ts.start.toNat ↔
      net = ts.start ∧ p = 32 - k ∧ 2 ^ k ∣ ts.start.toNat := by
    rw [hsize]
    constructor
    · rintro ⟨_, hnet, hp, hpow, hdvd⟩
      have hkp := Nat.pow_right_injective (Nat.le_refl 2) hpow
      exact ⟨hnet, by omega, hkp ▸ hdvd⟩
    · rintro ⟨hnet, rfl, hdvd⟩
      rw [show 32 - (32 - k) = k by omega]
      exact ⟨hfam, hnet, by omega, rfl, hdvd⟩
  rw [hsame]
  by_cases hdvd : 2 ^ k ∣ ts.start.toNat
  · rw [if_neg (not_not.mpr (halign.mpr hdvd)), hcount]
    simp only [Option.some.injEq, Prod.mk.injEq, hdvd, and_true]
    exact and_congr eq_comm eq_comm
  · rw [if_pos (fun h => hdvd (halign.mp h))]
    exact iff_of_false nofun fun h => hdvd h.2.2

theorem collectTs_mem {cap : ℕ} {l : List Ts} {out : List Route} {full : Bool} {r : Route}
    (h : r ∈ (collectTs cap l (out, full)).1) :
    r ∈ out ∨ ∃ ts ∈ l, tsRangeToCidr ts = some (r.net, r.prefixLength) ∧ r.prefixLength ≠ 0 := by
  induction l generalizing out full with
  | nil => exact .inl h
  | cons ts rest ih =>
    have hrest {out' : List Route} {full' : Bool}
        (h' : r ∈ (collectTs cap rest (out', full')).1) (hout : r ∈ out' → r ∈ out ∨
          ∃ ts' ∈ ts :: rest, tsRangeToCidr ts' = some (r.net, r.prefixLength) ∧
            r.prefixLength ≠ 0) : r ∈ out ∨ ∃ ts' ∈ ts :: rest,
          tsRangeToCidr ts' = some (r.net, r.prefixLength) ∧ r.prefixLength ≠ 0 := by
      rcases ih h' with hr | ⟨ts', hts, hblock⟩
      · exact hout hr
      · exact .inr ⟨ts', List.mem_cons_of_mem _ hts, hblock⟩
    rw [collectTs] at h
    split_ifs at h
    · split at h
      · exact hrest h .inl
      · rename_i net p hcidr
        split_ifs at h with hp
        · exact hrest h .inl
        · refine hrest h fun hr => ?_
          rcases List.mem_append.mp hr with hr | hr
          · exact .inl hr
          · rw [List.mem_singleton.mp hr]
            exact .inr ⟨ts, List.mem_cons_self, hcidr, hp⟩
    · exact .inl h

/-- With room for all of them, no block is left out, and one that is everything is noticed. -/
theorem collectTs_all {cap : ℕ} {l : List Ts} {out : List Route} {full : Bool}
    (hcap : out.length + l.length ≤ cap) :
    (∀ r ∈ out, r ∈ (collectTs cap l (out, full)).1) ∧
    (∀ ts ∈ l, ∀ net p, tsRangeToCidr ts = some (net, p) → p ≠ 0 →
      ⟨net, p, .tsr⟩ ∈ (collectTs cap l (out, full)).1) ∧
    ((collectTs cap l (out, full)).2 = true ↔
      full = true ∨ ∃ ts ∈ l, ∃ net, tsRangeToCidr ts = some (net, 0)) := by
  induction l generalizing out full with
  | nil => simp [collectTs]
  | cons ts rest ih =>
    rw [List.length_cons] at hcap
    rw [collectTs, if_pos (by omega)]
    cases hcidr : tsRangeToCidr ts with
    | none =>
      dsimp only
      obtain ⟨hkeep, hblocks, hfull⟩ := @ih out full (by omega)
      refine ⟨hkeep, List.forall_mem_cons.mpr ⟨?_, hblocks⟩, ?_⟩
      · rw [hcidr]
        exact nofun
      · rw [hfull]
        simp [hcidr]
    | some np =>
      obtain ⟨net, p⟩ := np
      dsimp only
      by_cases hp : p = 0
      · rw [if_pos hp]
        obtain ⟨hkeep, hblocks, hfull⟩ := @ih out true (by omega)
        refine ⟨hkeep, List.forall_mem_cons.mpr ⟨?_, hblocks⟩, ?_⟩
        · rw [hcidr]
          rintro net' p' heq hp'
          cases heq
          exact absurd hp hp'
        · rw [hfull]
          simp [hcidr, hp]
      · rw [if_neg hp]
        have hlen : (out ++ [(⟨net, p, .tsr⟩ : Route)]).length + rest.length ≤ cap := by
          rw [List.length_append, List.length_singleton]
          omega
        obtain ⟨hkeep, hblocks, hfull⟩ := @ih _ full hlen
        refine ⟨fun r hr => hkeep r (List.mem_append_left _ hr),
          List.forall_mem_cons.mpr ⟨?_, hblocks⟩, ?_⟩
        · rw [hcidr]
          rintro net' p' heq hp'
          cases heq
          exact hkeep _ List.mem_concat_self
        · rw [hfull]
          simp [hcidr, hp]

theorem subset_collectCp {c : ChildSa} {cap : ℕ} {l : List CpSubnet} {out : List Route} {r : Route}
    (h : r ∈ out) : r ∈ collectCp c cap l out := by
  induction l generalizing out with
  | nil => exact h
  | cons s rest ih =>
    rw [collectCp]
    dsimp only
    split_ifs
    · exact ih h
    · exact ih (List.mem_append_left _ h)
    · exact ih h
    · exact h

theorem collectCp_mem {c : ChildSa} {cap : ℕ} {l : List CpSubnet} {out : List Route} {r : Route}
    (h : r ∈ collectCp c cap l out) : r ∈ out ∨ ∃ s ∈ l,
      r.net = s.subnet &&& s.subnetMask ∧ r.prefixLength = leadingOnes s.subnetMask 32 ∧
      r.prefixLength ≠ 0 ∧
      childRemoteCoversRange c r.net (r.net ||| ~~~s.subnetMask) = true := by
  induction l generalizing out with
  | nil => exact .inl h
  | cons s rest ih =>
    rw [collectCp] at h
    dsimp only at h
    split_ifs at h with hcap hp hcov
    · exact (ih h).imp_right fun ⟨s', hs, h'⟩ => ⟨s', List.mem_cons_of_mem _ hs, h'⟩
    · rcases ih h with hr | ⟨s', hs, h'⟩
      · rcases List.mem_append.mp hr with hr | hr
        · exact .inl hr
        · rw [List.mem_singleton.mp hr]
          exact .inr ⟨s, List.mem_cons_self, rfl, rfl, hp, hcov⟩
      · exact .inr ⟨s', List.mem_cons_of_mem _ hs, h'⟩
    · exact (ih h).imp_right fun ⟨s', hs, h'⟩ => ⟨s', List.mem_cons_of_mem _ hs, h'⟩
    · exact .inl h

theorem prefixLength_collectRoutes {c : ChildSa} {cp : Option (List CpSubnet)} {cap : ℕ} {r : Route}
    (h : r ∈ (collectRoutes c cp cap).1) : r.prefixLength ≤ 32 := by
  rcases collectCp_mem h with hr | ⟨s, _, _, hlen, _⟩
  · rcases collectTs_mem hr with hr | ⟨ts, _, hcidr, _⟩
    · exact absurd hr List.not_mem_nil
    · exact ((tsRangeToCidr_eq_some_iff ts _ _).mp hcidr).2.1
  · rw [hlen]
    exact leadingOnes_le _ _

theorem length_collectTs {cap : ℕ} {l : List Ts} {acc : List Route × Bool}
    (h : acc.1.length ≤ cap) : (collectTs cap l acc).1.length ≤ cap := by
  induction l generalizing acc with
  | nil => exact h
  | cons ts rest ih =>
    rw [collectTs]
    split_ifs with hlt
    · split
      · exact ih h
      · split_ifs
        · exact ih h
        · refine ih ?_
          rw [List.length_append, List.length_singleton]
          exact hlt
    · exact h

theorem length_collectCp {c : ChildSa} {cap : ℕ} {l : List CpSubnet} {out : List Route}
    (h : out.length ≤ cap) : (collectCp c cap l out).length ≤ cap := by
  induction l generalizing out with
  | nil => exact h
  | cons s rest ih =>
    rw [collectCp]
    dsimp only
    split_ifs with hlt
    · exact ih h
    · refine ih ?_
      rw [List.length_append, List.length_singleton]
      exact hlt
    · exact ih h
    · exact h

theorem length_collectRoutes (c : ChildSa) (cp : Option (List CpSubnet)) (cap : ℕ) :
    (collectRoutes c cp cap).1.length ≤ cap := length_collectCp (length_collectTs (Nat.zero_le cap))

theorem of_childRemoteCoversRange {c : ChildSa} {lo hi x : Addr}
    (h : childRemoteCoversRange c lo hi = true) (hlo : lo ≤ x) (hhi : x ≤ hi) :
    ∃ ts ∈ c.selectors, ts.Contains x := by
  obtain ⟨ts, hts, hin⟩ := List.any_eq_true.mp h
  simp only [Bool.and_eq_true, decide_eq_true_eq] at hin
  exact ⟨ts, hts, hin.1.1, BitVec.le_trans hin.1.2 hlo, BitVec.le_trans hhi hin.2⟩

/-- The masks that the gateway sends are those of prefixes. -/
def Prefixes (cp : Option (List CpSubnet)) : Prop :=
  ∀ s ∈ cp.getD [], ∃ p ≤ 32, s.subnetMask = mask 32 p

/-- What a route of the tunnel catches was negotiated, and what was negotiated as a block is caught;
the selector of all addresses is reported and never routed. -/
theorem collectRoutes_negotiated (c : ChildSa) {cp : Option (List CpSubnet)} (hcp : Prefixes cp)
    {cap : ℕ} (hcap : c.selectors.length ≤ cap) :
    (∀ r ∈ (collectRoutes c cp cap).1, r.prefixLength ≠ 0 ∧
      ∀ x, r.Catches x → ∃ ts ∈ c.selectors, ts.Contains x) ∧
    (∀ ts ∈ c.selectors, ∀ net p, p ≠ 0 → p ≤ 32 → Clean net p →
      (∀ x, Covers net p x ↔ ts.Contains x) →
        ∃ r ∈ (collectRoutes c cp cap).1, ∀ x, r.Catches x ↔ ts.Contains x) ∧
    ((collectRoutes c cp cap).2 = true ↔ ∃ ts ∈ c.selectors, ∀ x, ts.Contains x) := by
  have hall := @collectTs_all cap c.selectors [] false (by simpa using hcap)
  refine ⟨fun r hr => ?_, fun ts hts net p hp hp32 hclean hx => ?_, ?_⟩
  · rcases collectCp_mem hr with hr | ⟨s, hs, hnet, hlen, hp, hcov⟩
    · rcases collectTs_mem hr with hr | ⟨ts, hts, hcidr, hp⟩
      · exact absurd hr List.not_mem_nil
      · obtain ⟨hfam, -, -, hcov⟩ := (tsRangeToCidr_eq_some_iff ts _ _).mp hcidr
        exact ⟨hp, fun x hx => ⟨ts, hts, hfam, (hcov x).mp hx⟩⟩
    · obtain ⟨p, hp32, hmask⟩ := hcp s hs
      have hlen' : r.prefixLength = p := by
        rw [hlen, hmask, leadingOnes_mask hp32 (Nat.le_refl _)]
        omega
      have hclean : Clean r.net p := by
        rw [hnet, hmask]
        exact clean_and_mask _ _
      refine ⟨hp, fun x hx => ?_⟩
      have hx' : Covers r.net p x := hlen' ▸ hx
      have hb := covers_bounds hclean hx'
      rw [← hmask] at hb
      exact of_childRemoteCoversRange hcov hb.1 hb.2
  · have hfam : ts.family = 4 := ((hx net).mp rfl).1
    have hcidr := (tsRangeToCidr_eq_some_iff ts net p).mpr
      ⟨hfam, hp32, hclean, fun x => (hx x).trans ⟨And.right, fun h => ⟨hfam, h⟩⟩⟩
    exact ⟨_, subset_collectCp (hall.2.1 ts hts net p hcidr hp), hx⟩
  · show (collectTs cap c.selectors ([], false)).2 = true ↔ _
    rw [hall.2.2]
    simp only [Bool.false_eq_true, false_or]
    refine exists_congr fun ts => and_congr_right fun _ => ⟨?_, fun hx => ⟨0, ?_⟩⟩
    · rintro ⟨net, hcidr⟩ x
      obtain ⟨hfam, -, -, hcov⟩ := (tsRangeToCidr_eq_some_iff ts net 0).mp hcidr
      exact ⟨hfam, (hcov x).mp (covers_zero net x)⟩
    · refine (tsRangeToCidr_eq_some_iff ts 0 0).mpr ⟨(hx 0).1, Nat.zero_le _, ?_, fun x => ?_⟩
      · rw [clean_iff_dvd]
        exact dvd_zero _
      · exact iff_of_true (covers_zero 0 x) (hx x).2

/-- Two networks of the peer, the smaller one with an assigned subnet in it. -/
def twoNetworks : ChildSa where
  remoteTs := ⟨4, 0, 0⟩
  remoteTsList := [⟨4, 0x0a000000, 0x0affffff⟩, ⟨4, 0xc0a8b200, 0xc0a8b2ff⟩]

theorem collectRoutes_negotiated_twoNetworks :
    (collectRoutes twoNetworks (some [⟨0xc0a8b240, 0xffffffc0⟩]) 8).1 =
        [⟨0x0a000000, 8, .tsr⟩, ⟨0xc0a8b200, 24, .tsr⟩, ⟨0xc0a8b240, 26, .cp⟩] ∧
      ∃ ts ∈ twoNetworks.selectors, ts.Contains 0xc0a8b250 := by
  have hcp : Prefixes (some [⟨0xc0a8b240, 0xffffffc0⟩]) := by
    intro s hs
    rw [List.mem_singleton.mp hs]
    exact ⟨26, by decide, by decide⟩
  have hroutes : (collectRoutes twoNetworks (some [⟨0xc0a8b240, 0xffffffc0⟩]) 8).1 =
      [⟨0x0a000000, 8, .tsr⟩, ⟨0xc0a8b200, 24, .tsr⟩, ⟨0xc0a8b240, 26, .cp⟩] := by
    decide +kernel
  have hcatch : (⟨0xc0a8b240, 26, .cp⟩ : Route).Catches 0xc0a8b250 := by
    unfold Route.Catches
    decide
  refine ⟨hroutes, ((@collectRoutes_negotiated twoNetworks _ hcp 8 (by decide)).1 _ ?_).2 _ hcatch⟩
  rw [hroutes]
  decide

end Machino.Tunnel
