import Mathlib.Data.List.Perm.Basic
import Machino.Ipsec.TunnelSelectors

namespace Machino.Tunnel

open Cidr

def routeMax : ℕ := 8

def routeOwnedMax : ℕ := 2 * routeMax

structure Table where
  owned : List Route := []
  ifname : Text := []

/-- What the kernel knows a device route by. -/
structure Dest where
  dev : Text
  net : Addr
  prefixLength : ℕ
  deriving DecidableEq

structure Call where
  add : Bool
  dest : Dest
  deriving DecidableEq

/-- The routes of the kernel, and what it says to the calls, in their order, that nothing in its
table speaks against. -/
structure Kernel where
  others : List Dest := []
  /-- Those that calls of the daemon have put there. -/
  ours : List Dest := []
  refuses : ℕ → Option Text := fun _ => none
  /-- The last one in front. -/
  log : List Call := []
  /-- Those of the daemon that it would not delete. -/
  stuck : List Dest := []

def octet (a : Addr) (i : ℕ) : Text := Nat.toDigits 10 (a.extractLsb' (24 - 8 * i) 8).toNat

def Route.text (r : Route) : Text :=
  ['.'].intercalate [octet r.net 0, octet r.net 1, octet r.net 2, octet r.net 3] ++
    '/' :: Nat.toDigits 10 r.prefixLength

def maskOf (p : ℕ) : Addr := if p = 0 then 0#32 else BitVec.allOnes 32 <<< (32 - p)

def sameRoute (a b : Route) : Bool := a.prefixLength = b.prefixLength && a.net = b.net

/-- An interface name as there is room for it. -/
def nameOf (ifname : Text) : Text := ifname.take 15

def destOf (ifname : Text) (r : Route) : Dest :=
  ⟨nameOf ifname, r.net &&& maskOf r.prefixLength, r.prefixLength⟩

/-- A route that is not there counts as deleted. -/
def routeDev (k : Kernel) (ifname : Text) (r : Route) (add : Bool) : Except Text Unit × Kernel :=
  let d := destOf ifname r
  let k' := { k with log := ⟨add, d⟩ :: k.log }
  match k.refuses k.log.length, add with
  | some e, true => (.error e, k')
  | some e, false => (.error e, { k' with stuck := if d ∈ k.ours then d :: k.stuck else k.stuck })
  | none, true =>
    if d ∈ k.ours ∨ d ∈ k.others then (.error "SIOCADDRT: File exists".toList, k')
    else (.ok (), { k' with ours := d :: k.ours })
  | none, false =>
    if d ∈ k.ours then (.ok (), { k' with ours := k.ours.filter (· ≠ d) })
    else (.ok (), { k' with others := k.others.filter (· ≠ d) })

/-- A line of the kernel's table; the numbers have the first octet at the end. -/
structure LocalNet where
  ifname : Text
  dest : Addr
  flags : Addr
  netmask : Addr

def bswap (a : Addr) : Addr :=
  (a.extractLsb' 0 8 ++ a.extractLsb' 8 8 ++ a.extractLsb' 16 8 ++ a.extractLsb' 24 8).cast rfl

def collides (ifname : Text) (r : Route) (n : LocalNet) : Bool :=
  if !n.flags.getLsbD 0 || n.flags.getLsbD 1 then false
  else if n.ifname = ifname then false
  else
    let lmask := bswap n.netmask
    let m := if lmask < maskOf r.prefixLength then lmask else maskOf r.prefixLength
    bswap n.dest &&& m = r.net &&& m

def collidesWithLocal (nets : List LocalNet) (ifname : Text) (r : Route) : Except Text Unit :=
  match nets.find? (collides ifname r) with
  | none => .ok ()
  | some n => .error ("route ".toList ++ r.text ++
      " collides with directly-connected net on ".toList ++ n.ifname ++
      " -- refusing (would hijack local/management traffic)".toList)

def containsIp (r : Route) (ip : Addr) : Bool :=
  r.net &&& maskOf r.prefixLength = ip &&& maskOf r.prefixLength

def validate (nets : List LocalNet) (ifname : Text) (peerIp : Addr) : List Route → Except Text Unit
  | [] => .ok ()
  | r :: rs =>
    if r.prefixLength = 0 then
      .error "peer offered 0.0.0.0/0 (full tunnel) -- unsupported in AP6, refusing".toList
    else if containsIp r peerIp then
      .error ("route ".toList ++ r.text ++
        " contains the IKE gateway -- refusing (encapsulation loop)".toList)
    else
      match collidesWithLocal nets ifname r with
      | .error e => .error e
      | .ok () => validate nets ifname peerIp rs

/-- What is added comes to `added`, also when it ends with an error. -/
def addAll (ifname : Text) : List Route → Table → Kernel → List Route →
    Except Text Unit × Table × Kernel × List Route
  | [], t, k, added => (.ok (), t, k, added)
  | r :: rs, t, k, added =>
    if t.owned.any (sameRoute r) then addAll ifname rs t k added
    else if routeOwnedMax ≤ t.owned.length then
      (.error "too many tunnel routes".toList, t, k, added)
    else
      match routeDev k ifname r true with
      | (.error e, k) => (.error e, t, k, added)
      | (.ok (), k) => addAll ifname rs { t with owned := t.owned ++ [r] } k (added ++ [r])

/-- The last one takes its place. -/
def removeAt (l : List Route) (j : ℕ) : List Route :=
  match l.getLast? with
  | none => []
  | some last => (l.set j last).dropLast

theorem length_removeAt {l : List Route} {j : ℕ} (hj : j < l.length) :
    (removeAt l j).length + 1 = l.length := by
  unfold removeAt
  cases hlast : l.getLast? with
  | none =>
    rw [List.getLast?_eq_none_iff.mp hlast] at hj
    exact absurd hj (Nat.not_lt_zero j)
  | some last =>
    rw [List.length_dropLast, List.length_set]
    omega

def removeUnwanted (desired : List Route) (t : Table) (k : Kernel) (j : ℕ) : Table × Kernel :=
  if h : j < t.owned.length then
    if desired.any (sameRoute t.owned[j]) then removeUnwanted desired t k (j + 1)
    else
      have := length_removeAt h
      removeUnwanted desired { t with owned := removeAt t.owned j }
        (routeDev k t.ifname t.owned[j] false).2 j
  else (t, k)
termination_by t.owned.length - j

def rollback (ifname : Text) : List Route → Table → Kernel → Table × Kernel
  | [], t, k => (t, k)
  | r :: rs, t, k =>
    let k := (routeDev k ifname r false).2
    match t.owned.findIdx? (sameRoute r) with
    | none => rollback ifname rs t k
    | some j => rollback ifname rs { t with owned := removeAt t.owned j } k

def reconcile (t : Table) (k : Kernel) (ifname : Text) (desired : List Route) (peerIp : Addr)
    (nets : List LocalNet) : Except Text Unit × Table × Kernel :=
  match validate nets ifname peerIp desired with
  | .error e => (.error e, t, k)
  | .ok () =>
    match addAll ifname desired { t with ifname := nameOf ifname } k [] with
    | (.ok (), t, k, _) => (.ok (), removeUnwanted desired t k 0)
    | (.error e, t, k, added) => (.error e, rollback ifname added t k)

def teardown (t : Table) (k : Kernel) : Table × Kernel :=
  ({ t with owned := [] }, t.owned.foldl (fun k r => (routeDev k t.ifname r false).2) k)

theorem perm_removeAt {l : List Route} {j : ℕ} (hj : j < l.length) :
    l.Perm (l[j] :: removeAt l j) := by
  unfold removeAt
  cases hlast : l.getLast? with
  | none =>
    rw [List.getLast?_eq_none_iff.mp hlast] at hj
    exact absurd hj (Nat.not_lt_zero j)
  | some last =>
    obtain ⟨front, rfl⟩ := List.getLast?_eq_some_iff.mp hlast
    dsimp only
    by_cases hlt : j < front.length
    · rw [List.set_append_left _ _ hlt, List.dropLast_concat, List.getElem_append_left hlt]
      calc (front ++ [last]).Perm (last :: front) := List.perm_append_singleton last front
        _ |>.Perm (last :: front[j] :: front.eraseIdx j) :=
          (List.getElem_cons_eraseIdx_perm hlt).symm.cons last
        _ |>.Perm (front[j] :: last :: front.eraseIdx j) := List.Perm.swap _ _ _
        _ |>.Perm (front[j] :: front.set j last) :=
          (List.set_perm_cons_eraseIdx hlt last).symm.cons _
    · have heq : j = front.length := by
        rw [List.length_append, List.length_singleton] at hj
        omega
      subst heq
      simp

def Kernel.logged (k : Kernel) (c : Call) : Kernel := { k with log := c :: k.log }

theorem nameOf_nameOf (ifname : Text) : nameOf (nameOf ifname) = nameOf ifname := by
  rw [nameOf, nameOf, List.take_take, Nat.min_self]

theorem destOf_congr {a b : Text} (h : nameOf a = nameOf b) (r : Route) :
    destOf a r = destOf b r := by
  rw [destOf, destOf, h]

/-- What can come of an addition. -/
theorem routeDev_add (k : Kernel) (ifname : Text) (r : Route) :
    (∃ e, routeDev k ifname r true = (.error e, k.logged ⟨true, destOf ifname r⟩)) ∨
    destOf ifname r ∉ k.ours ∧ destOf ifname r ∉ k.others ∧
      routeDev k ifname r true = (.ok (), { k.logged ⟨true, destOf ifname r⟩ with
        ours := destOf ifname r :: k.ours }) := by
  unfold routeDev
  cases k.refuses k.log.length with
  | some e => exact .inl ⟨e, rfl⟩
  | none =>
    dsimp only
    split_ifs with hthere
    · exact .inl ⟨_, rfl⟩
    · rw [not_or] at hthere
      exact .inr ⟨hthere.1, hthere.2, rfl⟩

/-- What can come of the deletion of an own route. -/
theorem routeDev_delete {k : Kernel} {ifname : Text} {r : Route} (h : destOf ifname r ∈ k.ours) :
    (routeDev k ifname r false).2 = { k.logged ⟨false, destOf ifname r⟩ with
        stuck := destOf ifname r :: k.stuck } ∨
    (routeDev k ifname r false).2 = { k.logged ⟨false, destOf ifname r⟩ with
        ours := k.ours.filter (· ≠ destOf ifname r) } := by
  unfold routeDev
  cases k.refuses k.log.length with
  | some e =>
    left
    dsimp only
    rw [if_pos h]
    rfl
  | none =>
    right
    dsimp only
    rw [if_pos h]
    rfl

def Table.dests (t : Table) (ifname : Text) : List Dest := t.owned.map (destOf ifname)

/-- The daemon's routes in the kernel are those of its table, each once, and those that the kernel
would not delete; none of them is another's. -/
structure Owns (ifname : Text) (t : Table) (k : Kernel) : Prop where
  nodup : (t.dests ifname).Nodup
  ours : ∀ d, d ∈ k.ours ↔ d ∈ t.dests ifname ∨ d ∈ k.stuck
  apart : ∀ d ∈ t.dests ifname, d ∉ k.stuck
  others : ∀ d ∈ k.ours, d ∉ k.others

namespace Owns

variable {ifname : Text} {t : Table} {k : Kernel}

theorem logged (h : Owns ifname t k) (c : Call) : Owns ifname t (k.logged c) := { h with }

theorem added (h : Owns ifname t k) {r : Route} (hours : destOf ifname r ∉ k.ours)
    (hothers : destOf ifname r ∉ k.others) (c : Call) :
    Owns ifname { t with owned := t.owned ++ [r] }
      { k.logged c with ours := destOf ifname r :: k.ours } := by
  have hdests : Table.dests { t with owned := t.owned ++ [r] } ifname =
      t.dests ifname ++ [destOf ifname r] := List.map_append
  have hnew : destOf ifname r ∉ t.dests ifname ∧ destOf ifname r ∉ k.stuck := by
    rw [← not_or]
    exact fun hmem => hours ((h.ours _).mpr hmem)
  refine ⟨?_, fun d => ?_, fun d hd => ?_, ?_⟩
  · rw [hdests]
    exact List.nodup_append.mpr ⟨h.nodup, List.nodup_singleton _, fun a ha b hb hab => hnew.1 (by
      rwa [← List.mem_singleton.mp hb, ← hab])⟩
  · show d ∈ destOf ifname r :: k.ours ↔ _ ∨ d ∈ k.stuck
    rw [hdests, List.mem_cons, List.mem_append, List.mem_singleton, h.ours d]
    tauto
  · rw [hdests, List.mem_append, List.mem_singleton] at hd
    rcases hd with hd | rfl
    · exact h.apart d hd
    · exact hnew.2
  · exact List.forall_mem_cons.mpr ⟨hothers, h.others⟩

/-- A route goes from the table, and from the kernel or to those that are stuck. -/
theorem removed (h : Owns ifname t k) {r : Route} {rest : List Route}
    (hperm : t.owned.Perm (r :: rest)) {name : Text} (hname : nameOf name = nameOf ifname) :
    Owns ifname { t with owned := rest } (routeDev k name r false).2 := by
  have hdests : (t.dests ifname).Perm (destOf ifname r :: rest.map (destOf ifname)) :=
    hperm.map (destOf ifname)
  have hnodup := List.nodup_cons.mp (hdests.nodup_iff.mp h.nodup)
  have hmem (d : Dest) : d ∈ t.dests ifname ↔
      d = destOf ifname r ∨ d ∈ rest.map (destOf ifname) :=
    hdests.mem_iff.trans List.mem_cons
  have hr : destOf ifname r ∈ t.dests ifname := (hmem _).mpr (.inl rfl)
  have hours := (h.ours _).mpr (.inl hr)
  have hapart := h.apart _ hr
  rw [← destOf_congr hname r] at hours
  rcases routeDev_delete hours with heq | heq
  · rw [heq, destOf_congr hname r]
    refine ⟨hnodup.2, fun d => ?_, fun d hd => ?_, h.others⟩
    · show d ∈ k.ours ↔ d ∈ rest.map (destOf ifname) ∨ d ∈ destOf ifname r :: k.stuck
      rw [h.ours d, hmem d, List.mem_cons, or_assoc, or_left_comm]
    · show d ∉ destOf ifname r :: k.stuck
      rw [List.mem_cons, not_or]
      exact ⟨fun hd' => hnodup.1 (hd' ▸ hd), h.apart d ((hmem d).mpr (.inr hd))⟩
  · rw [heq, destOf_congr hname r]
    refine ⟨hnodup.2, fun d => ?_, fun d hd => h.apart d ((hmem d).mpr (.inr hd)), ?_⟩
    · show d ∈ k.ours.filter (· ≠ destOf ifname r) ↔ d ∈ rest.map (destOf ifname) ∨ d ∈ k.stuck
      rw [List.mem_filter, h.ours d, hmem d, decide_eq_true_eq]
      constructor
      · rintro ⟨(hd | hd) | hd, hne⟩
        · exact absurd hd hne
        · exact .inl hd
        · exact .inr hd
      · rintro (hd | hd)
        · exact ⟨.inl (.inr hd), fun hd' => hnodup.1 (hd' ▸ hd)⟩
        · exact ⟨.inr hd, fun hd' => hapart (hd' ▸ hd)⟩
    · exact fun d hd => h.others d (List.mem_of_mem_filter hd)

end Owns

theorem sameRoute_iff {a b : Route} :
    sameRoute a b = true ↔ a.prefixLength = b.prefixLength ∧ a.net = b.net := by
  rw [sameRoute, Bool.and_eq_true, decide_eq_true_eq, decide_eq_true_eq]

theorem destOf_eq_of_sameRoute {a b : Route} (h : sameRoute a b = true) (ifname : Text) :
    destOf ifname a = destOf ifname b := by
  obtain ⟨hp, hn⟩ := sameRoute_iff.mp h
  rw [destOf, destOf, hp, hn]

/-- The calls between one kernel and the next, and what they leave as it is. -/
structure Calls (k k' : Kernel) (cs : List Call) : Prop where
  log : k'.log = cs ++ k.log
  others : k'.others = k.others

namespace Calls

variable {k k' k'' : Kernel} {cs cs' : List Call}

theorem refl (k : Kernel) : Calls k k [] := ⟨rfl, rfl⟩

theorem trans (h : Calls k k' cs) (h' : Calls k' k'' cs') : Calls k k'' (cs' ++ cs) where
  log := by rw [h'.log, h.log, List.append_assoc]
  others := h'.others.trans h.others

end Calls

/-- The deletion of an own route is one call. -/
theorem Owns.calls_delete {ifname : Text} {t : Table} {k : Kernel} (h : Owns ifname t k) {r : Route}
    (hr : r ∈ t.owned) {name : Text} (hname : nameOf name = nameOf ifname) :
    Calls k (routeDev k name r false).2 [⟨false, destOf ifname r⟩] := by
  have hours := (h.ours _).mpr (.inl (List.mem_map_of_mem hr))
  rw [← destOf_congr hname r] at hours
  rcases routeDev_delete hours with heq | heq
  · rw [heq, destOf_congr hname r]
    exact ⟨rfl, rfl⟩
  · rw [heq, destOf_congr hname r]
    exact ⟨rfl, rfl⟩

/-- Two routes of the table are one if the kernel knows them by the same. -/
theorem Owns.eq_of_destOf_eq {ifname : Text} {t : Table} {k : Kernel} (h : Owns ifname t k)
    {a b : Route} (ha : a ∈ t.owned) (hb : b ∈ t.owned)
    (hab : destOf ifname a = destOf ifname b) : a = b :=
  List.inj_on_of_nodup_map h.nodup ha hb hab

/-- What the additions come to: the routes `new` are in the table behind the others. -/
structure AddsTo (ifname : Text) (rs : List Route) (t : Table) (k : Kernel) (added new : List Route)
    (out : Except Text Unit × Table × Kernel × List Route) : Prop where
  table : out.2.1 = { t with owned := t.owned ++ new }
  added : out.2.2.2 = added ++ new
  owns : Owns ifname out.2.1 out.2.2.1
  calls : ∃ cs, Calls k out.2.2.1 cs ∧ ∀ c ∈ cs, c.add = true
  done : out.1 = .ok () → ∀ r ∈ rs, out.2.1.owned.any (sameRoute r) = true

theorem addAll_adds {ifname : Text} {rs : List Route} {t : Table} {k : Kernel} {added : List Route}
    (h : Owns ifname t k) :
    ∃ new, AddsTo ifname rs t k added new (addAll ifname rs t k added) := by
  induction rs generalizing t k added with
  | nil =>
    refine ⟨[], ?_, ?_, h, ⟨[], Calls.refl k, List.forall_mem_nil _⟩,
      fun _ => List.forall_mem_nil _⟩
    · rw [List.append_nil]
      rfl
    · rw [List.append_nil]
      rfl
  | cons r rs ih =>
    rw [addAll]
    split_ifs with howned hfull
    · obtain ⟨new, hadds⟩ := @ih t k added h
      refine ⟨new, { hadds with done := fun hok => ?_ }⟩
      refine List.forall_mem_cons.mpr ⟨?_, hadds.done hok⟩
      rw [hadds.table, List.any_append, howned, Bool.true_or]
    · refine ⟨[], ?_, ?_, h, ⟨[], Calls.refl k, List.forall_mem_nil _⟩, nofun⟩
      · rw [List.append_nil]
      · rw [List.append_nil]
    · rcases routeDev_add k ifname r with ⟨e, heq⟩ | ⟨hours, hothers, heq⟩
      · rw [heq]
        refine ⟨[], ?_, ?_, h.logged _, ⟨[⟨true, destOf ifname r⟩], ⟨rfl, rfl⟩, ?_⟩, nofun⟩
        · rw [List.append_nil]
        · rw [List.append_nil]
        · exact List.forall_mem_singleton.mpr rfl
      · rw [heq]
        dsimp only
        obtain ⟨new, hadds⟩ := @ih _ _ (added ++ [r])
          (h.added hours hothers ⟨true, destOf ifname r⟩)
        obtain ⟨cs, hcs, hadd⟩ := hadds.calls
        refine ⟨r :: new, ?_, ?_, hadds.owns, ⟨cs ++ [⟨true, destOf ifname r⟩], ?_, ?_⟩, ?_⟩
        · rw [hadds.table, List.append_assoc]
          rfl
        · rw [hadds.added, List.append_assoc]
          rfl
        · have hone : Calls k { k.logged ⟨true, destOf ifname r⟩ with
              ours := destOf ifname r :: k.ours } [⟨true, destOf ifname r⟩] := ⟨rfl, rfl⟩
          exact hone.trans hcs
        · exact List.forall_mem_append.mpr ⟨hadd, List.forall_mem_singleton.mpr rfl⟩
        · intro hok
          refine List.forall_mem_cons.mpr ⟨?_, hadds.done hok⟩
          rw [hadds.table, List.any_append, List.any_append]
          simp [sameRoute]

/-- What a series of deletions comes to: the routes `gone` are out of the table. -/
structure Deletes (ifname : Text) (t : Table) (k : Kernel) (gone : List Route)
    (out : Table × Kernel) : Prop where
  perm : t.owned.Perm (gone ++ out.1.owned)
  name : out.1.ifname = t.ifname
  owns : Owns ifname out.1 out.2
  calls : ∃ cs, Calls k out.2 cs ∧ ∀ c ∈ cs, c.add = false ∧ ∃ r ∈ gone, c.dest = destOf ifname r

namespace Deletes

variable {ifname : Text} {t : Table} {k : Kernel}

theorem none (h : Owns ifname t k) : Deletes ifname t k [] (t, k) :=
  ⟨List.Perm.refl _, rfl, h, [], Calls.refl k, List.forall_mem_nil _⟩

theorem cons (h : Owns ifname t k) {name : Text} (hname : nameOf name = nameOf ifname) {r : Route}
    {rest gone : List Route} (hperm : t.owned.Perm (r :: rest)) {out : Table × Kernel}
    (hout : Owns ifname { t with owned := rest } (routeDev k name r false).2 →
      Deletes ifname { t with owned := rest } (routeDev k name r false).2 gone out) :
    Deletes ifname t k (r :: gone) out := by
  have hd := hout (h.removed hperm hname)
  obtain ⟨cs, hcs, hdel⟩ := hd.calls
  refine ⟨hperm.trans (hd.perm.cons r), hd.name, hd.owns, cs ++ [⟨false, destOf ifname r⟩],
    (h.calls_delete (hperm.mem_iff.mpr List.mem_cons_self) hname).trans hcs,
    List.forall_mem_append.mpr ⟨fun c hc => ?_, List.forall_mem_singleton.mpr ?_⟩⟩
  · obtain ⟨hadd, r', hr', heq⟩ := hdel c hc
    exact ⟨hadd, r', List.mem_cons_of_mem _ hr', heq⟩
  · exact ⟨rfl, r, List.mem_cons_self, rfl⟩

/-- A route that is in the table before and after is not deleted meanwhile. -/
theorem spares {gone : List Route} {out : Table × Kernel} (hd : Deletes ifname t k gone out)
    (h : Owns ifname t k) {r r' : Route} (hr : r ∈ out.1.owned) (hr' : r' ∈ gone) :
    destOf ifname r' ≠ destOf ifname r := by
  have hnodup := (hd.perm.map (destOf ifname)).nodup_iff.mp h.nodup
  rw [List.map_append] at hnodup
  exact (List.nodup_append.mp hnodup).2.2 _ (List.mem_map_of_mem hr') _ (List.mem_map_of_mem hr)

end Deletes

theorem rollback_deletes {ifname : Text} {added : List Route} {t : Table} {k : Kernel}
    (h : Owns ifname t k) {base : List Route} (hperm : t.owned.Perm (added ++ base)) :
    Deletes ifname t k added (rollback ifname added t k) := by
  induction added generalizing t k with
  | nil => exact Deletes.none h
  | cons r rs ih =>
    have hr : r ∈ t.owned := hperm.mem_iff.mpr List.mem_cons_self
    rw [rollback]
    cases hfind : t.owned.findIdx? (sameRoute r) with
    | none =>
      have hself := List.findIdx?_eq_none_iff.mp hfind r hr
      simp [sameRoute] at hself
    | some j =>
      obtain ⟨hj, hsame, -⟩ := List.findIdx?_eq_some_iff_getElem.mp hfind
      have heq : t.owned[j] = r := h.eq_of_destOf_eq (List.getElem_mem hj) hr
        (destOf_eq_of_sameRoute hsame ifname).symm
      have hrest : t.owned.Perm (r :: removeAt t.owned j) := heq ▸ perm_removeAt hj
      exact Deletes.cons h rfl hrest fun hout => ih hout
        (List.Perm.cons_inv (hrest.symm.trans hperm))

theorem take_removeAt {l : List Route} {j : ℕ} (hj : j < l.length) :
    (removeAt l j).take j = l.take j := by
  unfold removeAt
  cases hlast : l.getLast? with
  | none =>
    rw [List.getLast?_eq_none_iff.mp hlast] at hj
    exact absurd hj (Nat.not_lt_zero j)
  | some last =>
    dsimp only
    rw [List.dropLast_eq_take, List.take_take, List.length_set, Nat.min_eq_left (by omega),
      List.take_set_of_le (Nat.le_refl j)]

/-- Behind the routes that are wanted, those that are not are deleted. -/
theorem removeUnwanted_deletes {ifname : Text} (desired : List Route) {t : Table} {k : Kernel}
    {j : ℕ} (h : Owns ifname t k) (hname : nameOf t.ifname = nameOf ifname)
    (hfront : ∀ r ∈ t.owned.take j, desired.any (sameRoute r) = true) :
    ∃ gone, Deletes ifname t k gone (removeUnwanted desired t k j) ∧
      (∀ r ∈ gone, desired.any (sameRoute r) = false) ∧
      ∀ r ∈ (removeUnwanted desired t k j).1.owned, desired.any (sameRoute r) = true := by
  fun_induction removeUnwanted desired t k j with
  | case1 t k j hj hwant ih =>
    refine ih h hname fun r hr => ?_
    rw [List.take_succ_eq_append_getElem hj, List.mem_append, List.mem_singleton] at hr
    rcases hr with hr | rfl
    · exact hfront r hr
    · exact hwant
  | case2 t k j hj hwant hlen ih =>
    have hperm := perm_removeAt hj
    obtain ⟨gone, hdel, hgone, hkept⟩ := ih (h.removed hperm hname) hname (by
      rw [take_removeAt hj]
      exact hfront)
    refine ⟨t.owned[j] :: gone, Deletes.cons h hname hperm fun _ => hdel, ?_, hkept⟩
    exact List.forall_mem_cons.mpr ⟨Bool.not_eq_true _ ▸ hwant, hgone⟩
  | case3 t k j hj =>
    refine ⟨[], Deletes.none h, List.forall_mem_nil _, fun r hr => hfront r ?_⟩
    rwa [List.take_of_length_le (Nat.le_of_not_lt hj)]

/-- The table as it is between two calls. -/
structure Rests (ifname : Text) (t : Table) (k : Kernel) : Prop extends Owns ifname t k where
  name : t.owned ≠ [] → nameOf t.ifname = nameOf ifname

/-- A call of the route manager, from one table and kernel to the next. -/
structure Keeps (ifname : Text) (t : Table) (k : Kernel) (t' : Table) (k' : Kernel)
    (cs : List Call) : Prop where
  rests : Rests ifname t' k'
  calls : Calls k k' cs
  spared : ∀ r ∈ t.owned, r ∈ t'.owned → ⟨false, destOf ifname r⟩ ∉ cs

theorem Keeps.refl {ifname : Text} {t : Table} {k : Kernel} (h : Rests ifname t k) :
    Keeps ifname t k t k [] := ⟨h, Calls.refl k, fun _ _ _ => List.not_mem_nil⟩

theorem Rests.renamed {ifname : Text} {t : Table} {k : Kernel} (h : Rests ifname t k) :
    Rests ifname { t with ifname := nameOf ifname } k where
  nodup := h.nodup
  ours := h.ours
  apart := h.apart
  others := h.others
  name _ := nameOf_nameOf ifname

/-- Additions and then deletions of what is in the table by then. -/
theorem Keeps.of_adds {ifname : Text} {t : Table} {k : Kernel}
    {rs new gone : List Route} {mid : Except Text Unit × Table × Kernel × List Route}
    {out : Table × Kernel} (hadds : AddsTo ifname rs t k [] new mid)
    (hname : nameOf t.ifname = nameOf ifname)
    (hdel : Deletes ifname mid.2.1 mid.2.2.1 gone out) :
    ∃ cs, Keeps ifname t k out.1 out.2 cs := by
  obtain ⟨as, has, hadd⟩ := hadds.calls
  obtain ⟨ds, hds, hgone⟩ := hdel.calls
  refine ⟨ds ++ as, ⟨hdel.owns, fun _ => ?_⟩, has.trans hds, fun r _ hr' hmem => ?_⟩
  · rw [hdel.name, hadds.table]
    exact hname
  · rcases List.mem_append.mp hmem with hmem | hmem
    · obtain ⟨-, g, hg, heq⟩ := hgone _ hmem
      exact hdel.spares hadds.owns hr' hg heq.symm
    · exact absurd (hadd _ hmem) Bool.false_ne_true

theorem any_sameRoute_iff {l : List Route} {q : Route} :
    l.any (sameRoute q) = true ↔ ∃ r ∈ l, q.prefixLength = r.prefixLength ∧ q.net = r.net := by
  rw [List.any_eq_true]
  exact exists_congr fun r => and_congr_right fun _ => sameRoute_iff

/-- The three ways that a plan can go. -/
inductive Outcome (t : Table) (k : Kernel) (ifname : Text) (desired : List Route) (peerIp : Addr)
    (nets : List LocalNet) : Except Text Unit × Table × Kernel → Prop where
  | refused {e : Text} : validate nets ifname peerIp desired = .error e →
      Outcome t k ifname desired peerIp nets (.error e, t, k)
  | undone {e : Text} {new : List Route} {t' : Table} {k' : Kernel} {out : Table × Kernel} :
      AddsTo ifname desired { t with ifname := nameOf ifname } k [] new (.error e, t', k', new) →
      Deletes ifname t' k' new out → Outcome t k ifname desired peerIp nets (.error e, out)
  | done {new gone : List Route} {t' : Table} {k' : Kernel} {out : Table × Kernel} :
      validate nets ifname peerIp desired = .ok () →
      AddsTo ifname desired { t with ifname := nameOf ifname } k [] new (.ok (), t', k', new) →
      Deletes ifname t' k' gone out →
      (∀ r ∈ gone, desired.any (sameRoute r) = false) →
      (∀ r ∈ out.1.owned, desired.any (sameRoute r) = true) →
      Outcome t k ifname desired peerIp nets (.ok (), out)

section

variable {t : Table} {k : Kernel} {ifname : Text} (h : Rests ifname t k)
include h

theorem reconcile_outcome (desired : List Route) (peerIp : Addr) (nets : List LocalNet) :
    Outcome t k ifname desired peerIp nets (reconcile t k ifname desired peerIp nets) := by
  unfold reconcile
  cases hval : validate nets ifname peerIp desired with
  | error e => exact .refused hval
  | ok u =>
    obtain ⟨new, hadds⟩ := @addAll_adds ifname desired _ k [] h.renamed.toOwns
    dsimp only
    generalize addAll ifname desired { t with ifname := nameOf ifname } k [] = mid at hadds
    obtain ⟨res, t', k', added⟩ := mid
    obtain rfl : added = new := hadds.added
    have howned : t'.owned = t.owned ++ added := congrArg Table.owned hadds.table
    have hname : t'.ifname = nameOf ifname := congrArg Table.ifname hadds.table
    cases res with
    | error e =>
      have hperm : t'.owned.Perm (added ++ t.owned) := by
        rw [howned]
        exact List.perm_append_comm
      exact .undone hadds (rollback_deletes hadds.owns hperm)
    | ok u =>
      have hfront : ∀ r ∈ t'.owned.take 0, desired.any (sameRoute r) = true :=
        fun r hr => absurd hr List.not_mem_nil
      obtain ⟨gone, hdel, hgone, hkept⟩ := removeUnwanted_deletes desired hadds.owns
        (hname ▸ nameOf_nameOf ifname) hfront
      exact .done hval hadds hdel hgone hkept

theorem reconcile_keeps (desired : List Route) (peerIp : Addr) (nets : List LocalNet) :
    ∃ cs, Keeps ifname t k (reconcile t k ifname desired peerIp nets).2.1
      (reconcile t k ifname desired peerIp nets).2.2 cs := by
  have hout := reconcile_outcome h desired peerIp nets
  generalize reconcile t k ifname desired peerIp nets = out at hout
  cases hout with
  | refused _ => exact ⟨[], Keeps.refl h⟩
  | undone hadds hdel =>
    obtain ⟨cs, hkeep⟩ := Keeps.of_adds hadds (nameOf_nameOf ifname) hdel
    exact ⟨cs, hkeep.rests, hkeep.calls, hkeep.spared⟩
  | done _ hadds hdel _ _ =>
    obtain ⟨cs, hkeep⟩ := Keeps.of_adds hadds (nameOf_nameOf ifname) hdel
    exact ⟨cs, hkeep.rests, hkeep.calls, hkeep.spared⟩

/-- A plan that is not carried out leaves the table with what it had. -/
theorem perm_of_reconcile_error {desired : List Route} {peerIp : Addr} {nets : List LocalNet}
    {e : Text} (herr : (reconcile t k ifname desired peerIp nets).1 = .error e) :
    (reconcile t k ifname desired peerIp nets).2.1.owned.Perm t.owned := by
  have hout := reconcile_outcome h desired peerIp nets
  generalize reconcile t k ifname desired peerIp nets = out at hout herr
  cases hout with
  | refused _ => exact List.Perm.refl _
  | @undone _ new t' _ _ hadds hdel =>
    have howned : t'.owned = t.owned ++ new := congrArg Table.owned hadds.table
    have hperm : (new ++ t.owned).Perm t'.owned := by
      rw [howned]
      exact List.perm_append_comm
    exact ((List.perm_append_left_iff new).mp (hperm.trans hdel.perm)).symm
  | done _ _ _ _ _ => exact absurd herr nofun

/-- A plan that is carried out is what the table has. -/
theorem owned_of_reconcile_ok {desired : List Route} {peerIp : Addr} {nets : List LocalNet}
    (hok : (reconcile t k ifname desired peerIp nets).1 = .ok ()) :
    validate nets ifname peerIp desired = .ok () ∧
    (reconcile t k ifname desired peerIp nets).2.1.ifname = nameOf ifname ∧
    ∀ q, (reconcile t k ifname desired peerIp nets).2.1.owned.any (sameRoute q) = true ↔
      desired.any (sameRoute q) = true := by
  have hout := reconcile_outcome h desired peerIp nets
  generalize reconcile t k ifname desired peerIp nets = out at hout hok
  cases hout with
  | refused _ => exact absurd hok nofun
  | undone _ _ => exact absurd hok nofun
  | done hval hadds hdel hgone hkept =>
    refine ⟨hval, hdel.name.trans (congrArg Table.ifname hadds.table),
      fun q => ⟨fun hq => ?_, fun hq => ?_⟩⟩
    · obtain ⟨r, hr, hp, hn⟩ := any_sameRoute_iff.mp hq
      obtain ⟨d, hd, hp', hn'⟩ := any_sameRoute_iff.mp (hkept r hr)
      exact any_sameRoute_iff.mpr ⟨d, hd, hp.trans hp', hn.trans hn'⟩
    · obtain ⟨d, hd, hp, hn⟩ := any_sameRoute_iff.mp hq
      obtain ⟨o, ho, hp', hn'⟩ := any_sameRoute_iff.mp (hadds.done rfl d hd)
      rcases List.mem_append.mp (hdel.perm.mem_iff.mp ho) with hgo | hkeep
      · have hwant := any_sameRoute_iff.mpr ⟨d, hd, hp'.symm, hn'.symm⟩
        rw [hgone o hgo] at hwant
        exact absurd hwant Bool.false_ne_true
      · exact any_sameRoute_iff.mpr ⟨o, hkeep, hp.trans hp', hn.trans hn'⟩

end

theorem addAll_of_owned {ifname : Text} {rs : List Route} {t : Table} {k : Kernel}
    {added : List Route} (h : ∀ r ∈ rs, t.owned.any (sameRoute r) = true) :
    addAll ifname rs t k added = (.ok (), t, k, added) := by
  induction rs with
  | nil => rfl
  | cons r rs ih =>
    rw [List.forall_mem_cons] at h
    rw [addAll, if_pos h.1]
    exact ih h.2

theorem removeUnwanted_of_wanted {desired : List Route} {t : Table} {k : Kernel} {j : ℕ}
    (h : ∀ r ∈ t.owned, desired.any (sameRoute r) = true) :
    removeUnwanted desired t k j = (t, k) := by
  fun_induction removeUnwanted desired t k j with
  | case1 t k j hj hwant ih => exact ih h
  | case2 t k j hj hwant hlen ih => exact absurd (h _ (List.getElem_mem hj)) hwant
  | case3 t k j hj => rfl

theorem reconcile_again {t : Table} {k : Kernel} {ifname : Text} {desired : List Route}
    {peerIp : Addr} {nets : List LocalNet} (hval : validate nets ifname peerIp desired = .ok ())
    (hname : t.ifname = nameOf ifname)
    (howned : ∀ q, t.owned.any (sameRoute q) = true ↔ desired.any (sameRoute q) = true) :
    reconcile t k ifname desired peerIp nets = (.ok (), t, k) := by
  have hself {l : List Route} {r : Route} (hr : r ∈ l) : l.any (sameRoute r) = true :=
    any_sameRoute_iff.mpr ⟨r, hr, rfl, rfl⟩
  unfold reconcile
  rw [hval]
  dsimp only
  rw [← hname, addAll_of_owned fun r hr => (howned r).mpr (hself hr)]
  dsimp only
  rw [removeUnwanted_of_wanted fun r hr => (howned r).mp (hself hr)]

theorem validate_ok {nets : List LocalNet} {ifname : Text} {peerIp : Addr} {rs : List Route}
    (h : validate nets ifname peerIp rs = .ok ()) : ∀ r ∈ rs, r.prefixLength ≠ 0 ∧
      containsIp r peerIp = false ∧ ∀ n ∈ nets, collides ifname r n = false := by
  induction rs with
  | nil => exact List.forall_mem_nil _
  | cons r rs ih =>
    rw [validate] at h
    split_ifs at h with hp hip
    unfold collidesWithLocal at h
    cases hfind : nets.find? (collides ifname r) with
    | some n =>
      rw [hfind] at h
      exact absurd h nofun
    | none =>
      rw [hfind] at h
      refine List.forall_mem_cons.mpr ⟨⟨hp, Bool.not_eq_true _ ▸ hip, fun n hn => ?_⟩, ih h⟩
      exact Bool.not_eq_true _ ▸ List.find?_eq_none.mp hfind n hn

theorem maskOf_eq (p : ℕ) : maskOf p = mask 32 p := by
  unfold maskOf
  split_ifs with hp
  · subst hp
    rfl
  · rfl

theorem containsIp_iff (r : Route) (ip : Addr) : containsIp r ip = true ↔ r.Catches ip := by
  rw [containsIp, decide_eq_true_eq, maskOf_eq]
  exact eq_comm

/-- The network is up, without a gateway and not the tunnel's own. -/
structure LocalNet.Direct (n : LocalNet) (ifname : Text) : Prop where
  up : n.flags.getLsbD 0 = true
  gateway : n.flags.getLsbD 1 = false
  name : n.ifname ≠ ifname

/-- The network has a prefix for a mask, and the address. -/
def LocalNet.Has (n : LocalNet) (p : ℕ) (x : Addr) : Prop :=
  bswap n.netmask = mask 32 p ∧ Covers (bswap n.dest) p x

/-- A route that was let through has no address in common with such a network. -/
theorem not_has_of_not_collides {ifname : Text} {r : Route} {n : LocalNet} {p : ℕ} {x : Addr}
    (h : collides ifname r n = false) (hdirect : n.Direct ifname)
    (hr : r.prefixLength ≤ 32) (hp : p ≤ 32) (hx : r.Catches x) : ¬ n.Has p x := by
  rintro ⟨hmask, hcov⟩
  unfold collides at h
  rw [hdirect.up, hdirect.gateway, hmask, maskOf_eq] at h
  simp only [Bool.not_true, Bool.or_self, Bool.false_eq_true, if_false, if_neg hdirect.name] at h
  rw [decide_eq_false_iff_not] at h
  refine h ?_
  split_ifs with hlt
  · rw [mask_lt_mask_iff hp hr] at hlt
    exact hcov.symm.trans (Covers.of_le hlt.le hx)
  · rw [mask_lt_mask_iff hp hr, Nat.not_lt] at hlt
    exact (Covers.of_le hlt hcov).symm.trans hx

theorem teardown_deletes {t : Table} {k : Kernel} {ifname : Text} (h : Rests ifname t k) :
    Deletes ifname t k t.owned (teardown t k) := by
  have hall (l : List Route) (k : Kernel) (hl : Owns ifname { t with owned := l } k)
      (hname : l ≠ [] → nameOf t.ifname = nameOf ifname) : Deletes ifname { t with owned := l } k l
        ({ t with owned := [] }, l.foldl (fun k r => (routeDev k t.ifname r false).2) k) := by
    induction l generalizing k with
    | nil => exact Deletes.none hl
    | cons r rest ih =>
      have hr := hname (List.cons_ne_nil r rest)
      exact Deletes.cons hl hr (List.Perm.refl _) fun hout => ih _ hout fun _ => hr
  exact hall t.owned k h.toOwns h.name

/-- What is asked for, as there is room for it. -/
structure Plan where
  routes : List Route
  length : routes.length ≤ routeMax
  prefixes : ∀ r ∈ routes, r.prefixLength ≤ 32

def planOf (c : ChildSa) (cp : Option (List CpSubnet)) : Plan where
  routes := (collectRoutes c cp routeMax).1
  length := length_collectRoutes c cp routeMax
  prefixes _ := prefixLength_collectRoutes

/-- Without a route to install, those that are there stay. -/
def dataPathInstall (s : Table × Kernel) (ifname : Text) (c : ChildSa)
    (cp : Option (List CpSubnet)) (peerIp : Addr) (nets : List LocalNet) : Table × Kernel :=
  if (planOf c cp).routes = [] then s
  else (reconcile s.1 s.2 ifname (planOf c cp).routes peerIp nets).2

inductive Event where
  | install (c : ChildSa) (cp : Option (List CpSubnet)) (peerIp : Addr) (nets : List LocalNet)
  | reconcile (desired : Plan) (peerIp : Addr) (nets : List LocalNet)
  | teardown
  | otherAdds (d : Dest)
  | otherDeletes (d : Dest)

/-- Others add what is not there. What they delete is theirs: that no other program deletes a route
of the daemon is an assumption. -/
def step (ifname : Text) (s : Table × Kernel) : Event → Table × Kernel
  | .install c cp peerIp nets => dataPathInstall s ifname c cp peerIp nets
  | .reconcile desired peerIp nets => (reconcile s.1 s.2 ifname desired.routes peerIp nets).2
  | .teardown => teardown s.1 s.2
  | .otherAdds d =>
    if d ∈ s.2.ours ∨ d ∈ s.2.others then s
    else (s.1, { s.2 with others := d :: s.2.others })
  | .otherDeletes d => (s.1, { s.2 with others := s.2.others.filter (· ≠ d) })

def run (ifname : Text) (k : Kernel) (evs : List Event) : Table × Kernel :=
  evs.foldl (step ifname) ({}, k)

/-- A kernel in which nothing is the daemon's yet. -/
def Kernel.before (others : List Dest) (refuses : ℕ → Option Text) : Kernel := { others, refuses }

theorem length_dests {ifname : Text} {t : Table} : (t.dests ifname).length = t.owned.length :=
  List.length_map _

theorem length_reconcile {t : Table} {k : Kernel} {ifname : Text} (h : Rests ifname t k)
    (hlen : t.owned.length ≤ routeMax) (desired : Plan) (peerIp : Addr) (nets : List LocalNet) :
    (reconcile t k ifname desired.routes peerIp nets).2.1.owned.length ≤ routeMax := by
  cases hres : (reconcile t k ifname desired.routes peerIp nets).1 with
  | error e =>
    rw [(perm_of_reconcile_error h hres).length_eq]
    exact hlen
  | ok u =>
    obtain ⟨cs, hkeep⟩ := reconcile_keeps h desired.routes peerIp nets
    obtain ⟨-, -, howned⟩ := owned_of_reconcile_ok h hres
    have hsub : (reconcile t k ifname desired.routes peerIp nets).2.1.dests ifname ⊆
        desired.routes.map (destOf ifname) := by
      intro d hd
      obtain ⟨r, hr, rfl⟩ := List.mem_map.mp hd
      obtain ⟨q, hq, hp, hn⟩ := any_sameRoute_iff.mp
        ((howned r).mp (any_sameRoute_iff.mpr ⟨r, hr, rfl, rfl⟩))
      rw [destOf_eq_of_sameRoute (sameRoute_iff.mpr ⟨hp, hn⟩)]
      exact List.mem_map_of_mem hq
    have hle := (List.subperm_of_subset hkeep.rests.nodup hsub).length_le
    rw [length_dests, List.length_map] at hle
    exact hle.trans desired.length

structure Reached (ifname : Text) (s : Table × Kernel) : Prop where
  rests : Rests ifname s.1 s.2
  length : s.1.owned.length ≤ routeMax

theorem Reached.reconcile {ifname : Text} {s : Table × Kernel} (h : Reached ifname s)
    (desired : Plan) (peerIp : Addr) (nets : List LocalNet) :
    Reached ifname (reconcile s.1 s.2 ifname desired.routes peerIp nets).2 := by
  obtain ⟨cs, hkeep⟩ := reconcile_keeps h.rests desired.routes peerIp nets
  exact ⟨hkeep.rests, length_reconcile h.rests h.length desired peerIp nets⟩

theorem Reached.step {ifname : Text} {s : Table × Kernel} (h : Reached ifname s) (e : Event) :
    Reached ifname (step ifname s e) := by
  cases e with
  | install c cp peerIp nets =>
    show Reached ifname (dataPathInstall s ifname c cp peerIp nets)
    unfold dataPathInstall
    split_ifs
    · exact h
    · exact h.reconcile (planOf c cp) peerIp nets
  | reconcile desired peerIp nets => exact h.reconcile desired peerIp nets
  | teardown =>
    exact ⟨⟨(teardown_deletes h.rests).owns, fun hne => absurd rfl hne⟩, Nat.zero_le _⟩
  | otherAdds d =>
    unfold Tunnel.step
    dsimp only
    split_ifs with hthere
    · exact h
    · rw [not_or] at hthere
      refine ⟨{ h.rests with others := fun d' hd' => ?_ }, h.length⟩
      exact List.not_mem_cons_of_ne_of_not_mem (fun heq => hthere.1 (heq ▸ hd'))
        (h.rests.others d' hd')
  | otherDeletes d =>
    refine ⟨{ h.rests with others := fun d' hd' hmem => ?_ }, h.length⟩
    exact h.rests.others d' hd' (List.mem_of_mem_filter hmem)

theorem Reached.run {ifname : Text} {s : Table × Kernel} (h : Reached ifname s)
    (evs : List Event) : Reached ifname (evs.foldl (Tunnel.step ifname) s) := by
  induction evs generalizing s with
  | nil => exact h
  | cons e evs ih => exact ih (h.step e)

theorem Reached.before (ifname : Text) (others : List Dest) (refuses : ℕ → Option Text) :
    Reached ifname ({}, Kernel.before others refuses) where
  rests := {
    nodup := List.nodup_nil
    ours := fun d => by simp [Kernel.before, Table.dests]
    apart := List.forall_mem_nil _
    others := List.forall_mem_nil _
    name := fun hne => absurd rfl hne }
  length := Nat.zero_le _

/-- After any plans and teardowns, whatever the kernel refused and others did meanwhile: the
daemon's routes in the kernel are those of its table and those it was refused to delete, and the
next call will leave the routes of others as they are. -/
theorem run_owns (ifname : Text) (others : List Dest) (refuses : ℕ → Option Text)
    (evs : List Event) : let s := run ifname (.before others refuses) evs
    Owns ifname s.1 s.2 ∧ s.1.owned.length ≤ routeMax ∧
      (∀ (desired : Plan) peerIp nets,
        (reconcile s.1 s.2 ifname desired.routes peerIp nets).2.2.others = s.2.others) ∧
      (teardown s.1 s.2).1.owned = [] ∧ (teardown s.1 s.2).2.others = s.2.others := by
  have hreach := (Reached.before ifname others refuses).run evs
  refine ⟨hreach.rests.toOwns, hreach.length, fun desired peerIp nets => ?_, rfl, ?_⟩
  · obtain ⟨cs, hkeep⟩ := reconcile_keeps hreach.rests desired.routes peerIp nets
    exact hkeep.calls.others
  · obtain ⟨cs, hcs, -⟩ := (teardown_deletes hreach.rests).calls
    exact hcs.others

/-- A plan is carried out as a whole or not at all, and a route that stays is not deleted for a
moment. One that was carried out has no route to everything, to the gateway or into a network that
the camera is on, and carrying it out again does nothing. -/
theorem reconcile_transaction (ifname : Text) (others : List Dest) (refuses : ℕ → Option Text)
    (evs : List Event) (desired : Plan) (peerIp : Addr) (nets : List LocalNet) :
    let s := run ifname (.before others refuses) evs
    let out := reconcile s.1 s.2 ifname desired.routes peerIp nets
    (∀ e, out.1 = .error e → out.2.1.owned.Perm s.1.owned) ∧
    (out.1 = .ok () →
      (∀ q, out.2.1.owned.any (sameRoute q) = true ↔ desired.routes.any (sameRoute q) = true) ∧
      (∀ r ∈ out.2.1.owned, r.prefixLength ≠ 0 ∧ ¬ r.Catches peerIp ∧
        ∀ n ∈ nets, n.Direct ifname → ∀ p ≤ 32, ∀ x, r.Catches x → ¬ n.Has p x) ∧
      reconcile out.2.1 out.2.2 ifname desired.routes peerIp nets = out) ∧
    ∃ cs, out.2.2.log = cs ++ s.2.log ∧
      ∀ r ∈ s.1.owned, r ∈ out.2.1.owned → ⟨false, destOf ifname r⟩ ∉ cs := by
  intro s out
  have hreach : Reached ifname s := (Reached.before ifname others refuses).run evs
  refine ⟨fun e => perm_of_reconcile_error hreach.rests, fun hok => ?_, ?_⟩
  · obtain ⟨hval, hname, howned⟩ := owned_of_reconcile_ok hreach.rests hok
    refine ⟨howned, fun r hr => ?_, ?_⟩
    · obtain ⟨d, hd, hp, hn⟩ := any_sameRoute_iff.mp
        ((howned r).mp (any_sameRoute_iff.mpr ⟨r, hr, rfl, rfl⟩))
      obtain ⟨hfull, hip, hlocal⟩ := validate_ok hval d hd
      have hp32 : r.prefixLength ≤ 32 := hp ▸ desired.prefixes d hd
      refine ⟨hp ▸ hfull, ?_, fun n hmem hdirect p hple x hx => ?_⟩
      · rw [← containsIp_iff, Bool.not_eq_true, ← hip, containsIp, containsIp, hp, hn]
      · have hfree : collides ifname r n = false := by
          rw [← hlocal n hmem, collides, collides, hp, hn]
        exact not_has_of_not_collides hfree hdirect hp32 hple hx
    · rw [show reconcile out.2.1 out.2.2 ifname desired.routes peerIp nets = _ from
        reconcile_again hval hname howned, ← hok]
  · obtain ⟨cs, hkeep⟩ := reconcile_keeps hreach.rests desired.routes peerIp nets
    exact ⟨cs, hkeep.calls.log, hkeep.spared⟩

end Machino.Tunnel
