import Machino.Ipsec.EspSession
import Machino.Ipsec.TunnelSelectors

namespace Machino.DataPath

open Bytes Esp Tunnel

/-- What a datagram on port 4500 is. -/
inductive NattDatagram where
  | keepalive | ike | esp | malformed
  deriving DecidableEq

def nattClassify (dg : Bytes) : NattDatagram :=
  if dg = [0xff] then .keepalive
  else if dg.take 4 = [0, 0, 0, 0] then if dg.length ≤ 4 then .malformed else .ike
  else if 8 ≤ dg.length then .esp
  else .malformed

/-- A child SA: its selectors and its keys. -/
structure Child extends ChildSa where
  localTs : Ts
  keys : ChildKeys

structure Daemon where
  esp : Option EspSession := none
  child : Option Child := none

def tsContainsV4 (ts : Ts) (ip : Addr) : Bool :=
  ts.family = 4 && decide (ts.start ≤ ip) && decide (ip ≤ ts.stop)

def childRemoteContains (c : ChildSa) (ip : Addr) : Bool :=
  if c.remoteTsList = [] then tsContainsV4 c.remoteTs ip
  else c.remoteTsList.any fun ts => tsContainsV4 ts ip

def ipAt (p : Bytes) (i : ℕ) : Addr := BitVec.ofNat 32 (be32 p i)

/-- The packet is IPv4 and goes from the camera's selector to the peer's. -/
def mayLeave (child : Option Child) (plain : Bytes) : Bool :=
  match child with
  | none => false
  | some c => decide (20 ≤ plain.length) && byte plain 0 / 16 = 4 &&
      tsContainsV4 c.localTs (ipAt plain 12) && childRemoteContains c.toChildSa (ipAt plain 16)

/-- The packet is IPv4 and goes from the peer's selector to the camera's. -/
def mayEnter (child : Option Child) (plain : Bytes) : Bool :=
  match child with
  | none => false
  | some c => decide (20 ≤ plain.length) && byte plain 0 / 16 = 4 &&
      childRemoteContains c.toChildSa (ipAt plain 12) && tsContainsV4 c.localTs (ipAt plain 16)

/-- A packet from the TUN device, and what is sent for it. -/
def pumpTun (c : Crypto) (d : Daemon) (plain : Bytes) (random : Option (Vector UInt8 16)) :
    Daemon × Option Bytes :=
  match d.esp with
  | none => (d, none)
  | some s =>
    if mayLeave d.child plain then
      match espSessionSeal c s 4 plain random espMaxPacket with
      | (s, .ok packet) => ({ d with esp := some s }, some packet)
      | (s, .error _) => ({ d with esp := some s }, none)
    else (d, none)

/-- A datagram, and what is written to the TUN device for it. -/
def onUdp4500 (c : Crypto) (d : Daemon) (dg : Bytes) : Daemon × Option Bytes :=
  if nattClassify dg = .esp then
    match d.esp with
    | none => (d, none)
    | some s =>
      match espSessionOpen c s dg espMaxPacket with
      | (s, none) => ({ d with esp := some s }, none)
      | (s, some (nh, plain)) =>
        ({ d with esp := some s },
          if nh = 4 && mayEnter d.child plain then some plain else none)
  else (d, none)

/-- A child SA that the suite has no session for takes the old one down. -/
def espRefresh (c : Crypto) (d : Daemon) (child : Child) : Daemon :=
  match espSessionInit c child.keys with
  | none => { d with esp := none }
  | some s => { esp := some s, child := some child }

/-- A packet that was carried under a child SA. -/
structure Carried where
  gen : ℕ
  child : Child
  what : Sealed

/-- The daemon and the other end of its present SA, and what they have done so far. -/
structure World where
  gen : ℕ := 0
  daemon : Daemon := {}
  gateway : Option EspSession := none
  /-- What the gateway has sealed. -/
  sealed : List (ℕ × Sealed) := []
  /-- The numbers that the daemon has taken in under the present SA. -/
  taken : List ℕ := []
  written : List Carried := []
  sent : List Carried := []

inductive Event where
  /-- A child SA was negotiated. -/
  | refresh (child : Child)
  | teardown
  | gateway (nh : UInt8) (payload : Bytes) (random : Option (Vector UInt8 16)) (cap : ℕ)
  | udp (dg : Bytes)
  | tun (plain : Bytes) (random : Option (Vector UInt8 16))

/-- Whether a session takes in the number of a datagram. -/
def takes (c : Crypto) (d : Daemon) (dg : Bytes) : Bool :=
  match d.esp with
  | none => false
  | some s => nattClassify dg = .esp && (espSessionOpen c s dg espMaxPacket).2.isSome

def step (c : Crypto) (w : World) : Event → World
  | .refresh child => { w with
      gen := w.gen + 1
      daemon := espRefresh c w.daemon child
      gateway := espSessionInit c child.keys.mirror
      taken := [] }
  | .teardown => { w with daemon := {} }
  | .gateway nh payload random cap =>
    match w.gateway with
    | none => w
    | some g =>
      match espSessionSeal c g nh payload random cap with
      | (g', .error _) => { w with gateway := some g' }
      | (g', .ok packet) => { w with
          gateway := some g'
          sealed := (w.gen, ⟨packet, g.txSeq.next, nh, payload⟩) :: w.sealed }
  | .udp dg =>
    let (daemon, out) := onUdp4500 c w.daemon dg
    { w with
      daemon
      taken := if takes c w.daemon dg then be32 dg 4 :: w.taken else w.taken
      written := match out, w.daemon.child with
        | some plain, some child => ⟨w.gen, child, dg, be32 dg 4, 4, plain⟩ :: w.written
        | _, _ => w.written }
  | .tun plain random =>
    let (daemon, out) := pumpTun c w.daemon plain random
    { w with
      daemon
      sent := match out, w.daemon.esp, w.daemon.child with
        | some packet, some s, some child =>
          ⟨w.gen, child, packet, s.txSeq.next, 4, plain⟩ :: w.sent
        | _, _, _ => w.sent }

def run (c : Crypto) : World → List Event → World := List.foldl (step c)

/-- A datagram that has the ICV of the present SA was sealed under it: what a network does that
repeats, reorders, drops and makes up what it likes, and cannot forge. -/
def Unforged (c : Crypto) : World → List Event → Prop
  | _, [] => True
  | w, e :: evs =>
    (∀ dg, e = .udp dg → ∀ s, w.daemon.esp = some s → Verifies c s.inbound dg →
      ∃ p, (w.gen, p) ∈ w.sealed ∧ p.packet = dg) ∧ Unforged c (step c w e) evs

/-- What was sealed under one SA. -/
def under (gen : ℕ) (l : List (ℕ × Sealed)) : List Sealed :=
  l.filterMap fun q => if q.1 = gen then some q.2 else none

theorem mem_under {gen : ℕ} {l : List (ℕ × Sealed)} {p : Sealed} :
    p ∈ under gen l ↔ (gen, p) ∈ l := by
  simp [under, List.mem_filterMap]

theorem under_eq_nil {gen : ℕ} {l : List (ℕ × Sealed)} (h : ∀ q ∈ l, q.1 < gen) :
    under gen l = [] := by
  rw [List.eq_nil_iff_forall_not_mem]
  intro p hp
  exact Nat.lt_irrefl gen (h _ (mem_under.mp hp))

theorem under_cons (gen : ℕ) (p : Sealed) (l : List (ℕ × Sealed)) :
    under gen ((gen, p) :: l) = p :: under gen l := by
  simp [under]

def Carried.under (x : Carried) : ℕ × Sealed := (x.gen, x.what)

/-- What holds of the daemon's session and of the gateway's. -/
structure Linked (c : Crypto) (w : World) : Prop where
  keys : ∀ s, w.daemon.esp = some s → ∃ child, w.daemon.child = some child ∧
    s.inbound = child.keys.inbound ∧ s.outbound = child.keys.outbound
  ends : ∀ s g, w.daemon.esp = some s → w.gateway = some g → g.outbound = s.inbound
  gateway : ∀ g, w.gateway = some g → Sends c g (under w.gen w.sealed)
  noGateway : w.gateway = none → under w.gen w.sealed = []
  sends : ∀ s, w.daemon.esp = some s → Sends c s (under w.gen (w.sent.map Carried.under))
  receives : ∀ s, w.daemon.esp = some s → Receives s w.taken

/-- What was written to the TUN device was sealed by the gateway, and is written once. -/
structure Entered (w : World) : Prop where
  gen : ∀ x ∈ w.written, x.gen ≤ w.gen
  taken : ∀ x ∈ w.written, x.gen = w.gen → x.what.seq ∈ w.taken
  once : (w.written.map fun x => (x.gen, x.what.seq)).Nodup
  genuine : ∀ x ∈ w.written, x.under ∈ w.sealed ∧ x.what.nextHeader = 4 ∧
    mayEnter (some x.child) x.what.payload = true

/-- What was sent into the tunnel came from the camera, and opens at the other end. -/
structure Left (c : Crypto) (w : World) : Prop where
  gen : ∀ x ∈ w.sent, x.gen ≤ w.gen
  once : (w.sent.map fun x => (x.gen, x.what.seq)).Nodup
  opens : ∀ x ∈ w.sent, mayLeave (some x.child) x.what.payload = true ∧
    espOpenScratch c x.child.keys.outbound x.what.packet = some (x.what.seq, 4, x.what.payload)

structure Inv (c : Crypto) (w : World) : Prop where
  sealedGen : ∀ q ∈ w.sealed, q.1 ≤ w.gen
  linked : Linked c w
  entered : Entered w
  left : Left c w

theorem Inv.init (c : Crypto) : Inv c {} where
  sealedGen := List.forall_mem_nil _
  linked := ⟨nofun, nofun, nofun, fun _ => rfl, nofun, nofun⟩
  entered := ⟨List.forall_mem_nil _, List.forall_mem_nil _, List.nodup_nil, List.forall_mem_nil _⟩
  left := ⟨List.forall_mem_nil _, List.nodup_nil, List.forall_mem_nil _⟩

namespace Inv

variable {c : Crypto} {w : World}

theorem refresh (h : Inv c w) (child : Child) : Inv c (step c w (.refresh child)) where
  sealedGen q hq := Nat.le_succ_of_le (h.sealedGen q hq)
  linked := by
    have hsealed : under (w.gen + 1) w.sealed = [] :=
      under_eq_nil fun q hq => Nat.lt_succ_of_le (h.sealedGen q hq)
    have hsent : under (w.gen + 1) (w.sent.map Carried.under) = [] := by
      refine under_eq_nil fun q hq => ?_
      obtain ⟨x, hx, rfl⟩ := List.mem_map.mp hq
      exact Nat.lt_succ_of_le (h.left.gen x hx)
    have hinit {k : ChildKeys} {s : EspSession} (hs : espSessionInit c k = some s) :
        s = { inbound := k.inbound, outbound := k.outbound } := espSessionInit_some hs
    have hesp {s : EspSession} (hs : (espRefresh c w.daemon child).esp = some s) :
        espSessionInit c child.keys = some s ∧
          (espRefresh c w.daemon child).child = some child := by
      unfold espRefresh at hs ⊢
      cases hkeys : espSessionInit c child.keys with
      | none =>
        rw [hkeys] at hs
        exact absurd hs nofun
      | some s' =>
        rw [hkeys] at hs
        exact ⟨hs, rfl⟩
    refine ⟨fun s hs => ?_, fun s g hs hg => ?_, fun g hg => ?_, fun _ => hsealed,
      fun s hs => ?_, fun s hs => ?_⟩
    · obtain ⟨hkeys, hchild⟩ := hesp hs
      rw [hinit hkeys]
      exact ⟨child, hchild, rfl, rfl⟩
    · rw [hinit (hesp hs).1, hinit hg]
      rfl
    · show Sends c g (under (w.gen + 1) w.sealed)
      rw [hsealed]
      refine Sends.fresh c ?_
      rw [hinit hg]
    · show Sends c s (under (w.gen + 1) (w.sent.map Carried.under))
      rw [hsent]
      refine Sends.fresh c ?_
      rw [hinit (hesp hs).1]
    · refine Receives.fresh ?_
      rw [hinit (hesp hs).1]
  entered := {
    gen := fun x hx => Nat.le_succ_of_le (h.entered.gen x hx)
    taken := fun x hx heq => absurd (h.entered.gen x hx) (by
      have hgen : x.gen = w.gen + 1 := heq
      omega)
    once := h.entered.once
    genuine := h.entered.genuine }
  left := ⟨fun x hx => Nat.le_succ_of_le (h.left.gen x hx), h.left.once, h.left.opens⟩

theorem teardown (h : Inv c w) : Inv c (step c w .teardown) where
  sealedGen := h.sealedGen
  linked := ⟨nofun, nofun, h.linked.gateway, h.linked.noGateway, nofun, nofun⟩
  entered := ⟨h.entered.gen, h.entered.taken, h.entered.once, h.entered.genuine⟩
  left := ⟨h.left.gen, h.left.once, h.left.opens⟩

theorem gateway (hc : c.Lawful) (h : Inv c w) (nh : UInt8) (payload : Bytes)
    (random : Option (Vector UInt8 16)) (cap : ℕ) :
    Inv c (step c w (.gateway nh payload random cap)) := by
  unfold step
  cases hg : w.gateway with
  | none => exact h
  | some g =>
    obtain ⟨_, hout, _, hsends⟩ := (h.linked.gateway g hg).seal hc nh payload random cap
    dsimp only
    generalize espSessionSeal c g nh payload random cap = res at hout hsends
    obtain ⟨g', res⟩ := res
    have hends : ∀ s g'', w.daemon.esp = some s → some g' = some g'' →
        g''.outbound = s.inbound := by
      rintro s _ hs ⟨⟩
      exact (show g'.outbound = g.outbound from hout).trans (h.linked.ends s g hs hg)
    cases res with
    | error e =>
      refine ⟨h.sealedGen, { h.linked with ends := hends, gateway := ?_, noGateway := nofun },
        ⟨h.entered.gen, h.entered.taken, h.entered.once, h.entered.genuine⟩,
        ⟨h.left.gen, h.left.once, h.left.opens⟩⟩
      rintro _ ⟨⟩
      exact hsends
    | ok packet =>
      refine ⟨List.forall_mem_cons.mpr ⟨Nat.le_refl _, h.sealedGen⟩,
        { h.linked with ends := hends, gateway := ?_, noGateway := nofun },
        ⟨h.entered.gen, h.entered.taken, h.entered.once, fun x hx => ?_⟩,
        ⟨h.left.gen, h.left.once, h.left.opens⟩⟩
      · rintro _ ⟨⟩
        show Sends c g' (under w.gen ((w.gen, _) :: w.sealed))
        rw [under_cons]
        exact hsends
      · obtain ⟨hmem, hgate⟩ := h.entered.genuine x hx
        exact ⟨List.mem_cons_of_mem _ hmem, hgate⟩

end Inv

/-- What a datagram that is not forged comes to: nothing, or a packet of the gateway under the
present SA whose number the window lets in. -/
theorem onUdp4500_cases {c : Crypto} {w : World} (h : Inv c w) {dg : Bytes}
    (hun : ∀ s, w.daemon.esp = some s → Verifies c s.inbound dg →
      ∃ p, (w.gen, p) ∈ w.sealed ∧ p.packet = dg) :
    onUdp4500 c w.daemon dg = (w.daemon, none) ∧ takes c w.daemon dg = false ∨
    ∃ s p rxReplay, w.daemon.esp = some s ∧ (w.gen, p) ∈ w.sealed ∧ p.packet = dg ∧
      be32 dg 4 = p.seq ∧ p.seq ∉ w.taken ∧ takes c w.daemon dg = true ∧
      Receives { s with rxReplay } (p.seq :: w.taken) ∧
      onUdp4500 c w.daemon dg = ({ w.daemon with esp := some { s with rxReplay } },
        if p.nextHeader = 4 && mayEnter w.daemon.child p.payload then some p.payload else none) := by
  unfold onUdp4500 takes
  by_cases hesp : nattClassify dg = .esp
  swap
  · left
    rw [if_neg hesp]
    cases w.daemon.esp with
    | none => exact ⟨rfl, rfl⟩
    | some s =>
      refine ⟨rfl, ?_⟩
      dsimp only
      rw [decide_eq_false hesp, Bool.false_and]
  rw [if_pos hesp]
  cases hs : w.daemon.esp with
  | none => exact .inl ⟨rfl, rfl⟩
  | some s =>
    have hsame : (⟨some s, w.daemon.child⟩ : Daemon) = w.daemon := by rw [← hs]
    dsimp only
    by_cases hver : Verifies c s.inbound dg
    swap
    · left
      rw [espSessionOpen_of_not_verifies hver]
      dsimp only
      rw [hsame]
      exact ⟨rfl, Bool.and_false _⟩
    obtain ⟨p, hp, rfl⟩ := hun s hs hver
    cases hg : w.gateway with
    | none =>
      have hnil := h.linked.noGateway hg
      exact absurd (mem_under.mpr hp) (hnil ▸ List.not_mem_nil)
    | some g =>
      have hgate := h.linked.gateway g hg
      have hgen := hgate.genuine p (mem_under.mpr hp)
      rw [h.linked.ends s g hs hg] at hgen
      rcases (h.linked.receives s hs).open_genuine hgen (hgate.below p (mem_under.mpr hp)).2 with
        ⟨hlets, rxReplay, hopen, hrec⟩ | ⟨_, hopen⟩
      · right
        refine ⟨s, p, rxReplay, rfl, hp, rfl, hgen.seq, hlets.new, ?_, hrec, ?_⟩
        · rw [decide_eq_true hesp, hopen]
          rfl
        · rw [hopen]
      · left
        rw [hopen]
        dsimp only
        rw [hsame]
        exact ⟨rfl, Bool.and_false _⟩

namespace Inv

variable {c : Crypto} {w : World}

theorem udp (h : Inv c w) {dg : Bytes} (hun : ∀ s, w.daemon.esp = some s →
    Verifies c s.inbound dg → ∃ p, (w.gen, p) ∈ w.sealed ∧ p.packet = dg) :
    Inv c (step c w (.udp dg)) := by
  unfold step
  rcases onUdp4500_cases h hun with ⟨hout, htakes⟩ |
    ⟨s, p, rxReplay, hs, hp, hpacket, hseq, hnew, htakes, hrec, hout⟩
  · dsimp only
    rw [hout, htakes]
    exact h
  · obtain ⟨child, hchild, hkeys⟩ := h.linked.keys s hs
    have hlinked : Linked c { w with
        daemon := { w.daemon with esp := some { s with rxReplay } }
        taken := p.seq :: w.taken } := by
      refine { h.linked with keys := ?_, ends := ?_, sends := ?_, receives := ?_ }
      · rintro _ ⟨⟩
        exact ⟨child, hchild, hkeys⟩
      · rintro _ g ⟨⟩ hg
        exact h.linked.ends s g hs hg
      · rintro _ ⟨⟩
        have hsends := h.linked.sends s hs
        exact ⟨hsends.next, hsends.pos, hsends.below, hsends.distinct, hsends.genuine⟩
      · rintro _ ⟨⟩
        exact hrec
    dsimp only
    rw [hout, htakes, hseq, hchild]
    dsimp only
    rw [if_pos rfl]
    have htaken : ∀ x ∈ w.written, x.gen = w.gen → x.what.seq ∈ p.seq :: w.taken :=
      fun x hx hgen => List.mem_cons_of_mem _ (h.entered.taken x hx hgen)
    split_ifs with hgate
    · rw [Bool.and_eq_true, decide_eq_true_eq] at hgate
      have hwhat : (⟨dg, p.seq, 4, p.payload⟩ : Sealed) = p := by
        rw [← hpacket, ← hgate.1]
      refine ⟨h.sealedGen, ⟨hlinked.keys, hlinked.ends, hlinked.gateway, hlinked.noGateway,
        hlinked.sends, hlinked.receives⟩, ⟨?_, ?_, ?_, ?_⟩,
        ⟨h.left.gen, h.left.once, h.left.opens⟩⟩
      · exact List.forall_mem_cons.mpr ⟨Nat.le_refl _, h.entered.gen⟩
      · exact List.forall_mem_cons.mpr ⟨fun _ => List.mem_cons_self, htaken⟩
      · refine List.nodup_cons.mpr ⟨fun hmem => ?_, h.entered.once⟩
        obtain ⟨x, hx, heq⟩ := List.mem_map.mp hmem
        obtain ⟨hgen, hnum⟩ := Prod.mk.inj heq
        exact hnew (hnum ▸ h.entered.taken x hx hgen)
      · refine List.forall_mem_cons.mpr ⟨⟨?_, rfl, hgate.2⟩, h.entered.genuine⟩
        show (w.gen, (⟨dg, p.seq, 4, p.payload⟩ : Sealed)) ∈ w.sealed
        rw [hwhat]
        exact hp
    · exact ⟨h.sealedGen, ⟨hlinked.keys, hlinked.ends, hlinked.gateway, hlinked.noGateway,
        hlinked.sends, hlinked.receives⟩, ⟨h.entered.gen, htaken, h.entered.once,
        h.entered.genuine⟩, ⟨h.left.gen, h.left.once, h.left.opens⟩⟩

theorem tun (hc : c.Lawful) (h : Inv c w) (plain : Bytes) (random : Option (Vector UInt8 16)) :
    Inv c (step c w (.tun plain random)) := by
  unfold step pumpTun
  cases hs : w.daemon.esp with
  | none => exact h
  | some s =>
    obtain ⟨child, hchild, hinb, houtb⟩ := h.linked.keys s hs
    dsimp only
    rw [hchild]
    by_cases hgate : mayLeave (some child) plain = true
    swap
    · rw [if_neg hgate]
      exact h
    rw [if_pos hgate]
    obtain ⟨hin, hout, hrx, hsends⟩ := (h.linked.sends s hs).seal hc 4 plain random espMaxPacket
    generalize espSessionSeal c s 4 plain random espMaxPacket = res at hin hout hrx hsends
    obtain ⟨s', res⟩ := res
    have hkeys : ∀ s'', some s' = some s'' → ∃ child', some child = some child' ∧
        s''.inbound = child'.keys.inbound ∧ s''.outbound = child'.keys.outbound := by
      rintro _ ⟨⟩
      exact ⟨child, rfl, hin.trans hinb, hout.trans houtb⟩
    have hends : ∀ s'' g, some s' = some s'' → w.gateway = some g → g.outbound = s''.inbound := by
      rintro _ g ⟨⟩ hg
      exact (h.linked.ends s g hs hg).trans hin.symm
    have hrec : ∀ s'', some s' = some s'' → Receives s'' w.taken := by
      rintro _ ⟨⟩
      have hold := h.linked.receives s hs
      refine ⟨?_, hold.once⟩
      rw [show s'.rxReplay = s.rxReplay from hrx]
      exact hold.window
    cases res with
    | error e =>
      refine ⟨h.sealedGen, ⟨hkeys, hends, h.linked.gateway, h.linked.noGateway, ?_, hrec⟩,
        ⟨h.entered.gen, h.entered.taken, h.entered.once, h.entered.genuine⟩,
        ⟨h.left.gen, h.left.once, h.left.opens⟩⟩
      rintro _ ⟨⟩
      exact hsends
    | ok packet =>
      have hnew : Sends c s' (⟨packet, s.txSeq.next, 4, plain⟩ ::
          under w.gen (w.sent.map Carried.under)) := hsends
      refine ⟨h.sealedGen, ⟨hkeys, hends, h.linked.gateway, h.linked.noGateway, ?_, hrec⟩,
        ⟨h.entered.gen, h.entered.taken, h.entered.once, h.entered.genuine⟩, ⟨?_, ?_, ?_⟩⟩
      · rintro _ ⟨⟩
        show Sends c s' (under w.gen ((w.gen, _) :: w.sent.map Carried.under))
        rw [under_cons]
        exact hnew
      · exact List.forall_mem_cons.mpr ⟨Nat.le_refl _, h.left.gen⟩
      · refine List.nodup_cons.mpr ⟨fun hmem => ?_, h.left.once⟩
        obtain ⟨x, hx, heq⟩ := List.mem_map.mp hmem
        obtain ⟨hgen, hnum⟩ := Prod.mk.inj heq
        have hin' : x.what ∈ under w.gen (w.sent.map Carried.under) :=
          mem_under.mpr (List.mem_map.mpr ⟨x, hx, by rw [Carried.under, hgen]⟩)
        exact (List.nodup_cons.mp hnew.distinct).1 (hnum ▸ List.mem_map_of_mem hin')
      · refine List.forall_mem_cons.mpr ⟨⟨hgate, ?_⟩, h.left.opens⟩
        have hopens := (hnew.genuine _ List.mem_cons_self).opens
        rw [show s'.outbound = s.outbound from hout, houtb] at hopens
        exact hopens

theorem step (hc : c.Lawful) (h : Inv c w) {e : Event} (hun : ∀ dg, e = .udp dg →
    ∀ s, w.daemon.esp = some s → Verifies c s.inbound dg →
      ∃ p, (w.gen, p) ∈ w.sealed ∧ p.packet = dg) : Inv c (step c w e) := by
  cases e with
  | refresh child => exact h.refresh child
  | teardown => exact h.teardown
  | gateway nh payload random cap => exact h.gateway hc nh payload random cap
  | udp dg => exact h.udp (hun dg rfl)
  | tun plain random => exact h.tun hc plain random

theorem run (hc : c.Lawful) (h : Inv c w) {evs : List Event} (hun : Unforged c w evs) :
    Inv c (run c w evs) := by
  induction evs generalizing w with
  | nil => exact h
  | cons e evs ih => exact ih (h.step hc hun.1) hun.2

end Inv

/-- Whatever the network repeats, reorders, drops and makes up without a right ICV, and over any new
child SAs: what is written to the TUN device is what the gateway sealed, each packet once at most,
and lets in only IPv4 between the selectors; what is sent goes out under a number of its own, is
IPv4 between the selectors, and opens at the other end to what the camera sent. -/
theorem dataPath_safe {c : Crypto} (hc : c.Lawful) {evs : List Event} (hun : Unforged c {} evs) :
    let w := run c {} evs
    (w.written.map Carried.under).Subperm w.sealed ∧
    (∀ x ∈ w.written, x.what.nextHeader = 4 ∧ mayEnter (some x.child) x.what.payload = true) ∧
    (w.sent.map fun x => (x.gen, x.what.seq)).Nodup ∧
    ∀ x ∈ w.sent, mayLeave (some x.child) x.what.payload = true ∧
      espOpenScratch c x.child.keys.outbound x.what.packet =
        some (x.what.seq, 4, x.what.payload) := by
  have h := (Inv.init c).run hc hun
  refine ⟨List.subperm_of_subset ?_ ?_, fun x hx => (h.entered.genuine x hx).2, h.left.once,
    h.left.opens⟩
  · have honce := h.entered.once
    rw [show (fun x : Carried => (x.gen, x.what.seq)) =
      (fun q : ℕ × Sealed => (q.1, q.2.seq)) ∘ Carried.under from rfl, ← List.map_map] at honce
    exact honce.of_map
  · intro q hq
    obtain ⟨x, hx, rfl⟩ := List.mem_map.mp hq
    exact (h.entered.genuine x hx).1

/-- An inner packet from 10.0.0.1 to 192.168.1.5, and what becomes of it under the keys below. -/
def innerPacket : Bytes := [0x45, 0, 0, 20, 0, 0, 0, 0, 64, 1, 0, 0, 10, 0, 0, 1, 192, 168, 1, 5]

def innerCiphertext : Bytes :=
  [0, 255, 222, 95, 183, 160, 198, 48, 50, 228, 70, 125, 40, 220, 21, 99,
    159, 97, 150, 171, 218, 154, 101, 78, 11, 4, 21, 130, 138, 96, 34, 218]

def threes : Vector UInt8 16 := Vector.replicate 16 3

def innerFront : Bytes := ofBe32 0x1001 ++ ofBe32 1 ++ threes.toList ++ innerCiphertext

def innerMac : Bytes :=
  [34, 229, 186, 143, 108, 2, 135, 204, 22, 184, 145, 208, 94, 39, 218, 175, 200, 168, 182, 241]

/-- AES-CBC and HMAC-SHA1 at that packet, and a backend that fails everywhere else. -/
def onePacket : Crypto where
  aesCbc enc key iv x :=
    if key = List.replicate 16 1 ∧ iv = threes.toList then
      if enc ∧ x = plaintext 4 innerPacket then some innerCiphertext
      else if !enc ∧ x = innerCiphertext then some (plaintext 4 innerPacket)
      else none
    else none
  hmacSha1 := some fun key m =>
    if key = List.replicate 20 2 ∧ m = innerFront then some innerMac else none
  hmacSha256 := none
  hmacSha384 := none
  hmacSha512 := none

theorem lawful_onePacket : onePacket.Lawful where
  cbc key iv x y hkey hmod h := by
    unfold onePacket at h ⊢
    dsimp only at h ⊢
    split_ifs at h with hat hx hx'
    · obtain rfl := Option.some.inj h
      rw [hx.2, if_pos hat]
      exact ⟨by decide, rfl⟩
    · exact absurd hx'.1 (by decide)
  integ n hmac icvLen h key m full hfull := by
    unfold espIntegSelect at h
    split at h
    · exact absurd h nofun
    · obtain ⟨rfl, rfl⟩ := Prod.mk.inj (Option.some.inj h)
      dsimp only at hfull
      split_ifs at hfull
      obtain rfl := Option.some.inj hfull
      decide
    · exact absurd h nofun
    · exact absurd h nofun
    · exact absurd h nofun

def oneChild : Child where
  remoteTs := ⟨4, 0x0a000000, 0x0affffff⟩
  remoteTsList := []
  localTs := ⟨4, 0xc0a80105, 0xc0a80105⟩
  keys := {
    encr := 12
    integ := 2
    inbound := ⟨0x1001, List.replicate 16 1, List.replicate 20 2⟩
    outbound := ⟨0x2002, List.replicate 16 1, List.replicate 20 2⟩ }

def innerEsp : Bytes := innerFront ++ innerMac.take 12

/-- The packet is sealed, and delivered twice. -/
def replayed : List Event :=
  [.refresh oneChild, .gateway 4 innerPacket (some threes) espMaxPacket, .udp innerEsp,
    .udp innerEsp]

theorem unforged_replayed : Unforged onePacket {} replayed := by
  refine ⟨nofun, nofun, ?_, ?_, trivial⟩
  · rintro _ ⟨⟩ s _ _
    exact ⟨_, List.mem_cons_self, rfl⟩
  · rintro _ ⟨⟩ s _ _
    exact ⟨_, List.mem_cons_self, rfl⟩

theorem dataPath_safe_replayed :
    (run onePacket {} replayed).written.map (·.what.payload) = [innerPacket] ∧
    ((run onePacket {} replayed).written.map Carried.under).Subperm
      (run onePacket {} replayed).sealed :=
  ⟨by decide +kernel, (dataPath_safe lawful_onePacket unforged_replayed).1⟩

/-- A datagram with an SPI that is not 0 is not taken for one of IKE. -/
theorem nattClassify_esp_iff {dg : Bytes} (hlen : 8 ≤ dg.length) :
    nattClassify dg = .esp ↔ be32 dg 0 ≠ 0 := by
  have hkeep : dg ≠ [0xff] := by
    rintro rfl
    exact absurd hlen (by decide)
  have hzero : dg.take 4 = [0, 0, 0, 0] ↔ be32 dg 0 = 0 := by
    obtain ⟨a, b, d, e, rest, rfl⟩ : ∃ a b d e rest, dg = a :: b :: d :: e :: rest := by
      match dg, hlen with
      | a :: b :: d :: e :: rest, _ => exact ⟨a, b, d, e, rest, rfl⟩
    have hbe : be32 (a :: b :: d :: e :: rest) 0 =
        (a.toNat * 2 ^ 8 + b.toNat) * 2 ^ 16 + (d.toNat * 2 ^ 8 + e.toNat) := rfl
    have hall (x : UInt8) : x = 0 ↔ x.toNat = 0 := by
      rw [← UInt8.toNat_inj]
      rfl
    rw [hbe]
    simp only [List.take_succ_cons, List.take_zero, List.cons.injEq, and_true, hall]
    omega
  unfold nattClassify
  rw [if_neg hkeep, Ne, ← hzero]
  split_ifs with h4 hshort
  · omega
  · exact iff_of_false nofun (not_not.mpr h4)
  · exact iff_of_true rfl h4

/-- A packet of the gateway under the present SA is written exactly when its number is in the
window and new, and it is one that may enter. -/
theorem onUdp4500_genuine {c : Crypto} (hc : c.Lawful) {evs : List Event}
    (hun : Unforged c {} evs) : let w := run c {} evs
    ∀ s, w.daemon.esp = some s → ∀ p, (w.gen, p) ∈ w.sealed →
      ((onUdp4500 c w.daemon p.packet).2 = some p.payload ↔
        s.inbound.spi ≠ 0 ∧ Receives.Lets s w.taken p.seq ∧ p.nextHeader = 4 ∧
          mayEnter w.daemon.child p.payload = true) := by
  have h := (Inv.init c).run hc hun
  intro w s hs p hp
  change Inv c w at h
  cases hg : w.gateway with
  | none => exact absurd (mem_under.mpr hp) (h.linked.noGateway hg ▸ List.not_mem_nil)
  | some g =>
    have hgate := h.linked.gateway g hg
    have hgen := hgate.genuine p (mem_under.mpr hp)
    rw [h.linked.ends s g hs hg] at hgen
    have hesp := nattClassify_esp_iff hgen.length
    rw [hgen.spi, ← UInt32.toNat_zero, Ne, UInt32.toNat_inj] at hesp
    unfold onUdp4500
    by_cases hnatt : nattClassify p.packet = .esp
    swap
    · rw [if_neg hnatt]
      exact iff_of_false nofun fun hall => hnatt (hesp.mpr hall.1)
    rw [if_pos hnatt, hs]
    dsimp only
    rcases (h.linked.receives s hs).open_genuine hgen (hgate.below p (mem_under.mpr hp)).2 with
      ⟨hlets, rxReplay, hopen, -⟩ | ⟨hlets, hopen⟩
    · rw [hopen]
      dsimp only
      split_ifs with hmay
      · rw [Bool.and_eq_true, decide_eq_true_eq] at hmay
        exact iff_of_true rfl ⟨hesp.mp hnatt, hlets, hmay⟩
      · rw [Bool.and_eq_true, decide_eq_true_eq] at hmay
        exact iff_of_false nofun fun hall => hmay hall.2.2
    · rw [hopen]
      exact iff_of_false nofun fun hall => hlets hall.2.1

/-- Once the packet has been written, it would not be written again. -/
theorem onUdp4500_genuine_replayed :
    ¬ (onUdp4500 onePacket (run onePacket {} replayed).daemon innerEsp).2 = some innerPacket := by
  have hiff := onUdp4500_genuine lawful_onePacket unforged_replayed _ rfl _ List.mem_cons_self
  exact fun h => (hiff.mp h).2.1.new List.mem_cons_self

end Machino.DataPath
