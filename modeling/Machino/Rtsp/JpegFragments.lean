import Mathlib.Data.List.Sort
import Machino.Rtsp.RtpJpeg

namespace Machino.Rtsp

open Bytes

/-- Whether a type says that there are restart markers. -/
def hasRestart (type : UInt8) : Bool := 64 ≤ type

/-- The offset has 24 bits, and the sizes one byte each. -/
def jpegHeader (f : JpegFrame) (off : ℕ) : Bytes :=
  [0, UInt8.ofNat (off / 2 ^ 16), UInt8.ofNat (off / 2 ^ 8), UInt8.ofNat off, f.type, 255,
    UInt8.ofNat (f.width / 8), UInt8.ofNat (f.height / 8)] ++
  -- the restart interval, and that the packets are one frame
  (if hasRestart f.type then ofBe16 f.restartInterval ++ [0xff, 0xff] else []) ++
  (if off = 0 then [0, 0] ++ ofBe16 f.qtables.length ++ f.qtables else [])

/-- How much of the scan goes into the packet that starts at `off`. -/
def takeAt (f : JpegFrame) (mtu off : ℕ) : ℕ :=
  min (mtu - (jpegHeader f off).length) (f.scan.length - off)

/-- The loop over the packets; it ends too where the headers leave no room. -/
def payloadsFrom (f : JpegFrame) (mtu off : ℕ) : List Bytes :=
  let take := takeAt f mtu off
  (jpegHeader f off ++ (f.scan.drop off).take take) ::
    if take ≠ 0 ∧ off + take < f.scan.length then payloadsFrom f mtu (off + take) else []
termination_by f.scan.length - off

def jpegRtpPayloads (f : JpegFrame) (mtu : ℕ) : List Bytes := payloadsFrom f mtu 0

/-- What `send_jpeg` sends: the payloads, each with its marker. -/
def sendJpeg (f : JpegFrame) (mtu : ℕ) : List (Bytes × Bool) :=
  let pk := jpegRtpPayloads f mtu
  pk.mapIdx fun i p => (p, i + 1 = pk.length)

/-- The length of the headers that every packet has. -/
def fixedLength (type : UInt8) : ℕ := 8 + if hasRestart type then 4 else 0

/-- The offset of a payload and the piece of the scan behind its headers; there are tables where the
offset is zero. -/
def fragment (pk : Bytes) : ℕ × Bytes :=
  let off := byte pk 1 * 2 ^ 16 + be16 pk 2
  let fixed := fixedLength (pk.getD 4 0)
  (off, pk.drop (fixed + if off = 0 then 4 + be16 pk (fixed + 2) else 0))

def reassemble (fragments : List (ℕ × Bytes)) : Bytes :=
  (fragments.mergeSort fun x y => x.1 ≤ y.1).flatMap Prod.snd

/-- What RFC 2435 wants of the packets of a frame. -/
structure Packetised (f : JpegFrame) (mtu : ℕ) : Prop where
  scan : reassemble ((jpegRtpPayloads f mtu).map fragment) = f.scan
  offsets : ∀ pre x post, (jpegRtpPayloads f mtu).map fragment = pre ++ x :: post →
    x.1 = (pre.flatMap Prod.snd).length
  marker : ∃ (front : List Bytes) (last : Bytes),
    sendJpeg f mtu = front.map (fun pk => (pk, false)) ++ [(last, true)]
  covers : ∀ pk ∈ jpegRtpPayloads f mtu, f.width ≤ byte pk 6 * 8 ∧ f.height ≤ byte pk 7 * 8

/-- The bytes of a header that every packet has. -/
def fixedHeader (f : JpegFrame) (off : ℕ) : Bytes :=
  [0, UInt8.ofNat (off / 2 ^ 16), UInt8.ofNat (off / 2 ^ 8), UInt8.ofNat off, f.type, 255,
    UInt8.ofNat (f.width / 8), UInt8.ofNat (f.height / 8)] ++
  if hasRestart f.type then ofBe16 f.restartInterval ++ [0xff, 0xff] else []

theorem length_fixedHeader (f : JpegFrame) (off : ℕ) :
    (fixedHeader f off).length = fixedLength f.type := by
  unfold fixedHeader fixedLength
  split_ifs
  · rfl
  · rfl

theorem jpegHeader_eq (f : JpegFrame) (off : ℕ) :
    jpegHeader f off = fixedHeader f off ++
      if off = 0 then [0, 0] ++ ofBe16 f.qtables.length ++ f.qtables else [] := rfl

/-- The first header has the tables too. -/
theorem length_firstHeader (f : JpegFrame) :
    (jpegHeader f 0).length = fixedLength f.type + 132 := by
  rw [jpegHeader_eq, if_pos rfl, List.length_append, length_fixedHeader]
  congr 1
  simp [f.tables]

theorem length_laterHeader (f : JpegFrame) {off : ℕ} (h : off ≠ 0) :
    (jpegHeader f off).length = fixedLength f.type := by
  rw [jpegHeader_eq, if_neg h, List.append_nil, length_fixedHeader]

/-- The pieces that the loop cuts, with their true offsets. -/
def cutsFrom (f : JpegFrame) (mtu off : ℕ) : List (ℕ × Bytes) :=
  let take := takeAt f mtu off
  (off, (f.scan.drop off).take take) ::
    if take ≠ 0 ∧ off + take < f.scan.length then cutsFrom f mtu (off + take) else []
termination_by f.scan.length - off

theorem payloadsFrom_eq (f : JpegFrame) (mtu off : ℕ) :
    payloadsFrom f mtu off = (cutsFrom f mtu off).map fun c => jpegHeader f c.1 ++ c.2 := by
  induction hn : f.scan.length - off using Nat.strong_induction_on generalizing off with
  | _ n ih =>
    unfold payloadsFrom cutsFrom
    dsimp only
    rw [List.map_cons]
    congr 1
    split_ifs with hmore
    · exact ih _ (by omega) _ rfl
    · rfl

/-- Every payload starts with the fixed part of its header. -/
theorem fixed_fields (f : JpegFrame) (off : ℕ) (d : Bytes) :
    let pk := jpegHeader f off ++ d
    byte pk 1 * 2 ^ 16 + be16 pk 2 = off % 2 ^ 24 ∧ pk.getD 4 0 = f.type ∧
      byte pk 6 = f.width / 8 % 2 ^ 8 ∧ byte pk 7 = f.height / 8 % 2 ^ 8 := by
  intro pk
  refine ⟨?_, rfl, ?_, ?_⟩
  · show (UInt8.ofNat (off / 2 ^ 16)).toNat * 2 ^ 16 +
      ((UInt8.ofNat (off / 2 ^ 8)).toNat * 2 ^ 8 + (UInt8.ofNat off).toNat) = _
    simp only [UInt8.toNat_ofNat']
    omega
  · show (UInt8.ofNat (f.width / 8)).toNat = _
    exact UInt8.toNat_ofNat' ..
  · show (UInt8.ofNat (f.height / 8)).toNat = _
    exact UInt8.toNat_ofNat' ..

/-- What a receiver reads of a piece whose offset fits. -/
theorem fragment_jpegHeader {f : JpegFrame} {off : ℕ} (hoff : off < 2 ^ 24) (d : Bytes) :
    fragment (jpegHeader f off ++ d) = (off, d) := by
  obtain ⟨hoffset, htype, -, -⟩ := fixed_fields f off d
  unfold fragment
  dsimp only
  rw [hoffset, htype, Nat.mod_eq_of_lt hoff, Prod.mk.injEq]
  refine ⟨rfl, ?_⟩
  by_cases hzero : off = 0
  · have hfront : (fixedHeader f off ++ [0, 0]).length = fixedLength f.type + 2 := by
      rw [List.length_append, length_fixedHeader]
      rfl
    have hpk : jpegHeader f off ++ d =
        fixedHeader f off ++ [0, 0] ++ ofBe16 f.qtables.length ++ (f.qtables ++ d) := by
      rw [jpegHeader_eq, if_pos hzero]
      simp only [List.append_assoc]
    have hlen : be16 (jpegHeader f off ++ d) (fixedLength f.type + 2) = 128 := by
      rw [hpk, ← hfront, be16_ofBe16, f.tables]
      exact Nat.mod_eq_of_lt (by omega)
    rw [if_pos hzero, hlen]
    apply List.drop_left'
    rw [hzero, length_firstHeader]
  · rw [if_neg hzero]
    apply List.drop_left'
    exact length_laterHeader f hzero

/-- Every piece stands where the pieces in front of it end. -/
theorem cutsFrom_position {f : JpegFrame} {mtu off : ℕ} {pre post : List (ℕ × Bytes)}
    {x : ℕ × Bytes} (h : cutsFrom f mtu off = pre ++ x :: post) :
    x.1 = off + (pre.flatMap Prod.snd).length := by
  induction pre generalizing off with
  | nil =>
    unfold cutsFrom at h
    rw [List.nil_append, List.cons.injEq] at h
    rw [← h.1]
    rfl
  | cons y pre ih =>
    unfold cutsFrom at h
    rw [List.cons_append, List.cons.injEq] at h
    obtain ⟨hy, hrest⟩ := h
    split_ifs at hrest with hmore
    · have htake : y.2.length = takeAt f mtu off := by
        have hle : takeAt f mtu off ≤ f.scan.length - off := Nat.min_le_right _ _
        rw [← hy, List.length_take, List.length_drop]
        exact Nat.min_eq_left hle
      rw [ih hrest, List.flatMap_cons, List.length_append, htake]
      omega
    · exact absurd hrest.symm (by simp)

theorem le_of_mem_cutsFrom {f : JpegFrame} {mtu off : ℕ} {c : ℕ × Bytes}
    (hc : c ∈ cutsFrom f mtu off) : off ≤ c.1 := by
  obtain ⟨pre, post, hsplit⟩ := List.append_of_mem hc
  rw [cutsFrom_position hsplit]
  exact Nat.le_add_right _ _

theorem cutsFrom_sorted (f : JpegFrame) (mtu off : ℕ) :
    (cutsFrom f mtu off).Pairwise fun x y => x.1 ≤ y.1 := by
  induction hn : f.scan.length - off using Nat.strong_induction_on generalizing off with
  | _ n ih =>
    unfold cutsFrom
    dsimp only
    split_ifs with hmore
    · apply List.Pairwise.cons
      · intro c hc
        have hle := le_of_mem_cutsFrom hc
        show off ≤ c.1
        omega
      · exact ih _ (by omega) _ rfl
    · exact List.pairwise_singleton _ _

/-- The room for the scan behind the headers of the first packet. -/
def Room (f : JpegFrame) (mtu : ℕ) : Prop := (jpegHeader f 0).length < mtu

theorem Room.lt {f : JpegFrame} {mtu : ℕ} (h : Room f mtu) (off : ℕ) :
    (jpegHeader f off).length < mtu := by
  by_cases hzero : off = 0
  · rw [hzero]
    exact h
  · unfold Room at h
    rw [length_firstHeader] at h
    rw [length_laterHeader f hzero]
    omega

/-- With room in the packets nothing of the scan is left out. -/
theorem cutsFrom_data {f : JpegFrame} {mtu : ℕ} (hroom : Room f mtu) (off : ℕ) :
    (cutsFrom f mtu off).flatMap Prod.snd = f.scan.drop off := by
  induction hn : f.scan.length - off using Nat.strong_induction_on generalizing off with
  | _ n ih =>
    have hlt := hroom.lt off
    unfold cutsFrom
    dsimp only
    rw [List.flatMap_cons]
    split_ifs with hmore
    · rw [ih _ (by omega) _ rfl, ← List.drop_drop]
      exact List.take_append_drop _ _
    · rw [List.flatMap_nil, List.append_nil]
      apply List.take_of_length_le
      rw [List.length_drop]
      unfold takeAt at hmore ⊢
      omega

/-- The offset of the last packet: the first one has the tables too, and so less room than the
others. -/
def lastOffset (f : JpegFrame) (mtu : ℕ) : ℕ :=
  let first := mtu - (fixedLength f.type + 132)
  let room := mtu - fixedLength f.type
  if f.scan.length ≤ first then 0 else first + (f.scan.length - first - 1) / room * room

/-- Behind the first packet all packets but the last are full. -/
theorem last_cutsFrom {f : JpegFrame} {mtu off : ℕ} (hroom : Room f mtu) (hpos : 0 < off)
    (hoff : off < f.scan.length) :
    let room := mtu - fixedLength f.type
    let last := off + (f.scan.length - off - 1) / room * room
    (∃ c ∈ cutsFrom f mtu off, c.1 = last) ∧ ∀ c ∈ cutsFrom f mtu off, c.1 ≤ last := by
  intro room
  have hlt := hroom.lt off
  have hlen : (jpegHeader f off).length = fixedLength f.type := length_laterHeader f (by omega)
  have hposRoom : 0 < room := by omega
  induction hn : f.scan.length - off using Nat.strong_induction_on generalizing off with
  | _ n ih =>
    have htake : takeAt f mtu off = min room (f.scan.length - off) := by
      unfold takeAt
      rw [hlen]
    unfold cutsFrom
    dsimp only
    rw [htake]
    by_cases hmore : off + room < f.scan.length
    · have hmin : min room (f.scan.length - off) = room := Nat.min_eq_left (by omega)
      have hlen' : (jpegHeader f (off + room)).length = fixedLength f.type :=
        length_laterHeader f (by omega)
      obtain ⟨⟨c, hc, hlast⟩, hle⟩ :=
        ih _ (by omega) (by omega) hmore (hroom.lt _) hlen' rfl
      -- one packet more is one room more
      have hstep : off + room + (f.scan.length - (off + room) - 1) / room * room =
          off + (f.scan.length - off - 1) / room * room := by
        rw [Nat.div_eq_sub_div hposRoom (by omega : room ≤ f.scan.length - off - 1), Nat.add_mul,
          show f.scan.length - (off + room) - 1 = f.scan.length - off - 1 - room by omega]
        omega
      rw [hmin, if_pos ⟨by omega, hmore⟩, ← hn, ← hstep]
      refine ⟨⟨c, List.mem_cons_of_mem _ hc, hlast⟩, ?_⟩
      rw [List.forall_mem_cons]
      exact ⟨by omega, hle⟩
    -- what is left is the last packet
    · have hzero : (n - 1) / room = 0 := Nat.div_eq_of_lt (by omega)
      have hmin : min room (f.scan.length - off) = f.scan.length - off :=
        Nat.min_eq_right (by omega)
      rw [hmin, if_neg (by omega), hzero, Nat.zero_mul, Nat.add_zero]
      refine ⟨⟨_, List.mem_singleton_self _, rfl⟩, ?_⟩
      intro c hc
      rw [List.mem_singleton.mp hc]

theorem lastOffset_spec {f : JpegFrame} {mtu : ℕ} (hroom : Room f mtu) :
    (∃ c ∈ cutsFrom f mtu 0, c.1 = lastOffset f mtu) ∧
      ∀ c ∈ cutsFrom f mtu 0, c.1 ≤ lastOffset f mtu := by
  have hlt := hroom.lt 0
  have htake : takeAt f mtu 0 = min (mtu - (fixedLength f.type + 132)) f.scan.length := by
    unfold takeAt
    rw [length_firstHeader, Nat.sub_zero]
  rw [length_firstHeader] at hlt
  unfold cutsFrom lastOffset
  dsimp only
  rw [htake, Nat.zero_add]
  by_cases hone : f.scan.length ≤ mtu - (fixedLength f.type + 132)
  · rw [Nat.min_eq_right hone, if_neg (by omega), if_pos hone]
    refine ⟨⟨_, List.mem_singleton_self _, rfl⟩, ?_⟩
    intro c hc
    rw [List.mem_singleton.mp hc]
  · obtain ⟨⟨c, hc, hlast⟩, hle⟩ :=
      last_cutsFrom hroom (by omega : 0 < mtu - (fixedLength f.type + 132)) (by omega)
    rw [Nat.min_eq_left (by omega), if_pos (by omega), if_neg hone]
    refine ⟨⟨c, List.mem_cons_of_mem _ hc, hlast⟩, ?_⟩
    rw [List.forall_mem_cons]
    exact ⟨Nat.zero_le _, hle⟩

/-- A size is sent in blocks of eight pixels, and an offset in 24 bits. -/
structure Fits (f : JpegFrame) (mtu : ℕ) : Prop where
  width : 8 ∣ f.width
  height : 8 ∣ f.height
  room : Room f mtu
  offset : lastOffset f mtu < 2 ^ 24

theorem reassemble_sorted {fragments : List (ℕ × Bytes)}
    (h : fragments.Pairwise fun x y => x.1 ≤ y.1) :
    reassemble fragments = fragments.flatMap Prod.snd := by
  unfold reassemble
  rw [List.mergeSort_of_pairwise]
  exact h.imp fun hle => decide_eq_true hle

theorem jpegRtpPayloads_ne (f : JpegFrame) (mtu : ℕ) : jpegRtpPayloads f mtu ≠ [] := by
  unfold jpegRtpPayloads payloadsFrom
  exact List.cons_ne_nil _ _

/-- The marker is on the last packet alone, whatever the frame. -/
theorem sendJpeg_marker (f : JpegFrame) (mtu : ℕ) :
    ∃ (front : List Bytes) (last : Bytes),
      sendJpeg f mtu = front.map (fun pk => (pk, false)) ++ [(last, true)] := by
  have hsplit := List.dropLast_append_getLast (jpegRtpPayloads_ne f mtu)
  generalize (jpegRtpPayloads f mtu).dropLast = front at hsplit
  generalize (jpegRtpPayloads f mtu).getLast _ = last at hsplit
  refine ⟨front, last, ?_⟩
  unfold sendJpeg
  dsimp only
  rw [← hsplit, List.length_append, List.length_singleton, List.mapIdx_append]
  congr 1
  · apply List.ext_getElem
    · rw [List.length_mapIdx, List.length_map]
    · intro i hi _
      rw [List.length_mapIdx] at hi
      rw [List.getElem_mapIdx, List.getElem_map, Prod.mk.injEq]
      exact ⟨rfl, decide_eq_false (by omega)⟩
  · rw [List.mapIdx_singleton, Nat.zero_add]
    simp only [decide_true]

/-- All packets of a frame say the same size. -/
theorem covers_iff (f : JpegFrame) (mtu : ℕ) :
    (∀ pk ∈ jpegRtpPayloads f mtu, f.width ≤ byte pk 6 * 8 ∧ f.height ≤ byte pk 7 * 8) ↔
      8 ∣ f.width ∧ 8 ∣ f.height := by
  have hwidth := f.width_le
  have hheight := f.height_le
  unfold jpegRtpPayloads
  rw [payloadsFrom_eq, List.forall_mem_map]
  constructor
  · intro h
    have hfirst : (0, (f.scan.drop 0).take (takeAt f mtu 0)) ∈ cutsFrom f mtu 0 := by
      unfold cutsFrom
      exact List.mem_cons_self
    obtain ⟨-, -, hbyteW, hbyteH⟩ := fixed_fields f 0 ((f.scan.drop 0).take (takeAt f mtu 0))
    have hcover := h _ hfirst
    rw [hbyteW, hbyteH] at hcover
    omega
  · rintro ⟨hdivW, hdivH⟩ c _
    obtain ⟨-, -, hbyteW, hbyteH⟩ := fixed_fields f c.1 c.2
    rw [hbyteW, hbyteH]
    omega

/-- While every offset fits, a receiver finds the pieces that were cut. -/
theorem map_fragment {f : JpegFrame} {cuts : List (ℕ × Bytes)} (h : ∀ c ∈ cuts, c.1 < 2 ^ 24) :
    (cuts.map fun c => jpegHeader f c.1 ++ c.2).map fragment = cuts := by
  rw [List.map_map]
  conv_rhs => rw [← List.map_id cuts]
  apply List.map_congr_left
  intro c hc
  exact fragment_jpegHeader (h c hc) c.2

theorem Fits.packetised {f : JpegFrame} {mtu : ℕ} (h : Fits f mtu) : Packetised f mtu := by
  have hcuts : (jpegRtpPayloads f mtu).map fragment = cutsFrom f mtu 0 := by
    unfold jpegRtpPayloads
    rw [payloadsFrom_eq]
    apply map_fragment
    intro c hc
    exact Nat.lt_of_le_of_lt ((lastOffset_spec h.room).2 c hc) h.offset
  refine ⟨?_, ?_, sendJpeg_marker f mtu, (covers_iff f mtu).mpr ⟨h.width, h.height⟩⟩
  · rw [hcuts, reassemble_sorted (cutsFrom_sorted f mtu 0), cutsFrom_data h.room]
    exact List.drop_zero
  · intro pre x post hsplit
    rw [hcuts] at hsplit
    rw [cutsFrom_position hsplit, Nat.zero_add]

/-- Without room there is one packet, and nothing of the scan in it. -/
theorem Packetised.room {f : JpegFrame} {mtu : ℕ} (h : Packetised f mtu) : Room f mtu := by
  by_contra hroom
  have htake : takeAt f mtu 0 = 0 := by
    unfold Room at hroom
    unfold takeAt
    omega
  have hone : cutsFrom f mtu 0 = [(0, [])] := by
    unfold cutsFrom
    rw [htake]
    rfl
  have hscan := h.scan
  unfold jpegRtpPayloads at hscan
  rw [payloadsFrom_eq, map_fragment (by rw [hone]; simp), hone,
    reassemble_sorted (List.pairwise_singleton _ _)] at hscan
  exact f.scan_ne hscan.symm

/-- The first piece whose offset does not fit shows another one. -/
theorem Packetised.offset {f : JpegFrame} {mtu : ℕ} (h : Packetised f mtu) :
    lastOffset f mtu < 2 ^ 24 := by
  by_contra hbig
  obtain ⟨⟨c, hc, hlast⟩, -⟩ := lastOffset_spec h.room
  cases hfind : (cutsFrom f mtu 0).find? fun c => 2 ^ 24 ≤ c.1 with
  | none =>
    rw [List.find?_eq_none] at hfind
    have hlt := hfind c hc
    simp only [decide_eq_true_eq] at hlt
    omega
  | some x =>
    -- everything in front of the piece is read as it was cut
    obtain ⟨hx, pre, post, hsplit, hpre⟩ := List.find?_eq_some_iff_append.mp hfind
    have hfits : ∀ y ∈ pre, y.1 < 2 ^ 24 := by
      intro y hy
      simpa using hpre y hy
    have hposition := cutsFrom_position hsplit
    have hshown : (fragment (jpegHeader f x.1 ++ x.2)).1 = (pre.flatMap Prod.snd).length := by
      apply h.offsets
      unfold jpegRtpPayloads
      rw [payloadsFrom_eq, hsplit, List.map_append, List.map_append, map_fragment hfits]
      rfl
    have hfield := (fixed_fields f x.1 x.2).1
    have hread : (fragment (jpegHeader f x.1 ++ x.2)).1 = x.1 % 2 ^ 24 := hfield
    have hge := of_decide_eq_true hx
    omega

/-- The packets of a frame are right for the frames that RFC 2435 can carry, and no others. -/
theorem packetised_iff_fits (f : JpegFrame) (mtu : ℕ) : Packetised f mtu ↔ Fits f mtu := by
  constructor
  · intro h
    obtain ⟨hwidth, hheight⟩ := (covers_iff f mtu).mp h.covers
    exact ⟨hwidth, hheight, h.room, h.offset⟩
  · exact Fits.packetised

/-- A file is read inside its bounds, and the frame in it goes out whole. -/
structure OverRtp (p : Bytes) (mtu : ℕ) : Prop where
  inside : Inside (parseJpeg p)
  packets : ∀ f, parseJpeg p = .ok f → Packetised f mtu

theorem overRtp_iff (p : Bytes) (mtu : ℕ) :
    OverRtp p mtu ↔ ∀ f, parseJpeg p = .ok f → Fits f mtu := by
  constructor
  · intro h f hf
    exact (packetised_iff_fits f mtu).mp (h.packets f hf)
  · intro h
    refine ⟨inside_parseJpeg p, ?_⟩
    intro f hf
    exact (packetised_iff_fits f mtu).mpr (h f hf)

/-- A picture of 100 by 16 pixels. -/
def oddJpeg : Bytes :=
  [0xff, 0xd8, 0xff, 0xdb, 0, 67, 0] ++ List.replicate 64 1 ++
    [0xff, 0xc0, 0, 17, 8, 0, 16, 0, 100, 3, 1, 0x22, 0, 2, 0x11, 0, 3, 0x11, 0,
      0xff, 0xda, 0, 12, 3, 1, 0, 2, 0x11, 3, 0x11, 0, 63, 0, 0x55, 0xff, 0xd9]

/-- Its last four columns are not in the size that the packets say. -/
theorem not_overRtp_odd : ¬ OverRtp oddJpeg 1400 := by
  intro h
  have hwidth : (parseJpeg oddJpeg).toOption.map JpegFrame.width = some 100 := by decide +kernel
  cases hparse : parseJpeg oddJpeg with
  | error e =>
    rw [hparse] at hwidth
    cases hwidth
  | ok f =>
    rw [hparse] at hwidth
    have heq : f.width = 100 := Option.some.inj hwidth
    have hdiv := ((packetised_iff_fits f 1400).mp (h.packets f hparse)).width
    omega

end Machino.Rtsp
