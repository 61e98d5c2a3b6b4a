import Machino.H264.Nal

/-! H.264 in RTP packets, RFC 6184 with packetization-mode 1. -/
namespace Machino.Webrtc

open H264

/-- The payload budget of a packet does not count the RTP header; two bytes of it are the headers of
a fragment, and with no room behind them the loop over the fragments would not end. -/
structure RtpParams where
  payloadType : UInt8 := 102
  ssrc : ℕ := 0
  maxPayload : ℕ := 1200
  room : 3 ≤ maxPayload := by decide

/-- What goes into one packet behind the RTP header. -/
structure Payload where
  marker : Bool
  data : Bytes
  deriving DecidableEq

def isDelimiter (nal : Nal) : Bool := nal.type = 9

/-- The index of the last NAL that will be sent, or their number. -/
def lastSent (nals : List Nal) : ℕ :=
  ((nals.zipIdx.filter fun x => !isDelimiter x.1).getLast?.map Prod.snd).getD nals.length

/-- F and NRI of the NAL, and type 28. -/
def fuIndicator (b : UInt8) : UInt8 := b &&& 0xe0 ||| 28

/-- The start and the end bit, and the type of the NAL. -/
def fuHeader (start stop : Bool) (b : UInt8) : UInt8 :=
  (if start then 0x80 else 0) ||| (if stop then 0x40 else 0) ||| b &&& 0x1f

/-- The fragments of what is left of a NAL with the first byte `b`. -/
def fuFragments (isLast : Bool) (b : UInt8) (chunk : ℕ) : ℕ → Bool → Bytes → List Payload
  | 0, _, _ => []
  | fuel + 1, start, rest =>
    if rest = [] then []
    else
      let stop := decide (rest.length ≤ chunk)
      ⟨isLast && stop, fuIndicator b :: fuHeader start stop b :: rest.take chunk⟩ ::
        fuFragments isLast b chunk fuel false (rest.drop chunk)

/-- A NAL that fits is a payload of its own. -/
def payloadsOf (p : RtpParams) (isLast : Bool) (nal : Bytes) : List Payload :=
  if nal.length ≤ p.maxPayload then [⟨isLast, nal⟩]
  else fuFragments isLast (nal.headD 0) (p.maxPayload - 2) nal.length true (nal.drop 1)

/-- The packets, and the sequence number behind them. -/
def sendAll (p : RtpParams) (ts90k : ℕ) : ℕ → List Payload → List Bytes × ℕ
  | seq, [] => ([], seq)
  | seq, x :: xs =>
    let rest := sendAll p ts90k ((seq + 1) % 2 ^ 16) xs
    ((Rtp.writeHeader p.payloadType x.marker seq ts90k p.ssrc ++ x.data) :: rest.1, rest.2)

/-- Access-unit delimiters are dropped. -/
def payloads (p : RtpParams) (nals : List Nal) : List Payload :=
  nals.zipIdx.flatMap fun x =>
    if isDelimiter x.1 ∨ x.1.data = [] then []
    else payloadsOf p (decide (x.2 = lastSent nals)) x.1.data

def packetizeH264 (au : Bytes) (ts90k seq : ℕ) (p : RtpParams) : List Bytes × ℕ :=
  sendAll p ts90k seq (payloads p (split au 64))

open H264 Bytes

/-- The units that are complete, and the one that fragments are being collected of. -/
structure Receiver where
  units : List Bytes := []
  pending : Option Bytes := none
  deriving DecidableEq

/-- A fragment: the start bit begins a unit with the type of the fragment header behind F and NRI of
the indicator, the end bit completes it. -/
def receiveFragment (r : Receiver) (indicator header : UInt8) (data : Bytes) : Option Receiver :=
  let unit :=
    if header &&& 0x80 ≠ 0 then
      if r.pending = none then some ((indicator &&& 0xe0 ||| header &&& 0x1f) :: data) else none
    else r.pending.map (· ++ data)
  unit.map fun u =>
    if header &&& 0x40 ≠ 0 then ⟨r.units ++ [u], none⟩ else ⟨r.units, some u⟩

/-- Types 1 to 23 are units of their own, type 28 is a fragment; the others are not of this
packetization. -/
def receive (r : Receiver) (payload : Bytes) : Option Receiver :=
  match payload with
  | [] => none
  | b :: rest =>
    let type := b &&& 0x1f
    if type = 28 then
      match rest with
      | [] => none
      | header :: data => receiveFragment r b header data
    else if 1 ≤ type ∧ type ≤ 23 then
      if r.pending = none then some { r with units := r.units ++ [payload] } else none
    else none

/-- The units of a list of packets, where they make up whole units. -/
def depacketize (pkts : List Bytes) : Option (List Bytes) :=
  (pkts.foldlM (fun r pkt => receive r (pkt.drop Rtp.kHeaderBytes)) {}).bind fun r =>
    if r.pending = none then some r.units else none

/-- What holds of every byte number holds of every byte. -/
theorem forall_byte {P : UInt8 → Prop} (h : ∀ i : Fin 256, P (UInt8.ofNat i.val)) (b : UInt8) :
    P b := by
  have hb := h ⟨b.toNat, b.toNat_lt⟩
  rwa [UInt8.ofNat_toNat] at hb

theorem fuIndicator_type (b : UInt8) : fuIndicator b &&& 0x1f = 28 :=
  forall_byte (P := fun b => fuIndicator b &&& 0x1f = 28) (by decide +kernel) b

theorem fuHeader_start (start stop : Bool) (b : UInt8) :
    fuHeader start stop b &&& 0x80 ≠ 0 ↔ start = true :=
  forall_byte (P := fun b => ∀ start stop : Bool, fuHeader start stop b &&& 0x80 ≠ 0 ↔ start = true)
    (by decide +kernel) b start stop

theorem fuHeader_stop (start stop : Bool) (b : UInt8) :
    fuHeader start stop b &&& 0x40 ≠ 0 ↔ stop = true :=
  forall_byte (P := fun b => ∀ start stop : Bool, fuHeader start stop b &&& 0x40 ≠ 0 ↔ stop = true)
    (by decide +kernel) b start stop

/-- Indicator and header give the first byte of the unit back. -/
theorem fu_firstByte (start stop : Bool) (b : UInt8) :
    fuIndicator b &&& 0xe0 ||| fuHeader start stop b &&& 0x1f = b :=
  forall_byte (P := fun b => ∀ start stop : Bool,
    fuIndicator b &&& 0xe0 ||| fuHeader start stop b &&& 0x1f = b) (by decide +kernel) b start stop

/-- A fragment carries the collected part `u` on; the first one begins with the byte `b`. -/
theorem receive_fragment (us : List Bytes) (u : Bytes) (b : UInt8) (start stop : Bool) (data : Bytes) :
    receive ⟨us, if start then none else some u⟩ (fuIndicator b :: fuHeader start stop b :: data) =
      let w := (if start then [b] else u) ++ data
      some (if stop then ⟨us ++ [w], none⟩ else ⟨us, some w⟩) := by
  have hfirst := fu_firstByte start stop b
  have hstart := fuHeader_start start stop b
  have hstop := fuHeader_stop start stop b
  cases start <;> cases stop <;>
    simp only [ne_eq, not_not, Bool.false_eq_true, iff_false, iff_true] at hstart hstop <;>
    simp [receive, receiveFragment, fuIndicator_type, hfirst, hstart, hstop]

/-- The fragments of a unit are put together again. -/
theorem receive_fuFragments {chunk : ℕ} (hchunk : 1 ≤ chunk) (isLast : Bool) (b : UInt8)
    (us : List Bytes) : ∀ (fuel : ℕ) (start : Bool) (u rest : Bytes), rest ≠ [] → rest.length ≤ fuel →
      ((fuFragments isLast b chunk fuel start rest).map Payload.data).foldlM receive
        ⟨us, if start then none else some u⟩ =
      some ⟨us ++ [(if start then [b] else u) ++ rest], none⟩ := by
  intro fuel
  induction fuel with
  | zero =>
    intro start u rest hne hlen
    exact absurd (List.length_eq_zero_iff.mp (by omega)) hne
  | succ fuel ih =>
    intro start u rest hne hlen
    rw [fuFragments, if_neg hne]
    dsimp only
    rw [List.map_cons, List.foldlM_cons, receive_fragment]
    by_cases hstop : rest.length ≤ chunk
    · have hdrop : rest.drop chunk = [] := List.drop_eq_nil_of_le hstop
      have hnil : fuFragments isLast b chunk fuel false [] = [] := by
        cases fuel <;> simp [fuFragments]
      simp [hstop, hdrop, hnil, List.take_of_length_le]
    · have hrest : rest.drop chunk ≠ [] := by
        simpa [List.drop_eq_nil_iff] using hstop
      have htail := ih false ((if start then [b] else u) ++ rest.take chunk) (rest.drop chunk) hrest
        (by rw [List.length_drop]; omega)
      rw [if_neg Bool.false_ne_true, if_neg Bool.false_ne_true, List.append_assoc,
        List.take_append_drop] at htail
      simpa [hstop] using htail

/-- The types that a packet of their own can carry; 0 and those from 24 on name other packets. -/
def CarriedWhole (nal : Bytes) : Prop := 1 ≤ nal.headD 0 &&& 0x1f ∧ nal.headD 0 &&& 0x1f ≤ 23

theorem receive_whole {nal : Bytes} (hne : nal ≠ []) (h : CarriedWhole nal) (us : List Bytes) :
    receive ⟨us, none⟩ nal = some ⟨us ++ [nal], none⟩ := by
  cases nal with
  | nil => exact absurd rfl hne
  | cons b rest =>
    obtain ⟨hlow, hhigh⟩ : 1 ≤ b &&& 0x1f ∧ b &&& 0x1f ≤ 23 := h
    have htype : b &&& 0x1f ≠ 28 := by
      intro heq
      rw [heq] at hhigh
      exact absurd hhigh (by decide)
    simp [receive, htype, hlow, hhigh]

theorem receive_payloadsOf {p : RtpParams} {nal : Bytes} (hne : nal ≠ [])
    (h : nal.length ≤ p.maxPayload → CarriedWhole nal) (isLast : Bool) (us : List Bytes) :
    ((payloadsOf p isLast nal).map Payload.data).foldlM receive ⟨us, none⟩ =
      some ⟨us ++ [nal], none⟩ := by
  unfold payloadsOf
  split
  · rename_i hfits
    simp [receive_whole hne (h hfits)]
  · rename_i hlong
    have hroom := p.room
    cases nal with
    | nil => exact absurd rfl hne
    | cons b rest =>
      have hrest : rest ≠ [] := by
        rintro rfl
        simp at hlong
        omega
      have hchunk : 1 ≤ p.maxPayload - 2 := by omega
      have hall := receive_fuFragments hchunk isLast b us
        (b :: rest).length true [] rest hrest (by simp)
      simpa using hall

/-- The units from one on: the last one that is sent has only delimiters behind it. -/
def payloadsFrom (p : RtpParams) : List Nal → List Payload
  | [] => []
  | nal :: nals =>
    (if isDelimiter nal ∨ nal.data = [] then [] else payloadsOf p (nals.all isDelimiter) nal.data) ++
      payloadsFrom p nals

theorem filter_zipIdx_eq_nil {nals : List Nal} {k : ℕ} :
    ((nals.zipIdx k).filter fun x => !isDelimiter x.1) = [] ↔ nals.all isDelimiter = true := by
  induction nals generalizing k with
  | nil => simp
  | cons nal nals ih => cases h : isDelimiter nal <;> simp [h, ih]

theorem lastSent_eq_iff (pre : List Nal) {nal : Nal} (hnal : isDelimiter nal = false)
    (nals : List Nal) :
    pre.length = lastSent (pre ++ nal :: nals) ↔ nals.all isDelimiter = true := by
  have hlast : lastSent (pre ++ nal :: nals) =
      ((((nals.zipIdx (pre.length + 1)).filter fun x => !isDelimiter x.1).getLast?.map
        Prod.snd).getD pre.length) := by
    unfold lastSent
    rw [List.zipIdx_append, List.filter_append, Nat.zero_add, List.zipIdx_cons, List.filter_cons,
      hnal, Bool.not_false, if_pos rfl, List.getLast?_append, List.getLast?_cons]
    cases ((nals.zipIdx (pre.length + 1)).filter fun x => !isDelimiter x.1).getLast? <;> simp
  rw [hlast, ← filter_zipIdx_eq_nil (k := pre.length + 1)]
  cases hbehind : ((nals.zipIdx (pre.length + 1)).filter fun x => !isDelimiter x.1).getLast? with
  | none => simpa using List.getLast?_eq_none_iff.mp hbehind
  | some x =>
    have hmem := List.mem_of_getLast? hbehind
    have hpos := List.le_snd_of_mem_zipIdx (List.mem_of_mem_filter hmem)
    constructor
    · intro heq
      simp at heq
      omega
    · intro hnil
      rw [hnil] at hmem
      exact absurd hmem List.not_mem_nil

theorem payloads_eq (p : RtpParams) (nals : List Nal) : payloads p nals = payloadsFrom p nals := by
  suffices h : ∀ pre post : List Nal, pre ++ post = nals →
      (post.zipIdx pre.length).flatMap (fun x =>
        if isDelimiter x.1 ∨ x.1.data = [] then []
        else payloadsOf p (decide (x.2 = lastSent nals)) x.1.data) = payloadsFrom p post from
    h [] nals rfl
  intro pre post
  induction post generalizing pre with
  | nil => intro _; rfl
  | cons nal post ih =>
    intro hnals
    have hrest := ih (pre ++ [nal]) (by rw [List.append_assoc]; exact hnals)
    rw [List.length_append, List.length_singleton] at hrest
    rw [List.zipIdx_cons, List.flatMap_cons, hrest, payloadsFrom]
    congr 1
    by_cases hnal : isDelimiter nal = true
    · simp [hnal]
    · have hlast := lastSent_eq_iff pre (Bool.eq_false_iff.mpr hnal) post
      rw [hnals] at hlast
      have hmark : decide (pre.length = lastSent nals) = post.all isDelimiter := by
        rw [Bool.eq_iff_iff, decide_eq_true_iff, hlast]
      rw [hmark]

/-- Every unit but the delimiters arrives. -/
theorem receive_payloadsFrom {p : RtpParams} {nals : List Nal} (hne : ∀ x ∈ nals, x.data ≠ [])
    (h : ∀ x ∈ nals, isDelimiter x = false → x.data.length ≤ p.maxPayload → CarriedWhole x.data)
    (us : List Bytes) :
    ((payloadsFrom p nals).map Payload.data).foldlM receive ⟨us, none⟩ =
      some ⟨us ++ (nals.filter fun x => !isDelimiter x).map Nal.data, none⟩ := by
  induction nals generalizing us with
  | nil => simp [payloadsFrom]
  | cons nal nals ih =>
    have hrest := ih (fun x hx => hne x (List.mem_cons_of_mem nal hx))
      (fun x hx => h x (List.mem_cons_of_mem nal hx))
    have hdata := hne nal List.mem_cons_self
    rw [payloadsFrom, List.map_append, List.foldlM_append]
    cases hnal : isDelimiter nal with
    | true => simpa [hnal] using hrest us
    | false =>
      have hone := receive_payloadsOf hdata (h nal List.mem_cons_self hnal)
        (nals.all isDelimiter) us
      simp [hnal, hdata, hone, hrest]

/-- The marker is on the last payload and on no other. -/
def MarkedLast : List Payload → Prop
  | [] => True
  | x :: xs => (x.marker = true ↔ xs = []) ∧ MarkedLast xs

theorem markedLast_append {front back : List Payload} (hfront : ∀ x ∈ front, x.marker = false)
    (hne : back ≠ []) (hback : MarkedLast back) : MarkedLast (front ++ back) := by
  induction front with
  | nil => exact hback
  | cons x front ih =>
    refine ⟨?_, ih fun y hy => hfront y (List.mem_cons_of_mem x hy)⟩
    simp [hfront x List.mem_cons_self, hne]

theorem fuFragments_eq_nil (isLast : Bool) (b : UInt8) (chunk : ℕ) {fuel : ℕ} (start : Bool)
    {rest : Bytes} (hfuel : rest.length ≤ fuel) :
    fuFragments isLast b chunk fuel start rest = [] ↔ rest = [] := by
  cases fuel with
  | zero => simpa [fuFragments] using List.length_eq_zero_iff.mp (Nat.le_zero.mp hfuel)
  | succ fuel => by_cases hrest : rest = [] <;> simp [fuFragments, hrest]

theorem fuFragments_unmarked (b : UInt8) (chunk : ℕ) (fuel : ℕ) (start : Bool) (rest : Bytes) :
    ∀ x ∈ fuFragments false b chunk fuel start rest, x.marker = false := by
  induction fuel generalizing start rest with
  | zero => simp [fuFragments]
  | succ fuel ih =>
    by_cases hrest : rest = []
    · simp [fuFragments, hrest]
    · rw [fuFragments, if_neg hrest, List.forall_mem_cons]
      exact ⟨rfl, ih false _⟩

theorem fuFragments_markedLast (b : UInt8) {chunk : ℕ} (hchunk : 1 ≤ chunk) {fuel : ℕ}
    (start : Bool) {rest : Bytes} (hfuel : rest.length ≤ fuel) :
    MarkedLast (fuFragments true b chunk fuel start rest) := by
  induction fuel generalizing start rest with
  | zero => exact trivial
  | succ fuel ih =>
    rw [fuFragments]
    split
    · exact trivial
    · rename_i hrest
      have hlen : (rest.drop chunk).length ≤ fuel := by
        have hpos := List.length_pos_iff.mpr hrest
        rw [List.length_drop]
        omega
      refine ⟨?_, ih false hlen⟩
      rw [fuFragments_eq_nil true b chunk false hlen]
      simp

theorem payloadsOf_unmarked (p : RtpParams) (nal : Bytes) :
    ∀ x ∈ payloadsOf p false nal, x.marker = false := by
  unfold payloadsOf
  split
  · simp
  · exact fuFragments_unmarked _ _ _ _ _

theorem payloadsOf_markedLast (p : RtpParams) (nal : Bytes) :
    MarkedLast (payloadsOf p true nal) := by
  have hroom := p.room
  unfold payloadsOf
  split
  · exact ⟨by simp, trivial⟩
  · exact fuFragments_markedLast _ (by omega) true (by rw [List.length_drop]; omega)

theorem payloadsOf_ne_nil (p : RtpParams) (isLast : Bool) (nal : Bytes) :
    payloadsOf p isLast nal ≠ [] := by
  have hroom := p.room
  unfold payloadsOf
  split
  · simp
  · rename_i hlong
    rw [ne_eq, fuFragments_eq_nil _ _ _ _ (by rw [List.length_drop]; omega), List.drop_eq_nil_iff]
    omega

/-- Nothing is sent where there are only delimiters. -/
theorem payloadsFrom_eq_nil (p : RtpParams) {nals : List Nal} (hne : ∀ x ∈ nals, x.data ≠ []) :
    payloadsFrom p nals = [] ↔ nals.all isDelimiter = true := by
  induction nals with
  | nil => simp [payloadsFrom]
  | cons nal nals ih =>
    have hrest := ih fun x hx => hne x (List.mem_cons_of_mem nal hx)
    have hdata := hne nal List.mem_cons_self
    cases hnal : isDelimiter nal <;>
      simp [payloadsFrom, hnal, hdata, hrest, payloadsOf_ne_nil]

theorem payloadsFrom_markedLast (p : RtpParams) {nals : List Nal} (hne : ∀ x ∈ nals, x.data ≠ []) :
    MarkedLast (payloadsFrom p nals) := by
  induction nals with
  | nil => exact trivial
  | cons nal nals ih =>
    have hrest := fun x hx => hne x (List.mem_cons_of_mem nal hx)
    have hdata := hne nal List.mem_cons_self
    rw [payloadsFrom]
    cases hnal : isDelimiter nal with
    | true => simpa [hnal] using ih hrest
    | false =>
      have hskip : ¬ (false = true ∨ nal.data = []) := by simp [hdata]
      rw [if_neg hskip]
      cases hall : nals.all isDelimiter with
      | true =>
        rw [(payloadsFrom_eq_nil p hrest).mpr hall, List.append_nil]
        exact payloadsOf_markedLast p nal.data
      | false =>
        have hback : payloadsFrom p nals ≠ [] := by
          rw [ne_eq, payloadsFrom_eq_nil p hrest, hall]
          exact Bool.false_ne_true
        exact markedLast_append (payloadsOf_unmarked p nal.data) hback (ih hrest)

theorem length_fuFragments (isLast : Bool) (b : UInt8) (chunk : ℕ) (fuel : ℕ) (start : Bool)
    (rest : Bytes) : ∀ x ∈ fuFragments isLast b chunk fuel start rest, x.data.length ≤ chunk + 2 := by
  induction fuel generalizing start rest with
  | zero => simp [fuFragments]
  | succ fuel ih =>
    by_cases hrest : rest = []
    · simp [fuFragments, hrest]
    · rw [fuFragments, if_neg hrest, List.forall_mem_cons]
      exact ⟨by simp, ih false _⟩

theorem length_payloadsFrom (p : RtpParams) (nals : List Nal) :
    ∀ x ∈ payloadsFrom p nals, x.data.length ≤ p.maxPayload := by
  have hroom := p.room
  induction nals with
  | nil => simp [payloadsFrom]
  | cons nal nals ih =>
    intro x hx
    rw [payloadsFrom, List.mem_append] at hx
    obtain hx | hx := hx
    · split at hx
      · exact absurd hx List.not_mem_nil
      · unfold payloadsOf at hx
        split at hx
        · rename_i hfits
          rw [List.mem_singleton.mp hx]
          exact hfits
        · have hlen := length_fuFragments _ _ _ _ _ _ x hx
          omega
    · exact ih x hx

open H264 Bytes

def sequenceOf (pkt : Bytes) : ℕ := be16 pkt 2

def timestampOf (pkt : Bytes) : ℕ := be32 pkt 4

def markerOf (pkt : Bytes) : Bool := decide (pkt.getD 1 0 &&& 0x80 ≠ 0)

theorem sequenceOf_writeHeader (pt : UInt8) (marker : Bool) (seq ts ssrc : ℕ) (data : Bytes) :
    sequenceOf (Rtp.writeHeader pt marker seq ts ssrc ++ data) = seq % 2 ^ 16 := by
  have h := be16_ofBe16 [0x80, pt &&& 0x7f ||| if marker then 0x80 else 0]
    (ofBe32 ts ++ ofBe32 ssrc ++ data) seq
  simpa [sequenceOf, Rtp.writeHeader] using h

theorem timestampOf_writeHeader (pt : UInt8) (marker : Bool) (seq ts ssrc : ℕ) (data : Bytes) :
    timestampOf (Rtp.writeHeader pt marker seq ts ssrc ++ data) = ts % 2 ^ 32 := by
  simp [timestampOf, be32, be16, byte, ofBe16, ofBe32, Rtp.writeHeader]
  omega

theorem markerOf_writeHeader (pt : UInt8) (marker : Bool) (seq ts ssrc : ℕ) (data : Bytes) :
    markerOf (Rtp.writeHeader pt marker seq ts ssrc ++ data) = marker :=
  forall_byte (P := fun pt => ∀ marker : Bool,
    decide ((pt &&& 0x7f ||| if marker then 0x80 else 0) &&& 0x80 ≠ 0) = marker)
    (by decide +kernel) pt marker

theorem length_sendAll (p : RtpParams) (ts90k seq : ℕ) (xs : List Payload) :
    (sendAll p ts90k seq xs).1.length = xs.length := by
  induction xs generalizing seq with
  | nil => rfl
  | cons x xs ih => simp [sendAll, ih]

/-- The packet at a position is the payload there behind a header with its own number. -/
theorem getElem_sendAll (p : RtpParams) (ts90k seq : ℕ) (xs : List Payload) (i : ℕ)
    (h : i < (sendAll p ts90k seq xs).1.length) (hx : i < xs.length) :
    ∃ s, s % 2 ^ 16 = (seq + i) % 2 ^ 16 ∧ (sendAll p ts90k seq xs).1[i] =
      Rtp.writeHeader p.payloadType xs[i].marker s ts90k p.ssrc ++ xs[i].data := by
  induction xs generalizing seq i with
  | nil => exact absurd hx (Nat.not_lt_zero i)
  | cons x xs ih =>
    cases i with
    | zero => exact ⟨seq, rfl, rfl⟩
    | succ i =>
      obtain ⟨s, hs, hpkt⟩ := ih ((seq + 1) % 2 ^ 16) i (by simpa [sendAll] using h)
        (Nat.lt_of_succ_lt_succ hx)
      exact ⟨s, by omega, hpkt⟩

theorem map_drop_sendAll (p : RtpParams) (ts90k seq : ℕ) (xs : List Payload) :
    (sendAll p ts90k seq xs).1.map (List.drop Rtp.kHeaderBytes) = xs.map Payload.data := by
  induction xs generalizing seq with
  | nil => rfl
  | cons x xs ih =>
    have hhead : (Rtp.writeHeader p.payloadType x.marker seq ts90k p.ssrc ++ x.data).drop
        Rtp.kHeaderBytes = x.data := List.drop_left' rfl
    rw [sendAll, List.map_cons, List.map_cons, hhead, ih]

theorem snd_sendAll (p : RtpParams) (ts90k : ℕ) {seq : ℕ} (hseq : seq < 2 ^ 16)
    (xs : List Payload) : (sendAll p ts90k seq xs).2 = (seq + xs.length) % 2 ^ 16 := by
  induction xs generalizing seq with
  | nil => exact (Nat.mod_eq_of_lt hseq).symm
  | cons x xs ih =>
    have hrest := ih (Nat.mod_lt (seq + 1) (by decide : 0 < 2 ^ 16))
    rw [sendAll, hrest, List.length_cons]
    omega

theorem MarkedLast.getElem {xs : List Payload} (h : MarkedLast xs) (i : ℕ) (hi : i < xs.length) :
    xs[i].marker = decide (i + 1 = xs.length) := by
  induction xs generalizing i with
  | nil => exact absurd hi (Nat.not_lt_zero i)
  | cons x xs ih =>
    obtain ⟨hx, hxs⟩ := h
    cases i with
    | zero =>
      rw [Bool.eq_iff_iff, decide_eq_true_iff]
      have hlast : xs = [] ↔ 0 + 1 = xs.length + 1 := by
        rw [← List.length_eq_zero_iff]
        omega
      exact hx.trans hlast
    | succ i => simpa using ih hxs i (Nat.lt_of_succ_lt_succ hi)

/-- What a receiver relies on: the units and the sizes, and the headers of all packets. -/
structure Delivered (p : RtpParams) (ts90k seq : ℕ) (units : List Bytes)
    (out : List Bytes × ℕ) : Prop where
  units : depacketize out.1 = some units
  size : ∀ pkt ∈ out.1, (pkt.drop Rtp.kHeaderBytes).length ≤ p.maxPayload
  sequence : ∀ (i : ℕ) (h : i < out.1.length), sequenceOf out.1[i] = (seq + i) % 2 ^ 16
  next : out.2 = (seq + out.1.length) % 2 ^ 16
  timestamp : ∀ pkt ∈ out.1, timestampOf pkt = ts90k
  marker : ∀ (i : ℕ) (h : i < out.1.length), markerOf out.1[i] = decide (i + 1 = out.1.length)

theorem sendAll_delivered {p : RtpParams} {ts90k seq : ℕ} (hts : ts90k < 2 ^ 32)
    (hseq : seq < 2 ^ 16) {xs : List Payload} {units : List Bytes}
    (hunits : (xs.map Payload.data).foldlM receive {} = some ⟨units, none⟩)
    (hsize : ∀ x ∈ xs, x.data.length ≤ p.maxPayload) (hmark : MarkedLast xs) :
    Delivered p ts90k seq units (sendAll p ts90k seq xs) := by
  have hlen := length_sendAll p ts90k seq xs
  refine ⟨?_, ?_, ?_, ?_, ?_, ?_⟩
  · rw [← map_drop_sendAll p ts90k seq, List.foldlM_map] at hunits
    rw [depacketize, hunits]
    rfl
  · intro pkt hpkt
    have hdata := List.mem_map_of_mem (f := List.drop Rtp.kHeaderBytes) hpkt
    rw [map_drop_sendAll, List.mem_map] at hdata
    obtain ⟨x, hx, heq⟩ := hdata
    rw [← heq]
    exact hsize x hx
  · intro i h
    obtain ⟨s, hs, hpkt⟩ := getElem_sendAll p ts90k seq xs i h (hlen ▸ h)
    rw [hpkt, sequenceOf_writeHeader, hs]
  · rw [snd_sendAll p ts90k hseq, hlen]
  · intro pkt hpkt
    obtain ⟨i, h, rfl⟩ := List.getElem_of_mem hpkt
    obtain ⟨s, -, hpkt⟩ := getElem_sendAll p ts90k seq xs i h (hlen ▸ h)
    rw [hpkt, timestampOf_writeHeader, Nat.mod_eq_of_lt hts]
  · intro i h
    obtain ⟨s, -, hpkt⟩ := getElem_sendAll p ts90k seq xs i h (hlen ▸ h)
    rw [hpkt, markerOf_writeHeader, hmark.getElem, hlen]

def isDelimiterUnit (d : Bytes) : Bool := d.headD 0 &&& 0x1f = 9

/-- All units but the delimiters arrive in order, where those that fit into one packet are of a type
that a packet of their own can carry. -/
theorem packetizeH264_delivered {units : List (Bool × Bytes)} (h : ∀ u ∈ units, H264.WellFormed u.2)
    (hmax : units.length ≤ 64) (p : RtpParams) {ts90k seq : ℕ} (hts : ts90k < 2 ^ 32)
    (hseq : seq < 2 ^ 16)
    (htype : ∀ u ∈ units, u.2.length ≤ p.maxPayload → isDelimiterUnit u.2 = false →
      CarriedWhole u.2) :
    Delivered p ts90k seq ((units.map Prod.snd).filter fun d => !isDelimiterUnit d)
      (packetizeH264 (annexB units) ts90k seq p) := by
  have hsplit := split_annexB h hmax
  have hne : ∀ x ∈ units.map fun u => Nal.ofBytes u.2, x.data ≠ [] := by
    intro x hx
    obtain ⟨u, hu, rfl⟩ := List.mem_map.mp hx
    exact (h u hu).ne
  have htypes : ∀ x ∈ units.map fun u => Nal.ofBytes u.2, isDelimiter x = false →
      x.data.length ≤ p.maxPayload → CarriedWhole x.data := by
    intro x hx hnot hlen
    obtain ⟨u, hu, rfl⟩ := List.mem_map.mp hx
    exact htype u hu hlen hnot
  have hunits := receive_payloadsFrom (p := p) hne htypes []
  rw [packetizeH264, hsplit, payloads_eq]
  refine sendAll_delivered hts hseq ?_ (length_payloadsFrom p _) (payloadsFrom_markedLast p hne)
  refine hunits.trans ?_
  rw [List.nil_append, List.filter_map, List.map_map, List.filter_map]
  rfl

/-- Two units, a delimiter behind them, the first one in fragments of a limit of three bytes. -/
theorem packetizeH264_delivered_small :
    Delivered ⟨102, 0, 3, by decide⟩ 90000 65535 [[0x67, 1, 2, 3], [0x65, 7]]
      (packetizeH264 (annexB [(true, [0x67, 1, 2, 3]), (false, [0x65, 7]), (true, [9, 0xf0])])
        90000 65535 ⟨102, 0, 3, by decide⟩) := by
  refine @packetizeH264_delivered
    [(true, [0x67, 1, 2, 3]), (false, [0x65, 7]), (true, [9, 0xf0])] ?_ (by decide)
    ⟨102, 0, 3, by decide⟩ 90000 65535 (by decide) (by decide) ?_
  · simp only [List.mem_cons, List.not_mem_nil, or_false, forall_eq_or_imp, forall_eq]
    refine ⟨⟨?_, ?_, ?_⟩, ⟨?_, ?_, ?_⟩, ⟨?_, ?_, ?_⟩⟩ <;> decide
  · simp only [List.mem_cons, List.not_mem_nil, or_false, forall_eq_or_imp, forall_eq,
      CarriedWhole]
    decide

/-- A short unit of type 28 would be taken for a fragment. -/
theorem not_delivered_type28 :
    H264.WellFormed [0x7c, 0x85, 1] ∧
      ¬ Delivered {} 0 0 [[0x7c, 0x85, 1]] (packetizeH264 (annexB [(true, [0x7c, 0x85, 1])]) 0 0 {}) :=
  ⟨⟨by decide, by decide, by decide⟩, fun h => absurd h.units (by decide)⟩

end Machino.Webrtc
