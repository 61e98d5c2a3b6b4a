import Machino.Rtp.RtpPacket

namespace Machino.Ws

open Bytes

inductive Parse where
  | incomplete
  | ok (consumed opcode : ℕ) (payload : Bytes)
  | bad
  deriving DecidableEq

/-- The payload with the mask taken off. -/
def unmask (mask payload : Bytes) : Bytes := payload.mapIdx fun i b => b ^^^ mask.getD (i % 4) 0

/-- Parses one frame of a client. -/
def parseFrame (maxPayload : ℕ) (inn : Bytes) : Parse :=
  if inn.length < 2 then .incomplete
  else
    let b0 := byte inn 0
    let b1 := byte inn 1
    -- fragmented: not part of this contract
    if b0 / 2 ^ 7 = 0 then .bad
    -- no extensions negotiated
    else if b0 / 2 ^ 4 % 2 ^ 3 ≠ 0 then .bad
    -- clients must mask
    else if b1 / 2 ^ 7 = 0 then .bad
    else
      let code := b1 % 2 ^ 7
      let p := if code = 126 then 4 else if code = 127 then 10 else 2
      if inn.length < p then .incomplete
      else
        let len := if code = 126 then be16 inn 2 else if code = 127 then be64 inn 2 else code
        if maxPayload < len then .bad
        else if inn.length < p + 4 + len then .incomplete
        else
          let payload := (inn.drop (p + 4)).take len
          .ok (p + 4 + len) (b0 % 2 ^ 4) (unmask ((inn.drop p).take 4) payload)

/-- Takes frames off the buffer until one is not complete. A bad one drops the connection. -/
def drain (maxPayload : ℕ) : ℕ → Bytes → List (ℕ × Bytes) × Option Bytes
  | 0, inn => ([], some inn)
  | fuel + 1, inn =>
    match parseFrame maxPayload inn with
    | .incomplete => ([], some inn)
    | .bad => ([], none)
    | .ok consumed opcode payload =>
      let rest := drain maxPayload fuel (inn.drop consumed)
      ((opcode, payload) :: rest.1, rest.2)

/-- What has come is put behind what was left, and all frames of it are taken off. -/
def feed (maxPayload : ℕ) (buffer chunk : Bytes) : List (ℕ × Bytes) × Option Bytes :=
  drain maxPayload (buffer.length + chunk.length) (buffer ++ chunk)

/-- The frames out of a stream that comes in chunks, and what is left of it. -/
def feedAll (maxPayload : ℕ) : Bytes → List Bytes → List (ℕ × Bytes) × Option Bytes
  | buffer, [] => ([], some buffer)
  | buffer, chunk :: chunks =>
    match feed maxPayload buffer chunk with
    | (frames, none) => (frames, none)
    | (frames, some buffer) =>
      let rest := feedAll maxPayload buffer chunks
      (frames ++ rest.1, rest.2)

/-- The three encodings of a length. -/
inductive LengthForm where
  | short | two | eight
  deriving DecidableEq

/-- Which lengths an encoding can say; the shortest one is not asked for. -/
def LengthForm.fits : LengthForm → ℕ → Prop
  | .short, n => n < 126
  | .two, n => n < 2 ^ 16
  | .eight, n => n < 2 ^ 64

instance : (form : LengthForm) → (n : ℕ) → Decidable (form.fits n)
  | .short, n => inferInstanceAs (Decidable (n < 126))
  | .two, n => inferInstanceAs (Decidable (n < 2 ^ 16))
  | .eight, n => inferInstanceAs (Decidable (n < 2 ^ 64))

/-- The masking of RFC 6455: octet `i` of the payload is xored with octet `i` modulo 4 of the
key. -/
def masked (key : Vector UInt8 4) (payload : Bytes) : Bytes :=
  List.ofFn fun i : Fin payload.length =>
    payload.get i ^^^ key.get ⟨i % 4, Nat.mod_lt _ (by decide)⟩

/-- A frame that a client may send. -/
structure ClientFrame where
  opcode : Fin 16
  payload : Bytes
  mask : Vector UInt8 4
  form : LengthForm
  fits : form.fits payload.length

namespace ClientFrame

variable (f : ClientFrame)

/-- The seven bits in the second byte. -/
def code : ℕ :=
  match f.form with
  | .short => f.payload.length
  | .two => 126
  | .eight => 127

def extended : Bytes :=
  match f.form with
  | .short => []
  | .two => ofBe16 f.payload.length
  | .eight => ofBe64 f.payload.length

def encode : Bytes :=
  UInt8.ofNat (2 ^ 7 + f.opcode) :: UInt8.ofNat (2 ^ 7 + f.code) :: f.extended ++ f.mask.toList ++
    masked f.mask f.payload

/-- What is to be read. -/
def content : ℕ × Bytes := (f.opcode, f.payload)

end ClientFrame

theorem length_masked (key : Vector UInt8 4) (payload : Bytes) :
    (masked key payload).length = payload.length := List.length_ofFn

/-- What a client masks, the server reads. -/
theorem unmask_masked (key : Vector UInt8 4) (payload : Bytes) :
    unmask key.toList (masked key payload) = payload := by
  apply List.ext_getElem
  · rw [unmask, List.length_mapIdx, length_masked]
  · intro i hi hi'
    have hlt : i % 4 < key.toList.length := by
      rw [Vector.length_toList]
      exact Nat.mod_lt _ (by decide)
    have hkey : key.toList.getD (i % 4) 0 = key.get ⟨i % 4, Nat.mod_lt _ (by decide)⟩ := by
      rw [List.getD_eq_getElem _ _ hlt, Vector.getElem_toList]
      rfl
    simp only [unmask, List.getElem_mapIdx, masked, List.getElem_ofFn]
    -- the same octet of the key, twice
    rw [hkey, UInt8.xor_assoc, UInt8.xor_self, UInt8.xor_zero]
    rfl

section frame

variable (f : ClientFrame)

theorem code_lt : f.code < 2 ^ 7 := by
  have hfits := f.fits
  unfold ClientFrame.code
  cases hform : f.form with
  | short =>
    rw [hform] at hfits
    exact Nat.lt_trans hfits (by decide)
  | two => exact (by decide : 126 < 2 ^ 7)
  | eight => exact (by decide : 127 < 2 ^ 7)

/-- Where the mask starts. -/
def ClientFrame.head : ℕ := 2 + f.extended.length

theorem length_encode : f.encode.length = f.head + 4 + f.payload.length := by
  simp [ClientFrame.encode, ClientFrame.head, length_masked]
  omega

theorem byte_zero (s : Bytes) : byte (f.encode ++ s) 0 = 2 ^ 7 + f.opcode := by
  have hlt := f.opcode.isLt
  have hnat : (UInt8.ofNat (2 ^ 7 + f.opcode)).toNat = 2 ^ 7 + f.opcode :=
    UInt8.toNat_ofNat_of_lt' (by simp only [UInt8.size]; omega)
  exact hnat

theorem byte_one (s : Bytes) : byte (f.encode ++ s) 1 = 2 ^ 7 + f.code := by
  have hlt := code_lt f
  have hnat : (UInt8.ofNat (2 ^ 7 + f.code)).toNat = 2 ^ 7 + f.code :=
    UInt8.toNat_ofNat_of_lt' (by simp only [UInt8.size]; omega)
  exact hnat

theorem head_of_code :
    (if f.code = 126 then 4 else if f.code = 127 then 10 else 2) = f.head := by
  have hfits := f.fits
  unfold ClientFrame.head ClientFrame.extended ClientFrame.code
  cases hform : f.form with
  | short =>
    rw [hform] at hfits
    have hlt : f.payload.length < 126 := hfits
    dsimp only
    rw [if_neg (by omega), if_neg (by omega)]
    rfl
  | two => rfl
  | eight => rfl

/-- Each encoding says the length of the payload. -/
theorem length_of_code (s : Bytes) :
    (if f.code = 126 then be16 (f.encode ++ s) 2
      else if f.code = 127 then be64 (f.encode ++ s) 2 else f.code) = f.payload.length := by
  have hfits := f.fits
  have htext : f.encode ++ s = UInt8.ofNat (2 ^ 7 + f.opcode) :: UInt8.ofNat (2 ^ 7 + f.code) ::
      (f.extended ++ (f.mask.toList ++ masked f.mask f.payload ++ s)) := by
    simp [ClientFrame.encode]
  have h16 : be16 (f.encode ++ s) 2 =
      be16 (f.extended ++ (f.mask.toList ++ masked f.mask f.payload ++ s)) 0 := by
    rw [htext]
    rfl
  have h64 : be64 (f.encode ++ s) 2 =
      be64 (f.extended ++ (f.mask.toList ++ masked f.mask f.payload ++ s)) 0 := by
    rw [htext]
    rfl
  rw [h16, h64]
  unfold ClientFrame.code ClientFrame.extended
  cases hform : f.form with
  | short =>
    rw [hform] at hfits
    have hlt : f.payload.length < 126 := hfits
    dsimp only
    rw [if_neg (by omega), if_neg (by omega)]
  | two =>
    rw [hform] at hfits
    dsimp only
    rw [if_pos rfl]
    exact (be16_ofBe16 [] _ _).trans (Nat.mod_eq_of_lt hfits)
  | eight =>
    rw [hform] at hfits
    dsimp only
    rw [if_neg (by decide), if_pos rfl, be64_ofBe64]
    exact Nat.mod_eq_of_lt hfits

theorem take_mask (s : Bytes) : ((f.encode ++ s).drop f.head).take 4 = f.mask.toList := by
  have hlen : f.head = (UInt8.ofNat (2 ^ 7 + f.opcode) :: UInt8.ofNat (2 ^ 7 + f.code) ::
      f.extended).length := by
    rw [List.length_cons, List.length_cons, ClientFrame.head]
    omega
  have htext : f.encode ++ s = (UInt8.ofNat (2 ^ 7 + f.opcode) :: UInt8.ofNat (2 ^ 7 + f.code) ::
      f.extended) ++ (f.mask.toList ++ (masked f.mask f.payload ++ s)) := by
    simp [ClientFrame.encode]
  rw [htext, hlen, List.drop_left]
  exact List.take_left' (by simp)

theorem take_payload (s : Bytes) : ((f.encode ++ s).drop (f.head + 4)).take f.payload.length =
    masked f.mask f.payload := by
  have hlen : f.head + 4 = (UInt8.ofNat (2 ^ 7 + f.opcode) :: UInt8.ofNat (2 ^ 7 + f.code) ::
      f.extended ++ f.mask.toList).length := by simp [ClientFrame.head]; omega
  have htext : f.encode ++ s = (UInt8.ofNat (2 ^ 7 + f.opcode) :: UInt8.ofNat (2 ^ 7 + f.code) ::
      f.extended ++ f.mask.toList) ++ (masked f.mask f.payload ++ s) := by
    simp [ClientFrame.encode]
  rw [htext, hlen, List.drop_left]
  exact List.take_left' (length_masked _ _)

end frame

theorem be16_of_prefix {p q : Bytes} (h : p <+: q) {i : ℕ} (hi : i + 1 < p.length) :
    be16 p i = be16 q i := by
  rw [be16, be16, byte_prefix_eq h (by omega), byte_prefix_eq h hi]

theorem be64_of_prefix {p q : Bytes} (h : p <+: q) {i : ℕ} (hi : i + 7 < p.length) :
    be64 p i = be64 q i := by
  have h16 : ∀ j, j < 7 → be16 p (i + j) = be16 q (i + j) :=
    fun j hj => be16_of_prefix h (by omega)
  rw [be64, be64, be32, be32, be32, be32]
  have h0 := h16 0 (by decide)
  have h2 := h16 2 (by decide)
  have h4 := h16 4 (by decide)
  have h6 := h16 6 (by decide)
  simp only [Nat.add_zero] at h0
  simp only [Nat.add_assoc, Nat.reduceAdd] at h2 h4 h6 ⊢
  rw [h0, h2, h4, h6]

/-- What comes of a buffer that a frame starts, or that starts a frame. -/
theorem parseFrame_of_prefix {max : ℕ} {f : ClientFrame} (hmax : f.payload.length ≤ max)
    {p s : Bytes} (hp : p <+: f.encode ++ s) :
    parseFrame max p = if p.length < f.encode.length then .incomplete
      else .ok f.encode.length f.opcode f.payload := by
  have hcode := code_lt f
  have hop := f.opcode.isLt
  have hlen := length_encode f
  unfold parseFrame
  by_cases h2 : p.length < 2
  · rw [if_pos h2, if_pos (by unfold ClientFrame.head at hlen; omega)]
  · rw [if_neg h2]
    have hb0 : byte p 0 = 2 ^ 7 + f.opcode :=
      (byte_prefix_eq hp (by omega)).trans (byte_zero f s)
    have hb1 : byte p 1 = 2 ^ 7 + f.code :=
      (byte_prefix_eq hp (by omega)).trans (byte_one f s)
    have hlow : (2 ^ 7 + f.code) % 2 ^ 7 = f.code := by omega
    have hopcode : (2 ^ 7 + (f.opcode : ℕ)) % 2 ^ 4 = f.opcode := by omega
    dsimp only
    rw [hb0, hb1, if_neg (by omega), if_neg (by omega), if_neg (by omega), hlow, hopcode,
      head_of_code f]
    by_cases hhead : p.length < f.head
    · rw [if_pos hhead, if_pos (by omega)]
    · have hsize : (if f.code = 126 then be16 p 2 else if f.code = 127 then be64 p 2 else f.code) =
          f.payload.length := by
        rw [← length_of_code f s]
        have hcases := head_of_code f
        by_cases h126 : f.code = 126
        · rw [if_pos h126, if_pos h126]
          rw [if_pos h126] at hcases
          exact be16_of_prefix hp (by omega)
        · rw [if_neg h126, if_neg h126]
          rw [if_neg h126] at hcases
          by_cases h127 : f.code = 127
          · rw [if_pos h127, if_pos h127]
            rw [if_pos h127] at hcases
            exact be64_of_prefix hp (by omega)
          · rw [if_neg h127, if_neg h127]
      rw [if_neg hhead, hsize, if_neg (by omega), ← hlen]
      by_cases hall : p.length < f.encode.length
      · rw [if_pos hall, if_pos hall]
      · rw [if_neg hall, if_neg hall]
        have hfull : f.encode <+: p :=
          List.prefix_of_prefix_length_le (List.prefix_append _ s) hp (by omega)
        obtain ⟨t, rfl⟩ := hfull
        rw [take_mask, take_payload, unmask_masked]

/-- A part of a frame is left where it is. -/
theorem parseFrame_incomplete {max : ℕ} {f : ClientFrame} (hmax : f.payload.length ≤ max)
    {p : Bytes} (hp : p <+: f.encode) (hne : p ≠ f.encode) : parseFrame max p = .incomplete := by
  have hlt : p.length < f.encode.length := by
    obtain hlt | heq := Nat.lt_or_eq_of_le hp.length_le
    · exact hlt
    · exact absurd (hp.eq_of_length heq) hne
  have hread := parseFrame_of_prefix hmax (hp.trans (List.prefix_append f.encode []))
  rwa [if_pos hlt] at hread

def encodeAll (fs : List ClientFrame) : Bytes := fs.flatMap ClientFrame.encode

/-- A buffer that the next frame is not yet complete in. -/
def Partial (fs : List ClientFrame) (tail : Bytes) : Prop :=
  tail <+: encodeAll fs ∧ ∀ f ∈ fs.head?, tail.length < f.encode.length

theorem length_encode_pos (f : ClientFrame) : 0 < f.encode.length := Nat.succ_pos _

/-- All frames that are complete are taken off. -/
theorem drain_of_prefix {max : ℕ} {fs : List ClientFrame} (hmax : ∀ f ∈ fs, f.payload.length ≤ max)
    {p : Bytes} (hp : p <+: encodeAll fs) (fuel : ℕ) (hfuel : p.length ≤ fuel) :
    ∃ done rest tail, fs = done ++ rest ∧ p = encodeAll done ++ tail ∧ Partial rest tail ∧
      drain max fuel p = (done.map ClientFrame.content, some tail) := by
  induction fs generalizing p fuel with
  | nil =>
    have hnil : p = [] := List.prefix_nil.mp hp
    subst hnil
    refine ⟨[], [], [], rfl, rfl, ⟨List.prefix_rfl, by simp⟩, ?_⟩
    cases fuel with
    | zero => rfl
    | succ fuel => rfl
  | cons f fs ih =>
    have hf := hmax f List.mem_cons_self
    have htext : encodeAll (f :: fs) = f.encode ++ encodeAll fs := by simp [encodeAll]
    have hpos := length_encode_pos f
    rw [htext] at hp
    by_cases hlt : p.length < f.encode.length
    · refine ⟨[], f :: fs, p, rfl, rfl, ⟨by rwa [htext], ?_⟩, ?_⟩
      · intro g hg
        obtain rfl : f = g := by simpa using hg
        exact hlt
      · cases fuel with
        | zero => rfl
        | succ fuel => rw [drain, parseFrame_of_prefix hf hp, if_pos hlt]; rfl
    · have hfull : f.encode <+: p :=
        List.prefix_of_prefix_length_le (List.prefix_append _ (encodeAll fs)) hp (by omega)
      obtain ⟨q, rfl⟩ := hfull
      rw [List.length_append] at hfuel
      obtain ⟨fuel, rfl⟩ : ∃ m, fuel = m + 1 := ⟨fuel - 1, by omega⟩
      have hq := (List.prefix_append_right_inj _).mp hp
      obtain ⟨done, rest, tail, hfs, hqt, htail, hdrain⟩ :=
        ih (fun g hg => hmax g (List.mem_cons_of_mem f hg)) hq fuel (by omega)
      refine ⟨f :: done, rest, tail, by rw [hfs]; rfl, ?_, htail, ?_⟩
      · rw [hqt]
        simp [encodeAll]
      · rw [drain, parseFrame_of_prefix hf hp, if_neg hlt]
        dsimp only
        rw [List.drop_left, hdrain]
        rfl

/-- Whatever the chunks, the frames come out in order, and nothing is left. -/
theorem feedAll_of_partial {max : ℕ} {fs : List ClientFrame}
    (hmax : ∀ f ∈ fs, f.payload.length ≤ max) {buffer : Bytes} (hbuffer : Partial fs buffer)
    {chunks : List Bytes} (h : buffer ++ chunks.flatten = encodeAll fs) :
    feedAll max buffer chunks = (fs.map ClientFrame.content, some []) := by
  induction chunks generalizing fs buffer with
  | nil =>
    rw [List.flatten_nil, List.append_nil] at h
    cases fs with
    | nil =>
      rw [h]
      rfl
    | cons f fs =>
      have hlt := hbuffer.2 f (by simp)
      rw [h, encodeAll, List.flatMap_cons, List.length_append] at hlt
      omega
  | cons chunk chunks ih =>
    rw [List.flatten_cons, ← List.append_assoc] at h
    have hp : buffer ++ chunk <+: encodeAll fs := ⟨chunks.flatten, h⟩
    obtain ⟨done, rest, tail, hfs, hpt, htail, hdrain⟩ :=
      drain_of_prefix hmax hp (buffer.length + chunk.length) (by simp)
    have hrest : tail ++ chunks.flatten = encodeAll rest := by
      rw [hpt, hfs, encodeAll, encodeAll, List.flatMap_append, List.append_assoc] at h
      exact List.append_cancel_left h
    have hmore := ih (fun f hf => hmax f (by rw [hfs]; exact List.mem_append_right done hf)) htail
      hrest
    rw [feedAll, feed, hdrain]
    dsimp only
    rw [hmore, hfs, List.map_append]

/-- Whatever the chunks, exactly the frames come out, in order; and a strict part of a frame is
incomplete, with nothing taken off. -/
theorem frames_of_stream (max : ℕ) (fs : List ClientFrame)
    (hmax : ∀ f ∈ fs, f.payload.length ≤ max) :
    (∀ chunks : List Bytes, chunks.flatten = encodeAll fs →
      feedAll max [] chunks = (fs.map ClientFrame.content, some [])) ∧
    ∀ f ∈ fs, ∀ p : Bytes, p <+: f.encode → p ≠ f.encode →
      parseFrame max p = .incomplete ∧ feedAll max [] [p] = ([], some p) := by
  constructor
  · intro chunks h
    refine feedAll_of_partial hmax ⟨List.nil_prefix, fun f _ => length_encode_pos f⟩ ?_
    rwa [List.nil_append]
  · intro f hf p hp hne
    have hinc := parseFrame_incomplete (hmax f hf) hp hne
    refine ⟨hinc, ?_⟩
    have hdrain : ∀ fuel, drain max fuel p = ([], some p) := by
      intro fuel
      cases fuel with
      | zero => rfl
      | succ fuel => rw [drain, hinc]
    rw [feedAll, feed, List.nil_append, hdrain]
    rfl

/-- A request for a key frame and a ping. -/
def twoFrames : List ClientFrame :=
  [⟨1, [0x69, 0x64, 0x72], #v[1, 2, 3, 4], .short, by decide⟩,
    ⟨9, [], #v[9, 8, 7, 6], .two, by decide⟩]

theorem frames_of_stream_two :
    feedAll 4096 [] [(encodeAll twoFrames).take 5, (encodeAll twoFrames).drop 5] =
      (twoFrames.map ClientFrame.content, some []) :=
  (frames_of_stream 4096 twoFrames (by decide)).1 _ (by simp)

end Machino.Ws
