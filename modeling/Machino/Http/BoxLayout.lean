import Machino.Basic.Tagged
import Machino.Http.Fmp4

namespace Machino.Fmp4

open Bytes Tagged

structure FourCc where
  a : UInt8
  b : UInt8
  c : UInt8
  d : UInt8
  deriving DecidableEq

def FourCc.bytes (t : FourCc) : Bytes := [t.a, t.b, t.c, t.d]

def fourCc (s : String) : FourCc :=
  match tag s with
  | [a, b, c, d] => ⟨a, b, c, d⟩
  | _ => ⟨0, 0, 0, 0⟩

/-- The size of a box counts its header too. -/
def readBoxHeader (s : Bytes) : Option (FourCc × ℕ × Bytes) :=
  match s.drop 4 with
  | a :: b :: c :: d :: rest =>
    if 8 ≤ be32 s 0 then some (⟨a, b, c, d⟩, be32 s 0 - 8, rest) else none
  | _ => none

theorem readBoxHeader_write (t : FourCc) (n : ℕ) (s : Bytes) (h : n < 2 ^ 32 - 8) :
    readBoxHeader (ofBe32 (8 + n) ++ t.bytes ++ s) = some (t, n, s) := by
  have hsize : be32 (ofBe32 (8 + n) ++ t.bytes ++ s) 0 = 8 + n := by
    rw [List.append_assoc, be32_ofBe32]
    omega
  have hdrop : (ofBe32 (8 + n) ++ t.bytes ++ s).drop 4 = t.a :: t.b :: t.c :: t.d :: s := rfl
  rw [readBoxHeader, hdrop]
  dsimp only
  rw [hsize, if_pos (Nat.le_add_right 8 n), Nat.add_sub_cancel_left]

theorem FourCc.bytes_ne_nil (t : FourCc) : t.bytes ≠ [] := List.cons_ne_nil _ _

def boxHeader : Header FourCc UInt8 where
  write t n := ofBe32 (8 + n) ++ t.bytes
  read := readBoxHeader
  limit := 2 ^ 32 - 8
  read_write := readBoxHeader_write
  write_ne_nil t _ := List.append_ne_nil_of_right_ne_nil _ t.bytes_ne_nil

theorem boxHeader_write (t : FourCc) (n : ℕ) :
    boxHeader.write t n = ofBe32 (8 + n) ++ t.bytes := rfl

theorem boxHeader_limit : boxHeader.limit = 2 ^ 32 - 8 := rfl

abbrev Box := Tree FourCc UInt8

/-- What stands before the boxes inside a box. -/
def headLength (t : FourCc) : Option ℕ :=
  if t ∈ ["moov", "trak", "mdia", "minf", "dinf", "stbl", "mvex", "moof", "traf", "iprp",
      "ipco"].map fourCc then some 0
  else if t = fourCc "meta" then some 4
  else if t = fourCc "iinf" then some 6
  else if t ∈ ["dref", "stsd"].map fourCc then some 8
  else if t ∈ ["mp4a", "Opus"].map fourCc then some 28
  else if t = fourCc "avc1" then some 78
  else none

def readBoxes (file : Bytes) : Option (List Box) := parse boxHeader headLength file

/-- What the box at the end of a path has of its own. -/
def walk (path : List String) (file : Bytes) : Option Bytes :=
  (readBoxes file).bind (find (path.map fourCc))

/-- Seven bits a byte, while the top bit says that more follow. -/
def expandable (acc : ℕ) : Bytes → Option (ℕ × Bytes)
  | [] => none
  | b :: s =>
    let acc := acc * 2 ^ 7 + b.toNat % 2 ^ 7
    if 2 ^ 7 ≤ b.toNat then expandable acc s else some (acc, s)

def readDescHeader : Bytes → Option (UInt8 × ℕ × Bytes)
  | [] => none
  | t :: s => (expandable 0 s).map fun (n, s) => (t, n, s)

theorem readDescHeader_desc (t : UInt8) (n : ℕ) (s : Bytes) (h : n < 2 ^ 7) :
    readDescHeader (desc t n ++ s) = some (t, n, s) := by
  have hn : (UInt8.ofNat n).toNat = n := by
    rw [UInt8.toNat_ofNat']
    omega
  have hlen : expandable 0 (UInt8.ofNat n :: s) = some (n, s) := by
    rw [expandable, hn, if_neg (by omega), Nat.zero_mul, Nat.zero_add, Nat.mod_eq_of_lt h]
  rw [show desc t n ++ s = t :: UInt8.ofNat n :: s from rfl, readDescHeader, hlen]
  rfl

def descHeader : Header UInt8 UInt8 where
  write := desc
  read := readDescHeader
  limit := 2 ^ 7
  read_write := readDescHeader_desc
  write_ne_nil _ _ := List.cons_ne_nil _ _

/-- An identifier with its flags; the configuration of the decoder. -/
def descHeadLength (t : UInt8) : Option ℕ :=
  if t = 3 then some 3 else if t = 4 then some 13 else none

/-- The descriptors of an esds box, behind its version and its flags. -/
def readEsds (p : Bytes) : Option (List (Tree UInt8 UInt8)) :=
  parse descHeader descHeadLength (p.drop 4)

/-- Parameter sets, each behind a length of 16 bits, and what is behind them. -/
def readSets : ℕ → Bytes → Option (List Bytes × Bytes)
  | 0, s => some ([], s)
  | k + 1, s =>
    let n := be16 s 0
    if s.length < 2 + n then none
    else (readSets k (s.drop (2 + n))).map fun r => ((s.drop 2).take n :: r.1, r.2)

theorem readSets_one {p : Bytes} (h : p.length < 2 ^ 16) (s : Bytes) :
    readSets 1 (ofBe16 p.length ++ p ++ s) = some ([p], s) := by
  have hn : be16 (ofBe16 p.length ++ p ++ s) 0 = p.length := by
    have hsize := be16_ofBe16 [] (p ++ s) p.length
    rw [List.nil_append, List.length_nil, ← List.append_assoc, Nat.mod_eq_of_lt h] at hsize
    exact hsize
  have hlen : ¬(ofBe16 p.length ++ p ++ s).length < 2 + p.length := by
    rw [List.length_append, List.length_append, length_ofBe16]
    omega
  have hdrop : (ofBe16 p.length ++ p ++ s).drop (2 + p.length) = s := by
    have hfront : (ofBe16 p.length ++ p).length = 2 + p.length := by
      rw [List.length_append, length_ofBe16]
    rw [← hfront, List.drop_left]
  have htake : ((ofBe16 p.length ++ p ++ s).drop 2).take p.length = p := by
    rw [List.append_assoc]
    exact List.take_left
  rw [readSets, hn, if_neg hlen, hdrop, htake]
  rfl

/-- The sequence and the picture parameter sets of an avcC box, and what is behind them. -/
def readAvcC (p : Bytes) : Option (List Bytes × List Bytes × Bytes) :=
  match p.drop 5 with
  | [] => none
  | n :: s =>
    (readSets (n.toNat % 2 ^ 5) s).bind fun sps =>
      match sps.2 with
      | [] => none
      | m :: s => (readSets m.toNat s).map fun pps => (sps.1, pps.1, pps.2)

open Bytes Tagged

/-- The writer appends these bytes, whatever the buffer holds. -/
def Appends (w : Writer) (p : Bytes) : Prop := ∀ b, w b = b ++ p

theorem appends_put (p : Bytes) : Appends (put p) p := fun _ => rfl

theorem appends_nil : Appends (writeAll []) [] := fun b => (List.append_nil b).symm

theorem Appends.cons {w : Writer} {ws : List Writer} {p q : Bytes} (hw : Appends w p)
    (hws : Appends (writeAll ws) q) : Appends (writeAll (w :: ws)) (p ++ q) := by
  intro b
  rw [← List.append_assoc, ← hw b]
  exact hws (w b)

theorem Appends.append {ws ws' : List Writer} {p q : Bytes} (hws : Appends (writeAll ws) p)
    (hws' : Appends (writeAll ws') q) : Appends (writeAll (ws ++ ws')) (p ++ q) := by
  intro b
  rw [writeAll, List.foldl_append, ← List.append_assoc, ← hws b]
  exact hws' _

theorem appends_puts (ps : List Bytes) : Appends (writeAll (ps.map put)) ps.flatten := by
  induction ps with
  | nil => exact appends_nil
  | cons p ps ih => exact (appends_put p).cons ih

/-- The placeholder is written over with the size. -/
theorem closeBox_append (b : Bytes) (n : ℕ) (q : Bytes) :
    closeBox b.length (b ++ ofBe32 n ++ q) = b ++ ofBe32 (4 + q.length) ++ q := by
  have hlen : (b ++ ofBe32 n ++ q).length - b.length = 4 + q.length := by
    rw [List.append_assoc, List.length_append, List.length_append, length_ofBe32]
    omega
  have hdrop : (b ++ ofBe32 n ++ q).drop (b.length + 4) = q := by
    have hfront : (b ++ ofBe32 n).length = b.length + 4 := by
      rw [List.length_append, length_ofBe32]
    rw [← hfront, List.drop_left]
  rw [closeBox, patch32, hlen, hdrop, List.append_assoc b, List.take_left]

theorem appends_box {type : String} {ws : List Writer} {p : Bytes} (htype : (tag type).length = 4)
    (hws : Appends (writeAll ws) p) :
    Appends (box type ws) (ofBe32 (8 + p.length) ++ tag type ++ p) := by
  intro b
  rw [box, openBox, hws, List.append_assoc _ (tag type), closeBox_append, List.length_append, htype,
    ← Nat.add_assoc, List.append_assoc, List.append_assoc]

theorem length_versionFlags (version flags : ℕ) : (versionFlags version flags).length = 4 := rfl

theorem full_eq_box (type : String) (version flags : ℕ) (ws : List Writer) :
    full type version flags ws = box type (put (versionFlags version flags) :: ws) := rfl

/-- The writer appends these boxes, and the reader finds them. -/
structure Writes (w : Writer) (ts : List Box) : Prop where
  appends : Appends w (bytesAll boxHeader ts)
  shaped : ∀ t ∈ ts, Shaped headLength t

theorem writes_nil : Writes (writeAll []) [] := by
  refine ⟨?_, fun _ h => absurd h List.not_mem_nil⟩
  rw [bytesAll_nil]
  exact appends_nil

theorem Writes.cons {w : Writer} {ws : List Writer} {ts us : List Box} (hw : Writes w ts)
    (hws : Writes (writeAll ws) us) : Writes (writeAll (w :: ws)) (ts ++ us) := by
  refine ⟨?_, fun t ht => ?_⟩
  · rw [bytesAll_append]
    exact hw.appends.cons hws.appends
  · rcases List.mem_append.mp ht with ht | ht
    · exact hw.shaped t ht
    · exact hws.shaped t ht

/-- A box without boxes inside. -/
def leafOf (type : String) (ps : List Bytes) : Box := .node (fourCc type) ps.flatten []

/-- A box with boxes inside, behind its own part. -/
def boxOf (type : String) (ps : List Bytes) (ts : List Box) : Box :=
  .node (fourCc type) ps.flatten ts

theorem writes_leaf {type : String} {ws : List Writer} {ps : List Bytes} (hps : ws = ps.map put)
    (htype : (fourCc type).bytes = tag type) (hleaf : headLength (fourCc type) = none) :
    Writes (box type ws) [leafOf type ps] := by
  refine ⟨?_, fun t ht => ?_⟩
  · rw [bytesAll_cons, bytesAll_nil, List.append_nil, leafOf, bytes_leaf, boxHeader_write, htype,
      hps]
    exact appends_box (by rw [← htype]; rfl) (appends_puts ps)
  · obtain rfl := List.mem_singleton.mp ht
    exact .leaf hleaf

theorem writes_box {type : String} (hs : List Writer) {ws : List Writer} {ps : List Bytes}
    {ts : List Box} {k : ℕ} (hps : hs = ps.map put) (htype : (fourCc type).bytes = tag type)
    (hhead : headLength (fourCc type) = some k) (hlen : ps.flatten.length = k)
    (hws : Writes (writeAll ws) ts) : Writes (box type (hs ++ ws)) [boxOf type ps ts] := by
  refine ⟨?_, fun t ht => ?_⟩
  · rw [bytesAll_cons, bytesAll_nil, List.append_nil, boxOf, bytes_node, ← List.length_append,
      boxHeader_write, htype, hps]
    exact appends_box (by rw [← htype]; rfl) ((appends_puts ps).append hws.appends)
  · obtain rfl := List.mem_singleton.mp ht
    exact .node (hlen ▸ hhead) hws.shaped

theorem writes_container (type : String) {ws : List Writer} {ts : List Box}
    (htype : (fourCc type).bytes = tag type) (hhead : headLength (fourCc type) = some 0)
    (hws : Writes (writeAll ws) ts) : Writes (box type ws) [boxOf type [] ts] :=
  writes_box [] rfl htype hhead rfl hws

theorem writes_fullLeaf {type : String} {version flags : ℕ} {ws : List Writer} {ps : List Bytes}
    (hps : ws = ps.map put) (htype : (fourCc type).bytes = tag type)
    (hleaf : headLength (fourCc type) = none) :
    Writes (full type version flags ws) [leafOf type (versionFlags version flags :: ps)] := by
  rw [full_eq_box]
  exact writes_leaf (congrArg _ hps) htype hleaf

theorem writes_fullBox {type : String} {version flags : ℕ} (hs : List Writer) {ws : List Writer}
    {ps : List Bytes} {ts : List Box} {k : ℕ} (hps : hs = ps.map put) (htype : (fourCc type).bytes = tag type)
    (hhead : headLength (fourCc type) = some k) (hlen : 4 + ps.flatten.length = k)
    (hws : Writes (writeAll ws) ts) :
    Writes (full type version flags (hs ++ ws))
      [boxOf type (versionFlags version flags :: ps) ts] := by
  rw [full_eq_box, ← List.cons_append]
  refine writes_box _ (congrArg _ hps) htype hhead ?_ hws
  rw [List.flatten_cons, List.length_append, length_versionFlags, hlen]

/-- What was written is read again. -/
theorem Writes.readBoxes {w : Writer} {ts : List Box} (h : Writes w ts)
    (hsize : ∀ t ∈ ts, (payload boxHeader t).length < 2 ^ 32 - 8) :
    readBoxes (w []) = some ts := by
  rw [h.appends, List.nil_append]
  exact parse_bytesAll h.shaped hsize

def ftypTree : Box :=
  leafOf "ftyp" [tag "iso5", ofBe32 1, tag "iso5", tag "iso6", tag "mp41"]

def mvhdTree (timescale nextTrack : ℕ) : Box :=
  leafOf "mvhd" [versionFlags 0 0, ofBe32 0 ++ ofBe32 0, ofBe32 timescale ++ ofBe32 0,
    ofBe32 0x00010000 ++ ofBe16 0x0100 ++ zeros (2 + 8), unity, zeros (6 * 4), ofBe32 nextTrack]

def tkhdTree (trackId group volume width height : ℕ) : Box :=
  leafOf "tkhd" [versionFlags 0 3, ofBe32 0 ++ ofBe32 0, ofBe32 trackId ++ ofBe32 0,
    ofBe32 0 ++ zeros 8, ofBe16 0 ++ ofBe16 group, ofBe16 volume ++ ofBe16 0, unity,
    ofBe32 (width * 2 ^ 16) ++ ofBe32 (height * 2 ^ 16)]

def mdhdTree (timescale : ℕ) : Box :=
  leafOf "mdhd" [versionFlags 0 0, ofBe32 0 ++ ofBe32 0, ofBe32 timescale ++ ofBe32 0,
    ofBe16 0x55c4 ++ ofBe16 0]

def hdlrTree (handler name : String) : Box :=
  leafOf "hdlr" [versionFlags 0 0, ofBe32 0 ++ tag handler ++ zeros 12, tag name ++ [0]]

def dinfTree : Box :=
  boxOf "dinf" [] [boxOf "dref" [versionFlags 0 0, ofBe32 1] [leafOf "url " [versionFlags 0 1]]]

def tableTrees : List Box :=
  [leafOf "stts" [versionFlags 0 0, [], ofBe32 0], leafOf "stsc" [versionFlags 0 0, [], ofBe32 0],
    leafOf "stsz" [versionFlags 0 0, ofBe32 0, ofBe32 0],
    leafOf "stco" [versionFlags 0 0, [], ofBe32 0]]

def trexTree (trackId : ℕ) : Box :=
  leafOf "trex" [versionFlags 0 0, ofBe32 trackId, ofBe32 1, ofBe32 0 ++ ofBe32 0 ++ ofBe32 0]

theorem writes_ftypBox : Writes ftypBox [ftypTree] := by
  unfold ftypBox ftypTree
  exact writes_leaf rfl (by decide) (by decide)

theorem writes_mvhdBox (timescale nextTrack : ℕ) :
    Writes (mvhdBox timescale nextTrack) [mvhdTree timescale nextTrack] := by
  unfold mvhdBox mvhdTree
  exact writes_fullLeaf rfl (by decide) (by decide)

theorem writes_tkhdBox (trackId group volume width height : ℕ) :
    Writes (tkhdBox trackId group volume width height)
      [tkhdTree trackId group volume width height] := by
  unfold tkhdBox tkhdTree
  exact writes_fullLeaf rfl (by decide) (by decide)

theorem writes_mdhdBox (timescale : ℕ) : Writes (mdhdBox timescale) [mdhdTree timescale] := by
  unfold mdhdBox mdhdTree
  exact writes_fullLeaf rfl (by decide) (by decide)

theorem writes_hdlrBox (handler name : String) :
    Writes (hdlrBox handler name) [hdlrTree handler name] := by
  unfold hdlrBox hdlrTree
  exact writes_fullLeaf rfl (by decide) (by decide)

theorem writes_dinfBox : Writes dinfBox [dinfTree] := by
  have hurl : Writes (full "url " 0 1 []) [leafOf "url " [versionFlags 0 1]] :=
    writes_fullLeaf rfl (by decide) (by decide)
  have hdref : Writes (full "dref" 0 0 [put (ofBe32 1), full "url " 0 1 []])
      [boxOf "dref" [versionFlags 0 0, ofBe32 1] [leafOf "url " [versionFlags 0 1]]] :=
    writes_fullBox [put (ofBe32 1)] rfl (by decide) (by decide) rfl (hurl.cons writes_nil)
  unfold dinfBox dinfTree
  exact writes_box [] rfl (by decide) (by decide) rfl (hdref.cons writes_nil)

theorem writes_emptyTables : Writes emptyTables tableTrees := by
  have hstts : Writes (full "stts" 0 0 [put [], put (ofBe32 0)])
      [leafOf "stts" [versionFlags 0 0, [], ofBe32 0]] := writes_fullLeaf rfl (by decide) (by decide)
  have hstsc : Writes (full "stsc" 0 0 [put [], put (ofBe32 0)])
      [leafOf "stsc" [versionFlags 0 0, [], ofBe32 0]] := writes_fullLeaf rfl (by decide) (by decide)
  have hstsz : Writes (full "stsz" 0 0 [put (ofBe32 0), put (ofBe32 0)])
      [leafOf "stsz" [versionFlags 0 0, ofBe32 0, ofBe32 0]] := writes_fullLeaf rfl (by decide) (by decide)
  have hstco : Writes (full "stco" 0 0 [put [], put (ofBe32 0)])
      [leafOf "stco" [versionFlags 0 0, [], ofBe32 0]] := writes_fullLeaf rfl (by decide) (by decide)
  exact hstts.cons (hstsc.cons (hstsz.cons (hstco.cons writes_nil)))

theorem writes_trexBox (trackId : ℕ) : Writes (trexBox trackId) [trexTree trackId] := by
  unfold trexBox trexTree
  exact writes_fullLeaf rfl (by decide) (by decide)

/-- The sample description of one track. -/
theorem writes_stsdBox {w : Writer} {ts : List Box} (hw : Writes w ts) :
    Writes (full "stsd" 0 0 [put (ofBe32 1), w]) [boxOf "stsd" [versionFlags 0 0, ofBe32 1] ts] :=
  List.append_nil ts ▸
    writes_fullBox [put (ofBe32 1)] rfl (by decide) (by decide) rfl (hw.cons writes_nil)

def dOpsTree (a : AudioTrack) : Box :=
  leafOf "dOps" [[0], [UInt8.ofNat a.channels], ofBe16 a.preSkip, ofBe32 a.sampleRate, ofBe16 0,
    [0]]

def esdsTree (a : AudioTrack) : Box :=
  leafOf "esds" [versionFlags 0 0, desc 0x03 (3 + 2 + (13 + 2 + a.asc.length) + 2 + 1),
    ofBe16 0 ++ [0], desc 0x04 (13 + 2 + a.asc.length), [0x40], [0x15], [0] ++ ofBe16 0,
    ofBe32 0 ++ ofBe32 0, desc 0x05 a.asc.length, a.asc, desc 0x06 1, [0x02]]

def audioEntryTree (a : AudioTrack) : Box :=
  boxOf (if a.codec = .opus then "Opus" else "mp4a") [zeros 6 ++ ofBe16 1, zeros 8,
    ofBe16 a.channels ++ ofBe16 16, ofBe16 0 ++ ofBe16 0,
    ofBe32 ((if a.codec = .opus then 48000 else a.sampleRate) * 2 ^ 16)]
    [if a.codec = .opus then dOpsTree a else esdsTree a]

def audioTrakTree (a : AudioTrack) : Box :=
  boxOf "trak" [] [tkhdTree a.trackId 1 0x0100 0 0,
    boxOf "mdia" [] [mdhdTree a.timescale, hdlrTree "soun" "MachinoAudio",
      boxOf "minf" [] [leafOf "smhd" [versionFlags 0 0, ofBe16 0 ++ ofBe16 0], dinfTree,
        boxOf "stbl" []
          (boxOf "stsd" [versionFlags 0 0, ofBe32 1] [audioEntryTree a] :: tableTrees)]]]

theorem writes_audioTrak (a : AudioTrack) : Writes (audioTrak a) [audioTrakTree a] := by
  have hcodec : Writes (if a.codec = .opus then dOpsBox a else esdsBox a)
      [if a.codec = .opus then dOpsTree a else esdsTree a] := by
    split_ifs
    · unfold dOpsBox dOpsTree
      exact writes_leaf rfl (by decide) (by decide)
    · unfold esdsBox esdsTree
      exact writes_fullLeaf rfl (by decide) (by decide)
  have hentry : Writes (box (if a.codec = .opus then "Opus" else "mp4a")
      [put (zeros 6 ++ ofBe16 1), put (zeros 8), put (ofBe16 a.channels ++ ofBe16 16),
        put (ofBe16 0 ++ ofBe16 0),
        put (ofBe32 ((if a.codec = .opus then 48000 else a.sampleRate) * 2 ^ 16)),
        if a.codec = .opus then dOpsBox a else esdsBox a]) [audioEntryTree a] := by
    unfold audioEntryTree
    refine writes_box [put (zeros 6 ++ ofBe16 1), put (zeros 8),
      put (ofBe16 a.channels ++ ofBe16 16), put (ofBe16 0 ++ ofBe16 0),
      put (ofBe32 ((if a.codec = .opus then 48000 else a.sampleRate) * 2 ^ 16))] rfl ?_ (k := 28) ?_
      rfl (hcodec.cons writes_nil)
    · split_ifs
      · decide
      · decide
    · split_ifs
      · decide
      · decide
  have hstsd := writes_stsdBox hentry
  have hstbl := writes_container "stbl" (by decide) (by decide)
    (hstsd.cons (writes_emptyTables.cons writes_nil))
  have hsmhd : Writes (full "smhd" 0 0 [put (ofBe16 0 ++ ofBe16 0)])
      [leafOf "smhd" [versionFlags 0 0, ofBe16 0 ++ ofBe16 0]] :=
    writes_fullLeaf rfl (by decide) (by decide)
  have hminf := writes_container "minf" (by decide) (by decide)
    (hsmhd.cons (writes_dinfBox.cons (hstbl.cons writes_nil)))
  have hmdia := writes_container "mdia" (by decide) (by decide)
    ((writes_mdhdBox a.timescale).cons
      ((writes_hdlrBox "soun" "MachinoAudio").cons (hminf.cons writes_nil)))
  exact writes_container "trak" (by decide) (by decide)
    ((writes_tkhdBox a.trackId 1 0x0100 0 0).cons (hmdia.cons writes_nil))

/-- A movie with an audio track only. -/
def audioInitTrees (a : AudioTrack) : List Box :=
  [ftypTree, boxOf "moov" [] [mvhdTree a.timescale (a.trackId + 1), audioTrakTree a,
    boxOf "mvex" [] [trexTree a.trackId]]]

theorem writes_audioInitSegment (a : AudioTrack) :
    Writes (writeAll [ftypBox, box "moov" [mvhdBox a.timescale (a.trackId + 1), audioTrak a,
      box "mvex" [trexBox a.trackId]]]) (audioInitTrees a) := by
  have hmvex := writes_container "mvex" (by decide) (by decide)
    ((writes_trexBox a.trackId).cons writes_nil)
  have hmoov := writes_container "moov" (by decide) (by decide)
    ((writes_mvhdBox a.timescale (a.trackId + 1)).cons
      ((writes_audioTrak a).cons (hmvex.cons writes_nil)))
  exact writes_ftypBox.cons (hmoov.cons writes_nil)

/-- The record of the parameter sets, with what a profile adds to it. -/
def avcCTree (sps pps more : Bytes) : Box :=
  leafOf "avcC" [[1], if 3 < sps.length then (sps.drop 1).take 3 else [0x42, 0xe0, 0x1e], [0xff],
    [0xe1], ofBe16 sps.length, sps, [1], ofBe16 pps.length, pps, more]

def videoTrakTree (sps pps : Bytes) (width height timescale : ℕ) : Box :=
  boxOf "trak" [] [tkhdTree 1 0 0 width height,
    boxOf "mdia" [] [mdhdTree timescale, hdlrTree "vide" "MachinoVideo",
      boxOf "minf" [] [leafOf "vmhd" [versionFlags 0 1, zeros 8], dinfTree,
        boxOf "stbl" []
          (boxOf "stsd" [versionFlags 0 0, ofBe32 1]
            [boxOf "avc1" [zeros 6 ++ ofBe16 1, zeros 16, ofBe16 width ++ ofBe16 height,
              ofBe32 0x00480000 ++ ofBe32 0x00480000, ofBe32 0, ofBe16 1, zeros 32,
              ofBe16 0x0018 ++ ofBe16 0xffff] [avcCTree sps pps []]] :: tableTrees)]]]

theorem writes_avcCBox (sps pps more : Bytes) :
    Writes (box "avcC" (avcRecord sps pps ++ [put more])) [avcCTree sps pps more] := by
  unfold avcRecord avcCTree
  exact writes_leaf rfl (by decide) (by decide)

theorem writes_avcCBox_plain (sps pps : Bytes) :
    Writes (box "avcC" (avcRecord sps pps)) [avcCTree sps pps []] := by
  have heq : box "avcC" (avcRecord sps pps) = box "avcC" (avcRecord sps pps ++ [put []]) := by
    funext b
    have hnil : put [] = (id : Writer) := funext List.append_nil
    rw [box, box, writeAll, writeAll, List.foldl_append, hnil]
    rfl
  rw [heq]
  exact writes_avcCBox sps pps []

theorem writes_videoTrak (sps pps : Bytes) (width height timescale : ℕ) :
    Writes (videoTrak sps pps width height timescale)
      [videoTrakTree sps pps width height timescale] := by
  have havc1 : Writes (box "avc1" ([put (zeros 6 ++ ofBe16 1), put (zeros 16),
      put (ofBe16 width ++ ofBe16 height), put (ofBe32 0x00480000 ++ ofBe32 0x00480000),
      put (ofBe32 0), put (ofBe16 1), put (zeros 32), put (ofBe16 0x0018 ++ ofBe16 0xffff)] ++
      [box "avcC" (avcRecord sps pps)]))
      [boxOf "avc1" [zeros 6 ++ ofBe16 1, zeros 16, ofBe16 width ++ ofBe16 height,
        ofBe32 0x00480000 ++ ofBe32 0x00480000, ofBe32 0, ofBe16 1, zeros 32,
        ofBe16 0x0018 ++ ofBe16 0xffff] [avcCTree sps pps []]] :=
    writes_box _ rfl (by decide) (k := 78) (by decide) rfl
      ((writes_avcCBox_plain sps pps).cons writes_nil)
  have hstsd := writes_stsdBox havc1
  have hstbl := writes_container "stbl" (by decide) (by decide)
    (hstsd.cons (writes_emptyTables.cons writes_nil))
  have hvmhd : Writes (full "vmhd" 0 1 [put (zeros 8)]) [leafOf "vmhd" [versionFlags 0 1, zeros 8]] :=
    writes_fullLeaf rfl (by decide) (by decide)
  have hminf := writes_container "minf" (by decide) (by decide)
    (hvmhd.cons (writes_dinfBox.cons (hstbl.cons writes_nil)))
  have hmdia := writes_container "mdia" (by decide) (by decide)
    ((writes_mdhdBox timescale).cons
      ((writes_hdlrBox "vide" "MachinoVideo").cons (hminf.cons writes_nil)))
  exact writes_container "trak" (by decide) (by decide)
    ((writes_tkhdBox 1 0 0 width height).cons (hmdia.cons writes_nil))

/-- A movie with a video track, and with the audio track that is given. -/
def initTrees (sps pps : Bytes) (width height timescale : ℕ) (audio : Option AudioTrack) :
    List Box :=
  [ftypTree, boxOf "moov" [] ([mvhdTree timescale (audio.elim 2 (·.trackId + 1)),
    videoTrakTree sps pps width height timescale] ++ (audio.toList.map audioTrakTree ++
      [boxOf "mvex" [] (trexTree 1 :: audio.toList.map fun a => trexTree a.trackId)]))]

theorem writes_option {α : Type} {f : α → Writer} {g : α → Box} (h : ∀ a, Writes (f a) [g a])
    (x : Option α) : Writes (writeAll (x.toList.map f)) (x.toList.map g) := by
  cases x with
  | none => exact writes_nil
  | some a => exact (h a).cons writes_nil

theorem writes_initSegment (sps pps : Bytes) (width height timescale : ℕ)
    (audio : Option AudioTrack) :
    Writes (writeAll [ftypBox, box "moov" [mvhdBox timescale (audio.elim 2 (·.trackId + 1)),
      videoTrak sps pps width height timescale, writeAll (audio.toList.map audioTrak),
      box "mvex" [trexBox 1, writeAll (audio.toList.map fun a => trexBox a.trackId)]]])
      (initTrees sps pps width height timescale audio) := by
  have htrex := writes_option (fun a : AudioTrack => writes_trexBox a.trackId) audio
  have hmvex := writes_container "mvex" (by decide) (by decide)
    ((writes_trexBox 1).cons (htrex.cons writes_nil))
  rw [List.append_nil] at hmvex
  have hmoov := writes_container "moov" (by decide) (by decide)
    ((writes_mvhdBox timescale (audio.elim 2 (·.trackId + 1))).cons
      ((writes_videoTrak sps pps width height timescale).cons
        ((writes_option writes_audioTrak audio).cons (hmvex.cons writes_nil))))
  exact writes_ftypBox.cons (hmoov.cons writes_nil)

end Machino.Fmp4
