import Machino.Http.BoxLayout

namespace Machino.Fmp4

open Bytes Tagged

/-- A field of four bytes, with nothing around it that depends on its value. -/
def HasField (f : ℕ → Bytes) (at' : ℕ) : Prop :=
  ∃ front back : Bytes, front.length = at' ∧ ∀ v, f v = front ++ ofBe32 v ++ back

theorem HasField.patch {f : ℕ → Bytes} {k : ℕ} (h : HasField f k) (v w : ℕ) :
    patch32 (f v) k w = f w := by
  obtain ⟨front, back, rfl, hf⟩ := h
  have hdrop : (front ++ ofBe32 v ++ back).drop (front.length + 4) = back := by
    have hfront : (front ++ ofBe32 v).length = front.length + 4 := by
      rw [List.length_append, length_ofBe32]
    rw [← hfront, List.drop_left]
  rw [hf, hf, patch32, hdrop, List.append_assoc front (ofBe32 v), List.take_left]

theorem HasField.length_eq {f : ℕ → Bytes} {k : ℕ} (h : HasField f k) (v w : ℕ) :
    (f v).length = (f w).length := by
  obtain ⟨front, back, rfl, hf⟩ := h
  rw [hf, hf]
  simp only [List.length_append, length_ofBe32]

theorem HasField.append {f : ℕ → Bytes} {k : ℕ} (h : HasField f k) (q : Bytes) :
    HasField (fun v => f v ++ q) k := by
  obtain ⟨front, back, rfl, hf⟩ := h
  refine ⟨front, back ++ q, rfl, fun v => ?_⟩
  dsimp only
  rw [hf, List.append_assoc]

theorem HasField.prepend {f : ℕ → Bytes} {k : ℕ} (h : HasField f k) (p : Bytes) :
    HasField (fun v => p ++ f v) (p.length + k) := by
  obtain ⟨front, back, rfl, hf⟩ := h
  refine ⟨p ++ front, back, List.length_append, fun v => ?_⟩
  dsimp only
  rw [hf, ← List.append_assoc, ← List.append_assoc]

/-- Boxes with such a field among them. -/
def TreesField (ts : ℕ → List Box) (at' : ℕ) : Prop :=
  HasField (fun v => bytesAll boxHeader (ts v)) at'

theorem treesField_leaf (type : String) (ps qs : List Bytes) :
    TreesField (fun v => [leafOf type (ps ++ ofBe32 v :: qs)]) (8 + ps.flatten.length) := by
  refine ⟨boxHeader.write (fourCc type) (ps.flatten.length + (4 + qs.flatten.length)) ++
    ps.flatten, qs.flatten, ?_, fun v => ?_⟩
  · rw [List.length_append]
    rfl
  · dsimp only
    rw [bytesAll_cons, bytesAll_nil, List.append_nil, leafOf, bytes_leaf, List.flatten_append,
      List.flatten_cons, List.length_append, List.length_append, length_ofBe32]
    simp only [List.append_assoc]

theorem TreesField.after {ts : ℕ → List Box} {k : ℕ} (h : TreesField ts k) (us : List Box) :
    TreesField (fun v => us ++ ts v) ((bytesAll boxHeader us).length + k) := by
  unfold TreesField
  simp only [bytesAll_append]
  exact h.prepend _

theorem TreesField.before {ts : ℕ → List Box} {k : ℕ} (h : TreesField ts k) (us : List Box) :
    TreesField (fun v => ts v ++ us) k := by
  unfold TreesField
  simp only [bytesAll_append]
  exact h.append _

theorem TreesField.box {ts : ℕ → List Box} {k : ℕ} (h : TreesField ts k) (type : String)
    (ps : List Bytes) :
    TreesField (fun v => [boxOf type ps (ts v)]) (8 + (ps.flatten.length + k)) := by
  have hfield := h.prepend (boxHeader.write (fourCc type)
    (ps.flatten.length + (bytesAll boxHeader (ts 0)).length) ++ ps.flatten)
  rw [List.length_append, Nat.add_assoc] at hfield
  refine Eq.mp (congrArg (HasField · _) (funext fun v => ?_)) hfield
  have hlen : (bytesAll boxHeader (ts 0)).length = (bytesAll boxHeader (ts v)).length :=
    HasField.length_eq h 0 v
  rw [bytesAll_cons, bytesAll_nil, List.append_nil, boxOf, bytes_node, hlen, List.append_assoc]

/-- The outermost box, closed when all inside it has been written. -/
theorem closeBox_openBox {type : String} (htype : (fourCc type).bytes = tag type) (ts : List Box) :
    closeBox 0 (openBox type [] ++ bytesAll boxHeader ts) =
      bytesAll boxHeader [boxOf type [] ts] := by
  have hbox := appends_box (by rw [← htype]; rfl) (appends_puts [bytesAll boxHeader ts]) []
  rw [List.flatten_singleton, List.nil_append] at hbox
  rw [bytesAll_cons, bytesAll_nil, List.append_nil, boxOf, bytes_node, List.flatten_nil,
    List.nil_append, List.length_nil, Nat.zero_add, boxHeader_write, htype]
  exact hbox

theorem writes_mdat (sample : Bytes) : Writes (box "mdat" [put sample]) [leafOf "mdat" [sample]] :=
  writes_leaf rfl (by decide) (by decide)

/-- The media data behind boxes that were written. -/
theorem drop_mdat (ts : List Box) (sample : Bytes) :
    ((bytesAll boxHeader (ts ++ [leafOf "mdat" [sample]])).drop
      ((bytesAll boxHeader ts).length + 8)).take sample.length = sample := by
  have hmdat : bytesAll boxHeader [leafOf "mdat" [sample]] =
      boxHeader.write (fourCc "mdat") sample.length ++ sample := by
    rw [bytesAll_cons, bytesAll_nil, List.append_nil, leafOf, bytes_leaf, List.flatten_singleton]
  have hlen : (bytesAll boxHeader ts ++ boxHeader.write (fourCc "mdat") sample.length).length =
      (bytesAll boxHeader ts).length + 8 := List.length_append
  rw [bytesAll_append, hmdat, ← List.append_assoc, ← hlen, List.drop_left, List.take_length]

theorem be32_behind (front : Bytes) {k n : ℕ} (hk : front.length = k) (hn : n < 2 ^ 32)
    (back : Bytes) : be32 (front ++ (ofBe32 n ++ back)) k = n := by
  have hright := be32_append_right front (ofBe32 n ++ back) 0
  rw [Nat.add_zero, hk, be32_ofBe32, Nat.mod_eq_of_lt hn] at hright
  exact hright

/-- What is in the moof, for an offset of the data. -/
def moofTrees (sequence decodeTime duration size : ℕ) (key : Bool) (trackId offset : ℕ) :
    List Box :=
  [leafOf "mfhd" [versionFlags 0 0, ofBe32 sequence],
    boxOf "traf" [] [leafOf "tfhd" [versionFlags 0 0x020000, ofBe32 trackId],
      leafOf "tfdt" [versionFlags 1 0, ofBe64 decodeTime],
      leafOf "trun" [versionFlags 0 0x000701, ofBe32 1, ofBe32 offset, ofBe32 duration,
        ofBe32 size, ofBe32 (if key then 0x02000000 else 0x01010000)]]]

/-- The sample is behind the moof and the header of the mdat. -/
def fragmentTrees (sequence decodeTime duration : ℕ) (sample : Bytes) (key : Bool) (trackId : ℕ) :
    List Box :=
  [boxOf "moof" [] (moofTrees sequence decodeTime duration sample.length key trackId 108),
    leafOf "mdat" [sample]]

theorem treesField_moofTrees (sequence decodeTime duration size : ℕ) (key : Bool) (trackId : ℕ) :
    TreesField (moofTrees sequence decodeTime duration size key trackId) 76 := by
  have htrun := treesField_leaf "trun" [versionFlags 0 0x000701, ofBe32 1] [ofBe32 duration,
    ofBe32 size, ofBe32 (if key then 0x02000000 else 0x01010000)]
  have htraf := (htrun.after [leafOf "tfhd" [versionFlags 0 0x020000, ofBe32 trackId],
    leafOf "tfdt" [versionFlags 1 0, ofBe64 decodeTime]]).box "traf" []
  exact htraf.after [leafOf "mfhd" [versionFlags 0 0, ofBe32 sequence]]

theorem writes_mfhd (sequence : ℕ) : Writes (full "mfhd" 0 0 [put (ofBe32 sequence)])
    [leafOf "mfhd" [versionFlags 0 0, ofBe32 sequence]] :=
  writes_fullLeaf rfl (by decide) (by decide)

theorem writes_tfhd (trackId : ℕ) : Writes (full "tfhd" 0 0x020000 [put (ofBe32 trackId)])
    [leafOf "tfhd" [versionFlags 0 0x020000, ofBe32 trackId]] :=
  writes_fullLeaf rfl (by decide) (by decide)

theorem writes_tfdt (decodeTime : ℕ) : Writes (full "tfdt" 1 0 [put (ofBe64 decodeTime)])
    [leafOf "tfdt" [versionFlags 1 0, ofBe64 decodeTime]] :=
  writes_fullLeaf rfl (by decide) (by decide)

/-- The boxes inside the moof; the offset is left open at first. -/
theorem writes_moof (sequence decodeTime duration size : ℕ) (key : Bool) (trackId offset : ℕ) :
    Writes (writeAll [full "mfhd" 0 0 [put (ofBe32 sequence)],
      box "traf" [full "tfhd" 0 0x020000 [put (ofBe32 trackId)],
        full "tfdt" 1 0 [put (ofBe64 decodeTime)],
        full "trun" 0 0x000701 [put (ofBe32 1), put (ofBe32 offset), put (ofBe32 duration),
          put (ofBe32 size), put (ofBe32 (if key then 0x02000000 else 0x01010000))]]])
      (moofTrees sequence decodeTime duration size key trackId offset) := by
  have htrun : Writes (full "trun" 0 0x000701 [put (ofBe32 1), put (ofBe32 offset),
        put (ofBe32 duration), put (ofBe32 size),
        put (ofBe32 (if key then 0x02000000 else 0x01010000))])
      [leafOf "trun" [versionFlags 0 0x000701, ofBe32 1, ofBe32 offset, ofBe32 duration,
        ofBe32 size, ofBe32 (if key then 0x02000000 else 0x01010000)]] :=
    writes_fullLeaf rfl (by decide) (by decide)
  have htraf := writes_container "traf" (by decide) (by decide)
    ((writes_tfhd trackId).cons ((writes_tfdt decodeTime).cons (htrun.cons writes_nil)))
  exact (writes_mfhd sequence).cons (htraf.cons writes_nil)

/-- What is in front of the offset. -/
def beforeOffset (sequence decodeTime trackId : ℕ) : Bytes :=
  openFull "trun" 0 0x000701 (full "tfdt" 1 0 [put (ofBe64 decodeTime)]
    (full "tfhd" 0 0x020000 [put (ofBe32 trackId)] (openBox "traf"
      (full "mfhd" 0 0 [put (ofBe32 sequence)] (openBox "moof" []))))) ++ ofBe32 1

theorem length_beforeOffset (sequence decodeTime trackId : ℕ) :
    (beforeOffset sequence decodeTime trackId).length = 84 := by
  unfold beforeOffset
  rw [(writes_tfdt decodeTime).appends, (writes_tfhd trackId).appends,
    (writes_mfhd sequence).appends]
  rfl

theorem fragment_eq (sequence decodeTime duration : ℕ) (sample : Bytes) (key : Bool) (trackId : ℕ) :
    fragment sequence decodeTime duration sample key trackId =
      bytesAll boxHeader (fragmentTrees sequence decodeTime duration sample key trackId) := by
  have hopen := (writes_moof sequence decodeTime duration sample.length key trackId 0).appends
    (openBox "moof" [])
  have hfragment : fragment sequence decodeTime duration sample key trackId =
      box "mdat" [put sample] (closeBox 0 (patch32 (openBox "moof" [] ++ bytesAll boxHeader
        (moofTrees sequence decodeTime duration sample.length key trackId 0))
        (beforeOffset sequence decodeTime trackId).length
        ((openBox "moof" [] ++ bytesAll boxHeader
          (moofTrees sequence decodeTime duration sample.length key trackId 0)).length + 8))) := by
    rw [← hopen]
    rfl
  have hfield := (treesField_moofTrees sequence decodeTime duration sample.length key
    trackId).prepend (openBox "moof" [])
  have hpatch := hfield.patch 0 108
  rw [length_beforeOffset] at hfragment
  have hoffset : (openBox "moof" [] ++ bytesAll boxHeader
      (moofTrees sequence decodeTime duration sample.length key trackId 0)).length + 8 = 108 := rfl
  rw [hoffset] at hfragment
  rw [hfragment]
  refine (congrArg (fun b => box "mdat" [put sample] (closeBox 0 b)) hpatch).trans ?_
  rw [closeBox_openBox (by decide), (writes_mdat sample).appends, ← bytesAll_append]
  rfl

theorem readBoxes_fragment (sequence decodeTime duration : ℕ) {sample : Bytes}
    (h : sample.length < 2 ^ 32 - 8) (key : Bool) (trackId : ℕ) :
    readBoxes (fragment sequence decodeTime duration sample key trackId) =
      some (fragmentTrees sequence decodeTime duration sample key trackId) := by
  rw [fragment_eq]
  refine parse_bytesAll ?_ ?_
  · intro t ht
    rcases List.mem_cons.mp ht with rfl | ht
    · exact .node (by decide)
        (writes_moof sequence decodeTime duration sample.length key trackId 108).shaped
    · exact (writes_mdat sample).shaped t ht
  · intro t ht
    rcases List.mem_cons.mp ht with rfl | ht
    · have hmoof : (payload boxHeader (boxOf "moof" [] (moofTrees sequence decodeTime duration
          sample.length key trackId 108))).length = 92 := rfl
      rw [hmoof]
      decide
    · obtain rfl := List.mem_singleton.mp ht
      rw [payload, leafOf, Tree.head, Tree.kids, bytesAll_nil, List.append_nil,
        List.flatten_singleton]
      exact h

/-- The sample of a run with one sample, by its offset and its size. -/
def trunSample (file p : Bytes) : Bytes := (file.drop (be32 p 8)).take (be32 p 16)

theorem find_trun (sequence decodeTime duration : ℕ) {sample : Bytes}
    (h : sample.length < 2 ^ 32) (key : Bool) (trackId : ℕ) :
    ∃ p, find (["moof", "traf", "trun"].map fourCc)
        (fragmentTrees sequence decodeTime duration sample key trackId) = some p ∧
      be32 p 8 = 108 ∧ be32 p 16 = sample.length := by
  refine ⟨_, rfl, ?_, ?_⟩
  · exact be32_behind (versionFlags 0 0x000701 ++ ofBe32 1) rfl (by decide) _
  · exact be32_behind (versionFlags 0 0x000701 ++ (ofBe32 1 ++ (ofBe32 108 ++ ofBe32 duration))) rfl
      h _

/-- The offset and the size lead to the sample. -/
theorem trunSample_fragment (sequence decodeTime duration : ℕ) {sample : Bytes}
    (h : sample.length < 2 ^ 32 - 8) (key : Bool) (trackId : ℕ) :
    (walk ["moof", "traf", "trun"]
        (fragment sequence decodeTime duration sample key trackId)).map
      (trunSample (fragment sequence decodeTime duration sample key trackId)) = some sample := by
  obtain ⟨p, hfind, hoffset, hsize⟩ := find_trun sequence decodeTime duration
    (show sample.length < 2 ^ 32 by omega) key trackId
  have hdrop := drop_mdat [boxOf "moof" []
    (moofTrees sequence decodeTime duration sample.length key trackId 108)] sample
  rw [walk, readBoxes_fragment sequence decodeTime duration h, Option.bind_some, hfind,
    Option.map_some, trunSample, hoffset, hsize, fragment_eq]
  exact congrArg some hdrop

/-- The bytes that the High profiles add to the record. -/
def highFields (sps : Bytes) : Bytes := if isHigh sps then [0xfd, 0xf8, 0xf8, 0] else []

/-- What is in the meta box, for an offset of the data. -/
def metaTrees (sps pps : Bytes) (width height size offset : ℕ) : List Box :=
  [leafOf "hdlr" [versionFlags 0 0, ofBe32 0 ++ tag "pict" ++ zeros 12, [0]],
    leafOf "pitm" [versionFlags 0 0, ofBe16 1],
    leafOf "iloc" [versionFlags 0 0, [0x44, 0], ofBe16 1, ofBe16 1, ofBe16 0, ofBe16 1,
      ofBe32 offset, ofBe32 size],
    boxOf "iinf" [versionFlags 0 0, ofBe16 1]
      [leafOf "infe" [versionFlags 2 0, ofBe16 1 ++ ofBe16 0, tag "avc1", [0]]],
    boxOf "iprp" [] [
      boxOf "ipco" [] [avcCTree sps pps (highFields sps),
        leafOf "ispe" [versionFlags 0 0, ofBe32 width ++ ofBe32 height]],
      leafOf "ipma" [versionFlags 0 0, ofBe32 1, ofBe16 1, [2], [0x81], [0x02]]]]

def stillFtypTree : Box :=
  leafOf "ftyp" [tag "avci", ofBe32 0, tag "mif1", tag "avci", tag "miaf"]

/-- What is in front of the sample, for an offset of the data. -/
def stillFront (sps pps : Bytes) (width height size offset : ℕ) : List Box :=
  [stillFtypTree, boxOf "meta" [versionFlags 0 0] (metaTrees sps pps width height size offset)]

/-- Where the sample stands: behind the boxes in front of it and the header of the mdat. -/
def stillOffset (sps pps : Bytes) (width height size : ℕ) : ℕ :=
  (bytesAll boxHeader (stillFront sps pps width height size 0)).length + 8

def stillTrees (sps pps : Bytes) (width height : ℕ) (sample : Bytes) : List Box :=
  stillFront sps pps width height sample.length (stillOffset sps pps width height sample.length) ++
    [leafOf "mdat" [sample]]

theorem writes_stillFtyp : Writes (box "ftyp" [put (tag "avci"), put (ofBe32 0), put (tag "mif1"),
    put (tag "avci"), put (tag "miaf")]) [stillFtypTree] :=
  writes_leaf rfl (by decide) (by decide)

theorem writes_stillHdlr : Writes (full "hdlr" 0 0 [put (ofBe32 0 ++ tag "pict" ++ zeros 12),
    put [0]]) [leafOf "hdlr" [versionFlags 0 0, ofBe32 0 ++ tag "pict" ++ zeros 12, [0]]] :=
  writes_fullLeaf rfl (by decide) (by decide)

theorem writes_pitm : Writes (full "pitm" 0 0 [put (ofBe16 1)])
    [leafOf "pitm" [versionFlags 0 0, ofBe16 1]] :=
  writes_fullLeaf rfl (by decide) (by decide)

/-- The boxes inside the meta box; the offset is left open at first. -/
theorem writes_meta (sps pps : Bytes) (width height size offset : ℕ) :
    Writes (writeAll [full "hdlr" 0 0 [put (ofBe32 0 ++ tag "pict" ++ zeros 12), put [0]],
      full "pitm" 0 0 [put (ofBe16 1)],
      full "iloc" 0 0 [put [0x44, 0], put (ofBe16 1), put (ofBe16 1), put (ofBe16 0),
        put (ofBe16 1), put (ofBe32 offset), put (ofBe32 size)],
      full "iinf" 0 0 [put (ofBe16 1),
        full "infe" 2 0 [put (ofBe16 1 ++ ofBe16 0), put (tag "avc1"), put [0]]],
      box "iprp" [
        box "ipco" [
          box "avcC" (avcRecord sps pps ++ [put (highFields sps)]),
          full "ispe" 0 0 [put (ofBe32 width ++ ofBe32 height)]],
        full "ipma" 0 0 [put (ofBe32 1), put (ofBe16 1), put [2], put [0x81], put [0x02]]]])
      (metaTrees sps pps width height size offset) := by
  have hiloc : Writes (full "iloc" 0 0 [put [0x44, 0], put (ofBe16 1), put (ofBe16 1),
        put (ofBe16 0), put (ofBe16 1), put (ofBe32 offset), put (ofBe32 size)])
      [leafOf "iloc" [versionFlags 0 0, [0x44, 0], ofBe16 1, ofBe16 1, ofBe16 0, ofBe16 1,
        ofBe32 offset, ofBe32 size]] := writes_fullLeaf rfl (by decide) (by decide)
  have hinfe : Writes (full "infe" 2 0 [put (ofBe16 1 ++ ofBe16 0), put (tag "avc1"), put [0]])
      [leafOf "infe" [versionFlags 2 0, ofBe16 1 ++ ofBe16 0, tag "avc1", [0]]] :=
    writes_fullLeaf rfl (by decide) (by decide)
  have hiinf : Writes (full "iinf" 0 0 [put (ofBe16 1),
        full "infe" 2 0 [put (ofBe16 1 ++ ofBe16 0), put (tag "avc1"), put [0]]])
      [boxOf "iinf" [versionFlags 0 0, ofBe16 1]
        [leafOf "infe" [versionFlags 2 0, ofBe16 1 ++ ofBe16 0, tag "avc1", [0]]]] :=
    writes_fullBox [put (ofBe16 1)] rfl (by decide) (by decide) rfl (hinfe.cons writes_nil)
  have hispe : Writes (full "ispe" 0 0 [put (ofBe32 width ++ ofBe32 height)])
      [leafOf "ispe" [versionFlags 0 0, ofBe32 width ++ ofBe32 height]] :=
    writes_fullLeaf rfl (by decide) (by decide)
  have hipma : Writes (full "ipma" 0 0 [put (ofBe32 1), put (ofBe16 1), put [2], put [0x81],
        put [0x02]])
      [leafOf "ipma" [versionFlags 0 0, ofBe32 1, ofBe16 1, [2], [0x81], [0x02]]] :=
    writes_fullLeaf rfl (by decide) (by decide)
  have hipco := writes_container "ipco" (by decide) (by decide)
    ((writes_avcCBox sps pps (highFields sps)).cons (hispe.cons writes_nil))
  have hiprp := writes_container "iprp" (by decide) (by decide)
    (hipco.cons (hipma.cons writes_nil))
  exact writes_stillHdlr.cons (writes_pitm.cons (hiloc.cons (hiinf.cons (hiprp.cons writes_nil))))

theorem treesField_stillFront (sps pps : Bytes) (width height size : ℕ) :
    TreesField (stillFront sps pps width height size) 109 := by
  have hiloc := treesField_leaf "iloc" [versionFlags 0 0, [0x44, 0], ofBe16 1, ofBe16 1, ofBe16 0,
    ofBe16 1] [ofBe32 size]
  have hmeta := ((hiloc.after [leafOf "hdlr" [versionFlags 0 0,
      ofBe32 0 ++ tag "pict" ++ zeros 12, [0]], leafOf "pitm" [versionFlags 0 0, ofBe16 1]]).before
    (metaTrees sps pps width height size 0 |>.drop 3)).box "meta" [versionFlags 0 0]
  exact hmeta.after [stillFtypTree]

/-- What is in front of the offset. -/
def beforeExtent : Bytes :=
  openFull "iloc" 0 0 (full "pitm" 0 0 [put (ofBe16 1)]
    (full "hdlr" 0 0 [put (ofBe32 0 ++ tag "pict" ++ zeros 12), put [0]] (openFull "meta" 0 0
      (box "ftyp" [put (tag "avci"), put (ofBe32 0), put (tag "mif1"), put (tag "avci"),
        put (tag "miaf")] [])))) ++ [0x44, 0] ++ ofBe16 1 ++ ofBe16 1 ++ ofBe16 0 ++ ofBe16 1

theorem length_beforeExtent : beforeExtent.length = 109 := by
  unfold beforeExtent
  rw [writes_pitm.appends, writes_stillHdlr.appends, writes_stillFtyp.appends]
  rfl

/-- The boxes in front of the mdat, with the offset left open. -/
def stillOpen (sps pps : Bytes) (width height size : ℕ) : Bytes :=
  full "meta" 0 0 [full "hdlr" 0 0 [put (ofBe32 0 ++ tag "pict" ++ zeros 12), put [0]],
    full "pitm" 0 0 [put (ofBe16 1)],
    full "iloc" 0 0 [put [0x44, 0], put (ofBe16 1), put (ofBe16 1), put (ofBe16 0),
      put (ofBe16 1), put (ofBe32 0), put (ofBe32 size)],
    full "iinf" 0 0 [put (ofBe16 1),
      full "infe" 2 0 [put (ofBe16 1 ++ ofBe16 0), put (tag "avc1"), put [0]]],
    box "iprp" [
      box "ipco" [
        box "avcC" (avcRecord sps pps ++ [put (highFields sps)]),
        full "ispe" 0 0 [put (ofBe32 width ++ ofBe32 height)]],
      full "ipma" 0 0 [put (ofBe32 1), put (ofBe16 1), put [2], put [0x81], put [0x02]]]]
    (box "ftyp" [put (tag "avci"), put (ofBe32 0), put (tag "mif1"), put (tag "avci"),
      put (tag "miaf")] [])

theorem stillOpen_eq (sps pps : Bytes) (width height size : ℕ) :
    stillOpen sps pps width height size =
      bytesAll boxHeader (stillFront sps pps width height size 0) := by
  have hmeta : Writes (full "meta" 0 0 _) [boxOf "meta" [versionFlags 0 0]
      (metaTrees sps pps width height size 0)] :=
    writes_fullBox [] rfl (by decide) (by decide) rfl (writes_meta sps pps width height size 0)
  have hall := writes_stillFtyp.cons (hmeta.cons writes_nil)
  exact hall.appends []

theorem heifAvcStill_eq (sps pps : Bytes) (width height : ℕ) (sample : Bytes) :
    heifAvcStill sps pps width height sample =
      bytesAll boxHeader (stillTrees sps pps width height sample) := by
  have hstill : heifAvcStill sps pps width height sample =
      patch32 (closeBox ((openBox "mdat" (stillOpen sps pps width height sample.length)).length - 8)
        (openBox "mdat" (stillOpen sps pps width height sample.length) ++ sample))
        beforeExtent.length
        (openBox "mdat" (stillOpen sps pps width height sample.length)).length := rfl
  have hlen : (openBox "mdat" (stillOpen sps pps width height sample.length)).length =
      (stillOpen sps pps width height sample.length).length + 8 := by
    rw [openBox, List.append_assoc, List.length_append]
    rfl
  have hmdat : closeBox (stillOpen sps pps width height sample.length).length
      (openBox "mdat" (stillOpen sps pps width height sample.length) ++ sample) =
      stillOpen sps pps width height sample.length ++
        bytesAll boxHeader [leafOf "mdat" [sample]] :=
    (writes_mdat sample).appends _
  have hfield := ((treesField_stillFront sps pps width height sample.length).before
    [leafOf "mdat" [sample]]).patch 0 (stillOffset sps pps width height sample.length)
  rw [hstill, hlen, Nat.add_sub_cancel, hmdat, length_beforeExtent, stillOpen_eq,
    ← bytesAll_append]
  exact hfield

end Machino.Fmp4
