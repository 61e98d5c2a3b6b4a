import Machino.Http.SampleLayout

namespace Machino.Fmp4

open Bytes Tagged

theorem length_leafOf (type : String) (ps : List Bytes) :
    (bytes boxHeader (leafOf type ps)).length = 8 + ps.flatten.length := by
  rw [leafOf, bytes_leaf, List.length_append]
  rfl

theorem length_boxOf (type : String) (ps : List Bytes) (ts : List Box) :
    (bytes boxHeader (boxOf type ps ts)).length =
      8 + (ps.flatten.length + (bytesAll boxHeader ts).length) := by
  rw [boxOf, bytes_node, List.length_append, List.length_append]
  rfl

theorem length_bytesAll_cons (t : Box) (ts : List Box) :
    (bytesAll boxHeader (t :: ts)).length =
      (bytes boxHeader t).length + (bytesAll boxHeader ts).length := by
  rw [bytesAll_cons, List.length_append]

theorem length_bytesAll_nil : (bytesAll boxHeader ([] : List Box)).length = 0 := by
  rw [bytesAll_nil, List.length_nil]

theorem length_avcCTree (sps pps more : Bytes) :
    (bytes boxHeader (avcCTree sps pps more)).length =
      19 + sps.length + pps.length + more.length := by
  have hprofile : (if 3 < sps.length then (sps.drop 1).take 3
      else [0x42, 0xe0, 0x1e] : Bytes).length = 3 := by
    split_ifs
    · rw [List.length_take, List.length_drop]
      omega
    · rfl
  rw [avcCTree, length_leafOf]
  simp only [List.flatten_cons, List.flatten_nil, List.length_append, List.length_cons,
    List.length_nil, length_ofBe16, hprofile]
  omega

theorem length_tkhdTree (trackId group volume width height : ℕ) :
    (bytes boxHeader (tkhdTree trackId group volume width height)).length = 92 := rfl

theorem length_mdhdTree (timescale : ℕ) :
    (bytes boxHeader (mdhdTree timescale)).length = 32 := rfl

theorem length_tableTrees : (bytesAll boxHeader tableTrees).length = 68 := rfl

theorem length_videoTrakTree (sps pps : Bytes) (width height timescale : ℕ) :
    (bytes boxHeader (videoTrakTree sps pps width height timescale)).length =
      446 + sps.length + pps.length := by
  have hhdlr : (bytes boxHeader (hdlrTree "vide" "MachinoVideo")).length = 45 := rfl
  have hvmhd : (bytes boxHeader (leafOf "vmhd" [versionFlags 0 1, zeros 8])).length = 20 := rfl
  have hdinf : (bytes boxHeader dinfTree).length = 36 := rfl
  have havc1 : [zeros 6 ++ ofBe16 1, zeros 16, ofBe16 width ++ ofBe16 height,
      ofBe32 0x00480000 ++ ofBe32 0x00480000, ofBe32 0, ofBe16 1, zeros 32,
      ofBe16 0x0018 ++ ofBe16 0xffff].flatten.length = 78 := rfl
  have hstsd : [versionFlags 0 0, ofBe32 1].flatten.length = 8 := rfl
  rw [videoTrakTree]
  simp only [length_boxOf, length_bytesAll_cons, length_bytesAll_nil, length_tkhdTree,
    length_mdhdTree, length_tableTrees, length_avcCTree, hhdlr, hvmhd, hdinf, havc1, hstsd,
    List.flatten_nil, List.length_nil]
  clear hhdlr hvmhd hdinf havc1 hstsd
  omega

theorem length_audioTrakTree (a : AudioTrack) :
    (bytes boxHeader (audioTrakTree a)).length ≤
      410 + if a.codec = .opus then 0 else a.asc.length := by
  have hhdlr : (bytes boxHeader (hdlrTree "soun" "MachinoAudio")).length = 45 := rfl
  have hsmhd : (bytes boxHeader (leafOf "smhd" [versionFlags 0 0, ofBe16 0 ++ ofBe16 0])).length =
      16 := rfl
  have hdinf : (bytes boxHeader dinfTree).length = 36 := rfl
  have hentry : [zeros 6 ++ ofBe16 1, zeros 8, ofBe16 a.channels ++ ofBe16 16,
      ofBe16 0 ++ ofBe16 0,
      ofBe32 ((if a.codec = .opus then 48000 else a.sampleRate) * 2 ^ 16)].flatten.length = 28 :=
    rfl
  have hstsd : [versionFlags 0 0, ofBe32 1].flatten.length = 8 := rfl
  have hcodec : (bytes boxHeader (if a.codec = .opus then dOpsTree a else esdsTree a)).length ≤
      37 + if a.codec = .opus then 0 else a.asc.length := by
    split_ifs
    · have hdops : (bytes boxHeader (dOpsTree a)).length = 19 := rfl
      omega
    · rw [esdsTree, length_leafOf]
      simp only [List.flatten_cons, List.flatten_nil, List.length_append, List.length_cons,
        List.length_nil, length_ofBe16, length_ofBe32, length_versionFlags, desc]
      omega
  rw [audioTrakTree, audioEntryTree]
  simp only [length_boxOf, length_bytesAll_cons, length_bytesAll_nil, length_tkhdTree,
    length_mdhdTree, length_tableTrees, hhdlr, hsmhd, hdinf, hentry, hstsd, List.flatten_nil,
    List.length_nil]
  clear hhdlr hsmhd hdinf hentry hstsd
  omega

/-- A container with all that is inside it. -/
theorem length_payload_boxOf (type : String) (ps : List Bytes) (ts : List Box) :
    (payload boxHeader (boxOf type ps ts)).length =
      ps.flatten.length + (bytesAll boxHeader ts).length := by
  rw [payload, boxOf, List.length_append]
  rfl

theorem length_payload_ftypTree : (payload boxHeader ftypTree).length < 2 ^ 32 - 8 := by
  have hlen : (payload boxHeader ftypTree).length = 20 := rfl
  omega

/-- What the one-byte lengths of the descriptors allow for. -/
def AudioTrack.Fits (a : AudioTrack) : Prop := a.codec ≠ .opus → a.asc.length ≤ 104

theorem AudioTrack.Fits.length_trak {a : AudioTrack} (h : a.Fits) :
    (bytes boxHeader (audioTrakTree a)).length ≤ 514 := by
  have hle := length_audioTrakTree a
  split_ifs at hle with hopus
  · omega
  · have hasc := h hopus
    omega

theorem readBoxes_audioInitSegment {a : AudioTrack} (h : a.Fits) :
    readBoxes (audioInitSegment a) = some (audioInitTrees a) := by
  have hmvhd : (bytes boxHeader (mvhdTree a.timescale (a.trackId + 1))).length = 108 := rfl
  have hmvex : (bytes boxHeader (boxOf "mvex" [] [trexTree a.trackId])).length = 40 := rfl
  have htrak := h.length_trak
  apply (writes_audioInitSegment a).readBoxes
  intro t ht
  rcases List.mem_cons.mp ht with rfl | ht
  · exact length_payload_ftypTree
  · obtain rfl := List.mem_singleton.mp ht
    rw [length_payload_boxOf]
    simp only [length_bytesAll_cons, length_bytesAll_nil, List.flatten_nil, List.length_nil]
    omega

theorem readBoxes_initSegment {sps pps : Bytes} (hsps : sps.length < 2 ^ 16)
    (hpps : pps.length < 2 ^ 16) (width height timescale : ℕ) {audio : Option AudioTrack}
    (haudio : ∀ a ∈ withAudio audio, a.Fits) :
    readBoxes (initSegment sps pps width height timescale audio) =
      some (initTrees sps pps width height timescale (withAudio audio)) := by
  unfold initSegment
  generalize withAudio audio = audio at haudio
  apply (writes_initSegment sps pps width height timescale audio).readBoxes
  intro t ht
  rcases List.mem_cons.mp ht with rfl | ht
  · exact length_payload_ftypTree
  · obtain rfl := List.mem_singleton.mp ht
    have hvideo := length_videoTrakTree sps pps width height timescale
    have hmvhd (n : ℕ) : (bytes boxHeader (mvhdTree timescale n)).length = 108 := rfl
    have htrex (n : ℕ) : (bytes boxHeader (trexTree n)).length = 32 := rfl
    rw [length_payload_boxOf]
    cases audio with
    | none =>
      simp only [List.cons_append, List.nil_append, Option.toList_none, List.map_nil,
        length_bytesAll_cons, length_bytesAll_nil, length_boxOf, hmvhd, htrex, List.flatten_nil,
        List.length_nil]
      omega
    | some a =>
      have htrak := (haudio a rfl).length_trak
      simp only [List.cons_append, List.nil_append, Option.toList_some, List.map_cons, List.map_nil,
        length_bytesAll_cons, length_bytesAll_nil, length_boxOf, hmvhd, htrex, List.flatten_nil,
        List.length_nil]
      omega

theorem length_metaTrees (sps pps : Bytes) (width height size offset : ℕ) :
    (bytesAll boxHeader (metaTrees sps pps width height size offset)).length ≤
      1000 + sps.length + pps.length := by
  have hhdlr : (bytes boxHeader (leafOf "hdlr" [versionFlags 0 0,
      ofBe32 0 ++ tag "pict" ++ zeros 12, [0]])).length = 33 := rfl
  have hpitm : (bytes boxHeader (leafOf "pitm" [versionFlags 0 0, ofBe16 1])).length = 14 := rfl
  have hiloc : (bytes boxHeader (leafOf "iloc" [versionFlags 0 0, [0x44, 0], ofBe16 1, ofBe16 1,
      ofBe16 0, ofBe16 1, ofBe32 offset, ofBe32 size])).length = 30 := rfl
  have hiinf : (bytes boxHeader (boxOf "iinf" [versionFlags 0 0, ofBe16 1]
      [leafOf "infe" [versionFlags 2 0, ofBe16 1 ++ ofBe16 0, tag "avc1", [0]]])).length = 35 := rfl
  have hispe : (bytes boxHeader (leafOf "ispe" [versionFlags 0 0,
      ofBe32 width ++ ofBe32 height])).length = 20 := rfl
  have hipma : (bytes boxHeader (leafOf "ipma" [versionFlags 0 0, ofBe32 1, ofBe16 1, [2], [0x81],
      [0x02]])).length = 21 := rfl
  have hhigh : (highFields sps).length ≤ 4 := by
    unfold highFields
    split_ifs
    · exact le_rfl
    · exact Nat.zero_le 4
  rw [metaTrees]
  simp only [length_boxOf, length_bytesAll_cons, length_bytesAll_nil, length_avcCTree, hhdlr, hpitm,
    hiloc, hiinf, hispe, hipma, List.flatten_nil, List.length_nil]
  omega

theorem stillOffset_lt {sps pps : Bytes} (hsps : sps.length < 2 ^ 16) (hpps : pps.length < 2 ^ 16)
    (width height size : ℕ) : stillOffset sps pps width height size < 2 ^ 32 := by
  have hftyp : (bytes boxHeader stillFtypTree).length = 28 := rfl
  have hmeta := length_metaTrees sps pps width height size 0
  have hhead : [versionFlags 0 0].flatten.length = 4 := rfl
  rw [stillOffset, stillFront]
  simp only [length_boxOf, length_bytesAll_cons, length_bytesAll_nil, hftyp, hhead]
  omega

theorem readBoxes_heifAvcStill {sps pps sample : Bytes} (hsps : sps.length < 2 ^ 16)
    (hpps : pps.length < 2 ^ 16) (hsample : sample.length < 2 ^ 32 - 8) (width height : ℕ) :
    readBoxes (heifAvcStill sps pps width height sample) =
      some (stillTrees sps pps width height sample) := by
  rw [heifAvcStill_eq]
  refine parse_bytesAll ?_ ?_
  · intro t ht
    rcases List.mem_cons.mp ht with rfl | ht
    · exact writes_stillFtyp.shaped _ List.mem_cons_self
    rcases List.mem_cons.mp ht with rfl | ht
    · exact .node (by decide) (writes_meta sps pps width height sample.length _).shaped
    · exact (writes_mdat sample).shaped t ht
  · intro t ht
    rw [boxHeader_limit]
    rcases List.mem_cons.mp ht with rfl | ht
    · have hlen : (payload boxHeader stillFtypTree).length = 20 := rfl
      omega
    rcases List.mem_cons.mp ht with rfl | ht
    · have hmeta := length_metaTrees sps pps width height sample.length
        (stillOffset sps pps width height sample.length)
      have hhead : [versionFlags 0 0].flatten.length = 4 := rfl
      rw [length_payload_boxOf]
      omega
    · obtain rfl := List.mem_singleton.mp ht
      rw [payload, leafOf, Tree.head, Tree.kids, bytesAll_nil, List.append_nil,
        List.flatten_singleton]
      exact hsample

/-- The extent of the only item, by its offset and its length. -/
def ilocSample (file p : Bytes) : Bytes := (file.drop (be32 p 14)).take (be32 p 18)

theorem find_iloc (sps pps sample : Bytes) (width height : ℕ) {size offset : ℕ}
    (hsize : size < 2 ^ 32) (hoffset : offset < 2 ^ 32) :
    ∃ p, find (["meta", "iloc"].map fourCc)
        (stillFront sps pps width height size offset ++ [leafOf "mdat" [sample]]) = some p ∧
      be32 p 14 = offset ∧ be32 p 18 = size := by
  refine ⟨versionFlags 0 0 ++ ([0x44, 0] ++ (ofBe16 1 ++ (ofBe16 1 ++ (ofBe16 0 ++ (ofBe16 1 ++
    (ofBe32 offset ++ ofBe32 size)))))), rfl, ?_, ?_⟩
  · have hbehind := be32_behind (versionFlags 0 0 ++ ([0x44, 0] ++ (ofBe16 1 ++ (ofBe16 1 ++
      (ofBe16 0 ++ ofBe16 1))))) (k := 14) rfl hoffset (ofBe32 size)
    simpa only [List.append_assoc] using hbehind
  · have hbehind := be32_behind (versionFlags 0 0 ++ ([0x44, 0] ++ (ofBe16 1 ++ (ofBe16 1 ++
      (ofBe16 0 ++ (ofBe16 1 ++ ofBe32 offset)))))) (k := 18) rfl hsize []
    simpa only [List.append_assoc, List.append_nil] using hbehind

theorem ilocSample_heifAvcStill {sps pps sample : Bytes} (hsps : sps.length < 2 ^ 16)
    (hpps : pps.length < 2 ^ 16) (hsample : sample.length < 2 ^ 32 - 8) (width height : ℕ) :
    (walk ["meta", "iloc"] (heifAvcStill sps pps width height sample)).map
      (ilocSample (heifAvcStill sps pps width height sample)) = some sample := by
  obtain ⟨p, hfind, hoffset, hsize⟩ := find_iloc sps pps sample width height
    (show sample.length < 2 ^ 32 by omega) (stillOffset_lt hsps hpps width height sample.length)
  have hfront : stillOffset sps pps width height sample.length =
      (bytesAll boxHeader (stillFront sps pps width height sample.length
        (stillOffset sps pps width height sample.length))).length + 8 :=
    congrArg (· + 8) ((treesField_stillFront sps pps width height sample.length).length_eq 0 _)
  have hdrop := drop_mdat (stillFront sps pps width height sample.length
    (stillOffset sps pps width height sample.length)) sample
  rw [← hfront] at hdrop
  rw [walk, readBoxes_heifAvcStill hsps hpps hsample, Option.bind_some, stillTrees, hfind,
    Option.map_some, ilocSample, hoffset, hsize, heifAvcStill_eq]
  exact congrArg some hdrop

/-- What the avcC box has of its own. -/
def avcPayload (sps pps more : Bytes) : Bytes := (avcCTree sps pps more).head

theorem readAvcC_avcPayload {sps pps : Bytes} (hsps : sps.length < 2 ^ 16)
    (hpps : pps.length < 2 ^ 16) (more : Bytes) :
    readAvcC (avcPayload sps pps more) = some ([sps], [pps], more) := by
  have hprofile : (if 3 < sps.length then (sps.drop 1).take 3
      else [0x42, 0xe0, 0x1e] : Bytes).length = 3 := by
    split_ifs
    · rw [List.length_take, List.length_drop]
      omega
    · rfl
  have hdrop : (avcPayload sps pps more).drop 5 =
      0xe1 :: (ofBe16 sps.length ++ sps ++ (1 :: (ofBe16 pps.length ++ pps ++ more))) := by
    obtain ⟨x, y, z, hxyz⟩ := List.length_eq_three.mp hprofile
    rw [avcPayload, avcCTree, leafOf, Tree.head, hxyz]
    simp only [List.flatten_cons, List.flatten_nil, List.append_nil, List.append_assoc]
    rfl
  rw [readAvcC, hdrop]
  have hone : (0xe1 : UInt8).toNat % 2 ^ 5 = 1 := by decide
  simp only [hone, readSets_one hsps, Option.bind_some]
  have hpic : (1 : UInt8).toNat = 1 := by decide
  rw [hpic, readSets_one hpps]
  rfl

/-- The reader finds both parameter sets at the end of a path, and what a profile adds. -/
def HoldsSets (path : List String) (sps pps more file : Bytes) : Prop :=
  (walk path file).bind readAvcC = some ([sps], [pps], more)

def avcPath : List String :=
  ["moov", "trak", "mdia", "minf", "stbl", "stsd", "avc1", "avcC"]

theorem find_avcC (sps pps : Bytes) (width height timescale : ℕ) (audio : Option AudioTrack) :
    find (avcPath.map fourCc) (initTrees sps pps width height timescale audio) =
      some (avcPayload sps pps []) := rfl

theorem find_avcC_still (sps pps sample : Bytes) (width height size offset : ℕ) :
    find (["meta", "iprp", "ipco", "avcC"].map fourCc)
      (stillFront sps pps width height size offset ++ [leafOf "mdat" [sample]]) =
      some (avcPayload sps pps (highFields sps)) := rfl

/-- The decoder configuration inside the descriptor of the stream. -/
def esTrees (asc : Bytes) : List (Tree UInt8 UInt8) :=
  [.node 3 [0, 0, 0] [.node 4 ([0x40, 0x15, 0, 0, 0] ++ zeros 8) [.node 5 asc []],
    .node 6 [0x02] []]]

/-- The decoder configuration is of 13 bytes, with the specific information behind it. -/
theorem bytes_dcd (asc : Bytes) :
    bytes descHeader (.node 4 ([0x40, 0x15, 0, 0, 0] ++ zeros 8) [.node 5 asc []]) =
      desc 4 (13 + 2 + asc.length) ++ ([0x40, 0x15, 0, 0, 0] ++ zeros 8 ++
        (desc 5 asc.length ++ asc)) := by
  have hdsi : bytesAll descHeader [.node 5 asc []] = desc 5 asc.length ++ asc := by
    rw [bytesAll_cons, bytesAll_nil, List.append_nil, bytes_leaf]
    rfl
  have hlen : ([0x40, 0x15, 0, 0, 0] ++ zeros 8 : Bytes).length +
      (desc 5 asc.length ++ asc).length = 13 + 2 + asc.length := by
    rw [List.length_append, List.length_append]
    exact (Nat.add_assoc 13 2 _).symm
  rw [bytes_node, hdsi, hlen]
  rfl

theorem bytesAll_esTrees (asc : Bytes) :
    bytesAll descHeader (esTrees asc) =
      desc 3 (3 + 2 + (13 + 2 + asc.length) + 2 + 1) ++ ([0, 0, 0] ++
        (desc 4 (13 + 2 + asc.length) ++ ([0x40, 0x15, 0, 0, 0] ++ zeros 8 ++
          (desc 5 asc.length ++ asc)) ++ (desc 6 1 ++ [0x02]))) := by
  have hsl : bytes descHeader (.node 6 [0x02] []) = desc 6 1 ++ [0x02] := bytes_leaf _ _ _
  have hkids : bytesAll descHeader [.node 4 ([0x40, 0x15, 0, 0, 0] ++ zeros 8) [.node 5 asc []],
      .node 6 [0x02] []] = desc 4 (13 + 2 + asc.length) ++ ([0x40, 0x15, 0, 0, 0] ++ zeros 8 ++
        (desc 5 asc.length ++ asc)) ++ (desc 6 1 ++ [0x02]) := by
    rw [bytesAll_cons, bytesAll_cons, bytesAll_nil, List.append_nil, bytes_dcd, hsl]
  have hlen : ([0, 0, 0] : Bytes).length + (desc 4 (13 + 2 + asc.length) ++
      ([0x40, 0x15, 0, 0, 0] ++ zeros 8 ++ (desc 5 asc.length ++ asc)) ++
        (desc 6 1 ++ [0x02])).length = 3 + 2 + (13 + 2 + asc.length) + 2 + 1 := by
    simp only [List.length_append, List.length_cons, List.length_nil, desc, zeros,
      List.length_replicate]
    omega
  rw [esTrees, bytesAll_cons, bytesAll_nil, List.append_nil, bytes_node, hkids, hlen]
  rfl

theorem head_esdsTree (a : AudioTrack) :
    (esdsTree a).head = versionFlags 0 0 ++ bytesAll descHeader (esTrees a.asc) := by
  rw [esdsTree, leafOf, Tree.head, bytesAll_esTrees]
  simp only [List.flatten_cons, List.flatten_nil, List.append_nil, List.append_assoc]
  rfl

theorem shaped_esTrees (asc : Bytes) : ∀ t ∈ esTrees asc, Shaped descHeadLength t := by
  intro t ht
  obtain rfl := List.mem_singleton.mp ht
  refine .node rfl fun u hu => ?_
  rcases List.mem_cons.mp hu with rfl | hu
  · refine .node rfl fun u hu => ?_
    obtain rfl := List.mem_singleton.mp hu
    exact .leaf rfl
  · obtain rfl := List.mem_singleton.mp hu
    exact .leaf rfl

theorem readEsds_esdsTree {a : AudioTrack} (h : a.asc.length ≤ 104) :
    readEsds (esdsTree a).head = some (esTrees a.asc) := by
  have hlimit : ∀ t ∈ esTrees a.asc, (payload descHeader t).length < descHeader.limit := by
    intro t ht
    have hbytes := length_bytes_le descHeader ht
    have hlt : (bytes descHeader t).length = 2 + (payload descHeader t).length := by
      cases t
      rw [bytes_node, List.length_append, payload]
      rfl
    have hall : (bytesAll descHeader (esTrees a.asc)).length = 25 + a.asc.length := by
      rw [bytesAll_esTrees]
      simp only [List.length_append, List.length_cons, List.length_nil, desc, zeros,
        List.length_replicate]
      omega
    have hdesc : descHeader.limit = 2 ^ 7 := rfl
    omega
  rw [readEsds, head_esdsTree]
  exact parse_bytesAll (shaped_esTrees a.asc) hlimit

def esdsPath : List String :=
  ["moov", "trak", "mdia", "minf", "stbl", "stsd", "mp4a", "esds"]

/-- The reader finds the configuration of the decoder, for a codec that has one. -/
def HoldsConfig (a : AudioTrack) (file : Bytes) : Prop :=
  a.codec ≠ .opus → (walk esdsPath file).bind readEsds = some (esTrees a.asc)

theorem audioEntryTree_mp4a {a : AudioTrack} (h : a.codec ≠ .opus) :
    audioEntryTree a = boxOf "mp4a" [zeros 6 ++ ofBe16 1, zeros 8,
      ofBe16 a.channels ++ ofBe16 16, ofBe16 0 ++ ofBe16 0, ofBe32 (a.sampleRate * 2 ^ 16)]
      [esdsTree a] := by
  unfold audioEntryTree
  simp only [if_neg h]

theorem find_esds {a : AudioTrack} (h : a.codec ≠ .opus) :
    find (esdsPath.map fourCc) (audioInitTrees a) = some (esdsTree a).head := by
  unfold audioInitTrees audioTrakTree
  rw [audioEntryTree_mp4a h]
  rfl

theorem find_esds_movie (sps pps : Bytes) (width height timescale : ℕ) {a : AudioTrack}
    (h : a.codec ≠ .opus) :
    find (esdsPath.map fourCc) (initTrees sps pps width height timescale (some a)) =
      some (esdsTree a).head := by
  unfold initTrees audioTrakTree
  simp only [Option.toList_some, List.map_cons, List.map_nil]
  rw [audioEntryTree_mp4a h]
  rfl

/-- Boxes that tile the movie, with the parameter sets and the configuration inside. -/
def MovieExact (sps pps : Bytes) (width height timescale : ℕ) (audio : Option AudioTrack) : Prop :=
  readBoxes (initSegment sps pps width height timescale audio) =
      some (initTrees sps pps width height timescale (withAudio audio)) ∧
    HoldsSets avcPath sps pps [] (initSegment sps pps width height timescale audio) ∧
    ∀ a ∈ withAudio audio, HoldsConfig a (initSegment sps pps width height timescale audio)

def AudioMovieExact (a : AudioTrack) : Prop :=
  readBoxes (audioInitSegment a) = some (audioInitTrees a) ∧ HoldsConfig a (audioInitSegment a)

/-- Boxes that tile the fragment, and a run that leads to the sample. -/
def FragmentExact (sequence decodeTime duration : ℕ) (sample : Bytes) (key : Bool)
    (trackId : ℕ) : Prop :=
  let file := fragment sequence decodeTime duration sample key trackId
  readBoxes file = some (fragmentTrees sequence decodeTime duration sample key trackId) ∧
    (walk ["moof", "traf", "trun"] file).map (trunSample file) = some sample

/-- Boxes that tile the still, with the parameter sets, and an extent that leads to the sample. -/
def StillExact (sps pps : Bytes) (width height : ℕ) (sample : Bytes) : Prop :=
  let file := heifAvcStill sps pps width height sample
  readBoxes file = some (stillTrees sps pps width height sample) ∧
    HoldsSets ["meta", "iprp", "ipco", "avcC"] sps pps (highFields sps) file ∧
    (walk ["meta", "iloc"] file).map (ilocSample file) = some sample

section

variable {sps pps sample : Bytes}

theorem movieExact (hsps : sps.length < 2 ^ 16) (hpps : pps.length < 2 ^ 16)
    (width height timescale : ℕ) {audio : Option AudioTrack}
    (haudio : ∀ a ∈ withAudio audio, a.Fits) :
    MovieExact sps pps width height timescale audio := by
  have hread := readBoxes_initSegment hsps hpps width height timescale haudio
  refine ⟨hread, ?_, ?_⟩
  · rw [HoldsSets, walk, hread, Option.bind_some, find_avcC, Option.bind_some]
    exact readAvcC_avcPayload hsps hpps []
  · intro a ha hcodec
    have hasc := haudio a ha hcodec
    rw [Option.mem_def] at ha
    rw [walk, hread, Option.bind_some, ha, find_esds_movie _ _ _ _ _ hcodec, Option.bind_some]
    exact readEsds_esdsTree hasc

theorem audioMovieExact {a : AudioTrack} (h : a.Fits) : AudioMovieExact a := by
  have hread := readBoxes_audioInitSegment h
  refine ⟨hread, fun hcodec => ?_⟩
  rw [walk, hread, Option.bind_some, find_esds hcodec, Option.bind_some]
  exact readEsds_esdsTree (h hcodec)

theorem stillExact (hsps : sps.length < 2 ^ 16) (hpps : pps.length < 2 ^ 16)
    (hsample : sample.length < 2 ^ 32 - 8) (width height : ℕ) :
    StillExact sps pps width height sample := by
  have hread := readBoxes_heifAvcStill hsps hpps hsample width height
  refine ⟨hread, ?_, ilocSample_heifAvcStill hsps hpps hsample width height⟩
  rw [HoldsSets, walk, hread, Option.bind_some, stillTrees, find_avcC_still, Option.bind_some]
  exact readAvcC_avcPayload hsps hpps (highFields sps)

theorem layout_exact (hsps : sps.length < 2 ^ 16) (hpps : pps.length < 2 ^ 16)
    (hsample : sample.length < 2 ^ 32 - 8)
    (width height timescale sequence decodeTime duration trackId : ℕ) (key : Bool)
    (a : AudioTrack) (ha : a.Fits) :
    MovieExact sps pps width height timescale none ∧
      MovieExact sps pps width height timescale (some a) ∧ AudioMovieExact a ∧
      FragmentExact sequence decodeTime duration sample key trackId ∧
      StillExact sps pps width height sample := by
  have hnone : ∀ b ∈ withAudio none, b.Fits := fun b hb => absurd hb (Option.not_mem_none b)
  have hsome : ∀ b ∈ withAudio (some a), b.Fits := by
    intro b hb
    obtain ⟨hb, -⟩ := Option.mem_filter_iff.mp hb
    obtain rfl := Option.mem_some_iff.mp hb
    exact ha
  exact ⟨movieExact hsps hpps width height timescale hnone,
    movieExact hsps hpps width height timescale hsome, audioMovieExact ha,
    ⟨readBoxes_fragment sequence decodeTime duration hsample key trackId,
      trunSample_fragment sequence decodeTime duration hsample key trackId⟩,
    stillExact hsps hpps hsample width height⟩

end

/-- A configuration of two bytes, as an encoder hands it over. -/
def aacOfTwo : AudioTrack := { codec := .aac, sampleRate := 16000, asc := [0x14, 0x08] }

theorem layout_exact_small :
    MovieExact [0x67, 0x64, 0, 0x1f] [0x68] 1920 1080 90000 none ∧
      MovieExact [0x67, 0x64, 0, 0x1f] [0x68] 1920 1080 90000 (some aacOfTwo) ∧
      AudioMovieExact aacOfTwo ∧ FragmentExact 1 0 4500 [0, 0, 0, 2, 0x65, 0x88] true 1 ∧
      StillExact [0x67, 0x64, 0, 0x1f] [0x68] 1920 1080 [0, 0, 0, 2, 0x65, 0x88] :=
  layout_exact (by decide) (by decide) (by decide) 1920 1080 90000 1 0 4500 1 true aacOfTwo
    (fun _ => by decide)

theorem length_lt_of_readSets {k : ℕ} {s rest : Bytes} {sets : List Bytes}
    (h : readSets k s = some (sets, rest)) : ∀ p ∈ sets, p.length < 2 ^ 16 := by
  induction k generalizing s sets rest with
  | zero =>
    obtain ⟨rfl, -⟩ := Prod.mk.inj (Option.some.inj h)
    exact fun _ hp => absurd hp List.not_mem_nil
  | succ k ih =>
    rw [readSets] at h
    split_ifs at h
    obtain ⟨r, hrest, heq⟩ := Option.map_eq_some_iff.mp h
    obtain ⟨rfl, -⟩ := Prod.mk.inj heq
    intro p hp
    rcases List.mem_cons.mp hp with rfl | hp
    · have hbe : be16 s 0 < 2 ^ 16 := by
        have hhigh := UInt8.toNat_lt (s.getD 0 0)
        have hlow := UInt8.toNat_lt (s.getD 1 0)
        rw [be16, byte, byte, Nat.zero_add]
        omega
      rw [List.length_take]
      omega
    · exact ih hrest p hp

/-- A parameter set that its length of 16 bits does not cover is not found. -/
theorem not_holdsSets {path : List String} {sps pps more file : Bytes}
    (h : 2 ^ 16 ≤ sps.length) : ¬HoldsSets path sps pps more file := by
  intro hsets
  obtain ⟨p, -, hread⟩ := Option.bind_eq_some_iff.mp hsets
  unfold readAvcC at hread
  split at hread
  · exact absurd hread (by simp)
  · obtain ⟨found, hfound, hread⟩ := Option.bind_eq_some_iff.mp hread
    split at hread
    · exact absurd hread (by simp)
    · obtain ⟨r, -, heq⟩ := Option.map_eq_some_iff.mp hread
      obtain ⟨hsps, -⟩ := Prod.mk.inj heq
      have hlt := length_lt_of_readSets hfound sps (by simp [hsps])
      omega

/-- A configuration that is one byte too long for the lengths of the descriptors. -/
def aacTooLong : AudioTrack := { codec := .aac, asc := List.replicate 105 0 }

theorem not_layout_exact :
    ¬AudioMovieExact aacTooLong ∧
      ¬MovieExact (List.replicate (2 ^ 16) 0x67) [0x68] 1920 1080 90000 none := by
  refine ⟨fun h => ?_, fun h => not_holdsSets ?_ h.2.1⟩
  · have hfound := h.2 (by decide)
    rw [walk, h.1, Option.bind_some, find_esds (by decide), Option.bind_some] at hfound
    have hnone : (readEsds (esdsTree aacTooLong).head).isNone = true := by decide +kernel
    rw [hfound] at hnone
    exact absurd hnone (by decide)
  · rw [List.length_replicate]

end Machino.Fmp4
