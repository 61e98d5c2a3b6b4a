import Machino.Ipsec.Networks
import Machino.Ipsec.MachinoConf

namespace Machino.Ipsec

open Lines

/-- A key that the daemon takes off its line as it is. -/
structure WdKey (k : String) : Prop where
  solid : Solid k.toList
  nonempty : k.toList ≠ []
  noAssign : '=' ∉ k.toList
  noComment : '#' ∉ k.toList

instance (k : String) : Decidable (WdKey k) :=
  decidable_of_iff (Solid k.toList ∧ k.toList ≠ [] ∧ '=' ∉ k.toList ∧
      '#' ∉ k.toList)
    ⟨fun ⟨h₁, h₂, h₃, h₄⟩ => ⟨h₁, h₂, h₃, h₄⟩, fun ⟨h₁, h₂, h₃, h₄⟩ => ⟨h₁, h₂, h₃, h₄⟩⟩

def isEnd (c : Char) : Bool := isFiller c || c = '\r'

theorem wdTrim_eq (s : Text) : wdTrim s = Text.strip isFiller isEnd s := rfl

theorem not_isFiller {c : Char} (h : 0x20 < c.toNat) : isFiller c = false ∧ isEnd c = false := by
  have hne (d : Char) (hd : d.toNat ≤ 0x20) : c ≠ d := by
    rintro rfl
    omega
  have h₁ := hne ' ' (by decide)
  have h₂ := hne '\t' (by decide)
  have h₃ := hne '\r' (by decide)
  simp [isEnd, isFiller, h₁, h₂, h₃]

theorem wdTrim_solid {v : Text} (h : Solid v) : wdTrim v = v := by
  rw [wdTrim_eq, Text.strip]
  have hdrop : v.dropWhile isFiller = v := by
    rw [List.dropWhile_eq_self_iff]
    intro hlen
    simp [(not_isFiller (h _ (List.getElem_mem hlen))).1]
  rw [hdrop, List.rdropWhile_eq_self_iff]
  intro hv
  simp [(not_isFiller (h _ (List.getLast_mem hv))).2]

/-- The daemon takes a line apart as it was put together, up to a zero byte and blanks around. -/
theorem wdLine_assignment {k : String} (hk : WdKey k) {v : Text} (hv : Char.ofNat 0 ∉ v)
    (hlen : (assignment k.toList v).length < 512) (w : WdConfig) :
    wdLine w (assignment k.toList v) = wdSetting w k (wdTrim v) := by
  obtain ⟨hsolid, hne, hassign, hhash⟩ := hk
  obtain ⟨d, t, hd⟩ := List.exists_cons_of_ne_nil hne
  have hnul : Char.ofNat 0 ∉ assignment k.toList v := by
    intro hmem
    simp only [assignment, List.mem_append] at hmem
    rcases hmem with (hmem | hmem) | hmem
    · exact absurd (hsolid _ hmem) (by decide)
    · exact absurd hmem (by decide)
    · exact hv hmem
  have hfill : isFiller d = false := (not_isFiller (hsolid d (hd ▸ List.mem_cons_self))).1
  have hhash' : d ≠ '#' := by
    rintro rfl
    exact hhash (hd ▸ List.mem_cons_self)
  have hassign' : '=' ∉ k.toList ++ [' '] := by simp [hassign]
  have hline : wdTrim (assignment k.toList v) =
      (k.toList ++ [' ']) ++ '=' :: (' ' :: v).rdropWhile isEnd := by
    have happ : assignment k.toList v = (k.toList ++ [' ']) ++ '=' :: ' ' :: v := by
      simp [assignment]
    have hdrop : (k.toList ++ [' ']).dropWhile isFiller = k.toList ++ [' '] := by
      rw [hd, List.cons_append, List.dropWhile_cons_of_neg (by simp [hfill])]
    rw [happ, wdTrim_eq, Text.strip_append_cons (by decide) (by decide), hdrop]
  have hkey : wdTrim (k.toList ++ [' ']) = k.toList := by
    rw [wdTrim_eq, Text.strip_append_singleton (by decide), ← wdTrim_eq, wdTrim_solid hsolid]
  have hvalue : wdTrim ((' ' :: v).rdropWhile isEnd) = wdTrim v := by
    rw [wdTrim_eq, Text.strip_rdropWhile, Text.strip, List.dropWhile_cons_of_pos (by decide)]
    rfl
  unfold wdLine
  rw [if_neg (by omega), cString_eq_self hnul]
  dsimp only
  rw [hline, if_neg (by simp [hd, hhash']), if_neg (by simp), takeWhile_first hassign',
    dropWhile_first hassign', List.tail_cons, hkey, hvalue, String.ofList_toList]

/-- A line that is neither empty nor a comment and sets nothing is refused. -/
theorem wdLine_error {l : Text} {d : Char} (hd : d ∈ l) (hsolid : 0x20 < d.toNat)
    (hassign : '=' ∉ l) (hhash : '#' ∉ l) (hnul : Char.ofNat 0 ∉ l) (w : WdConfig) :
    ∃ e, wdLine w l = .error e := by
  have hsub : (wdTrim l).Sublist l :=
    (List.rdropWhile_prefix _ _).sublist.trans (List.dropWhile_suffix _).sublist
  have hmem : d ∈ wdTrim l := by
    obtain ⟨a, b, rfl⟩ := List.append_of_mem hd
    rw [wdTrim_eq, Text.strip_append_cons (not_isFiller hsolid).1 (not_isFiller hsolid).2]
    simp
  unfold wdLine
  split
  · exact ⟨_, rfl⟩
  · dsimp only
    rw [cString_eq_self hnul, if_neg, if_pos fun h => hassign (hsub.subset h)]
    · exact ⟨_, rfl⟩
    · rintro (h | h)
      · exact List.ne_nil_of_mem hmem h
      · exact hhash (hsub.subset (List.mem_of_head? h))

theorem asUint_ofNat {n bound : ℕ} (hn : n ≤ bound) (hb : bound < 2 ^ 32) (err : String) :
    asUint (Text.ofNat n) bound err = .ok (.ofNat n) := by
  have hlt : n < 2 ^ 32 := by omega
  unfold asUint
  rw [Text.scanULong_ofNat hlt]
  dsimp only
  rw [UInt32.toNat_ofNat_of_lt' hlt, if_pos hn]

theorem asUint_ofInt {n : Int} {bound : ℕ} (hlo : 0 ≤ n) (hn : n.toNat ≤ bound) (hb : bound < 2 ^ 32)
    (err : String) : asUint (Text.ofInt n) bound err = .ok (.ofNat n.toNat) := by
  have hnat : Text.ofInt n = Text.ofNat n.toNat := by
    unfold Text.ofInt
    rw [if_neg (by omega)]
    congr 1
    omega
  rw [hnat]
  exact asUint_ofNat hn hb err

theorem asBool_boolText (b : Bool) (err : String) : asBool (boolText b) err = .ok b := by
  cases b <;> rfl

theorem asNamed_authName (a : Auth) (err : String) :
    asNamed authFromName (authName a).toList err = .ok a := by
  cases a <;> rfl

theorem asNamed_trustModeName (t : TrustMode) (err : String) :
    asNamed trustModeFromName (trustModeName t).toList err = .ok t := by
  cases t <;> rfl

theorem asNamed_idTypeName (t : IdType) (err : String) :
    asNamed idTypeFromName (idTypeName t).toList err = .ok t := by
  cases t <;> rfl

/-- The numbers that the catalogue gives a name. -/
def algoNumbers (g : AlgoGroup) (id : Text) : Option WdAlgo :=
  (algoFind g id).map fun a => ⟨a.iana, a.iana2, a.bits⟩

/-- The daemon knows what is offered by the same numbers. -/
theorem Offered.lookup {g : AlgoGroup} {id : Text} (h : Offered g id) :
    ∃ a, wdAlgoLookup g id = some a ∧ algoNumbers g id = some a := by
  obtain ⟨a, ha, -⟩ := h
  have hid : a.id.toList = id := by simpa using List.find?_some ha
  have hmem : a ∈ g.table := List.mem_of_find?_eq_some ha
  have hall : ∀ g : AlgoGroup, ∀ a ∈ g.table,
      wdAlgoLookup g a.id.toList = some ⟨a.iana, a.iana2, a.bits⟩ := by
    intro g
    cases g <;> decide
  refine ⟨⟨a.iana, a.iana2, a.bits⟩, hid ▸ hall g a hmem, ?_⟩
  unfold algoNumbers
  rw [ha]
  rfl

theorem wdAlgoEntry_offered {g : AlgoGroup} {id : Text} (h : Offered g id) (out : List WdAlgo) :
    ∃ a, algoNumbers g id = some a ∧ wdAlgoEntry g out id =
      if 16 ≤ out.length then .error "too many algorithms in one list" else .ok (out ++ [a]) := by
  obtain ⟨a, hlookup, hnumbers⟩ := h.lookup
  obtain ⟨hne, hlen, -⟩ := h.alnum
  refine ⟨a, hnumbers, ?_⟩
  unfold wdAlgoEntry
  dsimp only
  rw [h.csvEntry.2.2, if_neg hne, if_neg (by omega), hlookup]

theorem foldlM_wdAlgoEntry {g : AlgoGroup} {ids : List Text} (h : ∀ id ∈ ids, Offered g id)
    {out : List WdAlgo} (hlen : out.length + ids.length ≤ 16) :
    ids.foldlM (wdAlgoEntry g) out = .ok (out ++ ids.filterMap (algoNumbers g)) := by
  induction ids generalizing out with
  | nil => simp [pure, Except.pure]
  | cons id ids ih =>
    rw [List.length_cons] at hlen
    obtain ⟨a, ha, hentry⟩ := wdAlgoEntry_offered (h id List.mem_cons_self) out
    rw [if_neg (by omega)] at hentry
    have hrest := @ih (fun i hi => h i (List.mem_cons_of_mem _ hi)) (out ++ [a])
      (by simp only [List.length_append, List.length_singleton]; omega)
    rw [List.append_assoc] at hrest
    rw [List.foldlM_cons, hentry, List.filterMap_cons_some ha]
    exact hrest

/-- A list that is too long is refused. -/
theorem foldlM_wdAlgoEntry_error {g : AlgoGroup} {ids : List Text} (h : ∀ id ∈ ids, Offered g id)
    {out : List WdAlgo} (hlen : 16 < out.length + ids.length) (hout : out.length ≤ 16) :
    ∃ e, ids.foldlM (wdAlgoEntry g) out = .error e := by
  induction ids generalizing out with
  | nil => simp at hlen; omega
  | cons id ids ih =>
    rw [List.length_cons] at hlen
    obtain ⟨a, -, hentry⟩ := wdAlgoEntry_offered (h id List.mem_cons_self) out
    rw [List.foldlM_cons, hentry]
    split
    · exact ⟨_, rfl⟩
    · exact @ih (fun i hi => h i (List.mem_cons_of_mem _ hi)) (out ++ [a])
        (by simp only [List.length_append, List.length_singleton]; omega)
        (by simp only [List.length_append, List.length_singleton]; omega)

theorem split_joinCsv {g : AlgoGroup} {ids : List Text} (h : OfferedList g ids) :
    split ',' (joinCsv ids) = ids :=
  split_intercalate (fun id hid => (h.2 id hid).csvEntry.2.1) fun id hid => (h.2 id hid).csvEntry.1

theorem wdParseAlgoList_joinCsv {g : AlgoGroup} {ids : List Text} (h : OfferedList g ids)
    (hlen : ids.length ≤ 16) :
    wdParseAlgoList g (joinCsv ids) = .ok (ids.filterMap (algoNumbers g)) := by
  have hfold : ids.foldlM (wdAlgoEntry g) [] = .ok ([] ++ ids.filterMap (algoNumbers g)) :=
    foldlM_wdAlgoEntry h.2 (by simpa using hlen)
  have hne : ids.filterMap (algoNumbers g) ≠ [] := by
    obtain ⟨id, rest, rfl⟩ := List.exists_cons_of_ne_nil h.1
    obtain ⟨a, -, ha⟩ := (h.2 id List.mem_cons_self).lookup
    rw [List.filterMap_cons_some ha]
    exact List.cons_ne_nil _ _
  unfold wdParseAlgoList
  rw [split_joinCsv h, hfold]
  exact if_neg hne

theorem wdParseAlgoList_error {g : AlgoGroup} {ids : List Text} (h : OfferedList g ids)
    (hlen : 16 < ids.length) : ∃ e, wdParseAlgoList g (joinCsv ids) = .error e := by
  obtain ⟨e, he⟩ := @foldlM_wdAlgoEntry_error g ids h.2 [] (by simpa using hlen) (by simp)
  exact ⟨e, by unfold wdParseAlgoList; rw [split_joinCsv h, he]; rfl⟩

end Machino.Ipsec
