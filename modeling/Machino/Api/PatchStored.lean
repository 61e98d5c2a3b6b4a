import Machino.Api.PatchConfig
import Machino.Api.PatchLines
import Machino.Core.CommittedLines

namespace Machino.Api

open Lines

/-- The changes that are answered as applied or stored. -/
def kept (rs : List (Change × ApplyResult)) : List Change :=
  (rs.filter fun r => r.2.status = "applied" ∨ r.2.status = "stored").map Prod.fst

/-- The last change of its key, behind others. -/
def LastOf (cs before : List Change) (c : Change) : Prop :=
  ∃ post, cs = before ++ c :: post ∧ ∀ d ∈ post, d.key ≠ c.key

/-- Each member holds what the last change of its key has asked for. -/
def LoadsAsAsked (cs : List Change) (text : Text) : Prop :=
  ∀ before c, LastOf cs before c → ∀ r, rowOf c.key = some r →
    asked r.kind c.requested = some ((parseConfigText text .initial).value r.field)

/-- The loader has a place for what is asked, and no alias that stands below the first line of the
key says anything else; one that does is overruled if the key is given twice. -/
def Lasting (text : Text) (before : List Change) (c : Change) (r : Row) : Prop :=
  ∃ v, asked r.kind c.requested = some v ∧ fits r.kind v = true ∧
    ((∃ d ∈ before, d.key = c.key) ∨
      ∀ w, saidBy r.field (behind c.key (split '\n' text)) = some w → w = v)

theorem status_eq_iff {r : ApplyResult} :
    (r.status = "applied" ∨ r.status = "stored") ↔ r.ok = true := by
  unfold ApplyResult.status
  cases r.ok <;> cases r.deferred <;> decide

theorem keptValues_eq (rs : List (Change × ApplyResult)) :
    keptValues rs = (kept rs).map fun c => (c.key, c.value) := by
  have hfilter : rs.filter (·.2.ok) =
      rs.filter fun r => r.2.status = "applied" ∨ r.2.status = "stored" :=
    List.filter_congr fun r _ => by simp [status_eq_iff]
  unfold keptValues kept
  rw [hfilter, List.map_map]
  rfl

theorem map_fst_applyAll {σ : Type} (services : σ → Change → ApplyResult × σ) (s : σ)
    (cs : List Change) : (applyAll services s cs).1.map Prod.fst = cs := by
  induction cs generalizing s with
  | nil => rfl
  | cons c cs ih => exact congrArg (c :: ·) (ih _)

/-- What a line tells of a member fits each row of that. -/
theorem fits_of_lastSaid {r : Row} (hr : r ∈ rows) {ps : List (Text × Text)} {v : Value}
    (h : lastSaid r.field ps = some v) : fits r.kind v = true := by
  induction ps using List.reverseRecOn with
  | nil => exact absurd h (by simp [lastSaid])
  | append_singleton ps p ih =>
    rw [lastSaid_concat, Option.or_eq_some_iff] at h
    obtain h | ⟨-, h⟩ := h
    · obtain ⟨⟨g, w⟩, hsaid, hif⟩ := Option.bind_eq_some_iff.mp h
      obtain ⟨r', hr', hread⟩ := Option.bind_eq_some_iff.mp hsaid
      obtain ⟨w', hw', heq⟩ := Option.map_eq_some_iff.mp hread
      obtain ⟨rfl, rfl⟩ := Prod.mk.inj heq
      dsimp only at hif
      split at hif
      · rename_i hfield
        obtain rfl := Option.some.inj hif
        rw [← (rows_of_member (row_of_rowOf hr').1 hr hfield).1]
        exact fits_of_read hw'
      · exact absurd hif (by simp)
    · exact ih h

/-- No other key of a body, nor that of the revision, tells of the member. -/
theorem silent_of_ne {k k' : Text} {r : Row} (hr : rowOf k = some r)
    (hk : ∀ a ∈ aliasKeys, k ≠ a.toList) (hk' : ∀ a ∈ aliasKeys, k' ≠ a.toList) (hne : k' ≠ k)
    (v : Text) : tells r.field (k', v) = none := by
  obtain ⟨hmem, hkey⟩ := row_of_rowOf hr
  unfold tells said
  cases hr' : rowOf k' with
  | none => rfl
  | some r' =>
    obtain ⟨hmem', hkey'⟩ := row_of_rowOf hr'
    have hfield : r'.field ≠ r.field := by
      intro hfield
      obtain ⟨-, heq | ha | ha⟩ := rows_of_member hmem' hmem hfield
      · exact hne (hkey' ▸ hkey ▸ congrArg String.toList heq)
      · exact hk' _ ha hkey'.symm
      · exact hk _ ha hkey.symm
    cases hread : r'.kind.read v with
    | none => simp [hread]
    | some w => simp [hread, hfield]

theorem accepted_of_readPatch {parse : Text → Except String Json} {p : Platform}
    {store : ConfigStore} {body ifMatch : Text} {cs : List Change}
    (h : readPatch parse p store body ifMatch = .ok cs) : ∀ c ∈ cs, Accepted c := by
  unfold readPatch at h
  split at h
  · exact absurd h (by simp)
  split at h
  · exact absurd h (by simp)
  split at h
  · obtain ⟨-, h⟩ := except_check_eq_ok.mp h
    obtain ⟨cs', hcs', h⟩ := except_bind_eq_ok.mp h
    split at h
    · exact absurd h (by simp)
    · obtain rfl := Except.ok.inj h
      intro c hc
      have hmem : c ∈ cs' := by
        rcases List.mem_append.mp hc with hc | hc
        · exact List.mem_of_mem_filter hc
        · exact List.mem_of_mem_filter hc
      exact accepted_of_changesOf hcs' c hmem
  · exact absurd h (by simp)

/-- The settings of changes, for the member of one of them. -/
theorem onlyKey_settingsFor {cs : List Change} (hcs : ∀ c ∈ cs, Accepted c) {c : Change}
    (hc : c ∈ cs) {r : Row} (hr : rowOf c.key = some r) (revision : UInt32) :
    OnlyKey r.field c.key (settingsFor (cs.map fun c => (c.key, c.value)) revision) := by
  have hown {d : Change} (hd : d ∈ cs) : ∀ a ∈ aliasKeys, d.key ≠ a.toList :=
    fun a ha => (hcs d hd).own a (List.mem_cons_of_mem _ ha)
  have hmem {e : Setting} (he : e ∈ settingsFor (cs.map fun c => (c.key, c.value)) revision) :
      (∃ d ∈ cs, e.key = d.key ∧ e.value = d.value) ∨
        (e.key = revisionKey ∧ e.value = Nat.toDigits 10 revision.toNat) := by
    unfold settingsFor at he
    obtain ⟨p, hp, rfl⟩ := List.mem_map.mp he
    rcases List.mem_append.mp hp with hp | hp
    · obtain ⟨d, hd, rfl⟩ := List.mem_map.mp hp
      exact .inl ⟨d, hd, rfl, rfl⟩
    · rw [List.mem_singleton.mp hp]
      exact .inr ⟨rfl, rfl⟩
  refine ⟨fun e he => ?_, fun e he hne v => ?_⟩
  · obtain ⟨d, hd, hkey, hval⟩ | ⟨hkey, hval⟩ := hmem he
    · unfold OneLine
      rw [hkey, hval]
      exact ⟨(hcs d hd).key, (hcs d hd).plain.noBreak⟩
    · unfold OneLine
      rw [hkey, hval]
      exact ⟨wellFormed_revisionKey, not_mem_toDigits _⟩
  · obtain ⟨d, hd, hkey, -⟩ | ⟨hkey, -⟩ := hmem he
    · exact silent_of_ne hr (hown hc) (hkey ▸ hown hd) hne v
    · have hfree : "config.revision" ∉ aliasKeys := by decide
      refine silent_of_ne hr (hown hc) (fun a ha => ?_) hne v
      rw [hkey]
      exact own_of_not_mem hfree a ha

/-- One member of a text that has been committed. -/
theorem asked_iff_lasting {cs before : List Change} (hcs : ∀ c ∈ cs, Accepted c) {c : Change}
    (hlast : LastOf cs before c) {r : Row} (hr : rowOf c.key = some r) (text : Text)
    (revision : UInt32) :
    asked r.kind c.requested = some ((parseConfigText (rewriteConfigText text
      (cs.map fun c => (c.key, c.value)) revision) .initial).value r.field) ↔
      Lasting text before c r := by
  obtain ⟨post, rfl, hpost⟩ := hlast
  have hc : c ∈ before ++ c :: post := by simp
  have honly := onlyKey_settingsFor hcs hc hr revision
  obtain ⟨hpath, v, hasked, hread, hinit⟩ := (hcs c hc).row r hr
  have hkey : c.key ≠ revisionKey := (hcs c hc).own _ List.mem_cons_self
  have hrow := (row_of_rowOf hr).1
  rw [value_parseConfigText hpath, hasked, Option.some.injEq]
  rw [List.map_append, List.map_cons] at honly ⊢
  -- a value there is a place for is what its line tells
  have hloaded (hfits : fits r.kind v = true) :
      lastSaid r.field (configLines (rewriteConfigText text ((before.map fun c =>
        (c.key, c.value)) ++ (c.key, c.value) :: post.map fun c => (c.key, c.value)) revision)) =
        if ∃ d ∈ before, d.key = c.key then some v
        else (saidBy r.field (behind c.key (split '\n' text))).or (some v) := by
    have htells : tells r.field (c.key, readBack c.value) = some v := by
      unfold tells said
      rw [(plain_iff.mp (hcs c hc).plain).2, hr]
      simp [hread hfits]
    have hrest : ∀ p ∈ post.map fun c => (c.key, c.value), p.1 ≠ c.key := by
      intro p hp
      obtain ⟨d, hd, rfl⟩ := List.mem_map.mp hp
      exact hpost d hd
    rw [lastSaid_rewriteConfigText honly hkey hrest htells]
    simp
  constructor
  · intro heq
    have hfits : fits r.kind v = true := by
      cases hsaid : lastSaid r.field (configLines (rewriteConfigText text ((before.map fun c =>
          (c.key, c.value)) ++ (c.key, c.value) :: post.map fun c => (c.key, c.value))
          revision)) with
      | none =>
        rw [hsaid] at heq
        exact hinit heq.symm
      | some w =>
        rw [hsaid, Option.getD_some] at heq
        exact heq ▸ fits_of_lastSaid hrow hsaid
    refine ⟨v, hasked, hfits, ?_⟩
    rw [hloaded hfits] at heq
    by_cases hdup : ∃ d ∈ before, d.key = c.key
    · exact .inl hdup
    · refine .inr fun w hw => ?_
      rw [if_neg hdup, hw] at heq
      exact heq.symm
  · rintro ⟨v', hasked', hfits, hsay⟩
    obtain rfl := Option.some.inj (hasked.symm.trans hasked')
    rw [hloaded hfits]
    split
    · rfl
    · rename_i hdup
      have hsay := hsay.resolve_left hdup
      cases hw : saidBy r.field (behind c.key (split '\n' text)) with
      | none => rfl
      | some w => exact (hsay w hw).symm

theorem kept_patchConfig {σ : Type} (parse : Text → Except String Json) (p : Platform)
    (services : σ → Change → ApplyResult × σ) (body ifMatch : Text) (d : Daemon σ) :
    kept (patchConfig parse p services (.ok ()) body ifMatch d).1.changes = [] ∨
      ((∀ c ∈ kept (patchConfig parse p services (.ok ()) body ifMatch d).1.changes, Accepted c) ∧
        (patchConfig parse p services (.ok ()) body ifMatch d).2.store.text =
          rewriteConfigText d.store.text
            ((kept (patchConfig parse p services (.ok ()) body ifMatch d).1.changes).map
              fun c => (c.key, c.value)) (d.store.revision + 1)) := by
  unfold patchConfig
  split
  · exact .inl rfl
  · rename_i cs hcs
    have hall := accepted_of_readPatch hcs
    have hfst := map_fst_applyAll services d.services cs
    generalize applyAll services d.services cs = out at hfst
    obtain ⟨rs, s⟩ := out
    have hchanges (store : ConfigStore) : (answer store rs).changes = rs := by
      unfold answer
      split <;> rfl
    have haccepted : ∀ c ∈ kept rs, Accepted c := by
      intro c hc
      obtain ⟨x, hx, rfl⟩ := List.mem_map.mp hc
      exact hall x.1 (hfst ▸ List.mem_map_of_mem (List.mem_of_mem_filter hx))
    dsimp only
    split
    · rename_i hempty
      rw [keptValues_eq, List.isEmpty_iff, List.map_eq_nil_iff] at hempty
      exact .inl ((hchanges _).symm ▸ hempty)
    · refine .inr ?_
      dsimp only
      rw [hchanges, ← keptValues_eq]
      exact ⟨haccepted, rfl⟩

/-- A body is loaded as it asks just when all that is kept of it lasts. -/
theorem loadsAsAsked_iff {σ : Type} (parse : Text → Except String Json) (p : Platform)
    (services : σ → Change → ApplyResult × σ) (body ifMatch : Text) (d : Daemon σ) :
    LoadsAsAsked (kept (patchConfig parse p services (.ok ()) body ifMatch d).1.changes)
        (patchConfig parse p services (.ok ()) body ifMatch d).2.store.text ↔
      ∀ before c,
        LastOf (kept (patchConfig parse p services (.ok ()) body ifMatch d).1.changes) before c →
          ∀ r, rowOf c.key = some r → Lasting d.store.text before c r := by
  obtain hnil | ⟨haccepted, htext⟩ := kept_patchConfig parse p services body ifMatch d
  · have hnone {before : List Change} {c : Change} : ¬ LastOf [] before c := by
      rintro ⟨post, heq, -⟩
      exact absurd heq (by simp)
    unfold LoadsAsAsked
    rw [hnil]
    exact ⟨fun _ before c hlast => absurd hlast hnone, fun _ before c hlast => absurd hlast hnone⟩
  · unfold LoadsAsAsked
    rw [htext]
    exact forall_congr' fun before => forall_congr' fun c => forall_congr' fun hlast =>
      forall_congr' fun r => forall_congr' fun hr =>
        asked_iff_lasting haccepted hlast hr d.store.text _

/-- A substream sixteen pixels wide. -/
def narrow : Json :=
  .object [("video".toList, .object [("1".toList, .object [("width".toList, .number 16)])])]

def bare : Platform := ⟨.supported, fun _ => {}, .unknown, .unknown, false, false, false⟩

/-- The width is answered as stored, and the loader does not take it. -/
theorem not_loadsAsAsked_narrow :
    ¬ ∀ (parse : Text → Except String Json) (p : Platform)
        (services : Unit → Change → ApplyResult × Unit) (body ifMatch : Text) (d : Daemon Unit),
      LoadsAsAsked (kept (patchConfig parse p services (.ok ()) body ifMatch d).1.changes)
        (patchConfig parse p services (.ok ()) body ifMatch d).2.store.text := by
  intro h
  have hload := h (fun _ => .ok narrow) bare (fun _ _ => ({}, ())) "-".toList [] ⟨(), {}⟩
  have hkept : kept (patchConfig (fun _ => .ok narrow) bare (fun (_ : Unit) _ => ({}, ())) (.ok ())
      "-".toList [] ⟨(), {}⟩).1.changes =
      [⟨"video.1.width".toList, .number 16, "video.1.width".toList, "16".toList⟩] := rfl
  rw [hkept] at hload
  exact absurd (hload [] _ ⟨[], rfl, by simp⟩ ⟨"video.1.width", .video1Width, .int 128 4096⟩
    ((rowOf_toList _).trans (by simp [rows]))) (by decide +kernel)

end Machino.Api
