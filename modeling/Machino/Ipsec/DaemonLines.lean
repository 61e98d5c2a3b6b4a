import Machino.Ipsec.DaemonReads

namespace Machino.Ipsec

open Lines

/-- A secret that is one and that the check accepts. -/
def Accepted (secret : Text) : Prop := secret ≠ [] ∧ secretFault secret = none

instance (secret : Text) : Decidable (Accepted secret) := inferInstanceAs (Decidable (_ ∧ _))

def activeKey (c : IpsecConfig) : String := (activeSecret c {}).1

/-- The line of the secret that is written sets an accepted one, whether it is new or carried over
from the old file. -/
def Credential (c : IpsecConfig) (secrets : IpsecSecrets) (oldConf secret : Text) : Prop :=
  Accepted secret ∧
    credLine c secrets oldConf = assignment (activeKey c).toList secret ++ ['\n']

/-- The addresses and the interface that a session is pinned to. -/
structure Pinned (net : SessionNet) : Prop where
  gatewayIp : IsIpv4 net.gatewayIp
  bindIp : net.bindIp ≠ [] → IsIpv4 net.bindIp
  bindDev : net.bindDev ≠ [] → wdValidIfname net.bindDev = true

/-- A path that fits the daemon's buffer, or none. -/
def PemFile (path : Text) : Prop := Solid path ∧ path.length < 128

theorem Accepted.spec {secret : Text} (h : Accepted secret) :
    secret.length ≤ 64 ∧ wdTrim secret = secret ∧ '\n' ∉ secret ∧ Char.ofNat 0 ∉ secret := by
  obtain ⟨hne, hfault⟩ := h
  unfold secretFault at hfault
  rw [if_neg hne] at hfault
  split at hfault
  · exact absurd hfault (by simp)
  · rename_i hlen
    split at hfault
    · exact absurd hfault (by simp)
    · rename_i hchars
      split at hfault
      · exact absurd hfault (by simp)
      · rename_i hends
        rw [not_or] at hends
        have hprint : ∀ c ∈ secret, c = ' ' ∨ 0x20 < c.toNat := by
          intro c hc
          by_contra hno
          rw [not_or] at hno
          refine hchars (List.any_eq_true.mpr ⟨c, hc, ?_⟩)
          simp only [ne_eq, hno.1, not_false_eq_true, decide_true, Bool.true_and, Bool.or_eq_true,
            decide_eq_true_eq]
          omega
        have hnot {c : Char} (hc : c ∈ secret) (hsp : c ≠ ' ') :
            isFiller c = false ∧ isEnd c = false :=
          not_isFiller ((hprint c hc).resolve_left hsp)
        refine ⟨by omega, ?_, fun hmem => ?_, fun hmem => ?_⟩
        · have hdrop : secret.dropWhile isFiller = secret := by
            rw [List.dropWhile_eq_self_iff]
            intro hpos hfill
            have hhead : secret.head? = some secret[0] := by
              rw [List.head?_eq_getElem?, List.getElem?_eq_getElem hpos]
            have hsp : secret[0] ≠ ' ' := fun heq => hends.1 (heq ▸ hhead)
            rw [(hnot (List.getElem_mem hpos) hsp).1] at hfill
            exact absurd hfill (by decide)
          rw [wdTrim_eq, Text.strip, hdrop, List.rdropWhile_eq_self_iff]
          intro hne' hend
          have hsp : secret.getLast hne' ≠ ' ' := fun heq =>
            hends.2 (heq ▸ List.getLast?_eq_some_getLast hne')
          rw [(hnot (List.getLast_mem hne') hsp).2] at hend
          exact absurd hend (by decide)
        · exact absurd (hprint _ hmem) (by decide)
        · exact absurd (hprint _ hmem) (by decide)

/-- A new secret is the credential. -/
theorem credential_new {c : IpsecConfig} {secrets : IpsecSecrets}
    (h : Accepted (activeSecret c secrets).2) (oldConf : Text) :
    Credential c secrets oldConf (activeSecret c secrets).2 := by
  refine ⟨h, ?_⟩
  have hkey : activeKey c = (activeSecret c secrets).1 := by
    unfold activeKey activeSecret
    cases c.auth <;> rfl
  unfold credLine
  dsimp only
  rw [if_pos h.1, hkey]

section settings

variable (c : IpsecConfig) (net : SessionNet) (secret caPemFile extraPemFile : Text)

def daemonSettings : List (String × Text) :=
  headSettings c net ++ [(activeKey c, secret)] ++ tailSettings c net caPemFile extraPemFile

theorem toWeirdikeConf_eq {secrets : IpsecSecrets} {oldConf : Text}
    (h : Credential c secrets oldConf secret) :
    toWeirdikeConf c secrets oldConf net caPemFile extraPemFile =
      settingsText (daemonSettings c net secret caPemFile extraPemFile) := by
  unfold toWeirdikeConf daemonSettings settingsText
  rw [h.2, List.map_append, List.map_append, join_append, join_append]
  simp [join]

/-- How a setting of the file is read. -/
def wdRead (w : WdConfig) (kv : String × Text) : Except String WdConfig :=
  wdSetting w kv.1 (wdTrim kv.2)

theorem forall_mem_optional {b : Bool} {k : String} {v : Text} {P : String × Text → Prop} :
    (∀ kv ∈ optional b k v, P kv) ↔ (b = true → P (k, v)) := by
  unfold optional
  cases b <;> simp

theorem wdKey_daemonSettings : ∀ kv ∈ daemonSettings c net secret caPemFile extraPemFile,
    WdKey kv.1 := by
  have hactive : WdKey (activeKey c) := by
    unfold activeKey activeSecret
    cases c.auth <;> decide
  unfold daemonSettings headSettings tailSettings
  simp only [List.forall_mem_append, List.forall_mem_cons, forall_mem_optional, hactive]
  and_intros
  all_goals first | decide | exact fun _ => by decide

/-- A setting that the daemon reads from its line. -/
structure LineOk (kv : String × Text) : Prop where
  noBreak : '\n' ∉ kv.2
  noNul : Char.ofNat 0 ∉ kv.2
  fits : (assignment kv.1.toList kv.2).length < 512

theorem length_assignment (k v : Text) : (assignment k v).length = k.length + 3 + v.length := by
  unfold assignment
  rw [List.length_append, List.length_append]
  rfl

theorem foldlM_wdLine {kvs : List (String × Text)} (hkey : ∀ kv ∈ kvs, WdKey kv.1)
    (hline : ∀ kv ∈ kvs, LineOk kv) (w : WdConfig) :
    (split '\n' (settingsText kvs)).foldlM wdLine w = kvs.foldlM wdRead w := by
  unfold settingsText
  rw [split_join]
  · rw [List.foldlM_map]
    induction kvs generalizing w with
    | nil => rfl
    | cons kv kvs ih =>
      have hkv := hline kv List.mem_cons_self
      rw [List.foldlM_cons, List.foldlM_cons,
        wdLine_assignment (hkey kv List.mem_cons_self) hkv.noNul hkv.fits]
      exact bind_congr fun w' => ih (fun k hk => hkey k (List.mem_cons_of_mem _ hk))
        (fun k hk => hline k (List.mem_cons_of_mem _ hk)) w'
  · intro l hl
    obtain ⟨kv, hkv, rfl⟩ := List.mem_map.mp hl
    have hbreak : '\n' ∉ kv.1.toList := fun hmem =>
      absurd ((hkey kv hkv).solid _ hmem) (by decide)
    simp [assignment, hbreak, (hline kv hkv).noBreak]

/-- A line with a fault that no state heals makes the daemon refuse the file. -/
theorem wdConfigParse_error {kvs : List (String × Text)} {kv : String × Text} (hkv : kv ∈ kvs)
    {l : Text} (hl : l ∈ split '\n' (assignment kv.1.toList kv.2 ++ ['\n']))
    (hbad : ∀ w, ∃ e, wdLine w l = .error e) :
    ∃ e, wdConfigParse (settingsText kvs) = .error e := by
  have hmem : l ∈ split '\n' (settingsText kvs) :=
    mem_split_join (List.mem_map_of_mem (f := fun kv => assignment kv.1.toList kv.2) hkv) hl
  obtain ⟨e, he⟩ := foldlM_error hmem hbad {}
  exact ⟨e, by unfold wdConfigParse; rw [he]; rfl⟩

end settings

/-- Short enough for any line. -/
def Brief (v : Text) : Prop := Solid v ∧ v.length ≤ 256

theorem Brief.lineOk {k : String} (hk : k.toList.length ≤ 20) {v : Text} (h : Brief v) :
    LineOk (k, v) := by
  refine ⟨fun hmem => absurd (h.1 _ hmem) (by decide), fun hmem => absurd (h.1 _ hmem) (by decide), ?_⟩
  have hlen := h.2
  rw [length_assignment]
  dsimp only
  omega

theorem brief_ofNat {n : ℕ} (h : n < 10 ^ 20) : Brief (Text.ofNat n) :=
  ⟨solid_ofNat n, (length_ofNat_le (by decide) h).trans (by decide)⟩

theorem brief_ofInt {n : Int} (hlo : 0 ≤ n) (h : n < 10 ^ 20) : Brief (Text.ofInt n) := by
  unfold Text.ofInt
  rw [if_neg (by omega)]
  exact brief_ofNat (by omega)

theorem brief_boolText (b : Bool) : Brief (boolText b) :=
  ⟨solid_boolText b, by cases b <;> decide⟩

theorem brief_authName (a : Auth) : Brief (authName a).toList :=
  ⟨solid_authName a, by cases a <;> decide⟩

theorem brief_trustModeName (t : TrustMode) : Brief (trustModeName t).toList :=
  ⟨solid_trustModeName t, by cases t <;> decide⟩

theorem brief_idTypeName (t : IdType) : Brief (idTypeName t).toList :=
  ⟨solid_idTypeName t, by cases t <;> decide⟩

theorem brief_of_idOk {v : Text} (h : v ≠ [] → idOk v = true) : Brief v := by
  refine ⟨solid_of_idOk h, ?_⟩
  by_cases hv : v = []
  · rw [hv]
    decide
  · have hok := h hv
    simp only [idOk, Bool.and_eq_true, decide_eq_true_eq] at hok
    omega

theorem IsIpv4.brief {v : Text} (h : IsIpv4 v) : Brief v := by
  obtain ⟨a, b, c, d, rfl⟩ := h
  exact ⟨solid_dotted a b c d, (length_dotted_le a b c d).trans (by decide)⟩

theorem PemFile.brief {path : Text} (h : PemFile path) : Brief path := ⟨h.1, by have := h.2; omega⟩

theorem brief_of_wdValidIfname {v : Text} (h : wdValidIfname v = true) : Brief v := by
  simp only [wdValidIfname, Bool.and_eq_true, decide_eq_true_eq] at h
  obtain ⟨⟨-, hlen⟩, hall⟩ := h
  refine ⟨solid_of_all (p := fun c => c.isAlphanum || c = '-' || c = '_') (by decide) ?_, by omega⟩
  exact List.all_eq_true.mp hall

theorem length_joinCsv_le {ids : List Text} (h : ∀ id ∈ ids, id.length ≤ 9) :
    (joinCsv ids).length ≤ 10 * ids.length := by
  unfold joinCsv
  induction ids with
  | nil => simp
  | cons id ids ih =>
    have hid := h id List.mem_cons_self
    cases ids with
    | nil =>
      rw [List.intercalate_singleton]
      simp only [List.length_singleton]
      omega
    | cons id' ids =>
      have hrest := ih fun i hi => h i (List.mem_cons_of_mem _ hi)
      rw [List.intercalate_cons_cons, List.length_append, List.length_append, List.length_cons]
      simp only [List.length_cons, List.length_nil] at hrest ⊢
      omega

theorem OfferedList.brief {g : AlgoGroup} {ids : List Text} (h : OfferedList g ids)
    (hlen : ids.length ≤ 16) : Brief (joinCsv ids) := by
  refine ⟨h.solid, (length_joinCsv_le fun id hid => (h.2 id hid).alnum.2.1).trans ?_⟩
  omega

end Machino.Ipsec
