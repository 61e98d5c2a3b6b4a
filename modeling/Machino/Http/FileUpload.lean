import Machino.Core.Text

namespace Machino.Http

/-- The pseudo file systems of the kernel, the read-only image and the overlay's own directory. -/
def refused : List Text := ["/proc", "/sys", "/dev", "/rom", "/overlay"].map String.toList

/-- The comparison of a location with a tree: the raw text begins with it, as a whole component. -/
def startsUnder (r loc : Text) : Bool :=
  r.isPrefixOf loc && (loc.length = r.length || loc[r.length]? = some '/')

def isUnprintable (c : Char) : Bool := c.toNat < 0x20 || c.toNat = 0x7f

def locationOk (loc : Text) : Except String Unit :=
  if loc.head? ≠ some '/' then .error "File-Location must be an absolute path"
  else if 4096 < loc.length then .error "File-Location is too long"
  else if Text.contains loc ".." then .error "File-Location must not contain .."
  else if loc.any isUnprintable then .error "File-Location contains a control character"
  else if loc.length = 1 ∨ loc.getLast? = some '/' then
    .error "File-Location must name a file, not a directory"
  else
    match refused.find? (startsUnder · loc) with
    | some r => .error ("no uploads under " ++ String.ofList r)
    | none => .ok ()

/-- What the file system answers: whether a path is there and a directory or a regular file, how
much is free, and why a file cannot be created. -/
structure Storage where
  isDir : Text → Option Bool
  isReg : Text → Option Bool
  available : Text → Option ℕ
  create : Text → Option String

def kilobytes (n : ℕ) : String := toString (n / 1024)

/-- The checks of `begin` and the temporary file it opens; what is refused has a status. -/
def beginUpload (fs : Storage) (location : Text) (length : ℕ) : Except (ℕ × String) Text := do
  (locationOk location).mapError fun why => (400, why)
  let base := (location.reverse.takeWhile (· ≠ '/')).reverse
  let slash := location.length - base.length - 1
  let parent := if slash = 0 then ['/'] else location.take slash
  match fs.isDir parent with
  | none => throw (404, "no such directory: " ++ String.ofList parent)
  | some false => throw (404, "not a directory: " ++ String.ofList parent)
  | some true => pure ()
  if fs.isReg location = some false then
    throw (409, "not a regular file: " ++ String.ofList location)
  match fs.available parent with
  | some free =>
    if free < length + 64 * 1024 then
      throw (507, "not enough space on " ++ String.ofList parent ++ ": need " ++
        kilobytes (length + 64 * 1024) ++ " kB, free " ++ kilobytes free ++ " kB")
  | none => pure ()
  let tmp := (if parent = ['/'] then [] else parent) ++ "/.".toList ++ base ++ ".machino-up".toList
  match fs.create tmp with
  | some e => throw (500, "cannot create " ++ String.ofList tmp ++ ": " ++ e)
  | none => return tmp

/-- A component that the kernel passes over. -/
def Idle (c : Text) : Prop := c = [] ∨ c = ['.']

instance (c : Text) : Decidable (Idle c) := inferInstanceAs (Decidable (_ ∨ _))

def parts (path : Text) : List Text := (path.splitOn '/').filter fun c => ¬Idle c

/-- The path without repeated slashes and dots. -/
def collapse (path : Text) : Text := '/' :: ['/'].intercalate (parts path)

/-- The tree itself or something below it. -/
def Below (r path : Text) : Prop := path = r ∨ r ++ ['/'] <+: path

structure StaysOut (loc : Text) : Prop where
  absolute : loc.head? = some '/'
  file : collapse loc ≠ ['/']
  outside : ∀ r ∈ refused, ¬Below r (collapse loc)

/-- The first component is passed over, and the first one that is not, if there is any, is a refused
one. -/
def Disguised (loc : Text) : Prop :=
  ∃ c cs, (loc.splitOn '/').tail = c :: cs ∧ Idle c ∧
    ∀ name, cs.find? (fun c => ¬Idle c) = some name → '/' :: name ∈ refused

/-- A text up to its first slash. -/
theorem splitOn_slash (t : Text) : ∃ c, '/' ∉ c ∧
    ((t = c ∧ t.splitOn '/' = [c]) ∨
      ∃ u, t = c ++ '/' :: u ∧ t.splitOn '/' = c :: u.splitOn '/') := by
  by_cases h : '/' ∈ t
  · obtain ⟨c, u, rfl, hc⟩ := List.eq_append_cons_of_mem h
    exact ⟨c, hc, .inr ⟨u, rfl, List.splitOn_append_cons_self_of_not_mem hc u⟩⟩
  · exact ⟨t, h, .inl ⟨rfl, List.splitOn_eq_singleton h⟩⟩

/-- A path is below a tree of one component just when that is its first one. -/
theorem below_iff {name : Text} (hn : '/' ∉ name) (t : Text) :
    Below ('/' :: name) ('/' :: t) ↔ (t.splitOn '/').head? = some name := by
  obtain ⟨c, hc, ⟨rfl, hs⟩ | ⟨u, rfl, hs⟩⟩ := splitOn_slash t
  · rw [hs, List.head?_cons, Option.some.injEq]
    constructor
    · rintro (heq | ⟨v, heq⟩)
      · exact (List.cons.inj heq).2
      · have hmem : '/' ∈ t := by
          rw [← (List.cons.inj heq).2]
          simp
        exact absurd hmem hc
    · rintro rfl
      exact .inl rfl
  · rw [hs, List.head?_cons, Option.some.injEq]
    constructor
    · rintro (heq | ⟨v, heq⟩)
      · have hmem : '/' ∈ name := by
          rw [← (List.cons.inj heq).2]
          simp
        exact absurd hmem hn
      · have hsplit : name ++ '/' :: v = c ++ '/' :: u := by
          simpa using (List.cons.inj heq).2
        have hfirst := congrArg (List.splitOn '/') hsplit
        rw [List.splitOn_append_cons_self_of_not_mem hn, hs] at hfirst
        exact (List.cons.inj hfirst).1.symm
    · rintro rfl
      exact .inr ⟨u, by simp⟩

theorem startsUnder_iff {r loc : Text} : startsUnder r loc = true ↔ Below r loc := by
  unfold startsUnder Below
  rw [Bool.and_eq_true, List.isPrefixOf_iff_prefix, Bool.or_eq_true, decide_eq_true_eq,
    decide_eq_true_eq]
  constructor
  · rintro ⟨⟨v, rfl⟩, hlen | hnext⟩
    · have hv : v = [] := by
        rw [List.length_append] at hlen
        exact List.length_eq_zero_iff.mp (by omega)
      rw [hv, List.append_nil]
      exact .inl rfl
    · rw [List.getElem?_append_right le_rfl, Nat.sub_self] at hnext
      obtain ⟨w, rfl⟩ := List.head?_eq_some_iff.mp (List.head?_eq_getElem?.trans hnext)
      exact .inr ⟨w, by simp⟩
  · rintro (rfl | ⟨v, rfl⟩)
    · exact ⟨List.prefix_rfl, .inl rfl⟩
    · refine ⟨⟨'/' :: v, by simp⟩, .inr ?_⟩
      rw [List.append_assoc, List.getElem?_append_right le_rfl, Nat.sub_self]
      rfl

theorem refused_mem {r : Text} (h : r ∈ refused) : ∃ name, r = '/' :: name ∧ '/' ∉ name := by
  have hall : ∀ r ∈ refused, r.head? = some '/' ∧ '/' ∉ r.tail := by decide
  obtain ⟨hhead, htail⟩ := hall r h
  obtain ⟨name, rfl⟩ := List.head?_eq_some_iff.mp hhead
  exact ⟨name, rfl, htail⟩

/-- What the checks say of a location that passes them. -/
theorem locationOk_eq_ok {loc : Text} (h : locationOk loc = .ok ()) :
    loc.head? = some '/' ∧ ∀ r ∈ refused, ¬Below r loc := by
  unfold locationOk at h
  split at h
  · cases h
  rename_i habs
  split at h
  · cases h
  split at h
  · cases h
  split at h
  · cases h
  split at h
  · cases h
  split at h
  · cases h
  rename_i hnone
  refine ⟨not_not.mp habs, fun r hr hbelow => ?_⟩
  exact absurd (startsUnder_iff.mpr hbelow) (List.find?_eq_none.mp hnone r hr)

/-- A file is created only for a location that passes the checks. -/
theorem locationOk_of_beginUpload {fs : Storage} {location tmp : Text} {length : ℕ}
    (h : beginUpload fs location length = .ok tmp) : locationOk location = .ok () := by
  unfold beginUpload at h
  cases hok : locationOk location with
  | error why =>
    rw [hok] at h
    cases h
  | ok u => rfl

theorem parts_cons (t : Text) : parts ('/' :: t) = parts t := by
  unfold parts
  rw [List.splitOn_cons_eq_if_modifyHead, if_pos (by decide), List.filter_cons_of_neg]
  exact fun h => of_decide_eq_true h (.inl rfl)

/-- The components of a path have no slash; by induction on the length of what follows the first
one. -/
theorem notMem_of_mem_splitOn {t c : Text} (h : c ∈ t.splitOn '/') : '/' ∉ c := by
  induction hn : t.length using Nat.strong_induction_on generalizing t with
  | _ n ih =>
    obtain ⟨d, hd, ⟨rfl, hs⟩ | ⟨u, rfl, hs⟩⟩ := splitOn_slash t
    · rw [hs, List.mem_singleton] at h
      exact h ▸ hd
    · rw [hs, List.mem_cons] at h
      rcases h with rfl | hmem
      · exact hd
      · rw [List.length_append, List.length_cons] at hn
        exact ih u.length (by omega) hmem rfl

theorem notMem_of_mem_parts {t c : Text} (h : c ∈ parts t) : '/' ∉ c :=
  notMem_of_mem_splitOn (List.mem_filter.mp h).1

theorem not_idle_of_mem_parts {t c : Text} (h : c ∈ parts t) : ¬Idle c :=
  of_decide_eq_true (List.mem_filter.mp h).2

/-- The path that is named has the components that are not passed over. -/
theorem splitOn_collapse {t : Text} (h : parts t ≠ []) :
    (['/'].intercalate (parts t)).splitOn '/' = parts t :=
  List.splitOn_intercalate '/' (fun _ => notMem_of_mem_parts) h

theorem staysOut_iff_head {t : Text} :
    StaysOut ('/' :: t) ↔ ∃ c, (parts t).head? = some c ∧ '/' :: c ∉ refused := by
  have hcollapse : collapse ('/' :: t) = '/' :: ['/'].intercalate (parts t) := by
    rw [collapse, parts_cons]
  constructor
  · intro h
    have hne : parts t ≠ [] := by
      intro hnil
      exact h.file (by rw [hcollapse, hnil]; rfl)
    obtain ⟨c, cs, hparts⟩ := List.exists_cons_of_ne_nil hne
    refine ⟨c, by rw [hparts]; rfl, fun hmem => ?_⟩
    have hc : '/' ∉ c := notMem_of_mem_parts (hparts ▸ List.mem_cons_self)
    refine h.outside _ hmem ?_
    rw [hcollapse, below_iff hc, splitOn_collapse hne, hparts]
    rfl
  · rintro ⟨c, hhead, hout⟩
    have hne : parts t ≠ [] := by
      intro hnil
      rw [hnil] at hhead
      cases hhead
    refine ⟨rfl, fun heq => ?_, fun r hr hbelow => ?_⟩
    · have hsplit := splitOn_collapse hne
      rw [hcollapse] at heq
      rw [(List.cons.inj heq).2] at hsplit
      have hmem : [] ∈ parts t := hsplit ▸ List.mem_singleton.mpr rfl
      exact not_idle_of_mem_parts hmem (.inl rfl)
    · obtain ⟨name, rfl, hname⟩ := refused_mem hr
      rw [hcollapse, below_iff hname, splitOn_collapse hne, hhead] at hbelow
      exact hout (Option.some.inj hbelow ▸ hr)

/-- An accepted location stays out of the refused trees just when it is not disguised. -/
theorem staysOut_iff {loc : Text} (h : locationOk loc = .ok ()) :
    StaysOut loc ↔ ¬Disguised loc := by
  obtain ⟨habs, hout⟩ := locationOk_eq_ok h
  obtain ⟨t, rfl⟩ := List.head?_eq_some_iff.mp habs
  rw [staysOut_iff_head]
  have htail : (('/' :: t).splitOn '/').tail = t.splitOn '/' := by
    rw [List.splitOn_cons_eq_if_modifyHead, if_pos (by decide)]
    rfl
  unfold Disguised parts
  rw [htail, List.head?_filter]
  obtain ⟨c, cs, hsplit⟩ := List.exists_cons_of_ne_nil (List.splitOn_ne_nil '/' t)
  rw [hsplit]
  by_cases hc : Idle c
  · -- the first component is passed over, and the tree is the first one that is not
    rw [List.find?_cons_of_neg (by simpa using hc)]
    constructor
    · rintro ⟨d, hfind, hd⟩ ⟨e, es, heq, -, hall⟩
      obtain ⟨rfl, rfl⟩ := List.cons.inj heq
      exact hd (hall d hfind)
    · intro hnot
      by_contra hnone
      refine hnot ⟨c, cs, rfl, hc, fun name hname => ?_⟩
      by_contra hmem
      exact hnone ⟨name, hname, hmem⟩
  · -- the first component is the tree, and the raw text begins with it
    rw [List.find?_cons_of_pos (by simpa using hc)]
    have hslash : '/' ∉ c :=
      notMem_of_mem_splitOn (hsplit ▸ List.mem_cons_self)
    constructor
    · rintro - ⟨e, es, heq, he, -⟩
      obtain ⟨rfl, rfl⟩ := List.cons.inj heq
      exact hc he
    · intro _
      refine ⟨c, rfl, fun hmem => hout _ hmem ?_⟩
      rw [below_iff hslash, hsplit]
      rfl

/-- A dot behind the first component hides nothing. -/
theorem staysOut_iff_tmp : StaysOut "/tmp/./x".toList ↔ ¬Disguised "/tmp/./x".toList :=
  staysOut_iff rfl

/-- The handler of core dumps is reached through a doubled slash. -/
theorem not_staysOut : ¬∀ loc, locationOk loc = .ok () → StaysOut loc := by
  intro h
  have hout := (h "//proc/sys/kernel/core_pattern".toList rfl).outside "/proc".toList (by decide)
  exact hout (.inr (by decide))

end Machino.Http
