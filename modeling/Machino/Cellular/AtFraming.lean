import Machino.Cellular.AtParse

namespace Machino.Cellular

/-- The lines that end an answer by themselves. -/
def finalWords : List (Text × AtResult) :=
  [("OK".toList, .ok), ("ERROR".toList, .error), ("NO CARRIER".toList, .error),
    ("NO ANSWER".toList, .error), ("NO DIALTONE".toList, .error), ("BUSY".toList, .error)]

def cmeError : Text := "+CME ERROR:".toList

def cmsError : Text := "+CMS ERROR:".toList

/-- What a line ends the answer with, if it does. -/
def finalResult (l : Text) : Option AtResult :=
  if l = [] then none
  else
    match finalWords.lookup l with
    | some r => some r
    | none => if cmeError.isPrefixOf l || cmsError.isPrefixOf l then some .error else none

def atScan (buf : Text) : AtResult := ((linesOf buf).findSome? finalResult).getD .pending

/-- The answer without the echo of the command and without the result line. -/
def atPayload (buf command : Text) : Text :=
  let cmd := trim command
  let kept := (linesOf buf).filter fun l =>
    l ≠ [] && !(cmd ≠ [] && l = cmd) && !(l = "OK".toList || l = "ERROR".toList) &&
      !(cmeError.isPrefixOf l || cmsError.isPrefixOf l)
  ['\n'].intercalate kept

/-- The reading loop over what the port hands out, until there is a result or nothing more comes. -/
def readAnswer (raw : Text) : List Text → AtExchange
  | [] => { result := .pending, raw := raw, timedOut := true }
  | chunk :: chunks =>
    if atScan (raw ++ chunk) = .pending then readAnswer (raw ++ chunk) chunks
    else { result := atScan (raw ++ chunk), raw := raw ++ chunk }

def exchange (cmd : Text) (chunks : List Text) : AtExchange :=
  let out := readAnswer [] chunks
  { out with payload := atPayload out.raw cmd }

def rawLines (buf : Text) : List Text := buf.splitOn '\n'

/-- The lines that have ended, and the one that may go on. -/
def closedLines (buf : Text) : List Text := (rawLines buf).dropLast.map trim

def openLine (buf : Text) : Text := (rawLines buf).getLastD []

theorem rawLines_ne_nil (buf : Text) : rawLines buf ≠ [] := List.splitOn_ne_nil _ _

theorem rawLines_cons (c : Char) (buf : Text) : rawLines (c :: buf) =
    if c = '\n' then [] :: rawLines buf else (rawLines buf).modifyHead (c :: ·) := by
  unfold rawLines
  rw [List.splitOn_cons_eq_if_modifyHead]
  simp only [beq_iff_eq]

/-- What comes goes on with the open line. -/
theorem rawLines_append (p s : Text) : rawLines (p ++ s) =
    (rawLines p).dropLast ++ (rawLines s).modifyHead (openLine p ++ ·) := by
  induction p with
  | nil =>
    show rawLines s = [] ++ (rawLines s).modifyHead fun l => l
    exact (congrFun List.modifyHead_id _).symm
  | cons c p ih =>
    have hne := rawLines_ne_nil p
    obtain ⟨l, ls, hp⟩ := List.exists_cons_of_ne_nil hne
    unfold openLine at ih ⊢
    rw [List.cons_append, rawLines_cons, ih, rawLines_cons, hp]
    split_ifs with hc
    · rfl
    · cases ls with
      | nil =>
        show List.modifyHead (c :: ·) ((rawLines s).modifyHead (l ++ ·)) =
          (rawLines s).modifyHead ((c :: l) ++ ·)
        rw [List.modifyHead_modifyHead]
        rfl
      | cons l' ls => rfl

theorem linesOf_eq (buf : Text) : linesOf buf = closedLines buf ++ [trim (openLine buf)] := by
  have hne := rawLines_ne_nil buf
  have hlast : openLine buf = (rawLines buf).getLast hne := by
    rw [openLine, List.getLastD_eq_getLast?, List.getLast?_eq_some_getLast hne, Option.getD_some]
  show (rawLines buf).map trim = (rawLines buf).dropLast.map trim ++ [openLine buf].map trim
  rw [← List.map_append, hlast, List.dropLast_concat_getLast hne]

theorem linesOf_append (p s : Text) : linesOf (p ++ s) =
    closedLines p ++ ((rawLines s).modifyHead (openLine p ++ ·)).map trim := by
  show (rawLines (p ++ s)).map trim = _
  rw [rawLines_append, List.map_append]
  rfl

theorem dropWhile_isBlank_append {t : Text} (ht : t.dropWhile isBlank ≠ []) (u : Text) :
    (t ++ u).dropWhile isBlank = t.dropWhile isBlank ++ u := by
  rw [List.dropWhile_append, if_neg (by rwa [List.isEmpty_iff])]

/-- What ends in a sign that is no blank is not cut by the trimming behind it. -/
theorem prefix_trim {pre w : Text} {c : Char} (hc : isBlank c = false) (h : pre ++ [c] <+: w) :
    pre ++ [c] <+: (w.reverse.dropWhile isBlank).reverse := by
  obtain ⟨v, rfl⟩ := h
  rw [List.reverse_append, List.dropWhile_append]
  split_ifs with hv
  · have hkept : (pre ++ [c]).reverse.dropWhile isBlank = (pre ++ [c]).reverse := by
      rw [List.reverse_append]
      exact List.dropWhile_cons_of_neg (by simp [hc])
    exact ⟨[], by rw [hkept, List.reverse_reverse, List.append_nil]⟩
  · rw [List.reverse_append, List.reverse_reverse]
    exact List.prefix_append _ _

theorem trim_ne_nil {t : Text} (h : trim t ≠ []) : t.dropWhile isBlank ≠ [] := by
  intro hnil
  unfold trim at h
  rw [hnil] at h
  exact h rfl

theorem trim_starts (t : Text) : trim t <+: t.dropWhile isBlank := by
  unfold trim
  rw [← List.reverse_suffix, List.reverse_reverse]
  exact List.dropWhile_suffix _

/-- What a line starts with it keeps when it goes on, if that ends in no blank. -/
theorem prefix_trim_append (pre : Text) {t : Text} {c : Char} (hc : isBlank c = false)
    (h : pre ++ [c] <+: trim t) (u : Text) : pre ++ [c] <+: trim (t ++ u) := by
  have hne : trim t ≠ [] := by
    intro hnil
    rw [hnil] at h
    exact absurd (List.prefix_nil.mp h) (by simp)
  have hstart := (h.trans (trim_starts t)).trans (List.prefix_append _ u)
  rw [← dropWhile_isBlank_append (trim_ne_nil hne)] at hstart
  exact prefix_trim hc hstart

/-- The prefix has a result in a line that has ended, or its open line is none of the words. -/
def Settled (p : Text) : Prop :=
  (closedLines p).findSome? finalResult ≠ none ∨ finalWords.lookup (trim (openLine p)) = none

instance (p : Text) : Decidable (Settled p) := instDecidableOr

theorem atScan_eq (p : Text) : atScan p =
    (((closedLines p).findSome? finalResult).or (finalResult (trim (openLine p)))).getD .pending := by
  rw [atScan, linesOf_eq, List.findSome?_append, List.findSome?_singleton]

theorem atScan_append (p s : Text) : atScan (p ++ s) =
    (((closedLines p).findSome? finalResult).or
      ((((rawLines s).modifyHead (openLine p ++ ·)).map trim).findSome? finalResult)).getD
        .pending := by
  rw [atScan, linesOf_append, List.findSome?_append]

theorem lookup_eq_none_of_start {l : Text} (h : cmeError <+: l ∨ cmsError <+: l) :
    finalWords.lookup l = none := by
  have hwords : ∀ w ∈ finalWords, ¬ cmeError <+: w.1 ∧ ¬ cmsError <+: w.1 := by decide
  rw [List.lookup_eq_none_iff]
  intro w hw
  rw [bne_iff_ne]
  rintro rfl
  exact h.elim (hwords w hw).1 (hwords w hw).2

theorem finalResult_of_start {l : Text} (h : cmeError <+: l ∨ cmsError <+: l) :
    finalResult l = some .error := by
  have hne : l ≠ [] := by
    rintro rfl
    rcases h with h | h
    · exact absurd h (by decide)
    · exact absurd h (by decide)
  unfold finalResult
  rw [if_neg hne, lookup_eq_none_of_start h]
  dsimp only
  rw [if_pos]
  rw [Bool.or_eq_true, List.isPrefixOf_iff_prefix, List.isPrefixOf_iff_prefix]
  exact h

/-- A line that ends the answer and is none of the words does it by what it starts with. -/
theorem prefix_of_lookup {l : Text} (h : finalResult l ≠ none)
    (hword : finalWords.lookup l = none) : cmeError <+: l ∨ cmsError <+: l := by
  by_contra hpre
  have hstart : ¬ (cmeError.isPrefixOf l || cmsError.isPrefixOf l) = true := by
    rwa [Bool.or_eq_true, List.isPrefixOf_iff_prefix, List.isPrefixOf_iff_prefix]
  refine h ?_
  unfold finalResult
  rw [hword]
  dsimp only
  rw [if_neg hstart, ite_self]

theorem mem_of_lookup {l : Text} {r : AtResult} (h : finalWords.lookup l = some r) :
    (l, r) ∈ finalWords := by
  obtain ⟨front, back, hwords, -⟩ := List.lookup_eq_some_iff.mp h
  rw [hwords]
  exact List.mem_append_right _ List.mem_cons_self

/-- With a result settled, nothing that follows changes it. -/
theorem Settled.atScan_append {p : Text} (h : Settled p) (hdone : atScan p ≠ .pending) (s : Text) :
    atScan (p ++ s) = atScan p := by
  rw [atScan_eq p] at hdone ⊢
  rw [Cellular.atScan_append]
  cases hclosed : (closedLines p).findSome? finalResult with
  | some r => rfl
  | none =>
    rw [hclosed, Option.none_or] at hdone
    have hword := h.resolve_left (not_not.mpr hclosed)
    have hfinal : finalResult (trim (openLine p)) ≠ none := by
      intro hnone
      rw [hnone] at hdone
      exact hdone rfl
    have hpre := prefix_of_lookup hfinal hword
    obtain ⟨l, ls, hs⟩ := List.exists_cons_of_ne_nil (rawLines_ne_nil s)
    have hon : cmeError <+: trim (openLine p ++ l) ∨ cmsError <+: trim (openLine p ++ l) :=
      hpre.imp (prefix_trim_append "+CME ERROR".toList (c := ':') rfl · l)
        (prefix_trim_append "+CMS ERROR".toList (c := ':') rfl · l)
    rw [hs, List.modifyHead_cons, List.map_cons, List.findSome?_cons, finalResult_of_start hon,
      finalResult_of_start hpre]

/-- A word that goes on with a letter is a word no more. -/
theorem finalResult_word_append {t : Text} {r : AtResult}
    (h : finalWords.lookup (trim t) = some r) : finalResult (trim (t ++ ['X'])) = none := by
  have hwords : ∀ w ∈ finalWords, w.1 ≠ [] ∧ w.1.getLast? ≠ some 'X' ∧ w.1.head? ≠ some '+' := by
    decide
  have hword := hwords _ (mem_of_lookup h)
  have hne := trim_ne_nil hword.1
  -- nothing is trimmed behind the letter
  have htrim : trim (t ++ ['X']) = t.dropWhile isBlank ++ ['X'] := by
    unfold trim
    rw [dropWhile_isBlank_append hne, List.reverse_append, List.reverse_singleton,
      List.singleton_append, List.dropWhile_cons_of_neg (by decide), List.reverse_cons,
      List.reverse_reverse]
  have hhead : (t.dropWhile isBlank ++ ['X']).head? ≠ some '+' := by
    obtain ⟨v, hv⟩ := trim_starts t
    rw [← hv, List.append_assoc, List.head?_append_of_ne_nil _ hword.1]
    exact hword.2.2
  by_contra hfinal
  rw [htrim] at hfinal
  cases hlook : finalWords.lookup (t.dropWhile isBlank ++ ['X']) with
  | some r' => exact (hwords _ (mem_of_lookup hlook)).2.1 (List.getLast?_concat)
  | none =>
    rcases prefix_of_lookup hfinal hlook with ⟨v, hv⟩ | ⟨v, hv⟩
    · exact hhead (by rw [← hv]; rfl)
    · exact hhead (by rw [← hv]; rfl)

/-- The result of a prefix stays whatever follows just when it is settled. -/
theorem atScan_stable_iff (p : Text) :
    (atScan p ≠ .pending → ∀ s, atScan (p ++ s) = atScan p) ↔ Settled p := by
  refine ⟨fun h => ?_, fun h hdone s => h.atScan_append hdone s⟩
  by_contra hopen
  obtain ⟨hclosed, hword⟩ := not_or.mp hopen
  rw [not_not] at hclosed
  obtain ⟨r, hr⟩ := Option.ne_none_iff_exists'.mp hword
  have hpending : ∀ w ∈ finalWords, w.1 ≠ [] ∧ w.2 ≠ .pending := by decide
  obtain ⟨hne, hresult⟩ := hpending _ (mem_of_lookup hr)
  have hscan : atScan p = r := by
    rw [atScan_eq, hclosed, Option.none_or, finalResult, if_neg hne, hr]
    rfl
  have hon : atScan (p ++ ['X']) = .pending := by
    have hline : (rawLines ['X']).modifyHead (openLine p ++ ·) = [openLine p ++ ['X']] := rfl
    rw [atScan_append, hclosed, Option.none_or, hline, List.map_singleton,
      List.findSome?_singleton, finalResult_word_append hr]
    rfl
  have hsame := h (by rw [hscan]; exact hresult) ['X']
  rw [hon, hscan] at hsame
  exact hresult hsame.symm

/-- A line that only begins with one of the words, handed out in two chunks. -/
theorem not_stable_carriers :
    ¬ (atScan "NO CARRIER".toList ≠ .pending → ∀ s,
      atScan ("NO CARRIER".toList ++ s) = atScan "NO CARRIER".toList) := by
  intro h
  exact absurd (h (by decide) "S HERE\r\n".toList) (by decide)

/-- Where every prefix that is read is settled, the chunks make no difference. -/
theorem readAnswer_result {raw : Text} {chunks : List Text} (hraw : atScan raw = .pending)
    (h : ∀ cs, cs <+: chunks → Settled (raw ++ cs.flatten)) :
    (readAnswer raw chunks).result = atScan (raw ++ chunks.flatten) := by
  induction chunks generalizing raw with
  | nil =>
    rw [List.flatten_nil, List.append_nil, hraw]
    rfl
  | cons chunk chunks ih =>
    unfold readAnswer
    rw [List.flatten_cons, ← List.append_assoc]
    split_ifs with hpending
    · refine ih hpending fun cs hcs => ?_
      have hlonger := h (chunk :: cs) (List.cons_prefix_cons.mpr ⟨rfl, hcs⟩)
      rwa [List.flatten_cons, ← List.append_assoc] at hlonger
    · have hchunk := h [chunk] (List.cons_prefix_cons.mpr ⟨rfl, List.nil_prefix⟩)
      rw [List.flatten_singleton] at hchunk
      exact (hchunk.atScan_append hpending _).symm

end Machino.Cellular
