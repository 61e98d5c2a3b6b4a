import Machino.Core.Text

namespace Machino.Onvif

def maxRequest : ℕ := 64 * 1024

def ifind (h n : Text) : Option ℕ :=
  if n = [] then none else Text.find (n.map Char.toLower) (h.map Char.toLower)

def nameChar (c : Char) : Bool := c.isAlphanum || c = '_' || c = '-' || c = '.'

/-- Without the namespace in front. -/
def localOf (qname : Text) : Text := (qname.reverse.takeWhile (· ≠ ':')).reverse

/-- The name that a tag is taken to have, from behind its `<`. -/
def qnameAt (s : Text) : Text := s.takeWhile fun c => nameChar c || c = ':'

/-- What a loop over the `<` does at one of them: it ends, or goes on behind some characters. -/
inductive Visit (α : Type) where
  | stop (r : Option α)
  | skip (n : ℕ)

/-- How much of a comment is behind its `<`; none where it does not end. -/
def skipComment (s : Text) : Option ℕ := (Text.find ['-', '-', '>'] (s.drop 3)).map (· + 6)

/-- A loop over the `<` of the text behind the first few characters, which passes over comments. -/
def scan {α : Type} (visit : Text → Visit α) : ℕ → Text → Option α
  | _, [] => none
  | k + 1, _ :: s => scan visit k s
  | 0, c :: s =>
    if c ≠ '<' then scan visit 0 s
    else if s = [] then none
    else if ['!', '-', '-'].isPrefixOf s then
      match skipComment s with
      | none => none
      | some k => scan visit k s
    else
      match visit s with
      | .stop r => r
      | .skip k => scan visit k s

/-- The text behind a tag, and whether that is taken to close its element. -/
structure OpenTag where
  rest : Text
  selfClosing : Bool

def visitTag (loc : Text) (s : Text) : Visit OpenTag :=
  if s.head? = some '/' ∨ s.head? = some '?' ∨ s.head? = some '!' then .skip 0
  else
    -- There is no `>` in a name.
    let tag := s.takeWhile (· ≠ '>')
    match s.drop tag.length with
    | [] => .stop none
    | _ :: rest =>
      if localOf (qnameAt s) = loc then
        .stop (some { rest, selfClosing := tag.getLast? = some '/' })
      else .skip (tag.length + 1)

def findOpenTag (loc xml : Text) : Option OpenTag := scan (visitTag loc) 0 xml

def soapAcceptable (xml : Text) : Bool :=
  xml ≠ [] && xml.length ≤ maxRequest && ifind xml "<!DOCTYPE".toList = none &&
    ifind xml "<!ENTITY".toList = none

/-- The first start of an element in the Body. -/
def visitChild (s : Text) : Visit Text :=
  if s.head? = some '?' ∨ s.head? = some '!' then .skip 0
  else if s.head? = some '/' then .stop none
  else
    let action := localOf (qnameAt s)
    .stop (if action = [] then none else some action)

def soapAction (xml : Text) : Option Text :=
  if !soapAcceptable xml then none
  else match findOpenTag "Body".toList xml with
    | none => none
    | some body => if body.selfClosing then none else scan visitChild 0 body.rest

section
variable {α : Type} {visit : Text → Visit α}

theorem scan_drop (k : ℕ) (s : Text) : scan visit k s = scan visit 0 (s.drop k) := by
  induction s generalizing k with
  | nil => cases k <;> rfl
  | cons c s ih =>
    cases k with
    | zero => rfl
    | succ k => exact ih k

/-- The loop runs through text without a `<`. -/
theorem scan_append {s : Text} (hs : '<' ∉ s) (t : Text) :
    scan visit 0 (s ++ t) = scan visit 0 t := by
  induction s with
  | nil => rfl
  | cons c s ih =>
    rw [List.mem_cons, not_or] at hs
    rw [List.cons_append, scan, if_pos (Ne.symm hs.1)]
    exact ih hs.2

theorem scan_append_of_le {s : Text} (hs : '<' ∉ s) (t : Text) {k : ℕ} (hk : k ≤ s.length) :
    scan visit k (s ++ t) = scan visit 0 t := by
  rw [scan_drop, List.drop_append_of_le_length hk]
  exact scan_append (fun h => hs (List.mem_of_mem_drop h)) t

theorem scan_skip {s : Text} (hne : s ≠ []) (hs : ['!', '-', '-'].isPrefixOf s = false) {k : ℕ}
    (hk : visit s = .skip k) : scan visit 0 ('<' :: s) = scan visit k s := by
  rw [scan, if_neg (by simp), if_neg hne, if_neg (by simp [hs]), hk]

theorem scan_stop {s : Text} (hne : s ≠ []) (hs : ['!', '-', '-'].isPrefixOf s = false)
    {r : Option α} (hr : visit s = .stop r) : scan visit 0 ('<' :: s) = r := by
  rw [scan, if_neg (by simp), if_neg hne, if_neg (by simp [hs]), hr]

/-- The end of a comment is found where its text ends. -/
theorem find_comment {s : Text} (hs : ¬ ['-', '-'] <:+: s ++ ['-']) (t : Text) :
    Text.find ['-', '-', '>'] (s ++ '-' :: '-' :: '>' :: t) = some s.length := by
  -- Earlier it would have two hyphens of the comment itself.
  rw [Text.find_eq_some_iff, List.drop_left]
  refine ⟨⟨t, rfl⟩, fun j hj hpre => hs ?_⟩
  have hcut : (s ++ '-' :: '-' :: '>' :: t).drop j = (s ++ ['-']).drop j ++ '-' :: '>' :: t := by
    rw [← List.drop_append_of_le_length (by simp; omega), List.append_assoc]
    rfl
  rw [hcut] at hpre
  have htwo : ['-', '-'] <+: (s ++ ['-']).drop j ++ '-' :: '>' :: t :=
    List.IsPrefix.trans ⟨['>'], rfl⟩ hpre
  have hshort : ['-', '-'] <+: (s ++ ['-']).drop j :=
    List.prefix_of_prefix_length_le htwo (List.prefix_append _ _) (by simp; omega)
  exact hshort.isInfix.trans (List.drop_suffix _ _).isInfix

theorem scan_comment {s : Text} (hs : ¬ ['-', '-'] <:+: s ++ ['-']) (t : Text) :
    scan visit 0 ('<' :: '!' :: '-' :: '-' :: (s ++ '-' :: '-' :: '>' :: t)) = scan visit 0 t := by
  have hfind := find_comment hs t
  rw [scan, if_neg (by simp), if_neg (by simp), if_pos (by simp), skipComment]
  simp only [List.drop_succ_cons, List.drop_zero, hfind, Option.map_some]
  have hlen : s.length + 6 = ('!' :: '-' :: '-' :: s).length + 3 := by simp
  rw [hlen, scan_drop]
  change scan visit 0 (('!' :: '-' :: '-' :: s ++ '-' :: '-' :: '>' :: t).drop _) = _
  rw [List.drop_append, List.drop_eq_nil_of_le (by simp)]
  simp

/-- What is behind it does not change how a text reads: it holds the end of a tag or a section, and
no name goes on in it. -/
structure IsEnd (e : Text) : Prop where
  noOpen : '<' ∉ e
  shut : '>' ∈ e
  head : ∀ c ∈ e.head?, nameChar c = false ∧ c ≠ ':' ∧ c ≠ '!'

theorem qnameAt_append {e : Text} (he : IsEnd e) (s t : Text) :
    qnameAt (s ++ e ++ t) = qnameAt s := by
  obtain ⟨c, e', rfl⟩ := List.exists_cons_of_ne_nil (List.ne_nil_of_mem he.shut)
  obtain ⟨hc, hcolon, -⟩ := he.head c rfl
  rw [qnameAt, qnameAt, List.append_assoc, List.takeWhile_append]
  split
  · rename_i hall
    rw [List.cons_append, List.takeWhile_cons_of_neg (by simp [hc, hcolon]), List.append_nil]
    exact ((List.takeWhile_prefix _).eq_of_length hall).symm
  · rfl

theorem isPrefixOf_append {e : Text} (he : IsEnd e) (s t : Text) :
    ['!', '-', '-'].isPrefixOf (s ++ e ++ t) = ['!', '-', '-'].isPrefixOf s := by
  obtain ⟨c, e', rfl⟩ := List.exists_cons_of_ne_nil (List.ne_nil_of_mem he.shut)
  obtain ⟨hc, -, hmark⟩ := he.head c rfl
  have hdash : c ≠ '-' := by
    rintro rfl
    exact absurd hc (by decide)
  -- Fewer than three characters cannot be completed to the mark by the end.
  match s with
  | [] => simp [List.isPrefixOf, Ne.symm hmark]
  | [a] => simp [List.isPrefixOf, Ne.symm hdash]
  | [a, b] => simp [List.isPrefixOf, Ne.symm hdash]
  | a :: b :: d :: s => simp [List.isPrefixOf]

/-- Every `<` of a section is followed by such a text. -/
def atOpens (p : Text → Bool) : Text → Bool
  | [] => true
  | c :: s => (c ≠ '<' || p s) && atOpens p s

/-- The loop runs through a section where it goes on at every `<` of it. -/
theorem scan_section {p : Text → Bool} {e : Text} (he : IsEnd e) (t : Text)
    (hp : ∀ s, p s = true → ['!', '-', '-'].isPrefixOf s = false ∧
      ∃ k ≤ (s ++ e).length, visit (s ++ e ++ t) = .skip k)
    {s : Text} (hs : atOpens p s = true) {k : ℕ} (hk : k ≤ (s ++ e).length) :
    scan visit k (s ++ e ++ t) = scan visit 0 t := by
  induction s generalizing k with
  | nil => exact scan_append_of_le he.noOpen t hk
  | cons c s ih =>
    simp only [atOpens, Bool.and_eq_true, Bool.or_eq_true, decide_eq_true_eq] at hs
    obtain ⟨hc, hs⟩ := hs
    cases k with
    | succ k => exact ih hs (by simpa using hk)
    | zero =>
      change scan visit 0 (c :: (s ++ e ++ t)) = _
      by_cases hopen : c = '<'
      -- Where the loop jumps, it lands in the section or right behind it.
      · obtain ⟨hmark, j, hj, hvisit⟩ := hp s (hc.resolve_left (by simpa using hopen))
        have hne : s ++ e ++ t ≠ [] := by simp [List.ne_nil_of_mem he.shut]
        rw [hopen, scan_skip hne (by rwa [isPrefixOf_append he]) hvisit]
        exact ih hs hj
      · rw [scan, if_pos hopen]
        exact ih hs (Nat.zero_le _)

end

/-- Read as the end of a tag, the text ends with a slash. -/
def slashed (s : Text) : Bool := (s.takeWhile (· ≠ '>')).getLast? = some '/'

theorem slashed_cons (s : Text) : slashed ('<' :: s) = slashed s := by
  rw [slashed, List.takeWhile_cons_of_pos (by simp), List.getLast?_cons, slashed]
  cases (s.takeWhile (· ≠ '>')).getLast? <;> simp

/-- The first `>` ends a tag, wherever that is. -/
theorem visitTag_append (loc : Text) {s : Text} (hs : '>' ∈ s) :
    ∃ w r, s = w ++ '>' :: r ∧ ∀ t, visitTag loc (s ++ t) =
      if s.head? = some '/' ∨ s.head? = some '?' ∨ s.head? = some '!' then .skip 0
      else if localOf (qnameAt (s ++ t)) = loc then
        .stop (some { rest := r ++ t, selfClosing := slashed s })
      else .skip (w.length + 1) := by
  obtain ⟨w, r, rfl, hw⟩ := List.eq_append_cons_of_mem hs
  refine ⟨w, r, rfl, fun t => ?_⟩
  have htag (u : Text) : (w ++ '>' :: u).takeWhile (· ≠ '>') = w := by
    rw [List.takeWhile_append_of_pos]
    · simp
    · intro c hc
      have hne : c ≠ '>' := by
        rintro rfl
        exact hw hc
      simpa using hne
  have hhead : (w ++ '>' :: r ++ t).head? = (w ++ '>' :: r).head? := by cases w <;> rfl
  have hdrop : (w ++ '>' :: (r ++ t)).drop w.length = '>' :: (r ++ t) := by simp
  rw [visitTag, hhead, slashed, htag, List.append_assoc, List.cons_append]
  simp only [htag, hdrop]

end Machino.Onvif
