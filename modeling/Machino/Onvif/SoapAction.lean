import Machino.Core.Text
import Machino.Onvif.Soap

namespace Machino.Xml

def isBlank (c : Char) : Bool := c = ' ' || c = '\t' || c = '\n' || c = '\r'

/-- A byte of a name; those beyond ASCII are parts of letters. -/
def isNameByte (c : Char) : Bool :=
  c.isAlphanum || c = '_' || c = '-' || c = '.' || 128 ≤ c.toNat

structure Blank where
  text : Text := []
  blank : ∀ c ∈ text, isBlank c = true := by decide

structure Name where
  text : Text
  ne : text ≠ [] := by decide
  bytes : ∀ c ∈ text, isNameByte c = true := by decide

/-- A name, maybe with that of a namespace in front. -/
structure QName where
  space : Option Name := none
  loc : Name

def QName.text (q : QName) : Text :=
  match q.space with
  | none => q.loc.text
  | some p => p.text ++ ':' :: q.loc.text

structure Attr where
  before : Blank
  spaced : before.text ≠ [] := by decide
  name : QName
  around : Blank × Blank := ({}, {})
  double : Bool := true
  value : Text
  legal : '<' ∉ value ∧ (if double then '"' else '\'') ∉ value := by decide

def Attr.text (a : Attr) : Text :=
  let quote := if a.double then '"' else '\''
  a.before.text ++ a.name.text ++ a.around.1.text ++ '=' :: a.around.2.text ++
    quote :: a.value ++ [quote]

structure Tag where
  name : QName
  attrs : List Attr := []
  space : Blank := {}

/-- What is behind the name. -/
def Tag.tail (t : Tag) : Text := t.attrs.flatMap Attr.text ++ t.space.text

def Tag.start (t : Tag) : Text := '<' :: (t.name.text ++ t.tail ++ ['>'])

/-- The tag of an element that it also closes. -/
def Tag.leaf (t : Tag) : Text := '<' :: (t.name.text ++ t.tail ++ ['/', '>'])

def Tag.close (t : Tag) (space : Blank) : Text := '<' :: '/' :: (t.name.text ++ space.text ++ ['>'])

/-- Text with its references unresolved. -/
structure CharData where
  text : Text
  legal : '<' ∉ text := by decide

structure Comment where
  text : Text
  legal : ¬ ['-', '-'] <:+: text ++ ['-'] := by decide

structure CData where
  text : Text
  legal : ¬ [']', ']', '>'] <:+: text := by decide

structure Instruction where
  text : Text
  legal : ¬ ['?', '>'] <:+: text := by decide

inductive Node where
  | element (t : Tag) (children : List Node) (space : Blank)
  | leaf (t : Tag)
  | text (s : CharData)
  | comment (s : Comment)
  | cdata (s : CData)
  | pi (s : Instruction)

def Node.tag : Node → Option Tag
  | .element t _ _ | .leaf t => some t
  | .text _ | .comment _ | .cdata _ | .pi _ => none

mutual

def Node.xml : Node → Text
  | .element t children space => t.start ++ xmls children ++ t.close space
  | .leaf t => t.leaf
  | .text s => s.text
  | .comment s => '<' :: '!' :: '-' :: '-' :: (s.text ++ ['-', '-', '>'])
  | .cdata s => '<' :: ("![CDATA[".toList ++ (s.text ++ [']', ']', '>']))
  | .pi s => '<' :: '?' :: (s.text ++ ['?', '>'])

def xmls : List Node → Text
  | [] => []
  | n :: ns => n.xml ++ xmls ns

end

/-- The local name of the first element among the nodes. -/
def firstElement (ns : List Node) : Option Text :=
  ns.findSome? fun n => n.tag.map (·.name.loc.text)

/-- No element of the nodes themselves has this name. -/
def NoneNamed (loc : Text) (ns : List Node) : Prop :=
  ∀ n ∈ ns, n.tag.map (·.name.loc.text) ≠ some loc

instance (loc : Text) (ns : List Node) : Decidable (NoneNamed loc ns) :=
  inferInstanceAs (Decidable (∀ n ∈ ns, _))

theorem lt_notMem_blank (b : Blank) : '<' ∉ b.text :=
  fun h => absurd (b.blank _ h) (by decide)

theorem lt_notMem_qname (q : QName) : '<' ∉ q.text := by
  have hname (n : Name) : '<' ∉ n.text := fun h => absurd (n.bytes _ h) (by decide)
  rw [QName.text]
  split
  · exact hname q.loc
  · simp [hname]

theorem lt_notMem_attr (a : Attr) : '<' ∉ a.text := by
  have hquote : '<' ≠ if a.double then '"' else '\'' := by split <;> decide
  simp [Attr.text, lt_notMem_blank, lt_notMem_qname, a.legal.1, hquote]

theorem lt_notMem_tail (t : Tag) : '<' ∉ t.tail := by
  simp [Tag.tail, lt_notMem_attr, lt_notMem_blank]

/-- A name starts with a byte of it. -/
theorem exists_qname_eq (q : QName) : ∃ c s, q.text = c :: s ∧ isNameByte c = true := by
  have hname (n : Name) : ∃ c s, n.text = c :: s ∧ isNameByte c = true := by
    obtain ⟨c, s, hn⟩ := List.exists_cons_of_ne_nil n.ne
    exact ⟨c, s, hn, n.bytes c (by simp [hn])⟩
  rw [QName.text]
  split
  · exact hname q.loc
  case _ p _ =>
    obtain ⟨c, s, hp, hc⟩ := hname p
    exact ⟨c, s ++ ':' :: q.loc.text, by rw [hp, List.cons_append], hc⟩

/-- What is behind a name starts with a blank, if with anything. -/
theorem head?_tail (t : Tag) : ∀ c ∈ t.tail.head?, isBlank c = true := by
  intro c hc
  rw [Tag.tail] at hc
  cases hattrs : t.attrs with
  | nil =>
    rw [hattrs] at hc
    exact t.space.blank c (List.mem_of_mem_head? hc)
  | cons a as =>
    obtain ⟨b, s, hb⟩ := List.exists_cons_of_ne_nil a.spaced
    have hbc : b = c := by simpa [hattrs, Attr.text, hb] using hc
    exact hbc ▸ a.before.blank b (by simp [hb])

end Machino.Xml

namespace Machino.Onvif

open Xml

/-- A request as its sender builds it; a Body without content is a tag that closes itself. -/
structure Document where
  prolog : List Node := []
  envelope : Tag
  before : List Node := []
  body : Tag
  content : Option (List Node × Blank)
  after : List Node := []
  closing : Blank := {}
  epilog : List Node := []
  flat : ∀ n ∈ prolog ++ epilog, n.tag.isNone := by decide
  enveloped : envelope.name.loc.text = "Envelope".toList := by decide
  named : body.name.loc.text = "Body".toList := by decide
  alone : NoneNamed "Body".toList (before ++ after) := by decide

namespace Document

/-- The tag that the Body starts with. -/
def opening (d : Document) : Text :=
  match d.content with
  | none => d.body.leaf
  | some _ => d.body.start

/-- The text behind that tag. -/
def rest (d : Document) : Text :=
  (match d.content with
    | none => []
    | some (ns, space) => xmls ns ++ d.body.close space) ++
  xmls d.after ++ d.envelope.close d.closing ++ xmls d.epilog

def text (d : Document) : Text :=
  xmls d.prolog ++ d.envelope.start ++ xmls d.before ++ d.opening ++ d.rest

/-- What the Body has in it. -/
def children (d : Document) : List Node := (d.content.map (·.1)).getD []

end Document

/-- What a tag's local name is read as. -/
def seen (t : Tag) : Text := localOf (qnameAt t.name.text)

/-- No `<` of a section is read as a comment's or as that of a tag with this name. -/
def harmless (loc s : Text) : Bool :=
  atOpens (fun s => !(['!', '-', '-'].isPrefixOf s) && localOf (qnameAt s) ≠ loc) s

/-- No `<` of a section is read as a comment's or as a tag's. -/
def inert (s : Text) : Bool :=
  atOpens (fun s => !(['!', '-', '-'].isPrefixOf s) && (s.head? = some '?' || s.head? = some '!')) s

mutual

/-- Nothing in the node is read as a tag with this name. -/
def clear (loc : Text) : Node → Bool
  | .element t children _ => seen t ≠ loc && clears loc children
  | .leaf t => seen t ≠ loc
  | .text _ => true
  | .comment _ => true
  | .cdata s => harmless loc s.text
  | .pi s => harmless loc s.text

def clears (loc : Text) : List Node → Bool
  | [] => true
  | n :: ns => clear loc n && clears loc ns

end

/-- The first of the nodes that is read as an element is one, and its name is read as it is. -/
def calm : List Node → Bool
  | [] => true
  | .element t _ _ :: _ => seen t = t.name.loc.text
  | .leaf t :: _ => seen t = t.name.loc.text
  | .text _ :: ns => calm ns
  | .comment _ :: ns => calm ns
  | .cdata s :: ns => inert s.text && calm ns
  | .pi s :: ns => inert s.text && calm ns

/-- The guard lets the document through, and up to the operation nothing in it is read as a tag
that is none. -/
structure Plain (d : Document) : Prop where
  doctype : ifind d.text "<!DOCTYPE".toList = none
  entity : ifind d.text "<!ENTITY".toList = none
  prolog : clears "Body".toList d.prolog = true
  before : clears "Body".toList d.before = true
  envelope : seen d.envelope ≠ "Body".toList
  body : seen d.body = "Body".toList
  closed : slashed d.opening = d.content.isNone
  content : calm d.children = true

theorem isEnd_cons {c : Char} {e : Text} (hc : nameChar c = false ∧ c ≠ ':' ∧ c ≠ '!')
    (hopen : '<' ∉ c :: e) (hshut : '>' ∈ c :: e) : IsEnd (c :: e) where
  noOpen := hopen
  shut := hshut
  head _ h := by
    obtain rfl := Option.some.inj h
    exact hc

theorem isEnd_cdata : IsEnd [']', ']', '>'] := isEnd_cons (by decide) (by decide) (by decide)

theorem isEnd_pi : IsEnd ['?', '>'] := isEnd_cons (by decide) (by decide) (by decide)

/-- Behind a tag's name is the end of the tag. -/
theorem isEnd_tail (t : Tag) {e : Text} (he : IsEnd e) : IsEnd (t.tail ++ e) where
  noOpen h := (List.mem_append.mp h).elim (lt_notMem_tail t) he.noOpen
  shut := List.mem_append_right _ he.shut
  head c hc := by
    rw [List.head?_append, Option.mem_def, Option.or_eq_some_iff] at hc
    rcases hc with hc | ⟨-, hc⟩
    · have hblank := head?_tail t c hc
      simp only [isBlank, Bool.or_eq_true, decide_eq_true_eq] at hblank
      rcases hblank with ((rfl | rfl) | rfl) | rfl <;> decide
    · exact he.head c hc

theorem isEnd_start (t : Tag) : IsEnd (t.tail ++ ['>']) :=
  isEnd_tail t (isEnd_cons (by decide) (by decide) (by decide))

theorem isEnd_leaf (t : Tag) : IsEnd (t.tail ++ ['/', '>']) :=
  isEnd_tail t (isEnd_cons (by decide) (by decide) (by decide))

/-- A name is neither a mark nor the start of a comment. -/
theorem marks_qname (q : QName) (s : Text) :
    (q.text ++ s).head? ≠ some '/' ∧ (q.text ++ s).head? ≠ some '?' ∧
      (q.text ++ s).head? ≠ some '!' := by
  obtain ⟨c, u, hq, hc⟩ := exists_qname_eq q
  rw [hq, List.cons_append, List.head?_cons]
  refine ⟨?_, ?_, ?_⟩ <;>
  · rintro ⟨⟩
    exact absurd hc (by decide)

theorem isPrefixOf_qname (q : QName) (s : Text) :
    ['!', '-', '-'].isPrefixOf (q.text ++ s) = false := by
  obtain ⟨c, u, hq, hc⟩ := exists_qname_eq q
  have hmark : '!' ≠ c := by
    rintro rfl
    exact absurd hc (by decide)
  simp [hq, List.isPrefixOf, hmark]

section
variable {α : Type} {visit : Text → Visit α}

theorem scan_commentNode (s : Xml.Comment) (t : Text) :
    scan visit 0 ((Node.comment s).xml ++ t) = scan visit 0 t := by
  rw [Node.xml, List.cons_append, List.cons_append, List.cons_append, List.cons_append,
    List.append_assoc]
  exact scan_comment s.legal t

/-- The loop reads what is in a section as markup. -/
theorem scan_cdata (hv : ∀ s, visit ('!' :: s) = .skip 0) (s : CData) (t : Text) :
    scan visit 0 ((Node.cdata s).xml ++ t) = scan visit 0 (s.text ++ [']', ']', '>'] ++ t) := by
  rw [Node.xml, List.cons_append, List.append_assoc]
  change scan visit 0 ('<' :: '!' :: ("[CDATA[".toList ++ (s.text ++ [']', ']', '>'] ++ t))) = _
  rw [scan_skip (by simp) (by simp [List.isPrefixOf]) (hv _)]
  exact scan_append (s := '!' :: "[CDATA[".toList) (by decide) _

theorem scan_pi (hv : ∀ s, visit ('?' :: s) = .skip 0) (s : Instruction) (t : Text) :
    scan visit 0 ((Node.pi s).xml ++ t) = scan visit 0 (s.text ++ ['?', '>'] ++ t) := by
  rw [Node.xml, List.cons_append, List.cons_append]
  rw [scan_skip (by simp) (by simp [List.isPrefixOf]) (hv _)]
  exact scan_append (s := ['?']) (by decide) _

end

section
variable {loc : Text}

theorem visitTag_skip {s e : Text} (he : IsEnd e) (t : Text) (hs : localOf (qnameAt s) ≠ loc) :
    ∃ k ≤ (s ++ e).length, visitTag loc (s ++ e ++ t) = .skip k := by
  obtain ⟨w, r, hw, hvisit⟩ := visitTag_append loc (List.mem_append_right s he.shut)
  rw [hvisit, qnameAt_append he, if_neg hs]
  split
  · exact ⟨0, Nat.zero_le _, rfl⟩
  · exact ⟨w.length + 1, by simp [hw], rfl⟩

/-- The loop runs through a tag with another name. -/
theorem scan_tag {q : QName} (hq : localOf (qnameAt q.text) ≠ loc) {e : Text} (he : IsEnd e)
    (t : Text) : scan (visitTag loc) 0 ('<' :: (q.text ++ e ++ t)) = scan (visitTag loc) 0 t := by
  obtain ⟨k, hk, hvisit⟩ := visitTag_skip he t hq
  have hopen : '<' ∉ q.text ++ e := by simp [lt_notMem_qname, he.noOpen]
  have hmark : ['!', '-', '-'].isPrefixOf (q.text ++ e ++ t) = false := by
    rw [List.append_assoc]
    exact isPrefixOf_qname q _
  rw [scan_skip (by simp [List.ne_nil_of_mem he.shut]) hmark hvisit]
  exact scan_append_of_le hopen t hk

theorem scan_close (g : Tag) (space : Blank) (t : Text) :
    scan (visitTag loc) 0 (g.close space ++ t) = scan (visitTag loc) 0 t := by
  have hopen : '<' ∉ '/' :: (g.name.text ++ space.text ++ ['>']) := by
    simp [lt_notMem_qname, lt_notMem_blank]
  rw [Tag.close, List.cons_append, scan_skip (by simp) (by simp [List.isPrefixOf]) rfl]
  exact scan_append hopen t

theorem scan_harmless {s e : Text} (hs : harmless loc s = true) (he : IsEnd e) (t : Text) :
    scan (visitTag loc) 0 (s ++ e ++ t) = scan (visitTag loc) 0 t := by
  refine scan_section he t (fun u hu => ?_) hs (Nat.zero_le _)
  simp only [Bool.and_eq_true, Bool.not_eq_true', decide_eq_true_eq] at hu
  exact ⟨hu.1, visitTag_skip he t hu.2⟩

mutual

/-- The search for a tag runs through a node that has none like it. -/
theorem scan_clear {n : Node} (hn : clear loc n = true) (t : Text) :
    scan (visitTag loc) 0 (n.xml ++ t) = scan (visitTag loc) 0 t := by
  match n with
  | .element g children space =>
    simp only [clear, Bool.and_eq_true, decide_eq_true_eq] at hn
    have hstart := scan_tag hn.1 (isEnd_start g) (xmls children ++ (g.close space ++ t))
    have hin := scan_clears hn.2 (g.close space ++ t)
    rw [← scan_close g space t, ← hin, ← hstart]
    simp [Node.xml, Tag.start]
  | .leaf g =>
    simp only [clear, decide_eq_true_eq] at hn
    rw [← scan_tag hn (isEnd_leaf g) t]
    simp [Node.xml, Tag.leaf]
  | .text s => exact scan_append s.legal t
  | .comment s => exact scan_commentNode s t
  | .cdata s =>
    rw [scan_cdata (fun _ => rfl)]
    exact scan_harmless hn isEnd_cdata t
  | .pi s =>
    rw [scan_pi (fun _ => rfl)]
    exact scan_harmless hn isEnd_pi t

theorem scan_clears {ns : List Node} (hns : clears loc ns = true) (t : Text) :
    scan (visitTag loc) 0 (xmls ns ++ t) = scan (visitTag loc) 0 t := by
  match ns with
  | [] => rfl
  | n :: ns =>
    simp only [clears, Bool.and_eq_true] at hns
    rw [xmls, List.append_assoc, scan_clear hns.1, scan_clears hns.2]

end

/-- The search stops at a tag with the name, and goes on where the tag has its first `>`. -/
theorem scan_found {q : QName} (hq : localOf (qnameAt q.text) = loc) {e : Text} (he : IsEnd e) :
    ∃ r, '<' ∉ r ∧ ∀ t, scan (visitTag loc) 0 ('<' :: (q.text ++ e ++ t)) =
      some { rest := r ++ t, selfClosing := slashed ('<' :: (q.text ++ e)) } := by
  -- The first `>` may be one in an attribute; what is then left of the tag has no `<`.
  obtain ⟨w, r, hw, hvisit⟩ := visitTag_append loc (List.mem_append_right q.text he.shut)
  have hopen : '<' ∉ q.text ++ e := by simp [lt_notMem_qname, he.noOpen]
  refine ⟨r, fun h => hopen (by simp [hw, h]), fun t => ?_⟩
  refine scan_stop (by simp [List.ne_nil_of_mem he.shut]) ?_ ?_
  · rw [List.append_assoc]
    exact isPrefixOf_qname q _
  · obtain ⟨hslash, hquestion, hmark⟩ := marks_qname q e
    rw [hvisit, if_neg (by simp only [hslash, hquestion, hmark, or_self, not_false_eq_true]),
      qnameAt_append he, if_pos hq, slashed_cons]

end

theorem scan_inert {s e : Text} (hs : inert s = true) (he : IsEnd e) (t : Text) :
    scan visitChild 0 (s ++ e ++ t) = scan visitChild 0 t := by
  refine scan_section he t (fun u hu => ?_) hs (Nat.zero_le _)
  simp only [Bool.and_eq_true, Bool.not_eq_true', Bool.or_eq_true, decide_eq_true_eq] at hu
  obtain ⟨c, u, rfl⟩ : ∃ c v, u = c :: v := by
    cases u with
    | nil => simp at hu
    | cons c u => exact ⟨c, u, rfl⟩
  exact ⟨hu.1, 0, Nat.zero_le _, if_pos hu.2⟩

theorem scan_child {g : Tag} (hg : seen g = g.name.loc.text) {e : Text} (he : IsEnd e) (t : Text) :
    scan visitChild 0 ('<' :: (g.name.text ++ e ++ t)) = some g.name.loc.text := by
  have hne : g.name.text ++ e ++ t ≠ [] := by simp [List.ne_nil_of_mem he.shut]
  refine scan_stop hne ?_ ?_
  · rw [List.append_assoc]
    exact isPrefixOf_qname g.name _
  · obtain ⟨hslash, hquestion, hmark⟩ := marks_qname g.name (e ++ t)
    rw [← List.append_assoc] at hslash hquestion hmark
    rw [visitChild, if_neg (not_or.mpr ⟨hquestion, hmark⟩), if_neg hslash, qnameAt_append he]
    change Visit.stop (if seen g = [] then none else some (seen g)) = _
    rw [hg, if_neg g.name.loc.ne]

/-- The operation is read off the first element, or not at all where the Body ends before it. -/
theorem scan_calm {ns : List Node} (hns : calm ns = true) (g : Tag) (space : Blank) (t : Text) :
    scan visitChild 0 (xmls ns ++ (g.close space ++ t)) = firstElement ns := by
  induction ns with
  | nil => exact scan_stop (by simp) (by simp [List.isPrefixOf]) rfl
  | cons n ns ih =>
    rw [xmls, List.append_assoc]
    cases n with
    | element f children last =>
      have hf : seen f = f.name.loc.text := by simpa [calm] using hns
      have hread := scan_child hf (isEnd_start f)
        (xmls children ++ (f.close last ++ (xmls ns ++ (g.close space ++ t))))
      change _ = some f.name.loc.text
      simpa [Node.xml, Tag.start] using hread
    | leaf f =>
      have hf : seen f = f.name.loc.text := by simpa [calm] using hns
      have hread := scan_child hf (isEnd_leaf f) (xmls ns ++ (g.close space ++ t))
      change _ = some f.name.loc.text
      simpa [Node.xml, Tag.leaf] using hread
    | text s =>
      exact (scan_append s.legal _).trans (ih hns)
    | comment s =>
      exact (scan_commentNode s _).trans (ih hns)
    | cdata s =>
      simp only [calm, Bool.and_eq_true] at hns
      rw [scan_cdata (fun _ => rfl), scan_inert hns.1 isEnd_cdata]
      exact ih hns.2
    | pi s =>
      simp only [calm, Bool.and_eq_true] at hns
      rw [scan_pi (fun _ => rfl), scan_inert hns.1 isEnd_pi]
      exact ih hns.2

theorem opening_eq (d : Document) :
    ∃ e, IsEnd e ∧ d.opening = '<' :: (d.body.name.text ++ e) := by
  rw [Document.opening]
  split
  · exact ⟨_, isEnd_leaf d.body, by simp [Tag.leaf]⟩
  · exact ⟨_, isEnd_start d.body, by simp [Tag.start]⟩

/-- The search for the Body stops at it. -/
theorem findOpenTag_text {d : Document} (hd : Plain d) :
    ∃ r, '<' ∉ r ∧ findOpenTag "Body".toList d.text =
      some { rest := r ++ d.rest, selfClosing := d.content.isNone } := by
  obtain ⟨e, he, hopening⟩ := opening_eq d
  obtain ⟨r, hr, hfound⟩ := scan_found hd.body he
  have henvelope := scan_tag hd.envelope (isEnd_start d.envelope)
    (xmls d.before ++ (d.opening ++ d.rest))
  have htext : d.text = xmls d.prolog ++ ('<' :: (d.envelope.name.text ++
      (d.envelope.tail ++ ['>']) ++ (xmls d.before ++ (d.opening ++ d.rest)))) := by
    simp [Document.text, Tag.start]
  refine ⟨r, hr, ?_⟩
  rw [findOpenTag, htext, scan_clears hd.prolog, henvelope, scan_clears hd.before, hopening,
    List.cons_append, hfound, ← hopening, hd.closed]

/-- The operation of a request is the first element of its Body, and none without one. -/
theorem soapAction_text {d : Document} (hsize : d.text.length ≤ maxRequest) (hd : Plain d) :
    soapAction d.text = firstElement d.children := by
  obtain ⟨r, hr, hfound⟩ := findOpenTag_text hd
  have hne : d.text ≠ [] := by simp [Document.text, Tag.start]
  have hacceptable : soapAcceptable d.text = true := by
    simp only [soapAcceptable, Bool.and_eq_true, decide_eq_true_eq]
    exact ⟨⟨⟨hne, hsize⟩, hd.doctype⟩, hd.entity⟩
  rw [soapAction, hacceptable, hfound]
  cases hcontent : d.content with
  | none => simp [Document.children, hcontent, firstElement]
  | some c =>
    obtain ⟨ns, space⟩ := c
    have hcalm : calm ns = true := by
      have hall := hd.content
      rwa [Document.children, hcontent] at hall
    have hscan := scan_calm hcalm d.body space
      (xmls d.after ++ (d.envelope.close d.closing ++ xmls d.epilog))
    have hread : scan visitChild 0 (r ++ d.rest) = firstElement ns := by
      rw [scan_append hr, ← hscan, Document.rest, hcontent]
      simp
    simpa [Document.children, hcontent] using hread

def prefixed (loc : Name) (attrs : List Attr) : Tag :=
  { name := { space := some { text := ['s'] }, loc }, attrs }

def quoted (value : Text) (legal : '<' ∉ value ∧ '"' ∉ value) : Attr :=
  { before := { text := [' '] }, name := { loc := { text := ['a'] } }, double := true
    value, legal }

/-- Comments, sections and attributes with markup in them, none of it read. -/
def marked : Document where
  prolog := [.pi { text := ['x', 'm', 'l'] }, .text { text := ['\n'] }]
  envelope := prefixed { text := "Envelope".toList } [quoted ['/', '>'] (by decide)]
  before := [.element (prefixed { text := ['H'] } [])
    [.comment { text := ['<', 'B', 'o', 'd', 'y', '>'] }, .cdata { text := ['<', 'b', '>'] }] {}]
  body := prefixed { text := "Body".toList } [quoted ['>'] (by decide)]
  content := some ([.comment { text := ['<', 'x', '/', '>'] }, .cdata { text := ['>'] },
    .leaf (prefixed { text := ['O', 'p'] } [quoted ['/', '>'] (by decide)])], {})

theorem soapAction_text_marked :
    marked.text.length ≤ maxRequest ∧ Plain marked ∧
      soapAction marked.text = some ['O', 'p'] := by
  have hsize : marked.text.length ≤ maxRequest := by decide +kernel
  have hplain : Plain marked :=
    ⟨by decide +kernel, by decide +kernel, by decide +kernel, by decide +kernel,
      by decide +kernel, by decide +kernel, by decide +kernel, by decide +kernel⟩
  exact ⟨hsize, hplain, soapAction_text hsize hplain⟩

/-- Documents whose operation is read as none, or as another. -/
def misread : List Document :=
  let envelope := prefixed { text := "Envelope".toList } []
  let body := prefixed { text := "Body".toList } []
  let operation := Node.leaf (prefixed { text := ['O', 'p'] } [])
  [ -- The guard reads comments too.
    { envelope, body
      content := some ([.comment { text := ['<', '!', 'D', 'O', 'C', 'T', 'Y', 'P', 'E'] },
        operation], {}) },
    -- The Body is the first element of that name, wherever it is.
    { envelope, body, content := some ([operation], {})
      before := [.element (prefixed { text := ['H'] } []) [.leaf body] {}] },
    -- A name ends at a byte beyond ASCII.
    { envelope, body
      content := some ([.leaf (prefixed { text := [Char.ofNat 0xC3, Char.ofNat 0xA9] } [])], {}) },
    { envelope, body, content := some ([.cdata { text := ['<', 'x', '>'] }, operation], {}) },
    { envelope, content := some ([operation], {})
      body := prefixed { text := "Body".toList } [quoted ['/', '>'] (by decide)] }]

theorem not_soapAction_text :
    misread.length = 5 ∧ ∀ d ∈ misread,
      d.text.length ≤ maxRequest ∧ soapAction d.text ≠ firstElement d.children := by
  decide +kernel

end Machino.Onvif
