import Mathlib.Algebra.Order.Group.Nat
import Mathlib.Data.List.Basic
import Mathlib.Data.List.Infix
import Mathlib.Data.List.TakeDrop

/-! Nested pieces, each behind a header with its tag and its length, and a reader that walks them. -/
namespace Machino.Tagged

universe u v

variable {τ : Type u} {α : Type v}

/-- A piece: a part of its own, and the pieces inside it. -/
inductive Tree (τ : Type u) (α : Type v) where
  | node (type : τ) (head : List α) (kids : List (Tree τ α))

namespace Tree

def type : Tree τ α → τ
  | node t _ _ => t

def head : Tree τ α → List α
  | node _ h _ => h

def kids : Tree τ α → List (Tree τ α)
  | node _ _ ts => ts

end Tree

/-- How a tag and a length are written, and read for every length below a limit. -/
structure Header (τ : Type u) (α : Type v) where
  write : τ → ℕ → List α
  read : List α → Option (τ × ℕ × List α)
  limit : ℕ
  read_write : ∀ t n s, n < limit → read (write t n ++ s) = some (t, n, s)
  write_ne_nil : ∀ t n, write t n ≠ []

variable (H : Header τ α)

mutual

def bytes : Tree τ α → List α
  | .node t h ts => H.write t (h.length + (bytesAll ts).length) ++ (h ++ bytesAll ts)

def bytesAll : List (Tree τ α) → List α
  | [] => []
  | t :: ts => bytes t ++ bytesAll ts

end

theorem bytesAll_nil : bytesAll H ([] : List (Tree τ α)) = [] := by rw [bytesAll]

theorem bytesAll_cons (t : Tree τ α) (ts : List (Tree τ α)) :
    bytesAll H (t :: ts) = bytes H t ++ bytesAll H ts := by rw [bytesAll]

theorem bytes_node (t : τ) (h : List α) (ts : List (Tree τ α)) :
    bytes H (.node t h ts) =
      H.write t (h.length + (bytesAll H ts).length) ++ (h ++ bytesAll H ts) := by rw [bytes]

theorem bytes_leaf (t : τ) (h : List α) : bytes H (.node t h []) = H.write t h.length ++ h := by
  simp [bytes_node, bytesAll_nil]

theorem bytesAll_append (ts us : List (Tree τ α)) :
    bytesAll H (ts ++ us) = bytesAll H ts ++ bytesAll H us := by
  induction ts with
  | nil => rw [bytesAll_nil, List.nil_append, List.nil_append]
  | cons t ts ih =>
    rw [List.cons_append, bytesAll_cons, bytesAll_cons, ih, List.append_assoc]

/-- What is inside a piece. -/
def payload (t : Tree τ α) : List α := t.head ++ bytesAll H t.kids

theorem length_payload_le (t : Tree τ α) : (payload H t).length ≤ (bytes H t).length := by
  cases t
  rw [bytes_node, List.length_append]
  exact Nat.le_add_left _ _

theorem length_bytes_le {t : Tree τ α} {ts : List (Tree τ α)} (h : t ∈ ts) :
    (bytes H t).length ≤ (bytesAll H ts).length := by
  induction ts with
  | nil => exact absurd h List.not_mem_nil
  | cons u us ih =>
    rw [bytesAll_cons, List.length_append]
    rcases List.mem_cons.mp h with rfl | h
    · exact Nat.le_add_right _ _
    · exact (ih h).trans (Nat.le_add_left _ _)

-- for each tag the length of what stands before the pieces inside, or none without such pieces
variable (headLength : τ → Option ℕ)

/-- A piece with this payload, for a reader of the pieces inside. -/
def readPiece (inner : List α → Option (List (Tree τ α))) (t : τ) (p : List α) :
    Option (Tree τ α) :=
  match headLength t with
  | none => some (.node t p [])
  | some k => if p.length < k then none else (inner (p.drop k)).map (.node t (p.take k))

/-- Pieces up to the end, each of the length that it says. -/
def readAll : ℕ → List α → Option (List (Tree τ α))
  | 0, _ => none
  | fuel + 1, s =>
    if s.isEmpty then some []
    else do
      let (t, n, s) ← H.read s
      if s.length < n then none
      else
        let piece ← readPiece headLength (readAll fuel) t (s.take n)
        (readAll fuel (s.drop n)).map (piece :: ·)

def parse (s : List α) : Option (List (Tree τ α)) := readAll H headLength (s.length + 1) s

/-- The pieces stand where the reader looks for them. -/
inductive Shaped : Tree τ α → Prop
  | leaf {t : τ} {h : List α} (ht : headLength t = none) : Shaped (.node t h [])
  | node {t : τ} {h : List α} {ts : List (Tree τ α)} (ht : headLength t = some h.length)
      (hts : ∀ u ∈ ts, Shaped u) : Shaped (.node t h ts)

variable {H headLength}

/-- One piece is read, and then what is behind it. -/
theorem readAll_step {fuel : ℕ} {t : τ} {p : List α} (hp : p.length < H.limit) (s : List α) :
    readAll H headLength (fuel + 1) (H.write t p.length ++ (p ++ s)) =
      (readPiece headLength (readAll H headLength fuel) t p).bind fun piece =>
        (readAll H headLength fuel s).map (piece :: ·) := by
  have hne : (H.write t p.length ++ (p ++ s)).isEmpty = false := by
    rw [List.isEmpty_eq_false_iff]
    exact fun h => H.write_ne_nil _ _ (List.append_eq_nil_iff.mp h).1
  have hlen : ¬(p ++ s).length < p.length := by
    rw [List.length_append]
    omega
  rw [readAll, hne, if_neg Bool.false_ne_true, H.read_write t p.length (p ++ s) hp,
    Option.bind_eq_bind, Option.bind_some]
  dsimp only
  rw [if_neg hlen, List.take_left, List.drop_left]
  rfl

theorem readAll_bytesAll {fuel : ℕ} {ts : List (Tree τ α)}
    (hshape : ∀ t ∈ ts, Shaped headLength t) (hlimit : ∀ t ∈ ts, (payload H t).length < H.limit)
    (hfuel : (bytesAll H ts).length < fuel) :
    readAll H headLength fuel (bytesAll H ts) = some ts := by
  induction fuel generalizing ts with
  | zero => exact absurd hfuel (Nat.not_lt_zero _)
  | succ fuel ih =>
    cases ts with
    | nil =>
      rw [bytesAll_nil]
      rfl
    | cons t ts =>
      have hhere := hlimit t List.mem_cons_self
      have hpos : 0 < (bytes H t).length - (payload H t).length := by
        cases t
        rw [bytes_node, List.length_append, payload, Tree.head, Tree.kids, Nat.add_sub_cancel]
        exact List.length_pos_iff.mpr (H.write_ne_nil _ _)
      rw [bytesAll_cons, List.length_append] at hfuel
      have hrest := ih (fun u hu => hshape u (List.mem_cons_of_mem t hu))
        (fun u hu => hlimit u (List.mem_cons_of_mem t hu)) (by omega)
      have hinner {h : List α} {kids : List (Tree τ α)} {type : τ} (ht : t = .node type h kids)
          (hkids : ∀ u ∈ kids, Shaped headLength u) :
          readAll H headLength fuel (bytesAll H kids) = some kids := by
        subst ht
        rw [payload, Tree.head, Tree.kids, List.length_append] at hhere hpos
        refine ih hkids (fun u hu => ?_) (by omega)
        have hu := (length_payload_le H u).trans (length_bytes_le H hu)
        omega
      cases hshape t List.mem_cons_self with
      | @leaf type h ht =>
        rw [payload, Tree.head, Tree.kids, bytesAll_nil, List.append_nil] at hhere
        have hpiece : readPiece headLength (readAll H headLength fuel) type h =
            some (.node type h []) := by
          rw [readPiece, ht]
        rw [bytesAll_cons, bytes_leaf, List.append_assoc, readAll_step hhere, hpiece, hrest]
        rfl
      | @node type h kids ht hkids =>
        rw [payload, Tree.head, Tree.kids] at hhere
        have hpiece : readPiece headLength (readAll H headLength fuel) type
            (h ++ bytesAll H kids) = some (.node type h kids) := by
          have hle : ¬(h ++ bytesAll H kids).length < h.length := by
            rw [List.length_append]
            omega
          rw [readPiece, ht]
          dsimp only
          rw [if_neg hle, List.drop_left, List.take_left, hinner rfl hkids]
          rfl
        rw [bytesAll_cons, bytes_node, ← List.length_append, List.append_assoc, readAll_step hhere,
          hpiece, hrest]
        rfl

/-- Every piece that was written is read again. -/
theorem parse_bytesAll {ts : List (Tree τ α)} (hshape : ∀ t ∈ ts, Shaped headLength t)
    (hlimit : ∀ t ∈ ts, (payload H t).length < H.limit) :
    parse H headLength (bytesAll H ts) = some ts :=
  readAll_bytesAll hshape hlimit (Nat.lt_succ_self _)

/-- What the first piece at the end of a path has of its own. -/
def find [DecidableEq τ] : List τ → List (Tree τ α) → Option (List α)
  | [], _ => none
  | [t], ts => (ts.find? fun u => u.type = t).map Tree.head
  | t :: path, ts => ts.findSome? fun u => if u.type = t then find path u.kids else none

end Machino.Tagged

namespace Machino.Codes

variable {α β : Type*}

/-- What is encoded reads back, and no part of an encoding that is cut off is read at all. -/
structure PrefixCode (valid : β → Prop) (encode : β → List α) (decode : List α → Option β) :
    Prop where
  round : ∀ b, valid b → decode (encode b) = some b
  torn : ∀ b, valid b → ∀ p, p <+: encode b → p ≠ encode b → decode p = none

/-- No encoding begins another one. -/
theorem PrefixCode.prefix_free {valid : β → Prop} {encode : β → List α}
    {decode : List α → Option β} {a b : β} (h : PrefixCode valid encode decode) (ha : valid a)
    (hb : valid b) (hp : encode a <+: encode b) : a = b := by
  have hread := h.round a ha
  by_cases he : encode a = encode b
  · rw [he, h.round b hb] at hread
    exact (Option.some.inj hread).symm
  · rw [h.torn b hb _ hp he] at hread
    cases hread

/-- A text cut off a line and what follows it: the line is not complete, or it is there and what
follows is cut off. -/
theorem prefix_line {p line rest : List α} {end_ : α} (h : p <+: line ++ end_ :: rest) :
    p <+: line ∨ ∃ q, p = line ++ end_ :: q ∧ q <+: rest := by
  have hline : line ++ [end_] <+: line ++ end_ :: rest := ⟨rest, by simp⟩
  rcases List.prefix_or_prefix_of_prefix h hline with hp | ⟨q, rfl⟩
  · rcases List.prefix_concat_iff.mp hp with rfl | hp
    · exact .inr ⟨[], rfl, List.nil_prefix⟩
    · exact .inl hp
  · refine .inr ⟨q, by simp, ?_⟩
    simpa using h

end Machino.Codes
