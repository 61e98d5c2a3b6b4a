import Machino.Core.Text

namespace Machino

/-- A value of the JSON parser; objects keep their order, and a number is the double it is read
as. -/
inductive Json where
  | null
  | bool (b : Bool)
  | number (n : Rat)
  | string (s : Text)
  | array (items : List Json)
  | object (members : List (Text × Json))

namespace Json

def members : Json → List (Text × Json)
  | object ms => ms
  | _ => []

def get (j : Json) (key : String) : Option Json :=
  (j.members.find? fun m => m.1 = key.toList).map Prod.snd

def isObject : Json → Bool
  | object _ => true
  | _ => false

/-- A number without a fraction, in the range the conversion to `long long` can take. -/
def isInteger (n : Rat) : Bool := n.den = 1 && -9200000000000000000 ≤ n && n ≤ 9200000000000000000

end Json

section fields

variable (o : Json) (k : String)

def getBool (out : Bool) : Except String Bool :=
  match o.get k with
  | none => .ok out
  | some (.bool b) => .ok b
  | some _ => .error (k ++ " must be true or false")

def getString (out : Text) (max : ℕ) : Except String Text :=
  match o.get k with
  | none => .ok out
  | some (.string s) => if max < s.length then .error (k ++ " is too long") else .ok s
  | some _ => .error (k ++ " must be a string")

/-- The cast to `int` drops the fraction. -/
def getInt (out lo hi : Int) : Except String Int :=
  match o.get k with
  | none => .ok out
  | some (.number d) =>
    if d < lo ∨ hi < d then .error (k ++ " is out of range") else .ok (d.num.tdiv d.den)
  | some _ => .error (k ++ " must be a number")

/-- A word out of a fixed set; an empty one is left alone like one that is not there. -/
def getWord {α : Type} (max : ℕ) (parse : Text → Option α) (err : String) (out : α) :
    Except String α := do
  let s ← getString o k [] max
  if s = [] then return out
  match parse s with
  | some v => return v
  | none => throw err

end fields

/-- An unknown key is an error, not something to skip. -/
def rejectUnknown (o : Json) (allowed : List String) : Except String Unit :=
  match o.members.find? fun m => !allowed.any fun a => m.1 = a.toList with
  | some m => .error ("unknown field: " ++ String.ofList m.1)
  | none => .ok ()

section again

variable {o : Json} {k : String}

theorem getBool_again {c v c' : Bool} (h : getBool o k c = .ok v) (hc : c = v → c' = v) :
    getBool o k c' = .ok v := by
  unfold getBool at h ⊢
  split at h
  · rw [hc (Except.ok.inj h)]
  · exact h
  · exact absurd h (by simp)

theorem getString_again {c v c' : Text} {max : ℕ} (h : getString o k c max = .ok v)
    (hc : c = v → c' = v) : getString o k c' max = .ok v := by
  unfold getString at h ⊢
  split at h
  · rw [hc (Except.ok.inj h)]
  · exact h
  · exact absurd h (by simp)

theorem getWord_again {α : Type} {c v c' : α} {max : ℕ} {parse : Text → Option α} {err : String}
    (h : getWord o k max parse err c = .ok v) (hc : c = v → c' = v) :
    getWord o k max parse err c' = .ok v := by
  unfold getWord at h ⊢
  obtain ⟨s, hs, h⟩ := except_bind_eq_ok.mp h
  refine except_bind_eq_ok.mpr ⟨s, hs, ?_⟩
  split at h
  · rename_i hs
    rw [if_pos hs, hc (Except.ok.inj h)]
    rfl
  · rename_i hs
    rw [if_neg hs]
    exact h

end again

end Machino
