namespace Machino

inductive Status where
  | ok | error | timeout | busy | unsupported
  deriving DecidableEq, Repr

/-- The outcome of a fallible call; `code` is the vendor value or errno, 0 on success. -/
structure Result where
  status : Status
  code : Int
  deriving DecidableEq, Repr

namespace Result

def ok : Result := ⟨.ok, 0⟩
def error (c : Int := -1) : Result := ⟨.error, c⟩
def timeout : Result := ⟨.timeout, 0⟩
def busy : Result := ⟨.busy, 0⟩
def unsupported : Result := ⟨.unsupported, 0⟩

def isOk (r : Result) : Bool := r.status = .ok

@[simp] theorem isOk_ok : isOk ok = true := rfl
@[simp] theorem isOk_error (c : Int) : isOk (error c) = false := rfl
@[simp] theorem isOk_timeout : isOk timeout = false := rfl
@[simp] theorem isOk_busy : isOk busy = false := rfl
@[simp] theorem isOk_unsupported : isOk unsupported = false := rfl

end Result

end Machino
