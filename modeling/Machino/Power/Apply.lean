import Machino.Api.PatchConfig

namespace Machino.Power

open Api

/-- A control with its bounds, and how a change of it takes effect. -/
structure Control extends RangeCap where
  apply : ApplyMode := .unsupported

/-- What the pipeline answers to a stream that takes a restart. -/
inductive Restart where
  | cold | done
  | failed (err : String)

/-- What a live call answers; an amount that is not positive is no readback. -/
inductive Live where
  | busy
  | failed (status : String)
  | done (effective : ℤ)

def Restart.isFailed : Restart → Bool
  | .failed _ => true
  | _ => false

def Live.isFailed : Live → Bool
  | .failed _ => true
  | _ => false

end Machino.Power
