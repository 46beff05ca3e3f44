import TexGovernance.Safeflow.Compensation

/-!
# A failing tool is contained

The error path of `step` ends in the construction of an outcome, which takes
the whole text of the exception and of every failed inverse.
-/

namespace TexGovernance.Safeflow
open PyStr PyBytes PyCodec PyRepr PyDict Actions

variable {σ World Val : Type} [WAL σ] (p : Platform Val)

variable {p} {s : TransactionalExecutor σ World Val}

variable {inverses : Dict Str (InverseFn World Val)} {done : List (Done Val)}
  {call : StepCall Val} {exc argsHash : Str} {impl : ToolFn World Val} {w : World}

section Sample

end Sample

end TexGovernance.Safeflow
