import TexGovernance.Safeflow.Executor

/-!
# What the hash of a transaction covers

`Transaction.hash` runs the covered fields together without a mark between them, and skips an
empty optional one.
-/

namespace TexGovernance.Safeflow
open PyStr PyBytes PyCodec PyRepr Sha256

namespace Transaction

def written (t : Transaction) : Str :=
  t.txnId.text ++ t.state.value ++ t.steps.flatMap stepText ++ optionalPart t.failureReason

def sampleId (s : String) (h : RequiredText 128 (txt s)) : FieldText 128 := ⟨txt s, h.1, h.2⟩

end Transaction

end TexGovernance.Safeflow
