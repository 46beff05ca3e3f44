import TexGovernance.Domain.Models

/-!
# The host a recipient addresses

`permits_recipient` compares the allowed domains with a stretch of the recipient that need not be
its host.
-/

namespace TexGovernance.Domain
open PyStr CaseFold

section Entries

variable (fold : CaseFolding)

end Entries

end TexGovernance.Domain
