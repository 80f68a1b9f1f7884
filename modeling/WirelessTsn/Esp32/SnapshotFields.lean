import WirelessTsn.Esp32.GateList
import WirelessTsn.Esp32.Memory

/-!
The values that the text of a snapshot holds, told from its members, against
those that the readers of `htsn_json.c` get from it. A number that does not fit
its type is changed, and a gate entry without one of its two members is given
that of a later entry, or of a member behind the list.
-/

namespace Htsn.Esp32

open CText Json

/-! ### The values of a document -/

/-- The two integers of an entry; a member that is missing, or no number,
counts as zero. -/
def gateOf (e : Pairs) : Int × Int :=
  ((e.int "gate_state".toList).getD 0, (e.int "duration_ns".toList).getD 0)

section

variable {items : Elems} {es : List Pairs}

end

end Htsn.Esp32
