import Mathlib.Data.List.GetD
import WirelessTsn.Wired.Egress

/-!
What the endpoint reports as applied, against the telemetry it sends from then
on. The report repeats the configuration as it came and sets the VLAN and PCP
features for any VLAN above zero; `send_frame` tags only while the raw socket
is open, and the tag has twelve bits for the VLAN and three for the priority.
-/

namespace Htsn

/-! ### The two views -/

/-- A TSN_APPLIED payload: the configuration, and the feature word at the end. -/
structure AppliedReport where
  cfg : TsnCfg
  features : BitVec 32
  deriving DecidableEq, Repr

def AppliedReport.ofBytes (pl : List Byte) : AppliedReport :=
  let o := pl.length - 4
  { cfg := TsnCfg.ofBytes pl
    features :=
      le32 (pl.getD o 0) (pl.getD (o + 1) 0) (pl.getD (o + 2) 0) (pl.getD (o + 3) 0) }

end Htsn
