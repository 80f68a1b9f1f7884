import WirelessTsn.Esp32.Commands

/-!
The networks of an ESP32 node (`esp32-agent/main/main.c`, `htsn_cfg.c`). The
`wifi` command writes the two old keys, the start reads the list, and the old
keys get into the list only while it is empty. So a node that has a list does
not learn of the network it was pointed at.
-/

namespace Htsn.Esp32

open CText Json Keyed

/-- `load_nets`: the networks that are tried, with their passwords. -/
def Node.loadNets (n : Node) : List (CStr × CStr) :=
  n.nvs.netList.items.map fun e => ((Buf.copy 64 e.ssid.chars).chars, (Buf.copy 64 e.pass.chars).chars)

/-- The text of a string without the bound of a buffer. -/
def readWhole (v : CStr) : Option CStr :=
  match v with
  | [] => none
  | c :: s => if c ≠ '"' then none else (splitQuote s).map fun e => e.1

/-- The whole text of a string member of the payload. -/
def stringIn (payload key : CStr) : Option CStr := (lookup readWhole payload key).getD none

theorem readStr_eq (sz : Nat) (v : CStr) : readStr sz v = (readWhole v).map (List.take (sz - 1)) := by
  cases v with
  | nil => rfl
  | cons c s =>
      simp only [readStr, readWhole]
      split
      · rfl
      · rw [Option.map_map]
        rfl

theorem getStrIn_of_stringIn {payload key s : CStr} (h : stringIn payload key = some s)
    (behind : List CStr) (sz : Nat) :
    getStrIn (payload :: behind) key sz = some (s.take (sz - 1)) := by
  rw [stringIn, lookup] at h
  rw [getStrIn, readIn, probeIn]
  cases hprobe : probeValue payload key with
  | overrun | absent =>
      rw [hprobe] at h
      cases h
  | found v =>
      rw [hprobe, Option.getD_some] at h
      simp only [Option.bind_some, readStr_eq, h, Option.map_some]

section

variable {n : Node} {m : Message} {ssid pass : CStr}

/-- What the `wifi` command leaves when it restarts the node. -/
theorem onCommand_wifi (hroute : route m.topic = .command .wifi)
    (hssid : stringIn m.payload "ssid".toList = some ssid)
    (hpass : stringIn m.payload "pass".toList = some pass) (hne : ssid ≠ [])
    (hssidLen : ssid.length ≤ 32) (hpassLen : pass.length ≤ 63) :
    n.onCommand m = { node := { n with nvs := n.nvs.setWifi ssid pass }, restarts := true } := by
  have hs : getStrIn (m.payload :: m.behind) "ssid".toList 64 = some ssid := by
    rw [getStrIn_of_stringIn hssid, List.take_of_length_le (by omega)]
  have hp : getStrIn (m.payload :: m.behind) "pass".toList 64 = some pass := by
    rw [getStrIn_of_stringIn hpass, List.take_of_length_le (by omega)]
  rw [Node.onCommand, hroute]
  simp only [Node.handle, Node.crateSetWifi, hs, hp, Option.getD_some, hne, if_false]

/-- The list after the restart. -/
theorem restart_netList (hne : ssid ≠ []) (hssidLen : ssid.length ≤ 32) (hpassLen : pass.length ≤ 63) :
    (Node.restart { n with nvs := n.nvs.setWifi ssid pass }).nvs.netList.items =
      if n.nvs.netList.items = [] then [⟨Buf.copy 33 ssid, Buf.copy 65 pass⟩]
      else n.nvs.netList.items := by
  have hs : nvsGetStr (some ssid) 64 = ssid := if_pos (by omega)
  have hp : nvsGetStr (some pass) 64 = pass := if_pos (by omega)
  have hkey : nvsGetStr (n.nvs.setWifi ssid pass).wifiSsid 64 = ssid := hs
  have hpassKey : nvsGetStr (n.nvs.setWifi ssid pass).wifiPass 64 = pass := hp
  rw [Node.restart_eq, if_neg (by rwa [hkey]), Node.tsnRestore, Node.loadPersisted_nvs]
  show (n.nvs.setWifi ssid pass).migrate.netList.items = _
  rw [Nvs.migrate, hkey, hpassKey]
  have hlist : (n.nvs.setWifi ssid pass).netList = n.nvs.netList := rfl
  rw [hlist]
  split
  · rename_i hempty
    rw [Nvs.netAdd_of_empty (by rwa [hlist]) hne]
  · rfl

/-- After the restart the node tries the network exactly when its list was
empty, or had the network with that password already. -/
theorem repointed_iff (hroute : route m.topic = .command .wifi)
    (hssid : stringIn m.payload "ssid".toList = some ssid)
    (hpass : stringIn m.payload "pass".toList = some pass) (hne : ssid ≠ [])
    (hssidLen : ssid.length ≤ 32) (hpassLen : pass.length ≤ 63) :
    (ssid, pass) ∈ (n.onCommand m).node.restart.loadNets ↔
      n.nvs.netList.items = [] ∨
        ∃ e ∈ n.nvs.netList.items, e.ssid.chars = ssid ∧ e.pass.chars.take 63 = pass := by
  rw [onCommand_wifi hroute hssid hpass hne hssidLen hpassLen, Node.loadNets,
    restart_netList hne hssidLen hpassLen]
  have hsaved : ∀ e : NetEntry, (Buf.copy 64 e.ssid.chars).chars = e.ssid.chars :=
    fun e => Buf.copy_chars_of_lt (by have := e.ssid.fits; omega)
  split
  · rename_i hempty
    refine iff_of_true ?_ (Or.inl hempty)
    have hs : (Buf.copy 33 ssid).chars = ssid := Buf.copy_chars_of_lt (by omega)
    have hp : (Buf.copy 65 pass).chars = pass := Buf.copy_chars_of_lt (by omega)
    rw [List.map_singleton, List.mem_singleton, hs, hp, Buf.copy_chars_of_lt (by omega),
      Buf.copy_chars_of_lt (by omega)]
  · rename_i hempty
    rw [List.mem_map, or_iff_right hempty]
    simp only [Prod.mk.injEq, hsaved, Buf.copy_chars]

end

/-- A node that is pointed at another network while its list is empty, and
once it has another network. -/
def homeMembers : List (Plain × Value) :=
  [(.lit "ssid".toList, .str (.lit "home".toList)),
    (.lit "pass".toList, .str (.lit "secret".toList))]

def homeWifi : Message :=
  { topic := "tsn/cmd/a/wifi".toList, payload := (compactObject homeMembers).text }

theorem homeWifi_strings :
    stringIn homeWifi.payload "ssid".toList = some "home".toList ∧
      stringIn homeWifi.payload "pass".toList = some "secret".toList := by
  have hstring : ∀ key (s : Plain) later, memberAt key homeMembers = some (.str s, later) →
      stringIn homeWifi.payload key = some s.chars := by
    intro key s later hmember
    have hpayload : homeWifi.payload = (compactObject homeMembers).text := rfl
    rw [stringIn, hpayload, lookup_compact, hmember]
    simp only [Option.bind_some, Value.text, readWhole, ne_eq, not_true_eq_false, if_false,
      splitQuote_append s.noQuote, Option.map_some, Option.getD_some]
  exact ⟨hstring _ (.lit "home".toList) _ rfl, hstring _ (.lit "secret".toList) _ rfl⟩

theorem homeWifi_listed :
    ("home".toList, "secret".toList) ∈ (({} : Node).onCommand homeWifi).node.restart.loadNets :=
  (repointed_iff (n := {}) (m := homeWifi) (by decide) homeWifi_strings.1 homeWifi_strings.2
    (by decide) (by decide) (by decide)).mpr (Or.inl rfl)

/-- A node that has joined the network `old` before. -/
def oldNode : Node :=
  { nvs := { netList := ⟨[⟨⟨"old".toList, by decide⟩, ⟨[], by decide⟩⟩], by decide⟩ } }

theorem homeWifi_not_listed :
    ("home".toList, "secret".toList) ∉ (oldNode.onCommand homeWifi).node.restart.loadNets := by
  have hcommand := onCommand_wifi (n := oldNode) (m := homeWifi) (by decide) homeWifi_strings.1
    homeWifi_strings.2 (by decide) (by decide) (by decide)
  rw [hcommand, Node.loadNets, restart_netList (by decide) (by decide) (by decide)]
  decide

end Htsn.Esp32
