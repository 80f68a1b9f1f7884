import WirelessTsn.Agent.Routing
import WirelessTsn.Agent.Snapshot
import WirelessTsn.Esp32.Snapshot

/-!
A snapshot on the host agent and on the nodes. What the two agents make of the
text they make of it behind the topic and with the acknowledgement, on every
node with its arrays and its NVS, and whatever stands in memory behind the
payload.
-/

namespace Htsn

open CText Json

/-- The host agent acknowledges the snapshot as every ESP32 node does. When the
answer is yes, the operations called on the host carry the values that the node
has then, and its NVS holds them. -/
def NodesFollow (o : Object) : Prop :=
  ∀ (host : Host.Agent) (m : Host.Message), host.mqtt = true → strstr "/apply".toList m.topic ≠ none →
    m.payload = o.text → ∀ (n : Esp32.Node) (behind : List CStr), ∃ fuel calls ok,
      host.onMessage fuel m =
        ⟨calls.map .op ++ [.publish (Host.ackTopic host.deviceId) (Host.ackPayload host.deviceId ok)], some ()⟩ ∧
      (ok = true ↔ (n.applySnapshot o.text behind).2.ok = true) ∧
      (ok = true → Applies calls (n.applySnapshot o.text behind).1.state.abs ∧
        (n.applySnapshot o.text behind).1.nvs.Holds (n.applySnapshot o.text behind).1.state)

/-- A node saves what it accepts. -/
theorem holds_of_acked {n : Esp32.Node} {payload : CStr} {behind : List CStr}
    (h : (n.applySnapshot payload behind).2.ok = true) :
    (n.applySnapshot payload behind).1.nvs.Holds (n.applySnapshot payload behind).1.state := by
  rcases Esp32.applySnapshot_cases n payload behind with ⟨-, hrefused, -⟩ | ⟨happly, -, -⟩
  · rw [hrefused] at h
    cases h
  · rw [happly]
    exact Esp32.holds_tsnApplySnapshot n _

/-- The agent with a list for the gates stands for every node. -/
theorem nodesFollow_of_speakSame {o : Object} (h : SpeakSame o) : NodesFollow o := by
  intro host m hmqtt happly hpayload n behind
  obtain ⟨fuel, calls, ok, a', ack, hhost, hesp, hiff, happlies⟩ := h n.agent
  obtain ⟨rfl, rfl⟩ := Prod.mk.inj (Esp32.applySnapshot_agent hesp behind)
  rw [← hpayload] at hhost
  exact ⟨fuel, calls, ok, Host.onMessage_of_onApply hmqtt happly hhost, hiff,
    fun hok => ⟨happlies hok, holds_of_acked (hiff.mp hok)⟩⟩

/-- A flat snapshot that both agents refuse, or both understand, has one answer
and one meaning on the host and on every node. -/
theorem nodes_follow_host {o : Object} (h : FlatPayload o)
    (hboth : o.lead.chars ≠ [] ∨ Understood o) : NodesFollow o := by
  by_cases hlead : o.lead.chars = []
  · exact nodesFollow_of_speakSame
      (speakSame_of_understood h hlead (hboth.resolve_left fun hne => hne hlead))
  · exact nodesFollow_of_speakSame (speakSame_of_lead hlead)

/-- The snapshot with every key is followed. -/
theorem fullSnapshot_followed : Understood fullSnapshot ∧ NodesFollow fullSnapshot :=
  ⟨fullSnapshot_understood, nodes_follow_host fullSnapshot_flat (Or.inr fullSnapshot_understood)⟩

end Htsn
