import FencedPool.Proofs.Node.RoundTrip
import FencedPool.Proofs.Request.Schema
import FencedPool.Scheduler

/-!
# Records — what the records of nodes can be read as

The record that the scheduler stores for a node is read back as it is.  It names no consumer, so it
is never taken for a request, and a pass that comes upon one below the request root ends there.

The main statements are `Scheduler.decode_nodeRecord` and `Scheduler.exists_refused_nodeRecord`.
-/

namespace FencedPool

namespace Scheduler

variable (number : Nat) (label : String)

theorem attributes_nodeRecord :
    (nodeRecord number label).attributes = Table.empty.insert "provider" (.str "simulated") := rfl

theorem attributesStorable_nodeRecord : (nodeRecord number label).AttributesStorable := by
  intro e he
  rw [attributes_nodeRecord] at he
  rw [List.mem_singleton.1 he]
  exact .str _ _

theorem unclashing_nodeRecord : (nodeRecord number label).Unclashing := by
  unfold NodeMetadata.Unclashing
  rw [attributes_nodeRecord]
  decide

/-- The record of a node is read back as it is. -/
theorem decode_nodeRecord (path : String) :
    NodeMetadata.decode path (nodeRecord number label).encode = .ok (nodeRecord number label) :=
  (NodeMetadata.decode_encode_iff (attributesStorable_nodeRecord number label) path).2
    (unclashing_nodeRecord number label)

theorem find?_members_nodeRecord :
    Entries.find? "consumerLabel" (nodeRecord number label).members = none := by
  have hattribute : Entries.find? "consumerLabel" (nodeRecord number label).attributes.toList =
      none := by
    rw [attributes_nodeRecord]
    decide
  unfold NodeMetadata.members NodeMetadata.fields
  simp [Entries.find?_append, NodeMetadata.find?_member?, hattribute]

/-- The record of a node is no request. -/
theorem exists_refused_nodeRecord (path : String) :
    ∃ e, NodeRequest.decode path (nodeRecord number label).encode = .error e := by
  cases hdecode : NodeRequest.decode path (nodeRecord number label).encode with
  | error e => exact ⟨e, rfl⟩
  | ok r =>
      -- a request would have its consumer among the members
      have hparse := NodeMetadata.parse_encode (attributesStorable_nodeRecord number label)
      rcases NodeRequest.exists_find?_of_decode hdecode hparse with ⟨v, hv⟩
      rw [Entries.find?_insertAll (unclashing_nodeRecord number label).pairwise_members,
        find?_members_nodeRecord] at hv
      cases hv

end Scheduler

end FencedPool
