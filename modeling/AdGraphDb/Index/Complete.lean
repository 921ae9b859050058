import AdGraphDb.Index.Property
import AdGraphDb.Database.Config

/-!
# Complete indexes of fields

Once a field has an index, queries on it meet the index only. So it has to list every
node that carries the field: those that are shown to the index when they are inserted,
and those that were there before.
-/

namespace AdGraphDb
namespace PropertyIndex

/-- The tracked fields and those that have an index list every node that is shown under
the value that it carries. -/
def Complete (i : PropertyIndex) (tracked : String → Prop) (shows : NodeId → Node → Prop) : Prop :=
  ∀ field, tracked field ∨ i.isIndexed field = true → ∀ id n v, shows id n →
    n.properties[field]? = some v → id ∈ i.bucket field (.of v)

variable {i i' : PropertyIndex} {tracked : String → Prop} {shows shows' : NodeId → Node → Prop}

theorem Complete.mono (h : i.Complete tracked shows) (hs : ∀ id n, shows' id n → shows id n) :
    i.Complete tracked shows' :=
  fun field hf id n v hn hv => h field hf id n v (hs id n hn) hv

theorem isIndexed_congr {field : String} (h : i'.fields[field]? = i.fields[field]?) :
    i'.isIndexed field = i.isIndexed field := congrArg Option.isSome h

theorem bucket_congr {field : String} (h : i'.fields[field]? = i.fields[field]?) (k : FieldKey) :
    i'.bucket field k = i.bucket field k := by
  unfold bucket
  rw [h]

/-- An index that has been told of the node in some of the fields that it carries: in all
tracked fields, in all that have an index and in none that another node carries without
an index. -/
theorem Complete.insert (h : i.Complete tracked shows) {node : Node} (told : String → Prop)
    (hin : ∀ field v, told field → node.properties[field]? = some v →
      i'.fields[field]? = some ((i.fields[field]?.getD .default).insert node.id v))
    (hout : ∀ field, ¬(told field ∧ node.properties[field]?.isSome) →
      i'.fields[field]? = i.fields[field]?)
    (htold : ∀ field v, node.properties[field]? = some v →
      tracked field ∨ i.isIndexed field = true → told field)
    (hfirst : ∀ field v, node.properties[field]? = some v → told field → ¬tracked field →
      i.isIndexed field = false → ∀ id n, shows id n → n.properties[field]? = none) :
    i'.Complete tracked fun id n => (id = node.id ∧ n = node) ∨ shows id n := by
  intro field hf id n v hn hv
  by_cases hnode : told field ∧ node.properties[field]?.isSome
  · obtain ⟨ht, hsome⟩ := hnode
    obtain ⟨w, hw⟩ := Option.isSome_iff_exists.mp hsome
    have hbucket (k : FieldKey) : i'.bucket field k =
        if FieldKey.of w = k then i.bucket field k ++ [node.id] else i.bucket field k := by
      unfold bucket
      rw [hin field w ht hw, Option.getD_some, FieldIndex.bucket_insert]
    rw [hbucket]
    rcases hn with ⟨rfl, rfl⟩ | hold
    · obtain rfl := Option.some.inj (hw.symm.trans hv)
      rw [if_pos rfl]
      exact List.mem_append_right _ List.mem_cons_self
    · have hmem : id ∈ i.bucket field (.of v) := by
        by_cases hknown : tracked field ∨ i.isIndexed field = true
        · exact h field hknown id n v hold hv
        · rw [not_or, Bool.not_eq_true] at hknown
          rw [hfirst field w hw ht hknown.1 hknown.2 id n hold] at hv
          cases hv
      split_ifs
      · exact List.mem_append_left _ hmem
      · exact hmem
  · have hsame := hout field hnode
    rw [isIndexed_congr hsame] at hf
    rw [bucket_congr hsame]
    rcases hn with ⟨rfl, rfl⟩ | hold
    · exact absurd ⟨htold field v hv hf, by rw [hv]; rfl⟩ hnode
    · exact h field hf id n v hold hv

/-- All fields of the node are indexed, whatever is tracked. -/
theorem Complete.insertNode (h : i.Complete tracked shows) (ord : HashOrder) {node : Node}
    (hfirst : ∀ field v, node.properties[field]? = some v → ¬tracked field →
      i.isIndexed field = false → ∀ id n, shows id n → n.properties[field]? = none) :
    (i.insertNode ord node.id node.properties).Complete tracked
      fun id n => (id = node.id ∧ n = node) ∨ shows id n := by
  apply h.insert fun _ => True
  · intro field v _ hv
    rw [fields_insertNode, hv]
    rfl
  · intro field hnone
    rw [fields_insertNode, Option.not_isSome_iff_eq_none.mp fun hs => hnone ⟨trivial, hs⟩]
    rfl
  · exact fun _ _ _ _ => trivial
  · exact fun field v hv _ => hfirst field v hv

/-- Only what the configuration selects is indexed. -/
theorem Complete.indexed {config : DatabaseConfig}
    (h : i.Complete (fun field => config.shouldIndexField field = true) shows) {node : Node}
    (hfields : ∀ field, i'.fields[field]? =
      if config.shouldIndexField field then
        node.properties[field]?.elim i.fields[field]? fun v =>
          some ((i.fields[field]?.getD .default).insert node.id v)
      else i.fields[field]?)
    (hnew : ∀ field v, node.properties[field]? = some v →
      config.shouldIndexField field = false → i.isIndexed field = false) :
    i'.Complete (fun field => config.shouldIndexField field = true)
      fun id n => (id = node.id ∧ n = node) ∨ shows id n := by
  apply h.insert fun field => config.shouldIndexField field = true
  · intro field v ht hv
    rw [hfields, if_pos ht, hv]
    rfl
  · intro field hnone
    rw [hfields]
    split_ifs with ht
    · rw [Option.not_isSome_iff_eq_none.mp fun hs => hnone ⟨ht, hs⟩]
      rfl
    · rfl
  · rintro field v hv (ht | hi)
    · exact ht
    · by_contra hn
      rw [Bool.not_eq_true] at hn
      rw [hnew field v hv hn] at hi
      cases hi
  · exact fun field v hv ht hn => absurd ht hn

/-- The other nodes stay listed. -/
theorem Complete.removeNode (h : i.Complete tracked shows) (ord : HashOrder) (id : NodeId)
    (node : Node) : (i.removeNode ord id node.properties).Complete tracked
      fun j n => j ≠ id ∧ shows j n := by
  intro field hf j n v hn hv
  have hindexed : (i.removeNode ord id node.properties).isIndexed field = i.isIndexed field := by
    unfold isIndexed
    rw [fields_removeNode]
    cases node.properties[field]? with
    | none => rfl
    | some w => exact Option.isSome_map
  rw [hindexed] at hf
  have hmem := h field hf j n v hn.2 hv
  rw [bucket_removeNode]
  split_ifs
  · exact List.mem_filter.mpr ⟨hmem, decide_eq_true hn.1⟩
  · exact hmem

end PropertyIndex

end AdGraphDb
