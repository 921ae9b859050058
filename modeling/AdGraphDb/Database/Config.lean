import AdGraphDb.Core.Graph

/-!
# Tuning parameters
-/

namespace AdGraphDb
open Std

/-- Which node property fields to index. -/
inductive NodeFieldIndexing where
  | all
  | onlyFields (fields : List String)
  | none
deriving DecidableEq

structure DatabaseConfig where
  /-- Compact after this many writes; `none` disables it. -/
  autoCompactAfterWrites : Option Nat
  indexedNodeFields : NodeFieldIndexing
deriving DecidableEq

namespace DatabaseConfig

/-- `Default::default()`. -/
def default : DatabaseConfig := ⟨some 10000, .all⟩

def unrestricted : DatabaseConfig := ⟨none, .all⟩

def shouldIndexField (config : DatabaseConfig) (field : String) : Bool :=
  match config.indexedNodeFields with
  | .all => true
  | .onlyFields fields => fields.any fun s => s == field
  | .none => false

def indexesAllFields (config : DatabaseConfig) : Bool :=
  match config.indexedNodeFields with
  | .all => true
  | _ => false

theorem shouldIndexField_of_all {config : DatabaseConfig} (h : config.indexesAllFields = true)
    (field : String) : config.shouldIndexField field = true := by
  unfold indexesAllFields at h
  unfold shouldIndexField
  split at h
  · rename_i hc
    rw [hc]
  · cases h

/-- The properties that `open` and `insert_node` index. -/
def indexedProperties (config : DatabaseConfig) (props : Properties) : Properties :=
  props.filter fun field _ => config.shouldIndexField field

theorem getElem?_indexedProperties (config : DatabaseConfig) (props : Properties)
    (field : String) : (config.indexedProperties props)[field]? =
      if config.shouldIndexField field then props[field]? else none := by
  rw [indexedProperties, HashMap.getElem?_filter]
  cases props[field]? with
  | none => simp
  | some v => cases config.shouldIndexField field <;> simp

end DatabaseConfig

end AdGraphDb
