import VectorIndex.Corpus.Partition
import VectorIndex.Corpus.Record
import VectorIndex.Store.Staging

/-!
# The id mapping

Position `i` of the mapping holds the external id of document `i`. The mapping is stored as one
JSON array.
-/

namespace VectorIndex

structure IdMapping where
  ids : List ExternalId
  deriving DecidableEq

namespace IdMapping

def size (mapping : IdMapping) : Nat := mapping.ids.length

def get? (mapping : IdMapping) (id : DocumentId) : Option ExternalId := mapping.ids[id]?

/-- The external ids of all records, in order. -/
def ofCorpus (corpus : Corpus) : IndexProgram IdMapping := do
  let records ← corpus.records
  let records ← IndexProgram.ofExcept (Partition.collect records.toList)
  return ⟨records.map (·.externalId)⟩

def toJson (mapping : IdMapping) : Json := .array (mapping.ids.map ExternalId.toJson)

def ofJson? (json : Json) : Option IdMapping := (json.items? ExternalId.ofJson?).map mk

def save (mapping : IdMapping) (path : Path) : IndexProgram Unit :=
  publishFile path (Utf8.encode mapping.toJson.compact)

def ofBytes? (bytes : Bytes) : Option IdMapping := do
  ofJson? (← Json.parseChars (← Utf8.decodeChars bytes))

def load (path : Path) : IndexProgram IdMapping := do
  let source ← IndexProgram.check (.fileRead path) (← IndexProgram.perform (.fetch path))
  match source.read with
  | .error fault => throw (.serialization path fault.message)
  | .ok contents =>
    match ofBytes? contents with
    | some mapping => return mapping
    | none => throw (.serialization path "not an array of ids")

end IdMapping
end VectorIndex
