import VectorIndex.Encoder.Basic
import VectorIndex.Search.Engine

/-!
# Serving an index

A handle holds the engine that new queries use; a reload that fails leaves it. A service answers
texts with external ids, and reads its mapping again when the mapping no longer has one entry for
each vector of the engine. A watcher reloads the handle when the metadata file changes.
-/

namespace VectorIndex

structure IndexHandle where
  current : QueryEngine

namespace IndexHandle

def «open» (directory : Path) (probes : Nat) : IndexProgram IndexHandle :=
  return ⟨← QueryEngine.load directory probes⟩

/-- The handle with another engine, and the engine it had. -/
def swap (handle : IndexHandle) (engine : QueryEngine) : QueryEngine × IndexHandle :=
  (handle.current, ⟨engine⟩)

/-- The handle with its directory loaded anew. -/
def reload (handle : IndexHandle) : IndexProgram IndexHandle :=
  return ⟨← QueryEngine.load handle.current.root handle.current.probes⟩

end IndexHandle

structure QueryService where
  encoder : Encoder
  mapping : Option IdMapping
  mappingPath : Option Path

namespace QueryService

def ofEncoder (encoder : Encoder) : QueryService := ⟨encoder, none, none⟩

def withMapping (service : QueryService) (mapping : IdMapping) : QueryService :=
  { service with mapping := some mapping }

/-- Takes the mapping of a file, if the file is there. -/
def withMappingFrom (service : QueryService) (path : Path) : IndexProgram QueryService := do
  let service := { service with mappingPath := some path }
  if ← ExceptT.lift (IndexProgram.exists? path) then
    return service.withMapping (← IdMapping.load path)
  else return service

/-- The mapping for an engine: the one at hand, or the one on disk when that does not fit. -/
def mappingFor (service : QueryService) (engine : QueryEngine) :
    IndexProgram (Option IdMapping) := do
  let fits := service.mapping.any fun mapping ↦ mapping.size = engine.metadata.vectorCount
  match service.mappingPath with
  | none => return service.mapping
  | some path =>
    if !fits && (← ExceptT.lift (IndexProgram.exists? path)) then
      return some (← IdMapping.load path)
    else return service.mapping

def encodeQuery (service : QueryService) (text : String) : Except IndexError Vec :=
  match service.encoder.encodeBatch [text] none with
  | .error interruption => .error interruption.toError
  | .ok vectors =>
    match vectors.getLast? with
    | some query => .ok query
    | none => .error (.encoder "encoder returned no vector")

/-- The `k` nearest documents to a text, and the service with the mapping it now holds. -/
def searchText (service : QueryService) (engine : QueryEngine) (text : String) (k : Nat) :
    StoreProgram (Except IndexError (List ExternalHit) × QueryService) := do
  match service.encodeQuery text with
  | .error error => return (.error error, service)
  | .ok query =>
    match ← (service.mappingFor engine).attempt with
    | .error error => return (.error error, service)
    | .ok none =>
      return ((engine.search query k none).map (·.map (ExternalHit.resolve none)), service)
    | .ok (some mapping) =>
      return (engine.searchExternal query k none mapping, service.withMapping mapping)

end QueryService

structure IndexWatcher where
  metadataPath : Path
  /-- When the metadata were changed that were loaded last. -/
  lastModified : Option Moment

namespace IndexWatcher

def ofHandle (handle : IndexHandle) : StoreProgram IndexWatcher := do
  let path := (Layout.mk handle.current.root).metadata
  return ⟨path, ← StoreProgram.perform (.modified path)⟩

/-- Loads the index anew if its metadata changed, and tells whether it did. -/
def poll (watcher : IndexWatcher) (handle : IndexHandle) :
    StoreProgram (Except IndexError Bool × IndexWatcher × IndexHandle) := do
  match ← StoreProgram.perform (.modified watcher.metadataPath) with
  | none => return (.ok false, watcher, handle)
  | some modified =>
    if watcher.lastModified = some modified then return (.ok false, watcher, handle)
    else
      match ← handle.reload.attempt with
      | .ok reloaded => return (.ok true, { watcher with lastModified := modified }, reloaded)
      | .error error => return (.error error, watcher, handle)

end IndexWatcher
end VectorIndex
