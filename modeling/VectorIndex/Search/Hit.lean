import VectorIndex.Corpus.Mapping

/-!
# Search results

A hit is a document with its distance from the query. Hits are ranked by distance, equal
distances by id, and the best of a stream of hits are kept in a list of bounded length.
-/

namespace VectorIndex

structure SearchHit where
  id : DocumentId
  /-- One less the inner product; lower is closer. -/
  distance : Binary32
  deriving DecidableEq

namespace SearchHit

def compare (a b : SearchHit) : Ordering :=
  match a.distance.totalCompare b.distance with
  | .eq => Ord.compare a.id b.id
  | order => order

/-- Ranks no later. -/
def le (a b : SearchHit) : Bool := a.compare b != .gt

def lt (a b : SearchHit) : Bool := a.compare b == .lt

def ranked (hits : List SearchHit) : List SearchHit := hits.mergeSort le

/-- The last in rank, the later of equals. -/
def worst? : List SearchHit → Option SearchHit
  | [] => none
  | first :: rest => some (rest.foldl (fun worst hit ↦ if le worst hit then hit else worst) first)

/-- Puts a hit behind every hit that ranks no later. -/
def insert (hit : SearchHit) : List SearchHit → List SearchHit
  | [] => [hit]
  | other :: rest => if lt hit other then hit :: other :: rest else other :: insert hit rest

/-- Takes a hit into a ranked list of at most `k`, from which the last drops out. -/
def keep (k : Nat) (best : List SearchHit) (hit : SearchHit) : List SearchHit :=
  if best.length < k then insert hit best
  else
    match best.getLast? with
    | some last => if lt hit last then insert hit best.dropLast else best
    | none => best

end SearchHit

/-- A hit with the name that its document has outside. -/
structure ExternalHit where
  id : ExternalId
  internalId : DocumentId
  distance : Binary32
  deriving DecidableEq

namespace ExternalHit

/-- Without a mapping, or past its end, the number of the document is its name. -/
def resolve (mapping : Option IdMapping) (hit : SearchHit) : ExternalHit :=
  ⟨(mapping.bind (·.get? hit.id)).getD (.ofDocument hit.id), hit.id, hit.distance⟩

def toJson (hit : ExternalHit) : Json :=
  .object [("id", hit.id.toJson), ("internal_id", .nat hit.internalId),
    ("distance", .number (.single hit.distance))]

def listJson (hits : List ExternalHit) : Json := .array (hits.map toJson)

end ExternalHit
end VectorIndex
