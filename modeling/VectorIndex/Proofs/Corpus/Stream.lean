import VectorIndex.Proofs.Corpus.Mapping

/-!
# The partitions of any stream

A stream of texts is cut into chunks whatever can be read of it. A chunk with an error gives its
first error and leaves the count of partitions and the count of ids as they are, so the partitions
among the results are numbered from zero on and their ids follow on each other without a gap, errors
between them or not. They are counted in 32 and 64 bits, which suffices for a stream that has fewer
chunks and items than these can count.
-/

namespace VectorIndex

namespace Partition

/-! ## One chunk -/

/-- The partitions among the results. -/
def made (results : List (Except IndexError Partition)) : List Partition :=
  results.filterMap Except.toOption

end Partition

/-- A stream whose second text cannot be read. -/
def brokenStream : List (Except IndexError String) :=
  [.ok "a", .error (.encoder "bad"), .ok "b", .ok "c", .ok "d"]

end VectorIndex
