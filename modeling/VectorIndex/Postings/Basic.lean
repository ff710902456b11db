import VectorIndex.Codebook.Quantizer
import VectorIndex.Bytes.Basic
import VectorIndex.Document.Id

/-!
# Postings

A posting is a document id, stored in eight bytes, and the code of the document's vector.
-/

namespace VectorIndex

structure Posting where
  id : DocumentId
  code : Code
  deriving DecidableEq

namespace Posting

def idSize : Nat := 8

/-- Bytes of a posting with a code of `codeSize` bytes. -/
def size (codeSize : Nat) : Nat := idSize + codeSize

def toBytes (posting : Posting) : Bytes := Bytes.littleEndian idSize posting.id ++ posting.code

def ofBytes (bytes : Bytes) : Posting := ⟨Bytes.toNat (bytes.take idSize), bytes.drop idSize⟩

/-- The postings that a run of bytes holds. Bytes that are no whole posting are left over. -/
def split (codeSize : Nat) (bytes : Bytes) : List Posting :=
  ((chunks (size codeSize) bytes).filter (·.length = size codeSize)).map ofBytes

end Posting
end VectorIndex
