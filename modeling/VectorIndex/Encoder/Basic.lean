import VectorIndex.Error
import VectorIndex.Vector.Contract

/-!
# Encoders

An encoder turns texts into vectors of its dimension. Every batch is held to the encoding
contract: one unit vector for each text. A worker may find its encoder missing, and an encoder may
crash in the middle of a batch.
-/

namespace VectorIndex

/-- Why an encoder gives no vectors. -/
inductive EncoderFault where
  | refused (error : VectorError)
  | crashed

structure Encoder where
  dimension : Dimension
  embed : List String → Except EncoderFault (List Vec)

/-- What stops the encoding of a batch. -/
inductive Interruption where
  | failed (error : IndexError)
  | crashed

/-- The error of an interruption that nobody stands by to catch. -/
def Interruption.toError : Interruption → IndexError
  | .failed error => error
  | .crashed => .panicked

namespace Encoder

def checkVectors (dimension : Dimension) (partition : Option PartitionIndex) :
    Nat → List Vec → Except IndexError Unit
  | _, [] => .ok ()
  | position, v :: rest =>
    match dimension.checkUnitVector v with
    | .ok () => checkVectors dimension partition (position + 1) rest
    | .error e =>
      .error (.encodingContractViolation partition s!"vector {position} of batch: {e.message}")

/-- Whether `vectors` are what a batch of `inputs` texts may become. -/
def checkBatch (dimension : Dimension) (inputs : Nat) (vectors : List Vec)
    (partition : Option PartitionIndex) : Except IndexError Unit :=
  if vectors.length ≠ inputs then
    .error (.encodingContractViolation partition
      s!"encoder returned {vectors.length} vectors for {inputs} inputs")
  else checkVectors dimension partition 0 vectors

/-- Encodes a batch under the contract. A refusal names the partition, if there is one. -/
def encodeBatch (encoder : Encoder) (texts : List String) (partition : Option PartitionIndex) :
    Except Interruption (List Vec) :=
  match encoder.embed texts with
  | .error .crashed => .error .crashed
  | .error (.refused e) =>
    .error (.failed (match partition with
      | some partition => .shardEncodingFailure partition e.message
      | none => .encoder e.message))
  | .ok vectors =>
    match checkBatch encoder.dimension texts.length vectors partition with
    | .ok () => .ok vectors
    | .error error => .error (.failed error)

end Encoder

/-- Where a worker encodes. -/
inductive Device where
  | cpu
  | accelerator (ordinal : Nat)
  deriving DecidableEq

namespace Device

/-- Workers take turns on the accelerators, which are numbered in 32 bits, or stay on the CPU when
there are none. -/
def forWorker (worker accelerators : Nat) : Device :=
  if accelerators = 0 then cpu else accelerator (worker % accelerators % 0x100000000)

def name : Device → String
  | cpu => "cpu"
  | accelerator ordinal => s!"cuda:{ordinal}"

end Device

structure Worker where
  index : Nat
  device : Device
  deriving DecidableEq

/-- Makes the encoder of a worker when the worker starts. -/
abbrev EncoderFactory := Worker → IndexProgram Encoder

end VectorIndex
