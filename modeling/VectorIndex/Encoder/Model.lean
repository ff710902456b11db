import VectorIndex.Encoder.Basic

/-!
# Embedding models

A model is named, or it is fine-tuned and read from files. This library resolves names and reads
the files, and then refuses, since it has no runtime for the network itself.
-/

namespace VectorIndex

structure ModelSettings where
  name : String
  /-- Directory with the tokenizer files. -/
  baseModelPath : Option Path
  /-- Directory with the fine-tuned network. -/
  fineTunedModelPath : Option Path
  cacheDirectory : Option Path
  deriving DecidableEq

inductive NamedModel where
  | allMiniLmL6V2
  | allMiniLmL12V2
  | bgeSmallEnV15
  | bgeBaseEnV15
  deriving DecidableEq

namespace NamedModel

def name : NamedModel → String
  | allMiniLmL6V2 => "AllMiniLML6V2"
  | allMiniLmL12V2 => "AllMiniLML12V2"
  | bgeSmallEnV15 => "BGESmallENV15"
  | bgeBaseEnV15 => "BGEBaseENV15"

/-- The name under which the model is published. -/
def publishedName : NamedModel → String
  | allMiniLmL6V2 => "all-MiniLM-L6-v2"
  | allMiniLmL12V2 => "all-MiniLM-L12-v2"
  | bgeSmallEnV15 => "bge-small-en-v1.5"
  | bgeBaseEnV15 => "bge-base-en-v1.5"

def all : List NamedModel := [allMiniLmL6V2, allMiniLmL12V2, bgeSmallEnV15, bgeBaseEnV15]

def parse (text : String) : Except VectorError NamedModel :=
  match all.find? fun model ↦ model.name = text || model.publishedName = text with
  | some model => .ok model
  | none =>
    let supported := ", ".intercalate (all.map name)
    .error (.embeddingFailed s!"unknown embedding model '{text}'. Supported: {supported}")

end NamedModel

namespace ModelSettings

def default : ModelSettings := ⟨NamedModel.allMiniLmL6V2.name, none, none, none⟩

def tokenizerFiles : List String :=
  ["tokenizer.json", "config.json", "special_tokens_map.json", "tokenizer_config.json"]

def readParts : List Path → ExceptT VectorError StoreProgram Unit
  | [] => return ()
  | path :: rest => do
    let source ← ExceptT.lift (StoreProgram.perform (.fetch path))
    match source >>= Source.read with
    | .ok _ => readParts rest
    | .error fault =>
      throw (.embeddingFailed s!"failed to read '{path}': {fault.message}")

def load (settings : ModelSettings) : ExceptT VectorError StoreProgram Encoder := do
  match settings.fineTunedModelPath with
  | some fineTuned =>
    let some base := settings.baseModelPath
      | throw (.embeddingFailed "model.base_model_path is required with a fine-tuned model")
    readParts (tokenizerFiles.map (Path.join base) ++ [Path.join fineTuned "model.onnx"])
    throw (.embeddingFailed "Failed to load fine-tuned model: no model runtime is available")
  | none =>
    let _ ← ExceptT.mk (pure (NamedModel.parse settings.name))
    throw (.embeddingFailed ("Failed to initialize embedding model: no model runtime is " ++
      "available. Ensure you have internet connection for first-time model download"))

/-- Every worker loads a model of its own. -/
def factory (settings : ModelSettings) : EncoderFactory := fun _ ↦
  ExceptT.mk do
    match ← settings.load.run with
    | .ok encoder => return .ok encoder
    | .error error => return .error (.encoder error.message)

end ModelSettings
end VectorIndex
