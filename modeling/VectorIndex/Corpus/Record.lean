import VectorIndex.Document.External
import VectorIndex.Error
import VectorIndex.Text.Blank
import VectorIndex.Text.Lines
import VectorIndex.Text.Utf8

/-!
# Corpus records

A corpus is a file with one JSON object a line. Blank lines are skipped but counted. A record
without an id is named by the number of records before it, good or bad; a line that is no text
is reported and counts neither as a line nor as a record.
-/

namespace VectorIndex

structure Corpus where
  path : Path
  textField : String
  idField : String

structure Record where
  externalId : ExternalId
  text : String
  deriving DecidableEq

/-- What one pass over a corpus yields: items in order and then, when the corpus cannot be read,
the same failure again and again. -/
structure Pass (α : Type) where
  items : List α
  stuck : Option α

namespace Pass

variable {α β : Type}

def ofList (items : List α) : Pass α := ⟨items, none⟩

def map (f : α → β) (pass : Pass α) : Pass β := ⟨pass.items.map f, pass.stuck.map f⟩

def take (pass : Pass α) (count : Nat) : List α :=
  match pass.stuck with
  | none => pass.items.take count
  | some failure =>
    pass.items.take count ++ List.replicate (count - pass.items.length) failure

/-- All items, and the failure once. -/
def toList (pass : Pass α) : List α := pass.items ++ pass.stuck.toList

end Pass

namespace Corpus

def malformed (corpus : Corpus) (line : Nat) (reason : String) : IndexError :=
  .serialization corpus.path s!"line {line}: {reason}"

/-- The id that a record names, or the number of records before it. -/
def idOf (before : Nat) : Option Json → Except String ExternalId
  | some (.string value) => .ok (.text value)
  | some (.number (.integer value)) =>
    .ok (if value < 0x8000000000000000 then .number value else .text (toString value))
  | some (.number value) => .ok (.text value.toText)
  | some other => .error s!"unsupported id value {other.compact}"
  | none => .ok (.number before)

def parse (corpus : Corpus) (line before : Nat) (text : String) : Except IndexError Record :=
  match Json.parseValue text with
  | none => .error (corpus.malformed line "not a JSON value")
  | some value =>
    match value.member? corpus.textField with
    | some (.string body) =>
      match idOf before (value.member? corpus.idField) with
      | .ok id => .ok ⟨id, body⟩
      | .error reason => .error (corpus.malformed line reason)
    | _ => .error (corpus.malformed line s!"missing string field '{corpus.textField}'")

/-- The records of the lines behind `line` lines and `before` records. -/
def recordsFrom (corpus : Corpus) : List Bytes → Nat → Nat → List (Except IndexError Record)
  | [], _, _ => []
  | bytes :: rest, line, before =>
    match Utf8.decodeChars bytes with
    | none => .error (.fileRead corpus.path .notUtf8) :: recordsFrom corpus rest line before
    | some text =>
      if (Text.trim text).isEmpty then recordsFrom corpus rest (line + 1) before
      else
        corpus.parse (line + 1) before (String.ofList text) ::
          recordsFrom corpus rest (line + 1) (before + 1)

def recordsOf (corpus : Corpus) (contents : Bytes) : List (Except IndexError Record) :=
  corpus.recordsFrom (Text.lines contents) 0 0

/-- Starts a pass. A directory can be opened, but every attempt to read it fails. -/
def records (corpus : Corpus) : IndexProgram (Pass (Except IndexError Record)) := do
  let source ← IndexProgram.check (.fileRead corpus.path)
    (← IndexProgram.perform (.fetch corpus.path))
  match source.read with
  | .ok contents => return .ofList (corpus.recordsOf contents)
  | .error fault => return ⟨[], some (.error (.fileRead corpus.path fault))⟩

/-- The texts to encode. -/
def texts (corpus : Corpus) : IndexProgram (Pass (Except IndexError String)) := do
  return (← corpus.records).map (·.map (·.text))

end Corpus
end VectorIndex
