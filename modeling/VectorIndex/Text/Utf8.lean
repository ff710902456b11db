import VectorIndex.Bytes.Basic

/-!
# Text as bytes

Decoding accepts exactly the well-formed sequences: no overlong form, no surrogate, nothing
above the last code point.
-/

namespace VectorIndex.Utf8

def encode (text : String) : Bytes := text.toUTF8.toList

/-- The six payload bits of a byte that continues a sequence. -/
def continuation? (byte : UInt8) : Option Nat :=
  if 0x80 ≤ byte ∧ byte < 0xc0 then some (byte.toNat - 0x80) else none

/-- The code point at the head of the bytes, and what follows it. -/
def head? : Bytes → Option (Char × Bytes)
  | [] => none
  | a :: rest =>
    if a < 0x80 then some (Char.ofNat a.toNat, rest)
    else if a < 0xc2 then none
    else if a < 0xe0 then
      match rest with
      | b :: rest => do
        let b ← continuation? b
        some (Char.ofNat ((a.toNat - 0xc0) * 64 + b), rest)
      | _ => none
    else if a < 0xf0 then
      match rest with
      | b :: c :: rest => do
        let b ← continuation? b
        let c ← continuation? c
        let point := (a.toNat - 0xe0) * 4096 + b * 64 + c
        if point < 0x800 ∨ (0xd800 ≤ point ∧ point < 0xe000) then none
        else some (Char.ofNat point, rest)
      | _ => none
    else if a < 0xf5 then
      match rest with
      | b :: c :: d :: rest => do
        let b ← continuation? b
        let c ← continuation? c
        let d ← continuation? d
        let point := (a.toNat - 0xf0) * 262144 + b * 4096 + c * 64 + d
        if point < 0x10000 ∨ 0x110000 ≤ point then none else some (Char.ofNat point, rest)
      | _ => none
    else none

theorem length_lt_of_head? {bytes rest : Bytes} {c : Char} (found : head? bytes = some (c, rest)) :
    rest.length < bytes.length := by
  unfold head? at found
  split at found
  · simp at found
  · split at found
    · simp only [Option.some.injEq, Prod.mk.injEq] at found
      simp [found.2]
    · split at found
      · simp at found
      · split at found
        · split at found
          · simp only [Option.bind_eq_bind, Option.bind_eq_some_iff, Option.some.injEq,
              Prod.mk.injEq] at found
            obtain ⟨_, _, _, rfl⟩ := found
            simp only [List.length_cons]; omega
          · simp at found
        · split at found
          · split at found
            · simp only [Option.bind_eq_bind, Option.bind_eq_some_iff] at found
              obtain ⟨_, _, _, _, found⟩ := found
              split at found
              · simp at found
              · simp only [Option.some.injEq, Prod.mk.injEq] at found
                obtain ⟨_, rfl⟩ := found
                simp only [List.length_cons]; omega
            · simp at found
          · split at found
            · split at found
              · simp only [Option.bind_eq_bind, Option.bind_eq_some_iff] at found
                obtain ⟨_, _, _, _, _, _, found⟩ := found
                split at found
                · simp at found
                · simp only [Option.some.injEq, Prod.mk.injEq] at found
                  obtain ⟨_, rfl⟩ := found
                  simp only [List.length_cons]; omega
              · simp at found
            · simp at found

/-- The code points of the bytes behind those already read, which are held in reverse. -/
def decodeOnto (reversed : List Char) (bytes : Bytes) : Option (List Char) :=
  if bytes.isEmpty then some reversed.reverse
  else
    match _found : head? bytes with
    | some (c, rest) => decodeOnto (c :: reversed) rest
    | none => none
termination_by bytes.length
decreasing_by exact length_lt_of_head? _found

def decodeChars (bytes : Bytes) : Option (List Char) := decodeOnto [] bytes

def decode (bytes : Bytes) : Option String := (decodeChars bytes).map String.ofList

/-- How many of the bytes behind `first` belong to the same broken sequence. -/
def brokenTail (first : UInt8) (rest : Bytes) : Nat :=
  let inside (low high : UInt8) (byte : Option UInt8) : Bool :=
    byte.any fun byte ↦ low ≤ byte && byte ≤ high
  let second (low high : UInt8) : Bool := inside low high rest[0]?
  if 0xe0 ≤ first ∧ first < 0xf0 then
    let low := if first = 0xe0 then 0xa0 else 0x80
    let high := if first = 0xed then 0x9f else 0xbf
    if second low high then 1 else 0
  else if 0xf0 ≤ first ∧ first < 0xf5 then
    let low := if first = 0xf0 then 0x90 else 0x80
    let high := if first = 0xf4 then 0x8f else 0xbf
    if second low high then if inside 0x80 0xbf rest[1]? then 2 else 1 else 0
  else 0

/-- Decodes any bytes, with one replacement character for each broken sequence; `fuel` is at least
the number of bytes. -/
def lossyOnto (reversed : List Char) : Nat → Bytes → List Char
  | 0, _ => reversed.reverse
  | _, [] => reversed.reverse
  | fuel + 1, first :: rest =>
    match head? (first :: rest) with
    | some (c, rest) => lossyOnto (c :: reversed) fuel rest
    | none => lossyOnto ('\ufffd' :: reversed) fuel (rest.drop (brokenTail first rest))

def decodeLossy (bytes : Bytes) : String := String.ofList (lossyOnto [] bytes.length bytes)

end VectorIndex.Utf8
