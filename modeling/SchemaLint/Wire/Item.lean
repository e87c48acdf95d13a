namespace SchemaLint

namespace Wire

/-!
# Items of the wire format

The wire format writes a message as a row of items, each a field number with a
payload.  This module cuts bytes into items.  It knows nothing about the meaning
of field numbers; groups appear as their start and end marks.
-/

/-- Reads the digits of a variable-length number, seven bits to a byte, the least
significant first.  At most `left` bytes are read, and the last one that is allowed
may carry one bit only. -/
def readDigits : Nat → List UInt8 → Option (Nat × List UInt8)
  | 0, _ => none
  | _ + 1, [] => none
  | left + 1, byte :: rest =>
    if byte < 128 then
      if left = 0 ∧ 1 < byte then none else some (byte.toNat, rest)
    else
      match readDigits left rest with
      | none => none
      | some (high, after) => some (high * 128 + (byte.toNat - 128), after)

/-- Reads a number of up to 64 bits, and gives it with the bytes behind it. -/
def readVarint (bytes : List UInt8) : Option (Nat × List UInt8) := readDigits 10 bytes

theorem length_after_of_readDigits {left : Nat} {bytes rest : List UInt8} {value : Nat}
    (h : readDigits left bytes = some (value, rest)) : rest.length < bytes.length := by
  induction left generalizing bytes value with
  | zero => simp [readDigits] at h
  | succ left ih =>
    cases bytes with
    | nil => simp [readDigits] at h
    | cons byte bytes =>
      rw [readDigits] at h
      split at h
      · split at h
        · simp at h
        · simp only [Option.some.injEq, Prod.mk.injEq] at h
          simp [h.2]
      · split at h
        · simp at h
        · next hrest =>
          simp only [Option.some.injEq, Prod.mk.injEq] at h
          rw [h.2] at hrest
          have hshorter := ih hrest
          simp only [List.length_cons]
          omega

theorem length_after_of_readVarint {bytes rest : List UInt8} {value : Nat}
    (h : readVarint bytes = some (value, rest)) : rest.length < bytes.length :=
  length_after_of_readDigits h

/-- Takes exactly `count` bytes. -/
def readBytes (count : Nat) (bytes : List UInt8) : Option (List UInt8 × List UInt8) :=
  if (bytes.take count).length = count then some (bytes.take count, bytes.drop count) else none

theorem length_after_of_readBytes {count : Nat} {bytes content rest : List UInt8}
    (h : readBytes count bytes = some (content, rest)) : rest.length ≤ bytes.length := by
  rw [readBytes] at h
  split at h
  · simp only [Option.some.injEq, Prod.mk.injEq] at h
    rw [← h.2]
    simp
  · simp at h

/-- What an item carries. -/
inductive Payload where
  | varint (value : Nat)
  | fixed64
  | bytes (content : List UInt8)
  | groupStart
  | groupEnd
  | fixed32
deriving DecidableEq, Inhabited

/-- A field number with its payload. -/
structure Item where
  number : Nat
  payload : Payload
deriving DecidableEq, Inhabited

/-- Reads the payload that a wire type announces. -/
def readPayload (wireType : Nat) (bytes : List UInt8) : Option (Payload × List UInt8) :=
  match wireType with
  | 0 => (readVarint bytes).map fun (value, rest) => (.varint value, rest)
  | 1 => (readBytes 8 bytes).map fun (_, rest) => (.fixed64, rest)
  | 2 =>
    match readVarint bytes with
    | none => none
    | some (size, content) =>
      (readBytes size content).map fun (content, rest) => (.bytes content, rest)
  | 3 => some (.groupStart, bytes)
  | 4 => some (.groupEnd, bytes)
  | 5 => (readBytes 4 bytes).map fun (_, rest) => (.fixed32, rest)
  | _ => none

theorem length_after_of_readPayload {wireType : Nat} {bytes rest : List UInt8}
    {payload : Payload} (h : readPayload wireType bytes = some (payload, rest)) :
    rest.length ≤ bytes.length := by
  unfold readPayload at h
  split at h
  · obtain ⟨⟨value, after⟩, hread, heq⟩ := Option.map_eq_some_iff.1 h
    have hshorter := length_after_of_readVarint hread
    simp only [Prod.mk.injEq] at heq
    rw [← heq.2]
    omega
  · obtain ⟨⟨value, after⟩, hread, heq⟩ := Option.map_eq_some_iff.1 h
    have hshorter := length_after_of_readBytes hread
    simp only [Prod.mk.injEq] at heq
    rw [← heq.2]
    exact hshorter
  · split at h
    · simp at h
    · next size content hsize =>
      obtain ⟨⟨value, after⟩, hread, heq⟩ := Option.map_eq_some_iff.1 h
      have hshorter := length_after_of_readBytes hread
      have hfirst := length_after_of_readVarint hsize
      simp only [Prod.mk.injEq] at heq
      rw [← heq.2]
      omega
  · simp only [Option.some.injEq, Prod.mk.injEq] at h
    simp [h.2]
  · simp only [Option.some.injEq, Prod.mk.injEq] at h
    simp [h.2]
  · obtain ⟨⟨value, after⟩, hread, heq⟩ := Option.map_eq_some_iff.1 h
    have hshorter := length_after_of_readBytes hread
    simp only [Prod.mk.injEq] at heq
    rw [← heq.2]
    exact hshorter
  · simp at h

/-- Reads one item.  Its key holds the field number, which is not zero, above the
three bits of the wire type, and fits in 32 bits. -/
def readItem (bytes : List UInt8) : Option (Item × List UInt8) :=
  match readVarint bytes with
  | none => none
  | some (key, content) =>
    if UInt32.size ≤ key ∨ key / 8 = 0 then none
    else (readPayload (key % 8) content).map fun (payload, rest) => (⟨key / 8, payload⟩, rest)

theorem length_after_of_readItem {bytes rest : List UInt8} {item : Item}
    (h : readItem bytes = some (item, rest)) : rest.length < bytes.length := by
  unfold readItem at h
  split at h
  · simp at h
  · next key content hkey =>
    split at h
    · simp at h
    · obtain ⟨⟨payload, after⟩, hread, heq⟩ := Option.map_eq_some_iff.1 h
      have hshorter := length_after_of_readPayload hread
      have hfirst := length_after_of_readVarint hkey
      simp only [Prod.mk.injEq] at heq
      rw [← heq.2]
      omega

/-- Cuts bytes into items, to the last byte. -/
def readItems (bytes : List UInt8) : Option (List Item) :=
  if bytes.isEmpty then some []
  else
    match h : readItem bytes with
    | none => none
    | some (item, rest) =>
      have : rest.length < bytes.length := length_after_of_readItem h
      (readItems rest).map (item :: ·)
termination_by bytes.length

/-- Reads the numbers of a packed list, to the last byte. -/
def readVarints (bytes : List UInt8) : Option (List Nat) :=
  if bytes.isEmpty then some []
  else
    match h : readVarint bytes with
    | none => none
    | some (value, rest) =>
      have : rest.length < bytes.length := length_after_of_readVarint h
      (readVarints rest).map (value :: ·)
termination_by bytes.length

end Wire

end SchemaLint
