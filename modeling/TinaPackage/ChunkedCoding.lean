import Mathlib

/-! The chunked transfer coding: a body is a sequence of chunks, each with its size in
hexadecimal on a line of its own, and ends with a chunk of size zero. -/
namespace TinaPackage

def hexDigitValue (b : UInt8) : Option ℕ :=
  if 48 ≤ b ∧ b ≤ 57 then some (b.toNat-48)
  else if 97 ≤ b ∧ b ≤ 102 then some (b.toNat-87)
  else if 65 ≤ b ∧ b ≤ 70 then some (b.toNat-55)
  else none

def isHexDigit (b : UInt8) : Bool := (hexDigitValue b).isSome

def hexNumber (ds : List UInt8) : ℕ := ds.foldl (fun n b => 16*n+(hexDigitValue b).getD 0) 0

def crlf : List UInt8 := [13,10]

structure BodyChunk where
  digits : List UInt8
  payload : List UInt8
  digits_ne_nil : digits ≠ []
  hex : ∀ b ∈ digits, isHexDigit b = true
  payload_ne_nil : payload ≠ []
  size : hexNumber digits = payload.length

structure LastChunk where
  digits : List UInt8
  digits_ne_nil : digits ≠ []
  hex : ∀ b ∈ digits, isHexDigit b = true
  size : hexNumber digits = 0

def encodeChunks (last : LastChunk) : List BodyChunk → List UInt8
  | [] => last.digits ++ (crlf ++ crlf)
  | c :: cs => c.digits ++ (crlf ++ (c.payload ++ (crlf ++ encodeChunks last cs)))

variable (last : LastChunk)

def sizeDigits : List BodyChunk → List UInt8
  | [] => last.digits
  | c :: _ => c.digits

def afterSizeLine : List BodyChunk → List UInt8
  | [] => crlf
  | c :: cs => c.payload ++ (crlf ++ encodeChunks last cs)

def payloads (cs : List BodyChunk) : List UInt8 := cs.flatMap BodyChunk.payload

def nextPayload : List BodyChunk → List UInt8
  | [] => []
  | c :: _ => c.payload

theorem encodeChunks_eq (cs : List BodyChunk) :
    encodeChunks last cs = sizeDigits last cs ++ (crlf ++ afterSizeLine last cs) := by
  cases cs with
  | nil => rfl
  | cons c cs => rfl

theorem hexNumber_sizeDigits (cs : List BodyChunk) :
    hexNumber (sizeDigits last cs) = (nextPayload cs).length := by
  cases cs with
  | nil => exact last.size
  | cons c cs => exact c.size

theorem isHexDigit_of_mem_sizeDigits {last : LastChunk} {cs : List BodyChunk} {b : UInt8}
    (h : b ∈ sizeDigits last cs) : isHexDigit b = true := by
  cases cs with
  | nil => exact last.hex b h
  | cons c cs => exact c.hex b h

end TinaPackage
