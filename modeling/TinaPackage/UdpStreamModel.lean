import TinaPackage.MachineInt
import TinaPackage.RingLog
import TinaPackage.Runs

/-! The buffer of a UDP stream (`stream/udp/CdxUdpStream.c`). The writer starts over at position 0
before a datagram might not fit and notes in `endPos` where it stopped; the reader clears `endPos`
when it gets there. Positions are 32-bit numbers. A step of the download thread is one round of the
loop in `UdpDownloadData`; a read first settles on a length without the mutex and then copies in one
step. A step is `none` where the source would leave the buffer. -/
namespace TinaPackage.Udp

def sizeToReadEverytime : ℕ := 64*1024

def bufSize : ℕ := 20*1024*1024

structure UdpStream where
  bigBuf : ℕ → UInt8
  validDataSize : ℕ
  writePos : ℕ
  readPos : ℕ
  endPos : ℕ
  accumulatedDownload : ℤ
  /-- whether `UdpDownloadData` holds the mutex -/
  downloading : Bool
  /-- the length that a read has settled on -/
  reading : Option ℕ
  /-- what `recv` has returned so far -/
  received : List UInt8
  /-- what reads have returned so far -/
  returned : List UInt8

/-- What `recv` returns. -/
inductive RecvResult
  | data (datagram : List UInt8)
  | again
  | error
  | closed

inductive UdpAction
  /-- the download thread calls `UdpDownloadData`, which locks -/
  | lock
  /-- a round of the loop that finds `exitFlag` set -/
  | exit
  | round (result : RecvResult)
  /-- `UdpStreamRead` before it locks; `exited` is `downloadThreadExit` -/
  | check (len : ℕ) (exited : Bool)
  /-- `UdpStreamRead` with the mutex -/
  | copy

namespace UdpStream

def create (bigBuf : ℕ → UInt8) : UdpStream where
  bigBuf := bigBuf
  validDataSize := 0
  writePos := 0
  readPos := 0
  endPos := 0
  accumulatedDownload := 0
  downloading := false
  reading := none
  received := []
  returned := []

variable (s : UdpStream)

def wrap : UdpStream :=
  if subU32 bufSize s.writePos < sizeToReadEverytime then
    { s with endPos := s.writePos, writePos := 0 }
  else s

def isFull : Bool :=
  let endPos := if s.endPos > 0 then s.endPos else bufSize
  subU32 endPos s.validDataSize < sizeToReadEverytime

def receive (datagram : List UInt8) : Option UdpStream :=
  if s.writePos+datagram.length ≤ bufSize then
    some { s with
      bigBuf := store s.bigBuf s.writePos datagram
      validDataSize := (s.validDataSize+datagram.length) % 2^32
      writePos := (s.writePos+datagram.length) % 2^32
      accumulatedDownload := int64 (s.accumulatedDownload+datagram.length)
      received := s.received ++ datagram }
  else none

/-- A round of the loop in `UdpDownloadData`. All but a datagram ends the loop. -/
def round (result : RecvResult) : Option UdpStream :=
  let s := s.wrap
  if s.isFull then some { s with downloading := false }
  else
    match result with
    | .data datagram => s.receive datagram
    | .again | .error | .closed => some { s with downloading := false }

/-- The reader waits for `len` bytes, as far as so many can be there, unless the download thread has
ended. Without a byte it reports the end of the stream. -/
def check (len : ℕ) (exited : Bool) : UdpStream :=
  let size := subU32 bufSize (2*sizeToReadEverytime)
  let len := if len > size then size else len
  if s.validDataSize < len ∧ exited = false then s
  else if s.validDataSize = 0 then s
  else { s with reading := some (if s.validDataSize < len then s.validDataSize else len) }

def copy : Option UdpStream :=
  match s.reading with
  | none => some s
  | some len =>
    let size := subU32 s.endPos s.readPos
    if s.endPos > 0 ∧ size < len then
      if s.readPos+size ≤ bufSize ∧ len-size ≤ bufSize then
        some { s with
          returned := s.returned ++ (load s.bigBuf s.readPos size ++ load s.bigBuf 0 (len-size))
          readPos := len-size
          endPos := 0
          validDataSize := subU32 s.validDataSize len
          reading := none }
      else none
    else if s.readPos+len ≤ bufSize then
      let readPos := (s.readPos+len) % 2^32
      some { s with
        returned := s.returned ++ load s.bigBuf s.readPos len
        readPos := if s.endPos > 0 ∧ readPos ≥ s.endPos then 0 else readPos
        endPos := if s.endPos > 0 ∧ readPos ≥ s.endPos then 0 else s.endPos
        validDataSize := subU32 s.validDataSize len
        reading := none }
    else none

def tell : ℤ :=
  if s.endPos > 0 then s.accumulatedDownload-subU32 s.endPos s.readPos-s.writePos
  else s.accumulatedDownload-subU32 s.writePos s.readPos

def step : UdpAction → Option UdpStream
  | .lock => some { s with downloading := true }
  | .exit => some { s with downloading := false }
  | .round result => s.round result
  | .check len exited => some (s.check len exited)
  | .copy => s.copy

/-- How the threads take turns: the download thread calls when more than two datagrams fit, a
datagram has at most 64 KiB, and the mutex keeps a copy out of the loop. An `int64` counts the
bytes. -/
def Turn : UdpAction → Prop
  | .lock => s.downloading = false ∧ 2*sizeToReadEverytime < subU32 bufSize s.validDataSize
  | .exit => s.downloading = true
  | .round (.data datagram) => s.downloading = true ∧ 0 < datagram.length ∧
      datagram.length ≤ sizeToReadEverytime ∧ s.received.length+datagram.length < 2^63
  | .round _ => s.downloading = true
  | .check _ _ => s.reading = none
  | .copy => s.downloading = false ∧ s.reading ≠ none

instance (s : UdpStream) (a : UdpAction) : Decidable (s.Turn a) := by
  cases a with
  | round result => cases result <;> unfold Turn <;> infer_instance
  | _ => unfold Turn; infer_instance

end UdpStream

end TinaPackage.Udp
