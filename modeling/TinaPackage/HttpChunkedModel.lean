import TinaPackage.ChunkedCoding
import TinaPackage.MachineInt

/-! The reader of chunked bodies: `CdxReadChunkedData` of `CdxHttpStream.c` with
`ReadChunkedSize` and `ReadChunkedData` of `CdxHttpUtils.c`. A failed `CDX_CHECK` and a
write behind an array are `none`. -/
namespace TinaPackage.Http

/-- How the TCP stream answers a read: a force stop (-2), or up to `k + 1` bytes. -/
inductive Answer where
  | stop
  | give (k : ℕ)
  deriving DecidableEq

/-- The TCP stream below: the bytes still to come, the answers to the next reads (full ones when
the script has ended), and the values that `forceStopFlag` will have when it is looked at. -/
structure Net where
  rest : List UInt8
  script : List Answer
  flags : List Bool
  deriving DecidableEq

/-- `CdxStreamRead`: `none` is -2, and the number of bytes is the result otherwise. -/
def cdxStreamRead (n : ℕ) (net : Net) : Option (List UInt8) × Net :=
  match net.script with
  | .stop :: script => (none, { net with script })
  | .give k :: script =>
    (some (net.rest.take (min (k+1) n)), { net with rest := net.rest.drop (min (k+1) n), script })
  | [] => (some (net.rest.take n), { net with rest := net.rest.drop n })

/-- What `ReadChunkedSize` returns. It stores the digits it has read only when it is stopped. -/
structure SizeRead where
  ret : ℤ
  tmpLen : List UInt8
  net : Net
  deriving DecidableEq

def readSizeLoop : ℕ → List UInt8 → Net → Option SizeRead
  | 0, _, _ => none
  | fuel + 1, len, net =>
    match cdxStreamRead 1 net with
    -- the digits are copied to an array of ten places
    | (none, net) => if len.length < 10 then some ⟨-2,len,net⟩ else none
    | (some [], net) => some ⟨-1,[],net⟩
    | (some (byte :: _), net) =>
      if isHexDigit byte then
        if 10 < len.length+1 then some ⟨-1,[],net⟩
        else readSizeLoop fuel (len ++ [byte]) net
      else if byte = 13 then
        match cdxStreamRead 1 net with
        | (none, net) => if len.length < 10 then some ⟨-3,len,net⟩ else none
        | (some [10], net) => some ⟨int32 (hexNumber len),[],net⟩
        | (some _, _) => none
      else some ⟨-1,[],net⟩

-- the eleventh digit ends the loop
def readChunkedSize (net : Net) : Option SizeRead := readSizeLoop 11 [] net

/-- What `ReadChunkedData` returns, and what it has stored at `ptr`. -/
structure DataRead where
  ret : ℤ
  bytes : List UInt8
  net : Net
  deriving DecidableEq

def readDataEnd (bytes : List UInt8) (net : Net) : DataRead :=
  match cdxStreamRead 2 net with
  | (none, net) => ⟨-3,bytes,net⟩
  | (some [], net) => ⟨-1,bytes,net⟩
  | (some [_], net) => ⟨-4,bytes,net⟩
  | (some dummy, net) => if dummy = crlf then ⟨bytes.length,bytes,net⟩ else ⟨-1,bytes,net⟩

def readDataLoop (size : ℕ) : ℕ → List UInt8 → Net → Option DataRead
  | 0, _, _ => none
  | fuel + 1, bytes, net =>
    match cdxStreamRead (size-bytes.length) net with
    | (none, net) => some ⟨if bytes = [] then -2 else bytes.length,bytes,net⟩
    | (some [], net) => some ⟨0,bytes,net⟩
    | (some more, net) =>
      if (bytes ++ more).length = size then some (readDataEnd (bytes ++ more) net)
      else readDataLoop size fuel (bytes ++ more) net

-- a read that goes on has delivered a byte
def readChunkedData (size : ℕ) (net : Net) : Option DataRead := readDataLoop size (size+1) [] net

inductive IoState where
  | ok
  | eos
  | error
  deriving DecidableEq

/-- The fields of `CdxHttpStreamImplT` that the chunked reader uses. -/
structure HttpStream where
  httpDataBufferChunked : Option (List UInt8)
  httpDataSizeChunked : ℕ
  httpDataBufferPosChunked : ℕ
  restChunkSize : ℕ
  dataCRLF : ℕ
  tmpChunkedLen : List UInt8
  tmpChunkedSize : ℕ
  lenCRLF : ℕ
  chunkedLen : ℤ
  ioState : IoState
  deriving DecidableEq

inductive Next where
  | need (n : ℤ)
  | stopped
  | eos
  | error
  deriving DecidableEq

variable (impl : HttpStream) (size : ℤ) (net : Net)

def sizeWithoutLF : Next × HttpStream × Net :=
  let impl := { impl with lenCRLF := 1, chunkedLen := size }
  if size = 0 then (.eos, { impl with ioState := .eos }, net) else (.stopped, impl, net)

def readSizeFresh : Option (Next × HttpStream × Net) :=
  (readChunkedSize net).bind fun r =>
    let impl := { impl with tmpChunkedLen := r.tmpLen, tmpChunkedSize := r.tmpLen.length }
    if r.ret = 0 then some (.eos, { impl with ioState := .eos }, r.net)
    else if r.ret = -2 then some (.stopped, impl, r.net)
    else if r.ret = -3 then some (sizeWithoutLF impl (int32 (hexNumber r.tmpLen)) r.net)
    else if r.ret < 0 then some (.error, { impl with ioState := .error }, r.net)
    else some (.need r.ret, { impl with tmpChunkedSize := 0 }, r.net)

def readSizeAgain : Option (Next × HttpStream × Net) :=
  let chunkedLenChar := impl.tmpChunkedLen
  let chunkedSizeInt := impl.tmpChunkedSize
  (readChunkedSize net).bind fun r =>
    if 0 ≤ r.ret then
      -- the call has not stored its digits: the size is that of the first part alone
      let impl := { impl with tmpChunkedLen := [], tmpChunkedSize := 0 }
      let size := int32 (hexNumber chunkedLenChar)
      if size = 0 then some (.eos, { impl with ioState := .eos }, r.net)
      else some (.need size, impl, r.net)
    else if 10 ≤ chunkedLenChar.length+r.tmpLen.length then none
    else if r.ret = -2 then
      some (.stopped, { impl with
        tmpChunkedLen := chunkedLenChar ++ r.tmpLen
        tmpChunkedSize := r.tmpLen.length+chunkedSizeInt }, r.net)
    else
      let impl := { impl with tmpChunkedLen := r.tmpLen, tmpChunkedSize := r.tmpLen.length }
      if r.ret = -3 then
        some (sizeWithoutLF impl (int32 (hexNumber (chunkedLenChar ++ r.tmpLen))) r.net)
      else some (.error, { impl with ioState := .error }, r.net)

def readSize : Option (Next × HttpStream × Net) :=
  if impl.chunkedLen ≠ 0 then some (.need impl.chunkedLen, { impl with chunkedLen := 0 }, net)
  else if 0 < impl.tmpChunkedSize then readSizeAgain impl net
  else readSizeFresh impl net

/-- Skip what an earlier call left of a line end: behind the data, or the end of a size line. -/
def skipLineEnd : Option Next × HttpStream × Net :=
  if impl.dataCRLF ≠ 0 then
    match cdxStreamRead impl.dataCRLF net with
    | (none, net) => (some .stopped, impl, net)
    | (some [], net) => (some .error, { impl with ioState := .error }, net)
    | (some skipped, net) =>
      if skipped.length < impl.dataCRLF then
        (some .stopped, { impl with dataCRLF := impl.dataCRLF-skipped.length }, net)
      else (none, { impl with dataCRLF := 0 }, net)
  else if impl.lenCRLF ≠ 0 then
    match cdxStreamRead impl.lenCRLF net with
    | (none, net) => (some .stopped, impl, net)
    | (some [], net) => (some .error, { impl with ioState := .error }, net)
    | (some _, net) => (none, { impl with lenCRLF := 0 }, net)
  else (none, impl, net)

def nextSize : Option (Next × HttpStream × Net) :=
  if 0 < impl.restChunkSize then some (.need impl.restChunkSize, impl, net)
  else match skipLineEnd impl net with
    | (some next, impl, net) => some (next, impl, net)
    | (none, impl, net) => readSize impl net

/-- A call of `CdxReadChunkedData` in progress. The number of bytes copied is its `sum`. -/
structure Call where
  impl : HttpStream
  net : Net
  copied : List UInt8
  deriving DecidableEq

def copyBuffer (len : ℕ) (c : Call) : Call :=
  match c.impl.httpDataBufferChunked with
  | none => c
  | some buffer =>
    let pos := c.impl.httpDataBufferPosChunked
    let size := min (len-c.copied.length) (c.impl.httpDataSizeChunked-pos)
    let impl := if c.impl.httpDataSizeChunked ≤ pos+size then
        { c.impl with
          httpDataBufferChunked := none
          httpDataBufferPosChunked := 0
          httpDataSizeChunked := 0 }
      else { c.impl with httpDataBufferPosChunked := pos+size }
    { c with impl, copied := c.copied ++ (buffer.drop pos).take size }

inductive Turn where
  | again (c : Call)
  | finish (ret : ℤ) (c : Call)
  deriving DecidableEq

def fillBuffer (n : ℕ) (c : Call) : Option Turn :=
  let impl := { c.impl with
    httpDataBufferPosChunked := 0
    restChunkSize := 0
    httpDataSizeChunked := 0 }
  (readChunkedData n c.net).bind fun r =>
    let impl := { impl with httpDataBufferChunked := some r.bytes }
    if r.ret ≤ 0 then
      if r.ret ≤ -2 then some (.finish (-2) { c with impl, net := r.net })
      else if r.ret = 0 then
        some (.finish 0 { c with impl := { impl with ioState := .eos }, net := r.net })
      else some (.finish (-1) { c with
        impl := { impl with httpDataBufferChunked := none, ioState := .error }, net := r.net })
    else some (.again { c with
      impl := { impl with
        restChunkSize := n-r.ret.toNat
        httpDataSizeChunked := r.ret.toNat }
      net := r.net })

def refill (c : Call) : Option Turn :=
  (nextSize c.impl c.net).bind fun (next, impl, net) =>
    let c := { c with impl, net }
    match next with
    | .stopped => some (.finish (-2) c)
    | .eos => some (.finish c.copied.length c)
    | .error => some (.finish (-1) { c with impl := { impl with httpDataBufferChunked := none } })
    -- an allocation of a negative size fails
    | .need n => if n < 0 then none else fillBuffer n.toNat c

def takeFlag (net : Net) : Bool × Net :=
  (net.flags.headD false, { net with flags := net.flags.tail })

def turn (len : ℕ) (c : Call) : Option Turn :=
  let (flag, net) := takeFlag c.net
  let c := { c with net }
  if flag then some (.finish (if c.copied = [] then -2 else c.copied.length) c)
  else
    let c := copyBuffer len c
    if c.copied.length < len then refill c else some (.again c)

def chunkedLoop (len : ℕ) : ℕ → Call → Option (ℤ × Call)
  | 0, _ => none
  | fuel + 1, c =>
    if c.copied.length < len then
      (turn len c).bind fun t =>
        match t with
        | .again c => chunkedLoop len fuel c
        | .finish ret c => some (ret, c)
    else some (c.copied.length, c)

-- a turn that goes on without filling the caller's buffer has taken a byte from the stream
def cdxReadChunkedData (len : ℕ) (impl : HttpStream) (net : Net) : Option (ℤ × Call) :=
  chunkedLoop len (net.rest.length+3) ⟨impl,net,[]⟩

def openedStream : HttpStream :=
  { httpDataBufferChunked := none
    httpDataSizeChunked := 0
    httpDataBufferPosChunked := 0
    restChunkSize := 0
    dataCRLF := 0
    tmpChunkedLen := []
    tmpChunkedSize := 0
    lenCRLF := 0
    chunkedLen := 0
    ioState := .ok }

end TinaPackage.Http
