import TinaPackage.HttpChunkedReads
import TinaPackage.Runs

/-! Runs of the chunked reader. Between two turns of its loop the stream stands at a place
of the body, and what it has buffered with what is to come is what is still to be delivered. -/
namespace TinaPackage.Http
open List Option Http

/-- The size line that begins with the digits `tmp` of earlier calls. It may be stopped before its
line end by a call that has copied nothing; one that was stopped among its digits must be stopped
again before it is complete, because the digits read last would be forgotten. -/
def SizePermitted (tmp : List UInt8) (net : Net) (copied : List UInt8) : Prop :=
  let ds := net.rest.takeWhile isHexDigit
  (stopAt (ds.length+2) net.script = none → (tmp = [] ∨ ds = []) ∧ (hexNumber (tmp ++ ds) = 0 ∨
        dataPermitted true (hexNumber (tmp ++ ds)) (net.script.drop (ds.length+2)) = true)) ∧
  StopFits tmp ds net.script ∧ ∀ i ∈ stopAt (ds.length+2) net.script,
    if i ≤ ds.length then copied = []
    -- a stop between the two end characters leaves the digits of this call behind
    else hexNumber (tmp ++ ds) = 0 ∨ copied = [] ∧ ds = []

instance (tmp : List UInt8) (net : Net) (copied : List UInt8) :
    Decidable (SizePermitted tmp net copied) := by
  unfold SizePermitted
  infer_instance

def RefillPermitted (c : Call) : Prop :=
  if 0 < c.impl.restChunkSize then dataPermitted true c.impl.restChunkSize c.net.script = true
  else if c.impl.lenCRLF = 0 then SizePermitted c.impl.tmpChunkedLen c.net c.copied
  else if c.net.script.head? = some .stop then c.copied = []
  else dataPermitted true c.impl.chunkedLen.toNat c.net.script.tail = true

instance (c : Call) : Decidable (RefillPermitted c) := by
  unfold RefillPermitted
  infer_instance

def TurnPermitted (len : ℕ) (c : Call) : Prop :=
  let flag := takeFlag c.net
  let c := copyBuffer len { c with net := flag.2 }
  flag.1 = false → c.copied.length < len → RefillPermitted c

instance (len : ℕ) (c : Call) : Decidable (TurnPermitted len c) :=
  inferInstanceAs (Decidable (_ → _ → _))

def LoopPermitted (len : ℕ) : ℕ → Call → Prop
  | 0, _ => True
  | fuel + 1, c => c.copied.length < len →
      TurnPermitted len c ∧ ∀ c', turn len c = some (.again c') → LoopPermitted len fuel c'

instance decidableLoopPermitted (len : ℕ) : ∀ fuel c, Decidable (LoopPermitted len fuel c)
  | 0, _ => isTrue trivial
  | fuel + 1, c =>
    have : Decidable (∀ c', turn len c = some (.again c') → LoopPermitted len fuel c') :=
      match h : turn len c with
      | some (.again c₁) =>
        match decidableLoopPermitted len fuel c₁ with
        | isTrue hc => isTrue fun c' hc' => by cases hc'; exact hc
        | isFalse hc => isFalse fun hall => hc (hall c₁ rfl)
      | some (.finish _ _) => isTrue fun c' hc' => by cases hc'
      | none => isTrue fun c' hc' => by cases hc'
    inferInstanceAs (Decidable (_ → _ ∧ _))

variable (impl : HttpStream)

structure Fields (rest lenLF : ℕ) (chunked : ℤ) (tmp : List UInt8) : Prop where
  restChunkSize : impl.restChunkSize = rest
  dataCRLF : impl.dataCRLF = 0
  lenCRLF : impl.lenCRLF = lenLF
  chunkedLen : impl.chunkedLen = chunked
  tmpChunkedLen : impl.tmpChunkedLen = tmp
  tmpChunkedSize : impl.tmpChunkedSize = tmp.length
  ioState : impl.ioState = .ok

/-- Sizes fit an `int`, and have at most ten digits. -/
def Short (last : LastChunk) (cs : List BodyChunk) : Prop :=
  last.digits.length ≤ 10 ∧ ∀ c ∈ cs, c.digits.length ≤ 10 ∧ c.payload.length < 2^31

/-- The stream stands at the bytes of a body, with this payload to come: in a size line of which
earlier calls have read `tmp`, before the last character of a size line, or in a payload. -/
inductive At (last : LastChunk) (impl : HttpStream) : List UInt8 → List UInt8 → Prop
  | size {cs : List BodyChunk} {tmp ds : List UInt8} (fields : Fields impl 0 0 0 tmp)
      (digits : sizeDigits last cs = tmp ++ ds) (short : Short last cs) :
      At last impl (ds ++ (crlf ++ afterSizeLine last cs)) (payloads cs)
  | lf {c : BodyChunk} {cs : List BodyChunk} (fields : Fields impl 0 1 c.payload.length [])
      (short : Short last (c :: cs)) :
      At last impl (10 :: afterSizeLine last (c :: cs)) (payloads (c :: cs))
  | data {payload : List UInt8} {cs : List BodyChunk} (ne : payload ≠ [])
      (fields : Fields impl payload.length 0 0 []) (short : Short last cs) :
      At last impl (payload ++ (crlf ++ encodeChunks last cs)) (payload ++ payloads cs)

structure Over (rest : List UInt8) : Prop where
  buffer : impl.httpDataBufferChunked = none
  restChunkSize : impl.restChunkSize = 0
  dataCRLF : impl.dataCRLF = 0
  chunkedLen : impl.chunkedLen = 0
  tmpChunkedLen : hexNumber impl.tmpChunkedLen = 0 ∧ impl.tmpChunkedLen.length < 10
  tmpChunkedSize : impl.tmpChunkedSize = impl.tmpChunkedLen.length
  rest : impl.lenCRLF = 0 ∧ (rest = crlf ∨ rest = []) ∨
    impl.lenCRLF = 1 ∧ (rest = 10 :: crlf ∨ rest = [10])

def unread : List UInt8 :=
  match impl.httpDataBufferChunked with
  | none => []
  | some buffer => buffer.drop impl.httpDataBufferPosChunked

def BufferOk : Prop :=
  ∀ buffer ∈ impl.httpDataBufferChunked, impl.httpDataSizeChunked = buffer.length

/-- A call that has to deliver `todo` with the calls after it. -/
structure Live (last : LastChunk) (todo : List UInt8) (c : Call) : Prop where
  buffer : BufferOk c.impl
  place : ∃ payload, At last c.impl c.net.rest payload ∧
    c.copied ++ (unread c.impl ++ payload) = todo

/-- A call that has ended: it returns the number of bytes it has copied, or has copied none. -/
structure Finished (last : LastChunk) (todo : List UInt8) (ret : ℤ) (c : Call) : Prop where
  ret : ret = c.copied.length ∨ ret ≤ 0 ∧ c.copied = []
  state : Live last todo c ∨ Over c.impl c.net.rest ∧ c.copied = todo

theorem copyBuffer_net (len : ℕ) (c : Call) : (copyBuffer len c).net = c.net := by
  unfold copyBuffer
  split <;> rfl

variable {tmp : List UInt8} {c : Call} {chunked : ℤ}

theorem Fields.copyBuffer {rest lenLF : ℕ} (h : Fields c.impl rest lenLF chunked tmp) (len : ℕ) :
    Fields (copyBuffer len c).impl rest lenLF chunked tmp := by
  unfold Http.copyBuffer
  split
  · exact h
  · simp only
    split <;> exact { h with }

variable {last : LastChunk} {rest payload : List UInt8}

theorem At.copyBuffer (h : At last c.impl rest payload) (len : ℕ) :
    At last (copyBuffer len c).impl rest payload := by
  cases h with
  | size fields digits short => exact .size (fields.copyBuffer len) digits short
  | lf fields short => exact .lf (fields.copyBuffer len) short
  | data ne fields short => exact .data ne (fields.copyBuffer len) short

theorem copyBuffer_unread (len : ℕ) (h : BufferOk c.impl) :
    BufferOk (copyBuffer len c).impl ∧
      (copyBuffer len c).copied ++ unread (copyBuffer len c).impl = c.copied ++ unread c.impl := by
  unfold copyBuffer
  cases hbuffer : c.impl.httpDataBufferChunked with
  | none => simp [BufferOk,unread,hbuffer]
  | some buffer =>
    have hsize : c.impl.httpDataSizeChunked = buffer.length := h buffer hbuffer
    simp only
    split
    · rename_i hall
      refine ⟨by simp [BufferOk],?_⟩
      -- the whole rest of the buffer was copied
      have hfull : ((buffer.drop c.impl.httpDataBufferPosChunked).take (min (len-c.copied.length)
            (c.impl.httpDataSizeChunked-c.impl.httpDataBufferPosChunked))) =
          buffer.drop c.impl.httpDataBufferPosChunked := by
        apply take_of_length_le
        rw [length_drop]
        omega
      simp [unread,hbuffer,hfull]
    · refine ⟨?_,?_⟩
      · intro b hb
        exact h b hb
      · simp only [unread,hbuffer,append_assoc]
        rw [← drop_drop,take_append_drop]

theorem copyBuffer_eq_none (len : ℕ) (h : BufferOk c.impl)
    (hmore : (copyBuffer len c).copied.length < len) :
    (copyBuffer len c).impl.httpDataBufferChunked = none := by
  unfold copyBuffer at hmore ⊢
  cases hbuffer : c.impl.httpDataBufferChunked with
  | none => simp [hbuffer]
  | some buffer =>
    have hsize : c.impl.httpDataSizeChunked = buffer.length := h buffer hbuffer
    simp only [hbuffer,length_append,length_take,length_drop] at hmore ⊢
    rw [if_pos (by omega)]

theorem foldl_hexNumber (n : ℕ) (ds : List UInt8) :
    ds.foldl (fun n b => 16*n+(hexDigitValue b).getD 0) n = 16^ds.length*n+hexNumber ds := by
  unfold hexNumber
  induction ds generalizing n with
  | nil => simp
  | cons b ds ih =>
    rw [foldl_cons,foldl_cons,ih,ih (16*0+_),length_cons,pow_succ]
    ring

theorem hexNumber_le_append (tmp ds : List UInt8) : hexNumber ds ≤ hexNumber (tmp ++ ds) := by
  have h : hexNumber (tmp ++ ds) = 16^ds.length*hexNumber tmp+hexNumber ds := by
    rw [← foldl_hexNumber]
    unfold hexNumber
    rw [foldl_append]
  omega

theorem takeWhile_isHexDigit {ds : List UInt8} (hex : ∀ b ∈ ds, isHexDigit b = true)
    (tail : List UInt8) : (ds ++ (crlf ++ tail)).takeWhile isHexDigit = ds := by
  rw [takeWhile_append_of_pos hex]
  have hcr : isHexDigit 13 = false := by decide
  simp [crlf,hcr]

def setTmp (impl : HttpStream) (tmp : List UInt8) : HttpStream :=
  { impl with tmpChunkedLen := tmp, tmpChunkedSize := tmp.length }

def sizeOutcome (impl : HttpStream) (tmp ds tail : List UInt8) (script : List Answer)
    (flags : List Bool) : Next × HttpStream × Net :=
  let size := hexNumber (tmp ++ ds)
  match stopAt (ds.length+2) script with
  | none =>
    let net := ⟨tail,script.drop (ds.length+2),flags⟩
    if size = 0 then (.eos, { setTmp impl [] with ioState := .eos }, net)
    else (.need size, setTmp impl [], net)
  | some i =>
    if i ≤ ds.length then
      (.stopped, setTmp impl (tmp ++ ds.take i),
        ⟨ds.drop i ++ (crlf ++ tail),script.drop (i+1),flags⟩)
    else sizeWithoutLF (setTmp impl ds) size ⟨10 :: tail,script.drop (i+1),flags⟩

theorem int32_natCast {n : ℕ} (h : n < 2^31) : int32 (n : ℤ) = n := by
  apply int32_of_range
  · omega
  · unfold intMax
    omega

section
variable {impl : HttpStream} {tmp ds tail : List UInt8} {script : List Answer} {flags : List Bool}

theorem readSizeFresh_eq (hex : ∀ b ∈ ds, isHexDigit b = true) (hlen : ds.length ≤ 10)
    (hfits : StopFits [] ds script) (hsize : hexNumber ds < 2^31) :
    readSizeFresh impl ⟨ds ++ (crlf ++ tail),script,flags⟩ =
      some (sizeOutcome impl [] ds tail script flags) := by
  unfold readSizeFresh sizeOutcome
  rw [readChunkedSize_eq script hex hlen hfits,bind_some]
  unfold sizeResult
  simp only [nil_append]
  cases stopAt (ds.length+2) script with
  | none =>
    simp only [int32_natCast hsize]
    by_cases hzero : hexNumber ds = 0
    · simp [hzero,setTmp]
    · rw [if_neg (by omega),if_neg (by omega),if_neg (by omega),if_neg (by omega),if_neg hzero]
      rfl
  | some i =>
    by_cases hi : i ≤ ds.length
    · simp [hi,setTmp]
    · simp [hi,setTmp,int32_natCast hsize]

section
variable (htmp : impl.tmpChunkedLen = tmp) (htmpSize : impl.tmpChunkedSize = tmp.length)
include htmp htmpSize

theorem readSizeAgain_eq (hex : ∀ b ∈ ds, isHexDigit b = true) (hlen : (tmp ++ ds).length ≤ 10)
    (hfits : StopFits tmp ds script) (hsize : hexNumber (tmp ++ ds) < 2^31)
    (hwhole : stopAt (ds.length+2) script = none → ds = []) :
    readSizeAgain impl ⟨ds ++ (crlf ++ tail),script,flags⟩ =
      some (sizeOutcome impl tmp ds tail script flags) := by
  rw [length_append] at hlen
  have hown : StopFits [] ds script := fun i hi => by
    have := hfits i hi
    rw [length_append] at this
    exact Nat.lt_of_le_of_lt (Nat.le_add_left ..) this
  unfold readSizeAgain sizeOutcome
  rw [readChunkedSize_eq script hex (by omega) hown]
  simp only [bind_some,htmp,htmpSize]
  unfold sizeResult
  cases hstop : stopAt (ds.length+2) script with
  | none =>
    -- no digit is left for this call, so none is forgotten
    have hds := hwhole hstop
    subst hds
    have hnone : int32 ((hexNumber [] : ℕ) : ℤ) = 0 := int32_natCast (by decide)
    simp only [append_nil] at hsize ⊢
    simp only [hnone,le_refl,if_true,int32_natCast hsize,Int.natCast_eq_zero]
    split
    · rfl
    · rfl
  | some i =>
    have hroom := hfits i hstop
    rw [length_append] at hroom
    by_cases hi : i ≤ ds.length
    · rw [length_take,min_eq_left hi] at hroom
      simp [hi,setTmp,add_comm]
      omega
    · rw [take_of_length_le (by omega)] at hroom
      have hroom : ¬ 10 ≤ tmp.length+ds.length := by omega
      simp [hi,hroom,setTmp,int32_natCast hsize]

theorem readSize_eq (hchunked : impl.chunkedLen = 0) (hex : ∀ b ∈ ds, isHexDigit b = true)
    (hlen : (tmp ++ ds).length ≤ 10) (hfits : StopFits tmp ds script)
    (hsize : hexNumber (tmp ++ ds) < 2^31)
    (hwhole : stopAt (ds.length+2) script = none → tmp = [] ∨ ds = []) :
    readSize impl ⟨ds ++ (crlf ++ tail),script,flags⟩ =
      some (sizeOutcome impl tmp ds tail script flags) := by
  unfold readSize
  rw [if_neg (by simp [hchunked]),htmpSize]
  by_cases hfresh : tmp = []
  · subst hfresh
    rw [if_neg (by simp),readSizeFresh_eq hex hlen hfits hsize]
  · rw [if_pos (length_pos_iff.mpr hfresh)]
    exact readSizeAgain_eq htmp htmpSize hex hlen hfits hsize
      fun h => (hwhole h).resolve_left hfresh

end

end

section
variable {last : LastChunk} {cs : List BodyChunk} {c : Call} {todo : List UInt8}
  {payload : List UInt8}

theorem fillBuffer_live (ne : payload ≠ [])
    (hrest : c.net.rest = payload ++ (crlf ++ encodeChunks last cs))
    (fields : Fields { c.impl with restChunkSize := 0 } 0 0 0 []) (short : Short last cs)
    (hp : dataPermitted true payload.length c.net.script = true)
    (htodo : c.copied ++ (payload ++ payloads cs) = todo) :
    ∃ c', fillBuffer payload.length c = some (.again c') ∧ Live last todo c' ∧
      c'.net.rest.length < c.net.rest.length := by
  obtain ⟨impl,⟨rest,script,flags⟩,copied⟩ := c
  obtain ⟨bytes,left,script',hread,hbytes,hor⟩ :=
    readChunkedData_of_permitted (encodeChunks last cs) flags ne hp
  have hpos : 0 < bytes.length := length_pos_iff.mpr hbytes
  have hcount : ¬ (bytes.length : ℤ) ≤ 0 := by omega
  subst hrest
  unfold fillBuffer
  simp only [hread,bind_some,hcount,if_false,Int.toNat_natCast]
  refine ⟨_,rfl,⟨?_,?_⟩,?_⟩
  · intro b hb
    cases hb
    rfl
  · rcases hor with ⟨rfl,rfl⟩ | ⟨payload',ne',rfl,rfl⟩
    · refine ⟨payloads cs,?_,?_⟩
      · rw [encodeChunks_eq]
        exact .size { fields with restChunkSize := Nat.sub_self _ } (nil_append _).symm short
      · simpa [unread] using htodo
    · refine ⟨payload' ++ payloads cs,?_,?_⟩
      · exact .data ne' { fields with restChunkSize := by simp } short
      · simpa [unread] using htodo
  · rcases hor with ⟨rfl,rfl⟩ | ⟨payload',ne',rfl,rfl⟩
    · simp
      omega
    · simp
      omega

def TurnPost (last : LastChunk) (todo : List UInt8) (c : Call) : Turn → Prop
  | .again c' => Live last todo c' ∧ c'.net.rest.length < c.net.rest.length
  | .finish ret c' => Finished last todo ret c'

section
variable (hbuffer : c.impl.httpDataBufferChunked = none)
  (hplace : At last c.impl c.net.rest payload) (htodo : c.copied ++ payload = todo)
include hbuffer hplace htodo

theorem Live.of_none : Live last todo c := by
  refine ⟨by simp [BufferOk,hbuffer],payload,hplace,?_⟩
  simpa [unread,hbuffer] using htodo

theorem finished_of_stop (hcopied : c.copied = []) : Finished last todo (-2) c :=
  ⟨.inr ⟨by decide,hcopied⟩,.inl (.of_none hbuffer hplace htodo)⟩

end

theorem refill_data (ne : payload ≠ []) (fields : Fields c.impl payload.length 0 0 [])
    (short : Short last cs) (hrest : c.net.rest = payload ++ (crlf ++ encodeChunks last cs))
    (htodo : c.copied ++ (payload ++ payloads cs) = todo) (hp : RefillPermitted c) :
    ∃ t, refill c = some t ∧ TurnPost last todo c t := by
  have hpos : 0 < c.impl.restChunkSize := by
    rw [fields.restChunkSize]
    exact length_pos_iff.mpr ne
  unfold RefillPermitted at hp
  rw [if_pos hpos,fields.restChunkSize] at hp
  obtain ⟨c',hfill,hlive,hless⟩ := fillBuffer_live ne hrest
    { fields with restChunkSize := rfl } short hp htodo
  refine ⟨.again c',?_,hlive,hless⟩
  unfold refill nextSize
  rw [if_pos hpos,fields.restChunkSize]
  simp [hfill]

theorem refill_lf {chunk : BodyChunk} (fields : Fields c.impl 0 1 chunk.payload.length [])
    (short : Short last (chunk :: cs)) (hbuffer : c.impl.httpDataBufferChunked = none)
    (hrest : c.net.rest = 10 :: afterSizeLine last (chunk :: cs))
    (htodo : c.copied ++ payloads (chunk :: cs) = todo) (hp : RefillPermitted c) :
    ∃ t, refill c = some t ∧ TurnPost last todo c t := by
  have hsize : c.impl.chunkedLen ≠ 0 := by
    rw [fields.chunkedLen]
    have := length_pos_iff.mpr chunk.payload_ne_nil
    omega
  unfold RefillPermitted at hp
  rw [if_neg (by rw [fields.restChunkSize]; decide),if_neg (by rw [fields.lenCRLF]; decide)] at hp
  obtain ⟨impl,⟨rest,script,flags⟩,copied⟩ := c
  simp only at fields hbuffer hrest htodo hp hsize
  subst hrest
  by_cases hstop : script.head? = some .stop
  · -- the character is still to come, and the next call will skip it
    rw [if_pos hstop] at hp
    refine ⟨.finish (-2)
      ⟨impl,⟨10 :: afterSizeLine last (chunk :: cs),script.tail,flags⟩,copied⟩,
      ?_,finished_of_stop hbuffer (.lf fields short) htodo hp⟩
    have hscript := eq_stop_cons hstop
    generalize script.tail = script' at hscript ⊢
    subst hscript
    simp [refill,nextSize,fields.restChunkSize,skipLineEnd,fields.dataCRLF,fields.lenCRLF,
      cdxStreamRead_stop]
  · rw [if_neg hstop,fields.chunkedLen,Int.toNat_natCast] at hp
    have hread := cdxStreamRead_one 10 (afterSizeLine last (chunk :: cs)) flags hstop
    have hshort : Short last cs := ⟨short.1,fun d hd => short.2 d (mem_cons_of_mem _ hd)⟩
    -- the size is known: go on with the payload
    let c₁ : Call := ⟨{ impl with lenCRLF := 0, chunkedLen := 0 },
      ⟨afterSizeLine last (chunk :: cs),script.tail,flags⟩,copied⟩
    have hrest : c₁.net.rest = chunk.payload ++ (crlf ++ encodeChunks last cs) := rfl
    have hnext : nextSize impl ⟨10 :: afterSizeLine last (chunk :: cs),script,flags⟩ =
        some (.need chunk.payload.length, c₁.impl, c₁.net) := by
      unfold nextSize skipLineEnd readSize
      simp only [fields.restChunkSize,fields.dataCRLF,fields.lenCRLF,hread,lt_irrefl,
        if_false,ne_eq,not_true_eq_false,Nat.succ_ne_zero,not_false_eq_true,if_true]
      rw [if_pos hsize,fields.chunkedLen]
      simp [c₁,fields.restChunkSize,fields.dataCRLF]
    obtain ⟨c',hfill,hlive,hless⟩ := fillBuffer_live (c := c₁) chunk.payload_ne_nil hrest
      ⟨rfl,fields.2,rfl,rfl,fields.5,fields.6,fields.7⟩ hshort hp htodo
    refine ⟨.again c',?_,hlive,?_⟩
    · have hnonneg : ¬ ((chunk.payload.length : ℤ) < 0) := by omega
      simp only [refill,hnext,bind_some,hnonneg,if_false,Int.toNat_natCast]
      exact hfill
    · exact lt_trans hless (Nat.lt_succ_self _)

variable {impl : HttpStream}

theorem Fields.setTmp {rest lenLF : ℕ} (h : Fields impl rest lenLF chunked tmp)
    (tmp' : List UInt8) :
    Fields (setTmp impl tmp') rest lenLF chunked tmp' :=
  ⟨h.1,h.2,h.3,h.4,rfl,rfl,h.7⟩

theorem Short.sizeDigits {cs : List BodyChunk} (h : Short last cs) :
    (sizeDigits last cs).length ≤ 10 ∧ (nextPayload cs).length < 2^31 := by
  cases cs with
  | nil => exact ⟨h.1,by decide⟩
  | cons c cs => exact h.2 c mem_cons_self

theorem refill_size_complete {net : Net} {copied : List UInt8} (fields : Fields impl 0 0 0 tmp)
    (short : Short last cs) (hbuffer : impl.httpDataBufferChunked = none)
    (hrest : net.rest = afterSizeLine last cs) (htodo : copied ++ payloads cs = todo)
    (hp : (nextPayload cs).length = 0 ∨
      dataPermitted true (nextPayload cs).length net.script = true) :
    if (nextPayload cs).length = 0 then
      Finished last todo copied.length ⟨{ setTmp impl [] with ioState := .eos },net,copied⟩
    else ∃ c', fillBuffer (nextPayload cs).length ⟨setTmp impl [],net,copied⟩ =
      some (.again c') ∧ Live last todo c' ∧ c'.net.rest.length < net.rest.length := by
  cases cs with
  | nil =>
    refine ⟨.inl rfl,.inr ⟨?_,by simpa [payloads] using htodo⟩⟩
    exact ⟨hbuffer,fields.1,fields.2,fields.4,⟨rfl,by simp [setTmp]⟩,rfl,.inl ⟨fields.3,.inl hrest⟩⟩
  | cons chunk cs =>
    have hpos : (nextPayload (chunk :: cs)).length ≠ 0 := by
      simpa [nextPayload] using chunk.payload_ne_nil
    rw [if_neg hpos]
    have hshort : Short last cs := ⟨short.1,fun d hd => short.2 d (mem_cons_of_mem _ hd)⟩
    exact fillBuffer_live (c := ⟨setTmp impl [],net,copied⟩) chunk.payload_ne_nil hrest
      { fields.setTmp [] with restChunkSize := rfl } hshort (hp.resolve_left hpos) htodo

theorem refill_size {tmp ds : List UInt8} (fields : Fields c.impl 0 0 0 tmp)
    (digits : sizeDigits last cs = tmp ++ ds) (short : Short last cs)
    (hbuffer : c.impl.httpDataBufferChunked = none)
    (hrest : c.net.rest = ds ++ (crlf ++ afterSizeLine last cs))
    (htodo : c.copied ++ payloads cs = todo) (hp : RefillPermitted c) :
    ∃ t, refill c = some t ∧ TurnPost last todo c t := by
  obtain ⟨impl,⟨rest,script,flags⟩,copied⟩ := c
  subst hrest
  have hex : ∀ b ∈ ds, isHexDigit b = true := by
    intro b hb
    have hmem : b ∈ sizeDigits last cs := digits ▸ mem_append_right tmp hb
    exact isHexDigit_of_mem_sizeDigits hmem
  have hnumber : hexNumber (tmp ++ ds) = (nextPayload cs).length := by
    rw [← digits]
    exact hexNumber_sizeDigits last cs
  have hlen : (tmp ++ ds).length ≤ 10 := digits ▸ short.sizeDigits.1
  have hsize : hexNumber (tmp ++ ds) < 2^31 := hnumber ▸ short.sizeDigits.2
  have hp' : SizePermitted tmp ⟨ds ++ (crlf ++ afterSizeLine last cs),script,flags⟩ copied := by
    unfold RefillPermitted at hp
    rw [if_neg (by rw [fields.restChunkSize]; decide),if_pos fields.lenCRLF,
      fields.tmpChunkedLen] at hp
    exact hp
  unfold SizePermitted at hp'
  simp only [takeWhile_isHexDigit hex] at hp'
  have hwhole : stopAt (ds.length+2) script = none → tmp = [] ∨ ds = [] := by
    exact fun hstop => (hp'.1 hstop).1
  have hnext : nextSize impl ⟨ds ++ (crlf ++ afterSizeLine last cs),script,flags⟩ =
      some (sizeOutcome impl tmp ds (afterSizeLine last cs) script flags) := by
    unfold nextSize skipLineEnd
    rw [if_neg (by rw [fields.restChunkSize]; decide),if_neg (by rw [fields.dataCRLF]; decide),
      if_neg (by rw [fields.lenCRLF]; decide)]
    exact readSize_eq fields.tmpChunkedLen fields.tmpChunkedSize fields.chunkedLen hex hlen
      hp'.2.1 hsize hwhole
  have hplace {i : ℕ} : At last (setTmp impl (tmp ++ ds.take i))
      (ds.drop i ++ (crlf ++ afterSizeLine last cs)) (payloads cs) := by
    refine .size (fields.setTmp _) ?_ short
    rw [append_assoc,take_append_drop]
    exact digits
  unfold refill
  simp only [hnext,bind_some]
  unfold sizeOutcome
  simp only [hnumber] at hp' ⊢
  cases hstop : stopAt (ds.length+2) script with
  | none =>
    have hp' := hp'.1 hstop
    simp only
    let net' : Net := ⟨afterSizeLine last cs,script.drop (ds.length+2),flags⟩
    have hrest : net'.rest = afterSizeLine last cs := rfl
    have hcomplete := refill_size_complete fields short hbuffer hrest htodo hp'.2
    by_cases hzero : (nextPayload cs).length = 0
    · rw [if_pos hzero] at hcomplete ⊢
      exact ⟨_,rfl,hcomplete⟩
    · rw [if_neg hzero] at hcomplete ⊢
      obtain ⟨c',hfill,hlive,hless⟩ := hcomplete
      refine ⟨.again c',?_,hlive,?_⟩
      · have hnonneg : ¬ (((nextPayload cs).length : ℤ) < 0) := by omega
        simp only [hnonneg,if_false,Int.toNat_natCast]
        exact hfill
      · rw [hrest] at hless
        simp only [length_append]
        omega
  | some i =>
    have hfits := hp'.2.1 i hstop
    have hp' := hp'.2.2 i hstop
    simp only
    by_cases hi : i ≤ ds.length
    · rw [if_pos hi] at hp' ⊢
      exact ⟨_,rfl,finished_of_stop hbuffer hplace htodo hp'⟩
    · rw [if_neg hi] at hp' ⊢
      unfold sizeWithoutLF
      by_cases hzero : (nextPayload cs).length = 0
      · obtain rfl : cs = [] := by
          cases cs with
          | nil => rfl
          | cons chunk cs => exact absurd (length_eq_zero_iff.mp hzero) chunk.payload_ne_nil
        have hds : hexNumber ds = 0 := by
          have := hexNumber_le_append tmp ds
          omega
        rw [take_of_length_le (by omega),length_append] at hfits
        simp only [hzero,Nat.cast_zero,if_true]
        refine ⟨_,rfl,.inl rfl,.inr ⟨?_,by simpa [payloads] using htodo⟩⟩
        exact ⟨hbuffer,fields.1,fields.2,rfl,⟨hds,by simp [setTmp]; omega⟩,rfl,.inr ⟨rfl,.inl rfl⟩⟩
      · obtain ⟨hcopied,rfl⟩ := hp'.resolve_left hzero
        cases cs with
        | nil => exact absurd rfl hzero
        | cons chunk cs =>
          have hne : ¬ ((nextPayload (chunk :: cs)).length : ℤ) = 0 := by omega
          simp only [hne,if_false]
          refine ⟨_,rfl,finished_of_stop hbuffer (.lf ?_ short) htodo hcopied⟩
          exact ⟨fields.1,fields.2,rfl,rfl,rfl,rfl,fields.7⟩

end

section
variable {impl : HttpStream} {script : List Answer} {flags : List Bool} {rest : List UInt8}

theorem Over.setTmp (h : Over impl rest) (hzero : hexNumber tmp = 0) (hlen : tmp.length < 10) :
    Over (setTmp impl tmp) rest :=
  ⟨h.1,h.2,h.3,h.4,⟨hzero,hlen⟩,rfl,h.7⟩

theorem Over.setIoState (h : Over impl rest) (s : IoState) : Over { impl with ioState := s } rest :=
  { h with }

theorem readSize_over_crlf (h : Over impl crlf) (hlf : impl.lenCRLF = 0) :
    ∃ next impl' net', readSize impl ⟨crlf,script,flags⟩ = some (next, impl', net') ∧
      (∀ n, next ≠ .need n) ∧ Over impl' net'.rest := by
  obtain ⟨hzero,hlen⟩ := h.tmpChunkedLen
  have hread : readSize impl ⟨crlf,script,flags⟩ =
      some (sizeOutcome impl impl.tmpChunkedLen [] [] script flags) :=
    readSize_eq rfl h.tmpChunkedSize h.chunkedLen (by simp) (by simpa using hlen.le)
      (fun i _ => by simpa using hlen) (by simp [hzero]) fun _ => .inr rfl
  have hdone : Over impl [] := { h with rest := .inl ⟨hlf,.inr rfl⟩ }
  rw [hread]
  unfold sizeOutcome
  simp only [append_nil,hzero]
  cases hstop : stopAt ([] : List UInt8).length.succ.succ script with
  | none =>
    exact ⟨_,_,_,rfl,by simp,(hdone.setTmp rfl (by decide)).setIoState .eos⟩
  | some i =>
    simp only [length_nil,take_nil,drop_nil,append_nil,nil_append]
    split
    · exact ⟨_,_,_,rfl,by simp,h.setTmp hzero hlen⟩
    · refine ⟨_,_,_,rfl,by simp,?_⟩
      exact ⟨h.1,h.2,h.3,rfl,⟨rfl,by simp [setTmp]⟩,rfl,.inr ⟨rfl,.inr rfl⟩⟩

theorem readChunkedSize_nil (script : List Answer) (flags : List Bool) :
    ∃ r script', readChunkedSize ⟨[],script,flags⟩ = some ⟨r,[],⟨[],script',flags⟩⟩ ∧
      (r = -2 ∨ r = -1) := by
  match script with
  | [] => exact ⟨-1,[],rfl,.inr rfl⟩
  | .stop :: script => exact ⟨-2,script,rfl,.inl rfl⟩
  | .give k :: script =>
    refine ⟨-1,script,?_,.inr rfl⟩
    simp [readChunkedSize,readSizeLoop,cdxStreamRead]

theorem readSize_over_nil (h : Over impl []) :
    ∃ next impl' net', readSize impl ⟨[],script,flags⟩ = some (next, impl', net') ∧
      (∀ n, next ≠ .need n) ∧ Over impl' net'.rest := by
  obtain ⟨r,script',hread,hr⟩ := readChunkedSize_nil script flags
  obtain ⟨hzero,hlen⟩ := h.tmpChunkedLen
  have hcleared : Over (setTmp impl []) [] := h.setTmp rfl (by decide)
  have hkept : Over (setTmp impl impl.tmpChunkedLen) [] := h.setTmp hzero hlen
  unfold readSize
  rw [if_neg (by simp [h.chunkedLen])]
  split
  · unfold readSizeAgain
    simp only [hread,bind_some,length_nil,add_zero]
    rw [if_neg (by omega),if_neg (by omega)]
    rcases hr with rfl | rfl
    · refine ⟨_,_,_,rfl,by simp,?_⟩
      simpa [setTmp,h.tmpChunkedSize] using hkept
    · exact ⟨_,_,_,rfl,by simp,hcleared.setIoState .error⟩
  · unfold readSizeFresh
    simp only [hread,bind_some]
    rcases hr with rfl | rfl
    · exact ⟨_,_,_,rfl,by simp,hcleared⟩
    · exact ⟨_,_,_,rfl,by simp,hcleared.setIoState .error⟩

theorem nextSize_over (h : Over impl rest) (script : List Answer) (flags : List Bool) :
    ∃ next impl' net', nextSize impl ⟨rest,script,flags⟩ = some (next, impl', net') ∧
      (∀ n, next ≠ .need n) ∧ Over impl' net'.rest := by
  unfold nextSize skipLineEnd
  rw [if_neg (by rw [h.restChunkSize]; decide),if_neg (by simp [h.dataCRLF])]
  rcases h.rest with ⟨hlf,rfl | rfl⟩ | ⟨hlf,hrest⟩
  · rw [if_neg (by simp [hlf])]
    exact readSize_over_crlf h hlf
  · rw [if_neg (by simp [hlf])]
    exact readSize_over_nil h
  · rw [if_pos (by simp [hlf]),hlf]
    by_cases hstop : script.head? = some .stop
    · rw [eq_stop_cons hstop,cdxStreamRead_stop]
      exact ⟨_,_,_,rfl,by simp,h⟩
    · rcases hrest with rfl | rfl
      · rw [cdxStreamRead_one 10 crlf flags hstop]
        exact readSize_over_crlf { h with rest := .inl ⟨rfl,.inl rfl⟩ } rfl
      · rw [cdxStreamRead_one 10 [] flags hstop]
        exact readSize_over_nil { h with rest := .inl ⟨rfl,.inr rfl⟩ }

end

theorem refill_over (h : Over c.impl c.net.rest) (hcopied : c.copied = []) :
    ∃ ret c', refill c = some (.finish ret c') ∧ Finished last [] ret c' := by
  obtain ⟨impl,⟨rest,script,flags⟩,copied⟩ := c
  subst hcopied
  obtain ⟨next,impl',net',hnext,hneed,hover⟩ := nextSize_over h script flags
  unfold refill
  simp only [hnext,bind_some]
  cases next with
  | need n => exact absurd rfl (hneed n)
  | stopped => exact ⟨_,_,rfl,.inr ⟨by decide,rfl⟩,.inr ⟨hover,rfl⟩⟩
  | eos => exact ⟨_,_,rfl,.inl rfl,.inr ⟨hover,rfl⟩⟩
  | error =>
    exact ⟨_,_,rfl,.inr ⟨by decide,rfl⟩, .inr ⟨{ hover with buffer := rfl },rfl⟩⟩

section
variable {last : LastChunk} {c : Call} {todo : List UInt8} {len : ℕ}

/-- A call in progress: there is something to deliver, or the body was over before. -/
def InProgress (last : LastChunk) (todo : List UInt8) (c : Call) : Prop :=
  Live last todo c ∨ Over c.impl c.net.rest ∧ c.copied = [] ∧ todo = []

theorem refill_live {payload : List UInt8} (hplace : At last c.impl c.net.rest payload)
    (hbuffer : c.impl.httpDataBufferChunked = none) (htodo : c.copied ++ payload = todo)
    (hp : RefillPermitted c) : ∃ t, refill c = some t ∧ TurnPost last todo c t := by
  generalize hrest : c.net.rest = rest at hplace
  cases hplace with
  | size fields digits short => exact refill_size fields digits short hbuffer hrest htodo hp
  | lf fields short => exact refill_lf fields short hbuffer hrest htodo hp
  | data ne fields short => exact refill_data ne fields short hrest htodo hp

/-- The step lemma: a permitted turn ends the call well, or goes on with the caller served or
fewer bytes in the stream. -/
theorem turn_inProgress (h : InProgress last todo c) (hless : c.copied.length < len)
    (hp : TurnPermitted len c) :
    (∃ c', turn len c = some (.again c') ∧ InProgress last todo c' ∧
        (len ≤ c'.copied.length ∨ c'.net.rest.length < c.net.rest.length)) ∨
      ∃ ret c', turn len c = some (.finish ret c') ∧ Finished last todo ret c' := by
  unfold TurnPermitted at hp
  unfold turn
  obtain ⟨impl,net,copied⟩ := c
  have hnet : (takeFlag net).2.rest = net.rest := rfl
  generalize takeFlag net = flag at hp hnet ⊢
  obtain ⟨flag,net'⟩ := flag
  simp only at hp hnet ⊢
  by_cases hflag : flag = true
  · -- the flag ends the call with what it has copied
    right
    rw [if_pos hflag]
    refine ⟨_,_,rfl,?_,?_⟩
    · by_cases hcopied : copied = []
      · exact .inr ⟨by simp [hcopied],hcopied⟩
      · exact .inl (by simp [hcopied])
    · rcases h with ⟨hbuffer,hplace⟩ | ⟨hover,hcopied,htodo⟩
      · exact .inl ⟨hbuffer,hnet ▸ hplace⟩
      · exact .inr ⟨hnet ▸ hover,hcopied.trans htodo.symm⟩
  · rw [if_neg hflag]
    have hp := hp (by simpa using hflag)
    rcases h with ⟨hbuffer,payload,hat,htodo⟩ | ⟨hover,hcopied,htodo⟩
    · -- first the buffer, then, if that does not do, the stream
      have hcopy := copyBuffer_unread len (c := ⟨impl,net',copied⟩) hbuffer
      have hat' : At last (copyBuffer len ⟨impl,net',copied⟩).impl net.rest payload :=
        At.copyBuffer (c := ⟨impl,net',copied⟩) hat len
      have hkept := copyBuffer_net len ⟨impl,net',copied⟩
      have hnone := copyBuffer_eq_none len (c := ⟨impl,net',copied⟩) hbuffer
      generalize copyBuffer len ⟨impl,net',copied⟩ = c₁ at hp hcopy hat' hkept hnone ⊢
      rw [← hnet] at hat'
      have htodo' : c₁.copied ++ (unread c₁.impl ++ payload) = todo := by
        rw [← append_assoc,hcopy.2,append_assoc]
        exact htodo
      have hat₁ : At last c₁.impl c₁.net.rest payload := by
        rw [hkept]
        exact hat'
      by_cases hmore : c₁.copied.length < len
      · rw [if_pos hmore]
        have hbuffer₁ := hnone hmore
        have htodo₁ : c₁.copied ++ payload = todo := by
          simpa [unread,hbuffer₁] using htodo'
        obtain ⟨t,ht,hpost⟩ := refill_live hat₁ hbuffer₁ htodo₁ (hp hmore)
        cases t with
        | again c' =>
          left
          refine ⟨c',ht,.inl hpost.1,.inr ?_⟩
          have := hpost.2
          rwa [hkept,hnet] at this
        | finish ret c' => exact .inr ⟨ret,c',ht,hpost⟩
      · rw [if_neg hmore]
        exact .inl ⟨c₁,rfl,.inl ⟨hcopy.1,payload,hat₁,htodo'⟩,.inl (by omega)⟩
    · subst hcopied
      subst htodo
      have hsame : copyBuffer len ⟨impl,net',[]⟩ = ⟨impl,net',[]⟩ := by
        have hbuffer : impl.httpDataBufferChunked = none := hover.buffer
        simp [copyBuffer,hbuffer]
      rw [hsame,if_pos hless]
      right
      exact refill_over (hnet ▸ hover) rfl

theorem chunkedLoop_finished {fuel : ℕ} (hfuel : c.net.rest.length+2 ≤ fuel)
    (h : InProgress last todo c) (hp : LoopPermitted len fuel c) :
    ∃ ret c', chunkedLoop len fuel c = some (ret, c') ∧ Finished last todo ret c' := by
  induction fuel generalizing c with
  | zero => omega
  | succ fuel ih =>
    unfold chunkedLoop
    by_cases hless : c.copied.length < len
    · rw [if_pos hless]
      obtain ⟨hturn,hrest⟩ := hp hless
      rcases turn_inProgress h hless hturn with ⟨c',ht,hc',hprogress⟩ | ⟨ret,c',ht,hc'⟩
      · rw [ht]
        rcases hprogress with hserved | hshorter
        · -- the caller has all it wants: the next look at the condition ends the loop
          obtain ⟨n,rfl⟩ : ∃ n, fuel = n+1 := ⟨fuel-1,by omega⟩
          refine ⟨c'.copied.length,c',?_,.inl rfl,?_⟩
          · simp only [bind_some,chunkedLoop]
            rw [if_neg (by omega)]
          · exact hc'.imp_right fun ho => ⟨ho.1,ho.2.1.trans ho.2.2.symm⟩
        · exact ih (by omega) hc' (hrest c' ht)
      · rw [ht]
        exact ⟨ret,c',rfl,hc'⟩
    · rw [if_neg hless]
      exact ⟨_,_,rfl,.inl rfl,h.imp_right fun ho => ⟨ho.1,ho.2.1.trans ho.2.2.symm⟩⟩

end

structure ChunkedWorld where
  impl : HttpStream
  net : Net
  delivered : List UInt8
  deriving DecidableEq

def readCall (w : ChunkedWorld) (len : ℕ) : Option ChunkedWorld :=
  (cdxReadChunkedData len w.impl w.net).map fun (ret, c) =>
    ⟨c.impl,c.net,if 0 < ret then w.delivered ++ c.copied else w.delivered⟩

def CallPermitted (w : ChunkedWorld) (len : ℕ) : Prop :=
  LoopPermitted len (w.net.rest.length+3) ⟨w.impl,w.net,[]⟩

instance (w : ChunkedWorld) (len : ℕ) : Decidable (CallPermitted w len) :=
  decidableLoopPermitted len _ _

def Between (last : LastChunk) (whole : List UInt8) (w : ChunkedWorld) : Prop :=
  ∃ todo, w.delivered ++ todo = whole ∧ InProgress last todo ⟨w.impl,w.net,[]⟩

theorem readCall_between {whole : List UInt8} {w : ChunkedWorld} {len : ℕ}
    (h : Between last whole w) (hp : CallPermitted w len) :
    ∃ w', readCall w len = some w' ∧ Between last whole w' := by
  obtain ⟨todo,hwhole,hprogress⟩ := h
  obtain ⟨ret,c,hloop,hret,hstate⟩ :=
    chunkedLoop_finished (by simp : w.net.rest.length+2 ≤ w.net.rest.length+3) hprogress hp
  refine ⟨_,by rw [readCall,cdxReadChunkedData,hloop]; rfl,?_⟩
  -- whatever was copied has been delivered
  have hdelivered : (if 0 < ret then w.delivered ++ c.copied else w.delivered) =
      w.delivered ++ c.copied := by
    rcases hret with hcount | ⟨-,hnone⟩
    · split
      · rfl
      · have : c.copied = [] := length_eq_zero_iff.mp (by omega)
        rw [this,append_nil]
    · rw [hnone,append_nil,ite_self]
  simp only [hdelivered]
  rcases hstate with ⟨hbuffer,payload,hat,htodo⟩ | ⟨hover,hcopied⟩
  · refine ⟨unread c.impl ++ payload,?_,.inl ⟨hbuffer,payload,hat,rfl⟩⟩
    rw [append_assoc,htodo]
    exact hwhole
  · refine ⟨[],?_,.inr ⟨hover,rfl,rfl⟩⟩
    rw [hcopied,append_nil]
    exact hwhole

theorem At.ioState {impl : HttpStream} (h : At last impl rest payload) : impl.ioState = .ok := by
  cases h with
  | size fields _ _ | lf fields _ | data _ fields _ => exact fields.ioState

def chunkedStart (last : LastChunk) (cs : List BodyChunk) (script : List Answer)
    (flags : List Bool) : ChunkedWorld :=
  ⟨openedStream,⟨encodeChunks last cs,script,flags⟩,[]⟩

theorem between_chunkedStart {cs : List BodyChunk} (short : Short last cs) (script : List Answer)
    (flags : List Bool) :
    Between last (payloads cs) (chunkedStart last cs script flags) := by
  refine ⟨payloads cs,rfl,.inl ⟨by simp [BufferOk,chunkedStart,openedStream],payloads cs,?_,rfl⟩⟩
  show At last openedStream (encodeChunks last cs) (payloads cs)
  rw [encodeChunks_eq]
  exact .size ⟨rfl,rfl,rfl,rfl,rfl,rfl,rfl⟩ (nil_append _).symm short

/-- For every body and every run of calls with any lengths, force stops and short reads that meet
the condition: no call goes wrong, what was delivered is a beginning of the payload, and it is the
whole payload at the end of the stream. -/
theorem chunked_transfer_survives (last : LastChunk) (cs : List BodyChunk) (short : Short last cs)
    (script : List Answer) (flags : List Bool) (lens : List ℕ)
    (hp : Guarded readCall CallPermitted (chunkedStart last cs script flags) lens) :
    ∃ w, runSteps readCall (chunkedStart last cs script flags) lens = some w ∧
      w.delivered <+: payloads cs ∧
      (w.impl.ioState = .eos → w.delivered = payloads cs) := by
  obtain ⟨w,hrun,todo,hwhole,hprogress⟩ := runSteps_invariant (Between last (payloads cs))
    (fun w len h hcall => readCall_between h hcall) lens _
    (between_chunkedStart short script flags) hp
  refine ⟨w,hrun,⟨todo,hwhole⟩,fun heos => ?_⟩
  rcases hprogress with ⟨-,payload,hat,-⟩ | ⟨-,-,rfl⟩
  · have hok : w.impl.ioState = .ok := hat.ioState
    rw [hok] at heos
    cases heos
  · rwa [append_nil] at hwhole

def twoChunks : List BodyChunk :=
  [⟨[49],[65],by decide,by decide +kernel,by decide +kernel,by decide⟩,
    ⟨[49],[66],by decide,by decide +kernel,by decide +kernel,by decide⟩]

def zeroChunk : LastChunk := ⟨[48],by decide,by decide +kernel,by decide +kernel⟩

/-- The first call is stopped in front of the first size line, the second one is not. -/
theorem chunked_transfer_survives_one_stop :
    ∃ w, runSteps readCall (chunkedStart zeroChunk twoChunks [.stop] []) [1,2,1] = some w ∧
      w.delivered <+: payloads twoChunks ∧
      (w.impl.ioState = .eos → w.delivered = payloads twoChunks) := by
  apply chunked_transfer_survives zeroChunk twoChunks (by unfold Short; decide)
  decide +kernel

/-- The stop comes behind the payload of the first chunk. The byte `A` is dropped, the line end
that is left is taken for a size of zero, and the stream ends with nothing delivered. -/
theorem stop_behind_payload_loses_body : (runSteps readCall (chunkedStart zeroChunk twoChunks
        [.give 0,.give 0,.give 0,.give 0,.stop] []) [2,2]).map
      (fun w => (w.impl.ioState, w.delivered)) = some (.eos, []) ∧
      payloads twoChunks = [65,66] := by
  decide +kernel

end TinaPackage.Http
