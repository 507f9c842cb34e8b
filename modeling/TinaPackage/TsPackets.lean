import TinaPackage.TransportStream
import TinaPackage.TsModel

/-! The packets the muxer builds are packets in the sense of the transport stream standard,
and its PES headers are read back by a receiver. -/
namespace TinaPackage.Ts
open List TransportStream UInt8
open Mp4 (MuxCodecId)

variable {pid cc turns : ℕ} {d : List UInt8}

theorem or_start_bit (hpid : pid < 8192) (start : Bool) :
    (pid >>> 8 ||| if start then 0x40 else 0) = (if start then 64 else 0)+pid/256 := by
  have hbits : ∀ v < 32, v ||| 0x40 = 64+v := by decide
  rw [Nat.shiftRight_eq_div_pow]
  cases start with
  | false => simp
  | true => exact hbits (pid/256) (by omega)

theorem or_payload_flag (hcc : cc < 16) : 0x10 ||| cc = 16+cc := by
  have hbits : ∀ v < 16, 0x10 ||| v = 16+v := by decide
  exact hbits cc hcc

theorem or_adaptation_flag (hcc : cc < 16) : ofNat (0x10 ||| cc) ||| 0x20 = ofNat (48+cc) := by
  have hbits : ∀ v < 16, ofNat (0x10 ||| v) ||| 0x20 = ofNat (48+v) := by decide
  exact hbits cc hcc

@[simp] theorem length_packetHeader (pid cc : ℕ) (start : Bool) :
    (packetHeader pid cc start).length = 4 := rfl

theorem packet_of_full (start : Bool) (hpid : pid < 8192) (hcc : cc < 16) (hd : d.length = 184) :
    packetHeader pid cc start ++ d = packet pid cc start d := by
  have hnot : ¬ d.length < 184 := by omega
  have hnone : 184-d.length = 0 := by omega
  unfold packetHeader packet
  rw [or_start_bit hpid,or_payload_flag hcc,if_neg hnot,hnone]
  rfl

variable {n : ℕ}

theorem stuffing_eq (hn : 0 < n) : stuffing n = ofNat (n-1) ::
      if n ≥ 2 then 0x00 :: replicate (n-2) 0xff else [] := by
  match n with
  | 1 => rfl
  | n+2 =>
    rfl

theorem addStuffing_eq (start : Bool) {h : List UInt8} (hpid : pid < 8192) (hcc : cc < 16)
    (hn : 0 < n) (hlen : (h ++ d).length+n = 184) :
    addStuffing (packetHeader pid cc start ++ h) n ++ d = packet pid cc start (h ++ d) := by
  have hshort : (h ++ d).length < 184 := by omega
  have hstuff : 184-(h ++ d).length = n := by omega
  unfold packet
  rw [if_pos hshort,hstuff,stuffing_eq hn,← or_start_bit hpid,← or_adaptation_flag hcc]
  unfold addStuffing packetHeader
  simp

variable (first : Bool) (buf : List UInt8)

def sectionPayload : List UInt8 :=
  let head : List UInt8 := if first then [0] else []
  let chunk := buf.take (184-head.length)
  head ++ chunk ++ replicate (184-head.length-chunk.length) 0xff

def sectionRoom : ℕ := if first then 183 else 184

theorem length_sectionPayload : (sectionPayload first buf).length = 184 := by
  unfold sectionPayload
  cases first <;>
    simp only [length_append,length_take,length_replicate,if_true,
      Bool.false_eq_true,if_false,length_cons,length_nil] <;> omega

theorem length_sectionHeader (pid cc : ℕ) (first : Bool) :
    tsPacketSize-(sectionHeader pid cc first).length = sectionRoom first := by
  cases first <;> rfl

theorem sectionPacket_eq (hpid : pid < 8192) (hcc : cc < 16) :
    sectionPacket pid cc first buf = packet pid cc first (sectionPayload first buf) := by
  rw [← packet_of_full first hpid hcc (length_sectionPayload first buf)]
  unfold sectionPacket sectionPayload sectionHeader
  cases first <;> simp [tsPacketSize]

def sectionPayloads : ℕ → Bool → List UInt8 → List (List UInt8)
  | 0, _, _ => []
  | turns + 1, first, buf =>
    if buf = [] then []
    else sectionPayload first buf :: sectionPayloads turns false (buf.drop (sectionRoom first))

theorem length_of_mem_sectionPayloads {first : Bool} {buf : List UInt8}
    (hd : d ∈ sectionPayloads turns first buf) : d.length ≤ 184 := by
  induction turns generalizing first buf with
  | zero => cases hd
  | succ turns ih =>
    unfold sectionPayloads at hd
    split at hd
    · cases hd
    · rcases mem_cons.mp hd with hhead | htail
      · rw [hhead]
        exact Nat.le_of_eq (length_sectionPayload first buf)
      · exact ih htail

theorem length_sectionPayloads_le (turns : ℕ) (first : Bool) (buf : List UInt8) :
    (sectionPayloads turns first buf).length ≤ turns := by
  induction turns generalizing first buf with
  | zero => exact Nat.le_refl 0
  | succ turns ih =>
    unfold sectionPayloads
    split
    · exact Nat.zero_le _
    · exact Nat.succ_le_succ (ih ..)

theorem length_tsWritePts (fourbits : ℕ) (pts : ℤ) : (tsWritePts fourbits pts).length = 5 := rfl

variable (codecId : MuxCodecId)

theorem length_pesHeader_le (size : ℕ) (pts : ℤ) : (pesHeader codecId size pts).length ≤ 16 := by
  unfold pesHeader
  split <;> simp [length_tsWritePts]

variable (start : Bool) (payload : List UInt8) (pts : ℤ)

def pesHead : List UInt8 :=
  if start then pesHeader codecId payload.length pts else []

theorem length_pesHead_le : (pesHead codecId start payload pts).length ≤ 16 := by
  unfold pesHead
  split
  · exact length_pesHeader_le ..
  · exact Nat.zero_le _

theorem pesPacketHead_eq (st : AVStream) (start : Bool) (payload : List UInt8) (pts : ℤ) :
    pesPacketHead st start payload pts =
      packetHeader st.pid st.cc start ++ pesHead st.codecId start payload pts := rfl

theorem length_pesPacketHead (st : AVStream) (start : Bool) (payload : List UInt8) (pts : ℤ) :
    tsPacketSize-(pesPacketHead st start payload pts).length =
      184-(pesHead st.codecId start payload pts).length := by
  rw [pesPacketHead_eq,length_append,length_packetHeader]
  unfold tsPacketSize
  omega

/-- The payload of a packet of `tsWritePes`: the PES header, in the first one, and as many
bytes as there is room for. -/
def pesPayload : List UInt8 :=
  let head := pesHead codecId start payload pts
  head ++ payload.take (184-head.length)

theorem length_pesPayload_le : (pesPayload codecId start payload pts).length ≤ 184 := by
  have hhead := length_pesHead_le codecId start payload pts
  simp only [pesPayload,length_append,length_take]
  omega

theorem pesPacket_eq {st : AVStream} (start : Bool) (payload : List UInt8) (pts : ℤ)
    (hpid : st.pid < 8192) (hcc : st.cc < 16) :
    pesPacket st start payload pts =
      packet st.pid st.cc start (pesPayload st.codecId start payload pts) := by
  have hhead := length_pesHead_le st.codecId start payload pts
  have hroom := length_pesPacketHead st start payload pts
  rw [pesPacketHead_eq] at hroom
  set head := pesHead st.codecId start payload pts with hheadDef
  have htake : payload.take (min (184-head.length) payload.length) =
      payload.take (184-head.length) := by
    rw [← take_take,take_length]
  have hlen : (head ++ payload.take (184-head.length)).length =
      head.length+min (184-head.length) payload.length := by
    rw [length_append,length_take]
  simp only [pesPacket,pesPayload,pesPacketHead_eq,← hheadDef,hroom,htake]
  split
  · next hstuff => exact addStuffing_eq start hpid hcc hstuff (by rw [hlen]; omega)
  · next hfull =>
    rw [append_assoc]
    exact packet_of_full start hpid hcc (by rw [hlen]; omega)

def pesPayloads (codecId : MuxCodecId) (pts : ℤ) : ℕ → Bool → List UInt8 → List (List UInt8)
  | 0, _, _ => []
  | turns + 1, start, payload =>
    if payload = [] then []
    else pesPayload codecId start payload pts :: pesPayloads codecId pts turns false
        (payload.drop (184-(pesHead codecId start payload pts).length))

variable {pts : ℤ} {payload : List UInt8}

theorem length_of_mem_pesPayloads {codecId : MuxCodecId} {start : Bool}
    (hd : d ∈ pesPayloads codecId pts turns start payload) :
    d.length ≤ 184 := by
  induction turns generalizing start payload with
  | zero => cases hd
  | succ turns ih =>
    unfold pesPayloads at hd
    split at hd
    · cases hd
    · rcases mem_cons.mp hd with hhead | htail
      · rw [hhead]
        exact length_pesPayload_le ..
      · exact ih htail

theorem flatten_pesPayloads (codecId : MuxCodecId) (pts : ℤ) (start : Bool)
    (hturns : payload.length ≤ turns) (hne : payload ≠ []) :
    (pesPayloads codecId pts turns start payload).flatten =
      pesHead codecId start payload pts ++ payload := by
  induction turns generalizing start payload with
  | zero => exact absurd (length_eq_zero_iff.mp (Nat.le_zero.mp hturns)) hne
  | succ turns ih =>
    have hhead := length_pesHead_le codecId start payload pts
    unfold pesPayloads pesPayload
    rw [if_neg hne,flatten_cons,append_assoc]
    congr 1
    -- the rest is empty when the payload ends in this packet
    by_cases hrest : payload.drop (184-(pesHead codecId start payload pts).length) = []
    · have hnil : ∀ n, pesPayloads codecId pts n false [] = [] := by
        intro n
        cases n <;> rfl
      rw [hrest,hnil,flatten_nil,append_nil]
      exact take_of_length_le (drop_eq_nil_iff.mp hrest)
    · rw [ih false (by rw [length_drop]; omega) hrest]
      exact take_append_drop _ payload

theorem bitsAt_lt (x : ℤ) (n k : ℕ) : bitsAt x n k < 2^k := by
  have hcast : ((2^k : ℕ) : ℤ) = 2^k := Int.natCast_pow 2 k
  unfold bitsAt
  omega

theorem marker_bit (x : ℕ) : x <<< 1 ||| 1 = 2*x+1 := by
  rw [← Nat.shiftLeft_add_eq_or_of_lt (by decide : 1 < 2^1) x,Nat.shiftLeft_eq]
  omega

theorem bitsAt_parts (pts : ℤ) :
    bitsAt pts 30 3*2^30+bitsAt pts 15 15*2^15+bitsAt pts 0 15 = (pts % 2^33).toNat := by
  unfold bitsAt
  omega

theorem be16_marked {x : ℕ} (hx : x < 2^15) :
    (ofNat ((x <<< 1 ||| 1)/256)).toNat*256+(ofNat (x <<< 1 ||| 1)).toNat = 2*x+1 := by
  rw [marker_bit,toNat_ofNat',toNat_ofNat']
  omega

theorem readPts_tsWritePts (pts : ℤ) (rest : List UInt8) :
    readPts (tsWritePts 2 pts ++ rest) = (pts % 2^33).toNat := by
  have htop : ∀ x < 2^3, (ofNat (2 <<< 4 ||| x <<< 1 ||| 1)).toNat/2 % 8 = x := by
    decide
  have hmiddle := be16_marked (bitsAt_lt pts 15 15)
  have hlow := be16_marked (bitsAt_lt pts 0 15)
  have hhalf : ∀ x : ℕ, (2*x+1)/2 = x := by omega
  rw [← bitsAt_parts]
  calc readPts (tsWritePts 2 pts ++ rest)
      = (ofNat (2 <<< 4 ||| bitsAt pts 30 3 <<< 1 ||| 1)).toNat/2 % 8*2^30 +
          ((ofNat ((bitsAt pts 15 15 <<< 1 ||| 1)/256)).toNat*256 +
            (ofNat (bitsAt pts 15 15 <<< 1 ||| 1)).toNat)/2*2^15 +
          ((ofNat ((bitsAt pts 0 15 <<< 1 ||| 1)/256)).toNat*256 +
            (ofNat (bitsAt pts 0 15 <<< 1 ||| 1)).toNat)/2 := rfl
    _ = bitsAt pts 30 3*2^30+bitsAt pts 15 15*2^15+bitsAt pts 0 15 := by
      rw [htop _ (bitsAt_lt pts 30 3),hmiddle,hlow,hhalf,hhalf]

theorem parsePes_pesHeader (codecId : MuxCodecId) (size : ℕ) (hpts : pts ≠ -1)
    (payload : List UInt8) :
    parsePes (pesHeader codecId size pts ++ payload) =
      some { pts := some (pts % 2^33).toNat, data := payload } := by
  have hshape : pesHeader codecId size pts ++ payload = ([0x00,0x00,0x01,pesStreamId codecId] ++
        be16 (if size+7+3 > 0xffff then 0 else size+7+3) ++ [0x80,0x80,7]) ++
        (tsWritePts 2 pts ++ ([0xff,0xff] ++ payload)) := by
    simp only [pesHeader,if_pos hpts,append_assoc]
    rfl
  have htime := readPts_tsWritePts pts ([0xff,0xff] ++ payload)
  obtain ⟨high,low,hlen⟩ :
      ∃ high low, be16 (if size+7+3 > 0xffff then 0 else size+7+3) = [high,low] :=
    ⟨_,_,rfl⟩
  rw [hshape,hlen,← htime]
  set rest := tsWritePts 2 pts ++ ([0xff,0xff] ++ payload) with hrest
  set unit := [0x00,0x00,0x01,pesStreamId codecId] ++ [high,low] ++ [0x80,0x80,7] ++ rest
  have hstart : unit.take 3 = [0,0,1] := rfl
  have hflags : byteAt unit 7 = 128 := rfl
  have hheaderLen : byteAt unit 8 = 7 := rfl
  have htail : unit.drop 9 = rest := rfl
  have hdata : unit.drop (9+7) = payload := rfl
  unfold parsePes
  rw [if_pos hstart,hflags,if_pos (by decide),hheaderLen,htail,hdata]

end TinaPackage.Ts
