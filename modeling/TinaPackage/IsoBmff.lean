import TinaPackage.BigEndian

/-! The ISO base media file format, as far as sample tables need it: boxes that
start with their own size, and the rule that finds a sample in the file. -/
namespace TinaPackage
open List

def tagBytes (tag : String) : List UInt8 := tag.toList.map fun c => UInt8.ofNat c.toNat

inductive Box where
  | mk (tag body : List UInt8) (children : List Box)

namespace Box

mutual
def encode : Box → List UInt8
  | ⟨tag,body,children⟩ =>
    be32 (4+tag.length+body.length+(encodeAll children).length) ++ tag ++ body ++ encodeAll children
def encodeAll : List Box → List UInt8
  | [] => []
  | b :: bs => encode b ++ encodeAll bs
end

end Box

def be32At (box : List UInt8) (pos : ℕ) : ℕ := ofBigEndian ((box.drop pos).take 4)

namespace Box

mutual
/-- The size field of the box, and of every box inside it, is the number of its bytes. -/
def Exact : Box → Prop
  | ⟨tag,body,children⟩ =>
    be32At (encode ⟨tag,body,children⟩) 0 = (encode ⟨tag,body,children⟩).length ∧ ExactAll children
def ExactAll : List Box → Prop
  | [] => True
  | b :: bs => Exact b ∧ ExactAll bs
end

theorem length_encode (tag body : List UInt8) (children : List Box) :
    (encode ⟨tag,body,children⟩).length = 4+tag.length+body.length+(encodeAll children).length := by
  rw [encode,length_append,length_append,length_append,length_be32]

theorem be32At_encode (b : Box) (h : b.encode.length < 2^32) :
    be32At b.encode 0 = b.encode.length := by
  obtain ⟨tag,body,children⟩ := b
  rw [length_encode] at h ⊢
  unfold be32At
  rw [drop_zero,encode,append_assoc,append_assoc,
    take_left' (length_be32 _),ofBigEndian_be32,Nat.mod_eq_of_lt h]

mutual
theorem exact_of_length_lt : ∀ b : Box, b.encode.length < 2^32 → b.Exact
  | ⟨tag,body,children⟩, h => by
    have hlen := length_encode tag body children
    exact ⟨be32At_encode _ h,exactAll_of_length_lt children (by omega)⟩
theorem exactAll_of_length_lt : ∀ bs : List Box, (encodeAll bs).length < 2^32 → ExactAll bs
  | [], _ => by
    exact trivial
  | b :: bs, h => by
    rw [encodeAll,length_append] at h
    rw [ExactAll]
    exact ⟨exact_of_length_lt b (by omega),exactAll_of_length_lt bs (by omega)⟩
end

/-- A writer that starts with the size it has computed writes the box. -/
structure Written (b : Box) (size : ℕ) (bytes : List UInt8) : Prop where
  encode_eq : b.encode = bytes
  length_eq : bytes.length = size

structure WrittenAll (bs : List Box) (size : ℕ) (bytes : List UInt8) : Prop where
  encode_eq : encodeAll bs = bytes
  length_eq : bytes.length = size

theorem writtenAll_nil : WrittenAll [] 0 [] := ⟨by rw [encodeAll],rfl⟩

variable {bs : List Box} {n size : ℕ} {bytes tag : List UInt8} {b : Box} {m : ℕ} {rest : List UInt8}

theorem WrittenAll.cons (h : Written b m bytes) (hs : WrittenAll bs n rest) :
    WrittenAll (b :: bs) (m+n) (bytes ++ rest) where
  encode_eq := by rw [encodeAll,h.encode_eq,hs.encode_eq]
  length_eq := by rw [length_append,h.length_eq,hs.length_eq]

theorem WrittenAll.append {cs : List Box} (h : WrittenAll bs m bytes) (hs : WrittenAll cs n rest) :
    WrittenAll (bs ++ cs) (m+n) (bytes ++ rest) := by
  induction bs generalizing m bytes with
  | nil =>
    obtain ⟨hbytes,hlen⟩ := h
    rw [encodeAll] at hbytes
    subst hbytes
    subst hlen
    rw [nil_append,nil_append,length_nil,Nat.zero_add]
    exact hs
  | cons b bs ih =>
    obtain ⟨hbytes,hlen⟩ := h
    rw [encodeAll] at hbytes
    subst hbytes
    subst hlen
    have htail := ih ⟨rfl,rfl⟩
    have hcons := WrittenAll.cons (b := b) ⟨rfl,rfl⟩ htail
    rw [length_append,Nat.add_assoc,append_assoc]
    exact hcons

theorem Written.single (h : Written b n bytes) : WrittenAll [b] n bytes := by
  have hcons := WrittenAll.cons h writtenAll_nil
  rwa [Nat.add_zero,append_nil] at hcons

theorem WrittenAll.node {body kids : List UInt8} (h : WrittenAll bs n kids)
    (hsize : size = 4+tag.length+body.length+n) :
    Written ⟨tag,body,bs⟩ size (be32 size ++ tag ++ body ++ kids) where
  encode_eq := by rw [encode,h.encode_eq,h.length_eq,← hsize]
  length_eq := by
    rw [length_append,length_append,length_append,length_be32,h.length_eq,hsize]

theorem WrittenAll.container {kids : List UInt8} (h : WrittenAll bs n kids)
    (hsize : size = 4+tag.length+n) (hbytes : bytes = be32 size ++ (tag ++ kids)) :
    Written ⟨tag,[],bs⟩ size bytes := by
  have hnode : Written ⟨tag,[],bs⟩ size (be32 size ++ tag ++ [] ++ kids) := h.node hsize
  rw [append_nil,append_assoc] at hnode
  rwa [hbytes]

theorem written_leaf {body : List UInt8} (hsize : size = 4+tag.length+body.length) :
    Written ⟨tag,body,[]⟩ size (be32 size ++ tag ++ body) := by
  have hnode : Written ⟨tag,body,[]⟩ size (be32 size ++ tag ++ body ++ []) :=
    writtenAll_nil.node hsize
  rwa [append_nil] at hnode

end Box

structure StscEntry where
  firstChunk : ℕ
  samplesPerChunk : ℕ
  descriptionIndex : ℕ
  deriving DecidableEq

variable (box : List UInt8)

def decodeStco : List ℕ := be32Words (be32At box 12) (box.drop 16)

def decodeStsz : List ℕ :=
  if be32At box 12 = 0 then be32Words (be32At box 16) (box.drop 20)
  else List.replicate (be32At box 16) (be32At box 12)

def stscEntries : List ℕ → List StscEntry
  | a :: b :: c :: ws => ⟨a,b,c⟩ :: stscEntries ws
  | _ => []

def decodeStsc : List StscEntry := stscEntries (be32Words (3*be32At box 12) (box.drop 16))

def sttsDurations : List ℕ → List ℕ
  | count :: delta :: ws => List.replicate count delta ++ sttsDurations ws
  | _ => []

def decodeStts : List ℕ := sttsDurations (be32Words (2*be32At box 12) (box.drop 16))

/-- An entry holds from its first chunk on, until the next entry. -/
def samplesInChunk (entries : List StscEntry) (chunk : ℕ) : ℕ :=
  match (entries.filter fun e => e.firstChunk ≤ chunk).getLast? with
  | none => 0
  | some e => e.samplesPerChunk

def placeSamples : ℕ → List ℕ → List (ℕ × ℕ)
  | _, [] => []
  | pos, size :: sizes => (pos, size) :: placeSamples (pos+size) sizes

def locateFrom (entries : List StscEntry) : ℕ → List ℕ → List ℕ → List (ℕ × ℕ)
  | _, [], _ => []
  | chunk, pos :: offsets, sizes =>
    placeSamples pos (sizes.take (samplesInChunk entries chunk)) ++
      locateFrom entries (chunk+1) offsets (sizes.drop (samplesInChunk entries chunk))

/-- The sample-location rule: chunk offsets, samples in each chunk, sample sizes. -/
def locateSamples (stco : List ℕ) (stsc : List StscEntry) (stsz : List ℕ) : List (ℕ × ℕ) :=
  locateFrom stsc 1 stco stsz

def sampleRanges (stco stsc stsz : List UInt8) : List (ℕ × ℕ) :=
  locateSamples (decodeStco stco) (decodeStsc stsc) (decodeStsz stsz)

variable {pre : List UInt8} {pos : ℕ}

theorem be32At_append (h : pre.length = pos) (n : ℕ) (rest : List UInt8) :
    be32At (pre ++ (be32 n ++ rest)) pos = n % 2^32 := by
  unfold be32At
  rw [drop_left' h,take_left' (length_be32 n),ofBigEndian_be32]

variable {ws : List ℕ}

theorem map_mod_of_lt (h : ∀ w ∈ ws, w < 2^32) : ws.map (· % 2^32) = ws := by
  conv_rhs => rw [← map_id ws]
  apply map_congr_left
  intro w hw
  exact Nat.mod_eq_of_lt (h w hw)

theorem be32Words_table (hpre : pre.length = pos) (hlen : ws.length < 2^32) :
    be32Words (be32At (pre ++ (be32 ws.length ++ ws.flatMap be32)) pos)
      ((pre ++ (be32 ws.length ++ ws.flatMap be32)).drop (pos+4)) = ws.map (· % 2^32) := by
  have hwords := be32Words_flatMap ws []
  rw [append_nil] at hwords
  rw [be32At_append hpre,Nat.mod_eq_of_lt hlen,← drop_drop,drop_left' hpre,
    drop_left' (length_be32 _),hwords]

theorem decodeStco_table (hpre : pre.length = 12) {offsets : List ℕ}
    (hlen : offsets.length < 2^32) :
    decodeStco (pre ++ (be32 offsets.length ++ offsets.flatMap be32)) = offsets.map (· % 2^32) :=
  be32Words_table hpre hlen

theorem decodeStsz_table (hpre : pre.length = 12) {sizes : List ℕ} (hlen : sizes.length < 2^32) :
    decodeStsz (pre ++ (be32 0 ++ (be32 sizes.length ++ sizes.flatMap be32))) =
      sizes.map (· % 2^32) := by
  have hpre' : (pre ++ be32 0).length = 16 := by rw [length_append,hpre,length_be32]
  unfold decodeStsz
  rw [be32At_append hpre,Nat.zero_mod,if_pos rfl,← append_assoc]
  exact be32Words_table hpre' hlen

theorem sttsDurations_single (durations : List ℕ) :
    sttsDurations (durations.flatMap fun d => [1,d]) = durations := by
  induction durations with
  | nil => rfl
  | cons d ds ih =>
    change List.replicate 1 d ++ sttsDurations (ds.flatMap fun d => [1,d]) = d :: ds
    rw [ih]
    rfl

theorem decodeStts_table (hpre : pre.length = 12) {durations : List ℕ}
    (hlen : durations.length < 2^32) :
    decodeStts (pre ++ (be32 durations.length ++ durations.flatMap fun d => be32 1 ++ be32 d)) =
      durations.map (· % 2^32) := by
  let words := durations.flatMap fun d => [1,d]
  have hbytes : (durations.flatMap fun d => be32 1 ++ be32 d) = words.flatMap be32 := by
    rw [flatMap_assoc]
    simp
  have hcount : words.length = 2*durations.length :=
    length_flatMap_const (f := fun d => [1,d]) (k := 2) (fun _ => rfl) durations
  have hmod : words.map (· % 2^32) = (durations.map (· % 2^32)).flatMap fun d => [1,d] := by
    have hone : 1 % 2^32 = 1 := by decide
    rw [map_flatMap,flatMap_map]
    simp only [map_cons,map_nil,hone]
  have hwords := be32Words_flatMap words []
  rw [append_nil,hmod,hcount] at hwords
  have hdrop : (pre ++ (be32 durations.length ++ words.flatMap be32)).drop 16 =
      words.flatMap be32 := by
    rw [show 16 = 12+4 from rfl,← drop_drop,drop_left' hpre,drop_left' (length_be32 _)]
  unfold decodeStts
  rw [hbytes,be32At_append hpre,Nat.mod_eq_of_lt hlen,hdrop,hwords,sttsDurations_single]

structure Chunk where
  offset : ℕ
  sizes : List ℕ

def Chunk.ranges (c : Chunk) : List (ℕ × ℕ) := placeSamples c.offset c.sizes

def entryPerChunk (counts : List ℕ) : List StscEntry :=
  counts.zipIdx.map fun p => ⟨p.2+1,p.1,1⟩

theorem stscEntries_flatMap (l : List (ℕ × ℕ)) :
    stscEntries (l.flatMap fun p => [p.2+1,p.1,1]) = l.map fun p => ⟨p.2+1,p.1,1⟩ := by
  induction l with
  | nil => rfl
  | cons p l ih =>
    rw [flatMap_cons,map_cons,← ih]
    rfl

section
variable (hpre : pre.length = 12) {counts : List ℕ} (hlen : counts.length < 2^32)
include hpre hlen

theorem decodeStsc_words :
    decodeStsc (pre ++ (be32 counts.length ++
      counts.zipIdx.flatMap fun p => be32 (p.2+1) ++ be32 p.1 ++ be32 1)) =
      entryPerChunk (counts.map (· % 2^32)) := by
  -- the entries as one list of words
  let words : List ℕ := counts.zipIdx.flatMap fun p => [p.2+1,p.1,1]
  have hbytes : (counts.zipIdx.flatMap fun p => be32 (p.2+1) ++ be32 p.1 ++ be32 1) =
      words.flatMap be32 := by
    rw [flatMap_assoc]
    simp
  have hcount : words.length = 3*counts.length := by
    have hlength := length_flatMap_const (f := fun p : ℕ × ℕ => [p.2+1,p.1,1]) (k := 3)
      (fun _ => rfl) counts.zipIdx
    rwa [length_zipIdx] at hlength
  have hmod : words.map (· % 2^32) =
      (counts.map (· % 2^32)).zipIdx.flatMap fun p => [p.2+1,p.1,1] := by
    rw [map_flatMap,zipIdx_map,flatMap_map]
    rw [flatMap_def,flatMap_def]
    congr 1
    apply map_congr_left
    intro p hp
    have hidx : p.2 < counts.length+0 := snd_lt_of_mem_zipIdx hp
    have hfirst : (p.2+1) % 2^32 = p.2+1 := Nat.mod_eq_of_lt (by omega)
    have hone : 1 % 2^32 = 1 := by decide
    simp only [map_cons,map_nil,hfirst,hone,Prod.map,id_eq]
  have hwords := be32Words_flatMap words []
  rw [append_nil,hmod,hcount] at hwords
  unfold decodeStsc
  rw [be32At_append hpre,Nat.mod_eq_of_lt hlen,hbytes]
  have hdrop : (pre ++ (be32 counts.length ++ words.flatMap be32)).drop 16 =
      words.flatMap be32 := by
    rw [show 16 = 12+4 from rfl,← drop_drop,drop_left' hpre,drop_left' (length_be32 _)]
  rw [hdrop,hwords]
  exact stscEntries_flatMap _

theorem decodeStsc_table (hws : ∀ w ∈ counts, w < 2^32) :
    decodeStsc (pre ++ (be32 counts.length ++
      counts.zipIdx.flatMap fun p => be32 (p.2+1) ++ be32 p.1 ++ be32 1)) =
      entryPerChunk counts := by
  rw [decodeStsc_words hpre hlen,map_mod_of_lt hws]

end

theorem filter_entryPerChunk (counts : List ℕ) (k n : ℕ) :
    ((counts.zipIdx k).map fun p => (⟨p.2+1,p.1,1⟩ : StscEntry)).filter
        (fun e => e.firstChunk ≤ k+n) =
      ((counts.take n).zipIdx k).map fun p => ⟨p.2+1,p.1,1⟩ := by
  induction counts generalizing k n with
  | nil => simp
  | cons c counts ih =>
    cases n with
    | zero =>
      rw [take_zero,zipIdx_nil,map_nil,filter_eq_nil_iff]
      intro e he
      obtain ⟨p,hp,rfl⟩ := List.mem_map.mp he
      have hk : k ≤ p.2 := le_snd_of_mem_zipIdx hp
      simp only [decide_eq_true_eq]
      omega
    | succ n =>
      have htail := ih (k+1) n
      rw [Nat.add_right_comm] at htail
      rw [take_succ_cons,zipIdx_cons,zipIdx_cons,map_cons,map_cons,filter_cons_of_pos (by simp)]
      rw [Nat.add_assoc k n 1] at htail
      rw [htail]

theorem samplesInChunk_entryPerChunk (before : List ℕ) (count : ℕ) (after : List ℕ) :
    samplesInChunk (entryPerChunk (before ++ count :: after)) (before.length+1) = count := by
  have htake : (before ++ count :: after).take (before.length+1) = before ++ [count] := by
    rw [take_append,take_of_length_le (by omega),Nat.add_sub_cancel_left]
    rfl
  have hfilter := filter_entryPerChunk (before ++ count :: after) 0 (before.length+1)
  rw [Nat.zero_add,htake] at hfilter
  unfold samplesInChunk entryPerChunk
  rw [hfilter,zipIdx_append,map_append]
  simp

theorem locateFrom_chunks (before : List ℕ) (chunks : List Chunk) :
    locateFrom (entryPerChunk (before ++ chunks.map fun c => c.sizes.length)) (before.length+1)
        (chunks.map Chunk.offset) (chunks.flatMap Chunk.sizes) =
      chunks.flatMap Chunk.ranges := by
  induction chunks generalizing before with
  | nil => rfl
  | cons c chunks ih =>
    -- the entry of this chunk is the one behind `before`
    have hnext := ih (before ++ [c.sizes.length])
    rw [append_assoc,singleton_append,length_append,length_singleton] at hnext
    simp only [map_cons,flatMap_cons,locateFrom]
    rw [samplesInChunk_entryPerChunk,take_left,drop_left,hnext]
    rfl

theorem locateSamples_chunks (chunks : List Chunk) : locateSamples (chunks.map Chunk.offset)
        (entryPerChunk (chunks.map fun c => c.sizes.length)) (chunks.flatMap Chunk.sizes) =
      chunks.flatMap Chunk.ranges :=
  locateFrom_chunks [] chunks

theorem placeSamples_append (pos : ℕ) (sizes : List ℕ) (size : ℕ) :
    placeSamples pos (sizes ++ [size]) = placeSamples pos sizes ++ [(pos+sizes.sum, size)] := by
  induction sizes generalizing pos with
  | nil => simp [placeSamples]
  | cons a sizes ih =>
    rw [cons_append,placeSamples,placeSamples,ih,sum_cons,cons_append,Nat.add_assoc]

end TinaPackage
