import TinaPackage.BitSerialCrc
import TinaPackage.TsPackets

/-! The checksum of the sections. -/
namespace TinaPackage.Ts
open List Nat

def crc32Poly : ℕ := 0x04c11db7

def crc32Mpeg2 (data : List UInt8) : ℕ :=
  (bytesBits data).foldl (crcBit 31 crc32Poly) 0xffffffff

/-- A round of `generateCRC32`, for an `unsigned long` of `w` bits. -/
def crcRound (w crc : ℕ) (b : UInt8) : ℕ :=
  (crc <<< 8) % 2^w ^^^ (crcTable.getD ((crc >>> 24 ^^^ b.toNat) &&& 0xff) 0).toNat

def generateCRC32Long (w : ℕ) (data : List UInt8) : ℕ := data.foldl (crcRound w) 0xffffffff

theorem crcByte_own_byte (b : UInt8) : crcByte 31 crc32Poly (b.toNat <<< 24) b = 0 := by
  have hall : ∀ n < 256, crcByte 31 crc32Poly (n <<< 24) (UInt8.ofNat n) = 0 := by decide +kernel
  have hb := hall b.toNat b.toNat_lt
  rwa [UInt8.ofNat_toNat] at hb

theorem crcByte_table : ∀ t < 256,
    crcByte 31 crc32Poly (t <<< 24) 0 = (crcTable.getD t 0).toNat := by
  decide +kernel

section Step
variable {s : ℕ}

theorem eq_top_xor_low (s : ℕ) : s = (s/2^24) <<< 24 ^^^ s % 2^24 := by
  apply eq_of_testBit_eq
  intro i
  simp only [testBit_xor,testBit_shiftLeft,testBit_div_two_pow,testBit_mod_two_pow]
  by_cases hi : 24 ≤ i
  · simp [hi,Nat.sub_add_cancel hi,show ¬i < 24 by omega]
  · simp [hi,show i < 24 by omega]

theorem crcByte_split (s : ℕ) (x : UInt8) : crcByte 31 crc32Poly s x =
    crcByte 31 crc32Poly ((s/2^24) <<< 24) x ^^^ (s <<< 8) % 2^32 := by
  have hlow : crcByte 31 crc32Poly (s % 2^24) 0 = s % 2^24*2^8 :=
    crcBits_of_small 8 (by omega)
  have hshift : (s <<< 8) % 2^32 = s % 2^24*2^8 := by
    rw [shiftLeft_eq]
    omega
  rw [hshift,← hlow,← crcByte_xor,UInt8.xor_zero,← eq_top_xor_low]

theorem crcByte_eq_crcRound (hs : s < 2^32) (b : UInt8) :
    crcByte 31 crc32Poly s b = crcRound 32 s b := by
  have hb := b.toNat_lt
  have hindex : s/2^24 ^^^ b.toNat < 2^8 := xor_lt_two_pow (by omega) hb
  have htop : crcByte 31 crc32Poly ((s/2^24) <<< 24) b =
      crcByte 31 crc32Poly ((s/2^24 ^^^ b.toNat) <<< 24) 0 := by
    rw [shiftLeft_xor_distrib,← UInt8.xor_self,crcByte_xor,crcByte_own_byte,xor_zero]
  rw [crcByte_split s,htop,crcByte_table _ hindex,crcRound,shiftRight_eq_div_pow,
    and_two_pow_sub_one_eq_mod _ 8,mod_eq_of_lt hindex,Nat.xor_comm]

theorem crcRound_lt (s : ℕ) (b : UInt8) : crcRound 32 s b < 2^32 :=
  xor_lt_two_pow (mod_lt _ (by decide)) (UInt32.toNat_lt _)

theorem crcRound_mod (n crc : ℕ) (b : UInt8) :
    crcRound (32+n) crc b % 2^32 = crcRound 32 (crc % 2^32) b := by
  have hindex : (crc >>> 24 ^^^ b.toNat) &&& 0xff = ((crc % 2^32) >>> 24 ^^^ b.toNat) &&& 0xff := by
    rw [and_two_pow_sub_one_eq_mod _ 8,and_two_pow_sub_one_eq_mod _ 8,xor_mod_two_pow,
      xor_mod_two_pow,shiftRight_eq_div_pow,shiftRight_eq_div_pow]
    congr 1
    omega
  rw [crcRound,crcRound,xor_mod_two_pow,mod_mod_of_dvd _ (pow_dvd_pow 2 (by omega)),
    hindex,mod_eq_of_lt (UInt32.toNat_lt _),shiftLeft_eq,shiftLeft_eq,mod_mul_mod]

end Step

section Checksum
variable (data : List UInt8)

theorem generateCRC32Long_mod (n : ℕ) :
    generateCRC32Long (32+n) data % 2^32 = generateCRC32Long 32 data := by
  suffices hall : ∀ s, data.foldl (crcRound (32+n)) s % 2^32 =
      data.foldl (crcRound 32) (s % 2^32) from hall 0xffffffff
  induction data with
  | nil => exact fun _ => rfl
  | cons b data ih => exact fun s => by rw [foldl_cons,ih,crcRound_mod,foldl_cons]

theorem foldl_crcByte {s : ℕ} (hs : s < 2^32) :
    data.foldl (crcByte 31 crc32Poly) s = data.foldl (crcRound 32) s := by
  induction data generalizing s with
  | nil => rfl
  | cons b data ih =>
    rw [foldl_cons,foldl_cons,crcByte_eq_crcRound hs,ih (crcRound_lt s b)]

theorem generateCRC32Long_eq : generateCRC32Long 32 data = crc32Mpeg2 data := by
  rw [crc32Mpeg2,foldl_bytesBits,foldl_crcByte data (by decide),generateCRC32Long]

theorem toNat_generateCRC32 : (generateCRC32 data).toNat = generateCRC32Long 32 data := by
  suffices hall : ∀ s : UInt32, (data.foldl (fun (crc : UInt32) b => (crc <<< 8) ^^^
      crcTable.getD (((crc >>> 24) ^^^ b.toUInt32) &&& 0xff).toNat 0) s).toNat =
      data.foldl (crcRound 32) s.toNat from hall 0xffffffff
  induction data with
  | nil => exact fun _ => rfl
  | cons b data ih =>
    intro s
    rw [foldl_cons,ih,foldl_cons]
    rfl

theorem crcRound_own_byte {s x : ℕ} (hx : x % 256 = s/2^24) :
    crcRound 32 s (UInt8.ofNat x) = s*256 % 2^32 := by
  have hself : s >>> 24 ^^^ (UInt8.ofNat x).toNat = 0 := by
    rw [UInt8.toNat_ofNat',hx,shiftRight_eq_div_pow,Nat.xor_self]
  rw [crcRound,hself,shiftLeft_eq]
  exact Nat.xor_zero _

theorem foldl_be32 {x : ℕ} (hx : x < 2^32) : (be32 x).foldl (crcRound 32) x = 0 := by
  simp only [be32,bigEndian,nil_append,cons_append,foldl_cons,foldl_nil]
  rw [crcRound_own_byte (s := x) (by omega),crcRound_own_byte (s := x*256 % 2^32) (by omega),
    crcRound_own_byte (s := x*256 % 2^32*256 % 2^32) (by omega),crcRound_own_byte (by omega)]
  omega

theorem crc32Mpeg2_residue : crc32Mpeg2 (data ++ be32 (generateCRC32 data).toNat) = 0 := by
  have hlt := (generateCRC32 data).toNat_lt
  rw [toNat_generateCRC32] at hlt ⊢
  rw [← generateCRC32Long_eq,generateCRC32Long,foldl_append]
  exact foldl_be32 hlt

end Checksum

section Packets
variable (fsWrite : List UInt8 → Bool) (k : SectionKey)

def cacheAll : TsMuxContext → List (List UInt8) → Outcome TsMuxContext TsMuxContext
  | s, [] => .done s
  | s, p :: ps => (cachePacket fsWrite (s.setSectionCc k (((s.sectionOf k).cc+1) % 16)) p).bind
      fun s => cacheAll s ps

def sectionPackets (pid : ℕ) : ℕ → ℕ → Bool → List UInt8 → List (List UInt8)
  | 0, _, _, _ => []
  | turns + 1, cc, first, buf =>
    if buf = [] then [] else sectionPacket pid ((cc+1) % 16) first buf ::
      sectionPackets pid turns ((cc+1) % 16) false (buf.drop (sectionRoom first))

theorem sendSection_eq_cacheAll (turns : ℕ) (first : Bool) (s : TsMuxContext) (buf : List UInt8) :
    sendSection fsWrite k turns first s buf = cacheAll fsWrite k s
      (sectionPackets (s.sectionOf k).pid turns (s.sectionOf k).cc first buf) := by
  induction turns generalizing first s buf with
  | zero => rfl
  | succ turns ih =>
    unfold sendSection sectionPackets
    split
    · rfl
    · rw [cacheAll]
      simp only [length_sectionHeader,ih]
      unfold cachePacket
      dsimp only
      split_ifs
      all_goals cases k <;> simp [Outcome.bind,TsMuxContext.sectionOf,TsMuxContext.setSectionCc]

theorem map_drop_sectionPackets (pid turns cc : ℕ) (first : Bool) (buf : List UInt8) :
    (sectionPackets pid turns cc first buf).map (drop 4) = sectionPayloads turns first buf := by
  induction turns generalizing cc first buf with
  | zero => rfl
  | succ turns ih =>
    unfold sectionPackets sectionPayloads
    split
    · rfl
    · rw [map_cons,ih]
      cases first <;> rfl

theorem flatten_sectionPayloads {turns : ℕ} {buf : List UInt8} (first : Bool) (hne : buf ≠ [])
    (hlen : buf.length ≤ turns) : ∃ pad, (sectionPayloads turns first buf).flatten =
      (if first then [0] else []) ++ buf ++ replicate pad 0xff := by
  induction turns generalizing first buf with
  | zero => exact absurd (length_eq_zero_iff.1 (le_zero.1 hlen)) hne
  | succ turns ih =>
    have hroom : 184-(if first then [(0 : UInt8)] else []).length = sectionRoom first := by
      cases first <;> rfl
    have hpos : 0 < sectionRoom first := by cases first <;> decide
    rw [sectionPayloads,if_neg hne,flatten_cons,sectionPayload,hroom,length_take]
    by_cases hrest : buf.drop (sectionRoom first) = []
    · have hnil : (sectionPayloads turns false []).flatten = [] := by cases turns <;> rfl
      rw [hrest,hnil,append_nil,take_of_length_le (drop_eq_nil_iff.1 hrest)]
      exact ⟨_,rfl⟩
    · obtain ⟨pad,hpad⟩ := ih false hrest (by rw [length_drop]; omega)
      have hfull : sectionRoom first-min (sectionRoom first) buf.length = 0 := by
        have hlong := mt drop_eq_nil_iff.2 hrest
        omega
      refine ⟨pad,?_⟩
      rw [hpad,hfull]
      simp only [replicate_zero,append_nil,Bool.false_eq_true,if_false,nil_append,append_assoc]
      rw [← append_assoc (take _ _),take_append_drop]

/-- The checksum is the one of the message where an `unsigned long` has 32 bits, and its low
32 bits are otherwise. Every section that is sent leaves no remainder. -/
theorem section_crc (n : ℕ) (data : List UInt8) (s : TsMuxContext) (buf : List UInt8) :
    generateCRC32Long 32 data = crc32Mpeg2 data ∧
      generateCRC32Long (32+n) data % 2^32 = crc32Mpeg2 data ∧
      ∃ sect ps pad, tsWriteSection fsWrite s k buf =
          (if s.isSdcardDisappear then .failed s else cacheAll fsWrite k s ps) ∧
        (ps.map (drop 4)).flatten = 0 :: sect ++ replicate pad 0xff ∧
        sect = buf ++ be32 (generateCRC32Long (32+n) buf % 2^32) ∧ crc32Mpeg2 sect = 0 := by
  have hlong := generateCRC32Long_mod buf n
  rw [← toNat_generateCRC32] at hlong
  refine ⟨generateCRC32Long_eq data,by rw [generateCRC32Long_mod,generateCRC32Long_eq],?_⟩
  let sect := buf ++ be32 (generateCRC32 buf).toNat
  have hne : sect ≠ [] := by simp [sect,be32,bigEndian]
  obtain ⟨pad,hpad⟩ := flatten_sectionPayloads true hne le_rfl
  refine ⟨sect,sectionPackets (s.sectionOf k).pid sect.length (s.sectionOf k).cc true sect,pad,
    ?_,?_,by rw [hlong],crc32Mpeg2_residue buf⟩
  · rw [tsWriteSection,sendSection_eq_cacheAll]
  · rw [map_drop_sectionPackets,hpad]
    rfl

theorem generateCRC32Long_exceeds : generateCRC32Long 64 [0] = 0xff4e08bfb4 ∧
    crc32Mpeg2 [0] = 0x4e08bfb4 := by
  decide +kernel

end Packets
end TinaPackage.Ts
