import Mathlib

/-! The CRC-16 of buffers and of files (`utils/rwcheck/src/crc16.c`). Every entry of the table has
the parity of its index, so the register has the parity of the message. -/
namespace TinaPackage.RwCheck
open List

def crc16Table : List (BitVec 16) :=
  [0x0000,0x1189,0x2312,0x329b,0x4624,0x57ad,0x6536,0x74bf,0x8c48,0x9dc1,0xaf5a,0xbed3,0xca6c,
    0xdbe5,0xe97e,0xf8f7,0x1081,0x0108,0x3393,0x221a,0x56a5,0x472c,0x75b7,0x643e,0x9cc9,0x8d40,
    0xbfdb,0xae52,0xdaed,0xcb64,0xf9ff,0xe876,0x2102,0x308b,0x0210,0x1399,0x6726,0x76af,0x4434,
    0x55bd,0xad4a,0xbcc3,0x8e58,0x9fd1,0xeb6e,0xfae7,0xc87c,0xd9f5,0x3183,0x200a,0x1291,0x0318,
    0x77a7,0x662e,0x54b5,0x453c,0xbdcb,0xac42,0x9ed9,0x8f50,0xfbef,0xea66,0xd8fd,0xc974,0x4204,
    0x538d,0x6116,0x709f,0x0420,0x15a9,0x2732,0x36bb,0xce4c,0xdfc5,0xed5e,0xfcd7,0x8868,0x99e1,
    0xab7a,0xbaf3,0x5285,0x430c,0x7197,0x601e,0x14a1,0x0528,0x37b3,0x263a,0xdecd,0xcf44,0xfddf,
    0xec56,0x98e9,0x8960,0xbbfb,0xaa72,0x6306,0x728f,0x4014,0x519d,0x2522,0x34ab,0x0630,0x17b9,
    0xef4e,0xfec7,0xcc5c,0xddd5,0xa96a,0xb8e3,0x8a78,0x9bf1,0x7387,0x620e,0x5095,0x411c,0x35a3,
    0x242a,0x16b1,0x0738,0xffcf,0xee46,0xdcdd,0xcd54,0xb9eb,0xa862,0x9af9,0x8b70,0x8408,0x9581,
    0xa71a,0xb693,0xc22c,0xd3a5,0xe13e,0xf0b7,0x0840,0x19c9,0x2b52,0x3adb,0x4e64,0x5fed,0x6d76,
    0x7cff,0x9489,0x8500,0xb79b,0xa612,0xd2ad,0xc324,0xf1bf,0xe036,0x18c1,0x0948,0x3bd3,0x2a5a,
    0x5ee5,0x4f6c,0x7df7,0x6c7e,0xa50a,0xb483,0x8618,0x9791,0xe32e,0xf2a7,0xc03c,0xd1b5,0x2942,
    0x38cb,0x0a50,0x1bd9,0x6f66,0x7eef,0x4c74,0x5dfd,0xb58b,0xa402,0x9699,0x8710,0xf3af,0xe226,
    0xd0bd,0xc134,0x39c3,0x284a,0x1ad1,0x0b58,0x7fe7,0x6e6e,0x5cf5,0x4d7c,0xc60c,0xd785,0xe51e,
    0xf497,0x8028,0x91a1,0xa33a,0xb2b3,0x4a44,0x5bcd,0x6956,0x78df,0x0c60,0x1de9,0x2f72,0x3efb,
    0xd68d,0xc704,0xf59f,0xe416,0x90a9,0x8120,0xb3bb,0xa232,0x5ac5,0x4b4c,0x79d7,0x685e,0x1ce1,
    0x0d68,0x3ff3,0x2e7a,0xe70e,0xf687,0xc41c,0xd595,0xa12a,0xb0a3,0x8238,0x93b1,0x6b46,0x7acf,
    0x4854,0x59dd,0x2d62,0x3ceb,0x0e70,0x1ff9,0xf78f,0xe606,0xd49d,0xc514,0xb1ab,0xa022,0x92b9,
    0x8330,0x7bc7,0x6a4e,0x58d5,0x495c,0x3de3,0x2c6a,0x1ef1,0x0f78]

/-- The `char` that `buf[index]` is has its sign behind the mask. -/
def crc16Step (oldcrc : BitVec 16) (b : UInt8) : BitVec 16 :=
  (oldcrc >>> 8) ^^^ crc16Table.getD ((oldcrc ^^^ b.toBitVec.setWidth 16) &&& 0xff).toNat 0

def crc16Common (oldcrc : BitVec 16) (buf : List UInt8) : BitVec 16 := buf.foldl crc16Step oldcrc

variable (buf : List UInt8)

def getCrc16 : BitVec 16 := crc16Common 0xffff buf ^^^ 0xffff

def crcBytes (crc : BitVec 16) : List UInt8 := [⟨crc.setWidth 8⟩,⟨(crc >>> 8).setWidth 8⟩]

/-- `Append_Crc16` on a buffer with two more bytes behind `buf`. -/
def appendCrc16 : List UInt8 := buf ++ crcBytes (getCrc16 buf)

def checkCrc16 : Bool := getCrc16 buf == 0xf0b8

def flipBit (k j : ℕ) : List UInt8 := buf.modify k (· ^^^ ⟨.twoPow 8 j⟩)

def parity {w : ℕ} (v : BitVec w) : ZMod 2 :=
  ((range w).map fun i => bif v.getLsbD i then 1 else 0).sum

theorem parity_xor {w : ℕ} (x y : BitVec w) : parity (x ^^^ y) = parity x+parity y := by
  have hbit : ∀ a b : Bool, (bif a ^^ b then 1 else 0 : ZMod 2) =
      (bif a then 1 else 0)+bif b then 1 else 0 := by decide
  simp only [parity,BitVec.getLsbD_xor,hbit,sum_map_add]

theorem parity_halves (s : BitVec 16) : parity (s >>> 8)+parity (s.setWidth 8) = parity s := by
  simp [parity,range_succ]
  ring

theorem parity_table (i : BitVec 8) : parity (crc16Table.getD i.toNat 0) = parity i := by
  revert i
  decide +kernel

section Register
variable (s : BitVec 16) (b : UInt8) (buf : List UInt8)

theorem crc16Step_eq :
    crc16Step s b = (s >>> 8) ^^^ crc16Table.getD (s.setWidth 8 ^^^ b.toBitVec).toNat 0 := by
  have hindex : ((s ^^^ b.toBitVec.setWidth 16) &&& 0xff).toNat =
      (s.setWidth 8 ^^^ b.toBitVec).toNat := by
    rw [BitVec.toNat_and,BitVec.toNat_xor,BitVec.toNat_xor,BitVec.toNat_setWidth,
      BitVec.toNat_setWidth]
    refine (Nat.and_two_pow_sub_one_eq_mod _ 8).trans ?_
    rw [Nat.xor_mod_two_pow,Nat.mod_mod_of_dvd _ (by decide),Nat.mod_eq_of_lt b.toBitVec.isLt]
  rw [crc16Step,hindex]

theorem parity_crc16Step : parity (crc16Step s b) = parity s+parity b.toBitVec := by
  rw [crc16Step_eq,parity_xor,parity_table,parity_xor,← add_assoc,parity_halves]

theorem crc16Common_cons : crc16Common s (b :: buf) = crc16Common (crc16Step s b) buf := rfl

theorem parity_crc16Common :
    parity (crc16Common s buf) = parity s+(buf.map fun b => parity b.toBitVec).sum := by
  induction buf generalizing s with
  | nil => exact (add_zero _).symm
  | cons b buf ih => rw [crc16Common_cons,ih,parity_crc16Step,map_cons,sum_cons,add_assoc]

theorem parity_flipBit {k j : ℕ} (hk : k < buf.length) (hj : j < 8) :
    parity (crc16Common s (flipBit buf k j)) = parity (crc16Common s buf)+1 := by
  have hone : ∀ j < 8, parity (BitVec.twoPow 8 j) = 1 := by decide
  rw [parity_crc16Common,parity_crc16Common,add_assoc]
  congr 1
  induction buf generalizing k with
  | nil => cases hk
  | cons b buf ih =>
    cases k with
    | zero => simp [flipBit,parity_xor,hone j hj,add_right_comm]
    | succ k =>
      rw [flipBit,modify_succ_cons,map_cons,sum_cons,map_cons,sum_cons,add_assoc]
      exact congrArg _ (ih (Nat.lt_of_succ_lt_succ hk))

/-- What the register is behind a message and its complement. -/
theorem crc16Common_residue : crc16Common s (crcBytes (s ^^^ 0xffff)) = 0xf0b8 := by
  -- either byte cancels what the register has in its low byte, so both indices are fixed
  have hfirst : crc16Step s ⟨(s ^^^ 0xffff).setWidth 8⟩ = (s >>> 8) ^^^ 0x0f78 := by
    rw [crc16Step_eq,BitVec.setWidth_xor,← BitVec.xor_assoc,BitVec.xor_self]
    rfl
  have hsecond : ((s >>> 8) ^^^ 0x0f78).setWidth 8 ^^^ ((s ^^^ 0xffff) >>> 8).setWidth 8 =
      0x87#8 := by
    rw [BitVec.setWidth_xor,BitVec.ushiftRight_xor_distrib,BitVec.setWidth_xor]
    generalize (s >>> 8).setWidth 8 = x
    revert x
    decide
  rw [crcBytes,crc16Common_cons,crc16Common_cons,hfirst,crc16Step_eq,hsecond,
    BitVec.ushiftRight_xor_distrib,← BitVec.shiftRight_add,BitVec.ushiftRight_eq_zero (by decide)]
  rfl

end Register

theorem crc16Common_append (s : BitVec 16) (a b : List UInt8) :
    crc16Common s (a ++ b) = crc16Common (crc16Common s a) b := foldl_append

section Appended
variable (buf : List UInt8)

theorem length_appendCrc16 : (appendCrc16 buf).length = buf.length+2 := by
  simp [appendCrc16,crcBytes]

theorem crc16Common_appendCrc16 : crc16Common 0xffff (appendCrc16 buf) = 0xf0b8 := by
  rw [appendCrc16,crc16Common_append]
  exact crc16Common_residue _

theorem parity_flipBit_appendCrc16 {k j : ℕ} (hk : k < buf.length+2) (hj : j < 8) :
    parity (crc16Common 0xffff (flipBit (appendCrc16 buf) k j)) = 1 := by
  rw [parity_flipBit _ _ (length_appendCrc16 buf ▸ hk) hj,crc16Common_appendCrc16]
  decide

theorem getCrc16_parity : parity (getCrc16 buf) = (buf.map fun b => parity b.toBitVec).sum := by
  have hones : parity (0xffff : BitVec 16) = 0 := by decide
  rw [getCrc16,parity_xor,parity_crc16Common,hones,zero_add,add_zero]

/-- The checksum has the parity of the message, so an odd number of changed bits changes it. -/
theorem parity_getCrc16 : parity (getCrc16 buf) = (buf.map fun b => parity b.toBitVec).sum ∧
    ∀ buf' : List UInt8, buf.length = buf'.length →
      (zipWith (fun b b' => parity (b ^^^ b').toBitVec) buf buf').sum = 1 →
      getCrc16 buf ≠ getCrc16 buf' := by
  refine ⟨getCrc16_parity buf,fun buf' hlen hodd heq => ?_⟩
  have hsum : (zipWith (fun b b' => parity (b ^^^ b').toBitVec) buf buf').sum =
      (buf.map fun b => parity b.toBitVec).sum+(buf'.map fun b => parity b.toBitVec).sum := by
    rw [sum_add_sum_eq_sum_zipWith_of_length_eq _ _ (by simpa using hlen),zipWith_map]
    simp only [UInt8.toBitVec_xor,parity_xor]
  rw [hsum,← getCrc16_parity,← getCrc16_parity,heq,CharTwo.add_self_eq_zero] at hodd
  exact absurd hodd (by decide)

/-- The check looks for the residue in the complement of the register, and not in the register. -/
theorem appended_crc16_refused :
    checkCrc16 (appendCrc16 buf) = false ∧
      ∀ k < buf.length+2, ∀ j < 8, checkCrc16 (flipBit (appendCrc16 buf) k j) = false := by
  constructor
  · rw [checkCrc16,getCrc16,crc16Common_appendCrc16]
    decide
  · intro k hk j hj
    rw [checkCrc16,beq_eq_false_iff_ne]
    intro h
    have hsame := congrArg parity h
    rw [getCrc16,parity_xor,parity_flipBit_appendCrc16 buf hk hj] at hsame
    exact absurd hsame (by decide)

end Appended

theorem one_byte_refused : checkCrc16 (appendCrc16 [0x31]) = false := by decide +kernel

def bytesPerRead : ℕ := 16*1024

def ofLittleEndian (bytes : List UInt8) : ℕ := bytes.foldr (fun b acc => b.toNat+256*acc) 0

def fread (file : List UInt8) (off len : ℕ) : List UInt8 := (file.drop off).take len

section Files
variable (ul : ℕ) (file : List UInt8) (off : ℕ)

/-- `Get_DataLength_From_File_Bytes`, for an `unsigned long` of `ul` bytes. -/
def getDataLength : ℕ :=
  if file.length < off then 2^(8*ul)-1
  else if (fread file off ul).length ≠ ul then 2^(8*ul)-1
  else ofLittleEndian (fread file off ul)

/-- The loop of `Get_Crc16_From_File`; every turn takes a byte at least. -/
def crcLoop : ℕ → BitVec 16 → ℕ → List UInt8 → Option (BitVec 16)
  | 0, crc, _, _ => some crc
  | turns+1, crc, numBytes, rest =>
    if numBytes = 0 then some crc
    else
      let cnt := min numBytes bytesPerRead
      if rest.length < cnt then none
      else crcLoop turns (crc16Common crc (rest.take cnt)) (numBytes-cnt) (rest.drop cnt)

def getCrc16FromFile (numBytes : ℕ) : Option (BitVec 16) :=
  if file.length < off then none
  else
    let n := if numBytes = 0 then getDataLength ul file off else numBytes
    if numBytes = 0 ∧ (n = 2^(8*ul)-1 ∨ (n+2) % 2^(8*ul) > file.length) then none
    else (crcLoop n 0xffff n (file.drop off)).map (· ^^^ 0xffff)

/-- The file that `Append_Crc16_To_File` leaves, and its result. -/
def appendCrc16ToFile : List UInt8 × ℤ :=
  if file.length < off then (file, -1)
  else
    let numBytes := getDataLength ul file off
    if numBytes = 2^(8*ul)-1 ∨ (off+numBytes+2) % 2^(8*ul) > file.length then (file, -1)
    else
      match getCrc16FromFile ul file off numBytes with
      | none => (file, -1)
      | some crc =>
        (file.take (off+numBytes) ++ (crcBytes crc ++ file.drop (off+numBytes+2)), 0)

def checkCrc16FromFile : Bool :=
  if file.length < off then false
  else
    let numBytes := getDataLength ul file off
    if numBytes = 2^(8*ul)-1 ∨ (numBytes+2) % 2^(8*ul) > file.length then false
    else
      match getCrc16FromFile ul file off ((numBytes+2) % 2^(8*ul)) with
      | none => false
      | some crc => ~~~crc == 0xf0b8

variable {ul file off}

theorem crcLoop_eq {turns n : ℕ} {crc : BitVec 16} {rest : List UInt8} (hturns : n ≤ turns)
    (hn : n ≤ rest.length) : crcLoop turns crc n rest = some (crc16Common crc (rest.take n)) := by
  induction turns generalizing n crc rest with
  | zero =>
    obtain rfl := Nat.le_zero.mp hturns
    rfl
  | succ turns ih =>
    rw [crcLoop]
    by_cases h0 : n = 0
    · rw [if_pos h0,h0]
      rfl
    · have hcnt : 0 < min n bytesPerRead := lt_min (Nat.pos_of_ne_zero h0) (by decide)
      have hle := min_le_left n bytesPerRead
      rw [if_neg h0]
      rw [if_neg (by omega),ih (by omega) (by rw [length_drop]; omega),← crc16Common_append,
        ← take_add,Nat.add_sub_cancel' hle]

/-- The length that stands at `off` is `n`, and the file has `n` bytes and a checksum there. -/
structure Covers (ul : ℕ) (file : List UInt8) (off n : ℕ) : Prop where
  recorded : ofLittleEndian (fread file off ul) = n
  le : ul ≤ n
  fits : off+n+2 ≤ file.length
  size : file.length < 2^(8*ul)

namespace Covers
variable {n : ℕ} (h : Covers ul file off n)
include h

theorem getDataLength : RwCheck.getDataLength ul file off = n := by
  have := h.fits
  have := h.le
  rw [RwCheck.getDataLength,if_neg (by omega),if_neg (by simp [fread]; omega),h.recorded]

theorem getCrc16FromFile {m : ℕ} (hm : m ≠ 0) (hle : m ≤ n+2) :
    RwCheck.getCrc16FromFile ul file off m =
      some (crc16Common 0xffff (fread file off m) ^^^ 0xffff) := by
  have := h.fits
  rw [RwCheck.getCrc16FromFile,if_neg (by omega)]
  simp only [hm,if_false,false_and]
  rw [crcLoop_eq le_rfl (by rw [length_drop]; omega)]
  rfl

theorem appendCrc16ToFile : appendCrc16ToFile ul file off =
    (file.take off ++ (appendCrc16 (fread file off n) ++ file.drop (off+n+2)), 0) := by
  have := h.fits
  have := h.size
  have := h.le
  have hul : ul ≠ 0 := by
    rintro rfl
    omega
  rw [RwCheck.appendCrc16ToFile,if_neg (by omega),h.getDataLength]
  dsimp only
  rw [Nat.mod_eq_of_lt (by omega),if_neg (by omega),h.getCrc16FromFile (by omega) (by omega)]
  simp only [appendCrc16,getCrc16,fread,take_add,append_assoc]

theorem checkCrc16FromFile : checkCrc16FromFile ul file off = true ↔
    crc16Common 0xffff (fread file off (n+2)) = 0xf0b8 := by
  have := h.fits
  have := h.size
  rw [RwCheck.checkCrc16FromFile,if_neg (by omega),h.getDataLength]
  dsimp only
  rw [Nat.mod_eq_of_lt (by omega),if_neg (by omega),h.getCrc16FromFile (by omega) le_rfl]
  rw [beq_iff_eq,BitVec.not_def,BitVec.xor_comm,BitVec.xor_assoc,
    show 0xffff ^^^ BitVec.allOnes 16 = 0#16 by decide,BitVec.xor_zero]

theorem of_fread {file' : List UInt8} (hlen : file'.length = file.length)
    (hread : fread file' off ul = fread file off ul) : Covers ul file' off n :=
  ⟨hread ▸ h.recorded,h.le,hlen ▸ h.fits,hlen ▸ h.size⟩

end Covers

theorem fread_flipBit {k : ℕ} (hk : off ≤ k) (j m : ℕ) :
    fread (flipBit file k j) off m = flipBit (fread file off m) (k-off) j := by
  rw [fread,flipBit,drop_modify_of_ge _ _ _ _ hk,take_modify]
  rfl

end Files

end TinaPackage.RwCheck
