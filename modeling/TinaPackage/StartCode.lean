import Mathlib

/-! The search for a start code that the MP4 muxer does on AVC data, from any address on. -/
namespace TinaPackage.StartCode

section Scan
variable {body : ℕ → Option ℕ} {step n p r : ℕ}

/-- `n` rounds of a loop that moves on by `step`: what it returns, or where it
ends. -/
def scan (body : ℕ → Option ℕ) (step : ℕ) : ℕ → ℕ → ℕ ⊕ ℕ
  | 0, p => .inr p
  | n + 1, p =>
    match body p with
    | some r => .inl r
    | none => scan body step n (p+step)

theorem scan_next (p step k : ℕ) : p+step+step*k = p+step*(k+1) := by
  rw [Nat.mul_succ]
  omega

theorem scan_inl (h : scan body step n p = .inl r) :
    ∃ k < n, body (p+step*k) = some r ∧ ∀ j < k, body (p+step*j) = none := by
  induction n generalizing p with
  | zero => cases h
  | succ n ih =>
    rw [scan] at h
    cases hbody : body p with
    | some r' =>
      rw [hbody] at h
      obtain rfl := Sum.inl.inj h
      exact ⟨0,by omega,hbody,fun j hj => absurd hj (by omega)⟩
    | none =>
      rw [hbody] at h
      obtain ⟨k,hk,hr,hnone⟩ := ih h
      refine ⟨k+1,by omega,scan_next p step k ▸ hr,?_⟩
      intro j hj
      cases j with
      | zero => exact hbody
      | succ j => exact scan_next p step j ▸ hnone j (by omega)

theorem scan_inr (h : scan body step n p = .inr r) :
    r = p+step*n ∧ ∀ j < n, body (p+step*j) = none := by
  induction n generalizing p with
  | zero =>
    obtain rfl := Sum.inr.inj h
    exact ⟨rfl,fun j hj => absurd hj (by omega)⟩
  | succ n ih =>
    rw [scan] at h
    cases hbody : body p with
    | some r' =>
      rw [hbody] at h
      cases h
    | none =>
      rw [hbody] at h
      obtain ⟨hr,hnone⟩ := ih h
      refine ⟨hr.trans (scan_next p step n),?_⟩
      intro j hj
      cases j with
      | zero => exact hbody
      | succ j => exact scan_next p step j ▸ hnone j (by omega)

end Scan

section Search
variable (buf : ℕ → UInt8)

def StartCodeAt (p : ℕ) : Prop := buf p = 0 ∧ buf (p+1) = 0 ∧ buf (p+2) = 1

instance (p : ℕ) : Decidable (StartCodeAt buf p) := inferInstanceAs (Decidable (_ ∧ _))

def wordAt (p : ℕ) : UInt32 :=
  UInt32.ofNat ((buf p).toNat+(buf (p+1)).toNat*2^8+(buf (p+2)).toNat*2^16 + (buf (p+3)).toNat*2^24)

def mayHaveZero (x : UInt32) : Bool := (x-0x01010101) &&& ~~~x &&& 0x80808080 != 0

def byteBody (p : ℕ) : Option ℕ := if StartCodeAt buf p then some p else none

def wordBody (p : ℕ) : Option ℕ :=
  if mayHaveZero (wordAt buf p) then
    if buf (p+1) = 0 ∧ buf p = 0 ∧ buf (p+2) = 1 then some (p-1)
    else if buf (p+1) = 0 ∧ buf (p+2) = 0 ∧ buf (p+3) = 1 then some p
    else if buf (p+3) = 0 ∧ buf (p+2) = 0 ∧ buf (p+4) = 1 then some (p+1)
    else if buf (p+3) = 0 ∧ buf (p+4) = 0 ∧ buf (p+5) = 1 then some (p+2)
    else none
  else none

def findAvcStartcode (p stop : ℕ) : ℕ :=
  let a := p+4-p % 4
  match scan (byteBody buf) 1 (min a (stop-3)-p) p with
  | .inl r => r
  | .inr p =>
    match scan (wordBody buf) 4 ((stop-6-p+3)/4) p with
    | .inl r => r
    | .inr p =>
      match scan (byteBody buf) 1 (stop-3-p) p with
      | .inl r => r
      | .inr _ => stop

end Search

theorem mayHaveZero_of_testBit {x : UInt32} (i : ℕ)
    (hsub : (x-0x01010101).toNat/2^i % 2 = 1) (hnot : (~~~x).toNat/2^i % 2 = 1)
    (hmask : (0x80808080 : ℕ).testBit i = true) : mayHaveZero x = true := by
  have hbit : ((x-0x01010101) &&& ~~~x &&& 0x80808080).toNat.testBit i = true := by
    rw [UInt32.toNat_and,UInt32.toNat_and,Nat.testBit_and,Nat.testBit_and,
      Nat.testBit_eq_decide_div_mod_eq,Nat.testBit_eq_decide_div_mod_eq,decide_eq_true hsub,
      decide_eq_true hnot]
    exact hmask
  rw [mayHaveZero,bne_iff_ne]
  intro hzero
  rw [hzero,UInt32.toNat_zero,Nat.zero_testBit] at hbit
  exact absurd hbit (by decide)

/-- A word with a zero byte passes the test: nothing is borrowed from the lowest zero
byte, so that its highest bit is set after the subtraction. -/
theorem mayHaveZero_of_zero {b₀ b₁ b₂ b₃ : ℕ} (h₀ : b₀ < 256) (h₁ : b₁ < 256) (h₂ : b₂ < 256)
    (h₃ : b₃ < 256) (h : b₀ = 0 ∨ b₁ = 0 ∨ b₂ = 0 ∨ b₃ = 0) :
    mayHaveZero (UInt32.ofNat (b₀+b₁*2^8+b₂*2^16+b₃*2^24)) = true := by
  generalize hx : b₀+b₁*2^8+b₂*2^16+b₃*2^24 = x
  have hlt : x < 2^32 := by omega
  have hword : (UInt32.ofNat x).toNat = x := UInt32.toNat_ofNat_of_lt' hlt
  have hsub : (UInt32.ofNat x-0x01010101).toNat = (2^32-0x01010101+x) % 2^32 := by
    rw [UInt32.toNat_sub,hword]
    rfl
  have hnot : (~~~UInt32.ofNat x).toNat = 2^32-1-x := by
    rw [UInt32.toNat_not,hword]
    rfl
  by_cases z₀ : b₀ = 0
  · exact mayHaveZero_of_testBit 7 (by rw [hsub]; omega) (by rw [hnot]; omega) (by decide)
  by_cases z₁ : b₁ = 0
  · exact mayHaveZero_of_testBit 15 (by rw [hsub]; omega) (by rw [hnot]; omega) (by decide)
  by_cases z₂ : b₂ = 0
  · exact mayHaveZero_of_testBit 23 (by rw [hsub]; omega) (by rw [hnot]; omega) (by decide)
  exact mayHaveZero_of_testBit 31 (by rw [hsub]; omega) (by rw [hnot]; omega) (by decide)

section Loops
variable {buf : ℕ → UInt8}

/-- The first start code at or after `p`. -/
structure FirstCode (buf : ℕ → UInt8) (p q : ℕ) : Prop where
  le : p ≤ q
  code : StartCodeAt buf q
  none_before : ∀ k, p ≤ k → k < q → ¬StartCodeAt buf k

theorem FirstCode.unique {p q q' : ℕ} (h : FirstCode buf p q) (h' : FirstCode buf p q') :
    q = q' := by
  rcases Nat.lt_trichotomy q q' with hlt | heq | hlt
  · exact absurd h.code (h'.none_before q h.le hlt)
  · exact heq
  · exact absurd h'.code (h.none_before q' h'.le hlt)

theorem FirstCode.extend {p p' q : ℕ} (hle : p ≤ p') (h : FirstCode buf p' q)
    (hnone : ∀ k, p ≤ k → k < p' → ¬StartCodeAt buf k) : FirstCode buf p q := by
  refine ⟨hle.trans h.le,h.code,?_⟩
  intro k hk hkq
  rcases Nat.lt_or_ge k p' with hlt | hge
  · exact hnone k hk hlt
  · exact h.none_before k hge hkq

theorem mayHaveZero_of_code {p k : ℕ} (hk : p ≤ k) (hkp : k < p+4) (h : StartCodeAt buf k) :
    mayHaveZero (wordAt buf p) = true := by
  apply mayHaveZero_of_zero (buf p).toNat_lt (buf (p+1)).toNat_lt (buf (p+2)).toNat_lt
    (buf (p+3)).toNat_lt
  have hzero : (buf k).toNat = 0 := by rw [h.1]; rfl
  obtain rfl | rfl | rfl | rfl : k = p ∨ k = p+1 ∨ k = p+2 ∨ k = p+3 := by omega
  all_goals tauto

variable {p : ℕ}

theorem wordBody_eq (h : mayHaveZero (wordAt buf p) = true) :
    wordBody buf p = if StartCodeAt buf p then some (p-1)
      else if StartCodeAt buf (p+1) then some p
      else if StartCodeAt buf (p+2) then some (p+1)
      else if StartCodeAt buf (p+3) then some (p+2)
      else none := by
  have h₀ : buf (p+1) = 0 ∧ buf p = 0 ∧ buf (p+2) = 1 ↔ StartCodeAt buf p := and_left_comm
  have h₁ : buf (p+1) = 0 ∧ buf (p+2) = 0 ∧ buf (p+3) = 1 ↔ StartCodeAt buf (p+1) := .rfl
  have h₂ : buf (p+3) = 0 ∧ buf (p+2) = 0 ∧ buf (p+4) = 1 ↔ StartCodeAt buf (p+2) :=
    and_left_comm
  have h₃ : buf (p+3) = 0 ∧ buf (p+4) = 0 ∧ buf (p+5) = 1 ↔ StartCodeAt buf (p+3) := .rfl
  rw [wordBody,if_pos h]
  simp only [h₀,h₁,h₂,h₃]

theorem wordBody_some {p r : ℕ} (h : wordBody buf p = some r) :
    ∃ q, FirstCode buf p q ∧ q < p+4 ∧ r = q-1 := by
  have htest : mayHaveZero (wordAt buf p) = true := by
    by_contra hno
    rw [wordBody,if_neg hno] at h
    cases h
  rw [wordBody_eq htest] at h
  split at h
  · next h₀ =>
    obtain rfl := Option.some.inj h
    exact ⟨p,⟨le_rfl,h₀,fun k hk hkp => absurd hk (by omega)⟩,by omega,rfl⟩
  next h₀ =>
  split at h
  · next h₁ =>
    obtain rfl := Option.some.inj h
    refine ⟨p+1,⟨by omega,h₁,?_⟩,by omega,rfl⟩
    intro k hk hkp
    obtain rfl : k = p := by omega
    exact h₀
  next h₁ =>
  split at h
  · next h₂ =>
    obtain rfl := Option.some.inj h
    refine ⟨p+2,⟨by omega,h₂,?_⟩,by omega,rfl⟩
    intro k hk hkp
    obtain rfl | rfl : k = p ∨ k = p+1 := by omega
    exacts [h₀,h₁]
  next h₂ =>
  split at h
  · next h₃ =>
    obtain rfl := Option.some.inj h
    refine ⟨p+3,⟨by omega,h₃,?_⟩,by omega,rfl⟩
    intro k hk hkp
    obtain rfl | rfl | rfl : k = p ∨ k = p+1 ∨ k = p+2 := by omega
    exacts [h₀,h₁,h₂]
  · cases h

theorem wordBody_none (h : wordBody buf p = none) (k : ℕ) (hk : p ≤ k) (hkp : k < p+4) :
    ¬StartCodeAt buf k := by
  intro hcode
  rw [wordBody_eq (mayHaveZero_of_code hk hkp hcode)] at h
  obtain rfl | rfl | rfl | rfl : k = p ∨ k = p+1 ∨ k = p+2 ∨ k = p+3 := by omega
  all_goals split_ifs at h

theorem byteBody_none : byteBody buf p = none ↔ ¬StartCodeAt buf p := by
  rw [byteBody]
  split <;> simp [*]

variable {n p r : ℕ}

theorem byteScan_inl (h : scan (byteBody buf) 1 n p = .inl r) : FirstCode buf p r ∧ r < p+n := by
  obtain ⟨k,hk,hr,hnone⟩ := scan_inl h
  rw [byteBody] at hr
  split at hr
  · next hcode =>
    obtain rfl := Option.some.inj hr
    refine ⟨⟨by omega,hcode,?_⟩,by omega⟩
    intro i hi hik
    have hbyte := hnone (i-p) (by omega)
    rwa [byteBody_none,show p+1*(i-p) = i by omega] at hbyte
  · cases hr

theorem byteScan_inr (h : scan (byteBody buf) 1 n p = .inr r) :
    r = p+n ∧ ∀ i, p ≤ i → i < p+n → ¬StartCodeAt buf i := by
  obtain ⟨hr,hnone⟩ := scan_inr h
  refine ⟨by omega,?_⟩
  intro i hi hin
  have hbyte := hnone (i-p) (by omega)
  rwa [byteBody_none,show p+1*(i-p) = i by omega] at hbyte

theorem words_none {n p : ℕ} (h : ∀ j < n, wordBody buf (p+4*j) = none) (i : ℕ) (hi : p ≤ i)
    (hin : i < p+4*n) : ¬StartCodeAt buf i :=
  wordBody_none (h ((i-p)/4) (by omega)) i (by omega) (by omega)

theorem wordScan_inl (h : scan (wordBody buf) 4 n p = .inl r) :
    ∃ q, FirstCode buf p q ∧ q < p+4*n ∧ r = q-1 := by
  obtain ⟨k,hk,hr,hnone⟩ := scan_inl h
  obtain ⟨q,hfirst,hlt,hq⟩ := wordBody_some hr
  exact ⟨q,hfirst.extend (by omega) (words_none hnone),by omega,hq⟩

theorem wordScan_inr (h : scan (wordBody buf) 4 n p = .inr r) :
    r = p+4*n ∧ ∀ i, p ≤ i → i < p+4*n → ¬StartCodeAt buf i := by
  obtain ⟨hr,hnone⟩ := scan_inr h
  exact ⟨hr,words_none hnone⟩

end Loops

section Exact
variable (buf : ℕ → UInt8) (p stop : ℕ)

/-- The loop over words comes to a start code at `q`. -/
def InWordLoop (q : ℕ) : Prop := p/4 < q/4 ∧ q/4*4+6 < stop

instance (q : ℕ) : Decidable (InWordLoop p stop q) := inferInstanceAs (Decidable (_ ∧ _))

/-- What the search should return: the first start code inside the range, or the zero
byte before it, or the end of the range. -/
structure ExactResult (r : ℕ) : Prop where
  found : ∀ q, FirstCode buf p q → q+3 ≤ stop → r = if p < q ∧ buf (q-1) = 0 then q-1 else q
  not_found : (∀ q, p ≤ q → q+3 ≤ stop → ¬StartCodeAt buf q) → r = stop

variable {buf p stop}

theorem findAvcStartcode_found {q : ℕ} (hq : FirstCode buf p q) (hin : q+3 < stop) :
    findAvcStartcode buf p stop = if InWordLoop p stop q then q-1 else q := by
  have hle := hq.le
  unfold findAvcStartcode
  dsimp only
  split
  · next r hbytes =>
    obtain ⟨hfirst,hlt⟩ := byteScan_inl hbytes
    obtain rfl := hq.unique hfirst
    rw [if_neg (by unfold InWordLoop; omega)]
  · next p₁ hbytes =>
    obtain ⟨hp₁,hnone₁⟩ := byteScan_inr hbytes
    -- the start code is not among the bytes before the first whole word
    have hq₁ : p₁ = p+4-p % 4 ∧ p₁ ≤ q := by
      by_contra hno
      exact hnone₁ q hle (by omega) hq.code
    split
    · next r hwords =>
      obtain ⟨q',hfirst,hlt,rfl⟩ := wordScan_inl hwords
      obtain rfl := hq.unique (hfirst.extend (by omega) fun i hi hip => hnone₁ i hi (by omega))
      rw [if_pos (by unfold InWordLoop; omega)]
    · next p₂ hwords =>
      obtain ⟨hp₂,hnone₂⟩ := wordScan_inr hwords
      have hq₂ : p₂ ≤ q := by
        by_contra hno
        exact hnone₂ q hq₁.2 (by omega) hq.code
      rw [if_neg (by unfold InWordLoop; omega)]
      split
      · next r hrest =>
        obtain ⟨hfirst,-⟩ := byteScan_inl hrest
        refine (hq.unique (hfirst.extend (by omega) ?_)).symm
        intro i hi hip
        rcases Nat.lt_or_ge i p₁ with hlt | hge
        · exact hnone₁ i hi (by omega)
        · exact hnone₂ i hge (by omega)
      · next p₃ hrest =>
        obtain ⟨-,hnone₃⟩ := byteScan_inr hrest
        exact absurd hq.code (hnone₃ q hq₂ (by omega))

theorem findAvcStartcode_not_found (hnone : ∀ q, p ≤ q → q+3 < stop → ¬StartCodeAt buf q) :
    findAvcStartcode buf p stop = stop := by
  unfold findAvcStartcode
  dsimp only
  split
  · next r hbytes =>
    obtain ⟨hfirst,hlt⟩ := byteScan_inl hbytes
    exact absurd hfirst.code (hnone r hfirst.le (by have := hfirst.le; omega))
  · next p₁ hbytes =>
    obtain ⟨hp₁,-⟩ := byteScan_inr hbytes
    split
    · next r hwords =>
      obtain ⟨q,hfirst,hlt,rfl⟩ := wordScan_inl hwords
      have hle := hfirst.le
      exact absurd hfirst.code (hnone q (by omega) (by omega))
    · next p₂ hwords =>
      obtain ⟨hp₂,-⟩ := wordScan_inr hwords
      split
      · next r hrest =>
        obtain ⟨hfirst,hlt⟩ := byteScan_inl hrest
        have hle := hfirst.le
        exact absurd hfirst.code (hnone r (by omega) (by omega))
      · rfl

/-- The search is exact when the start code does not end the range and the loop over
words comes to it exactly when a zero byte stands before it. -/
theorem start_code_search (buf : ℕ → UInt8) (p stop : ℕ) :
    ExactResult buf p stop (findAvcStartcode buf p stop) ↔ ∀ q, FirstCode buf p q → q+3 ≤ stop →
        q+3 < stop ∧ (InWordLoop p stop q ↔ p < q ∧ buf (q-1) = 0) := by
  constructor
  · intro h q hq hin
    have hfound := h.found q hq hin
    have hle := hq.le
    have hlt : q+3 < stop := by
      by_contra hno
      rw [findAvcStartcode_not_found fun q' hle' hin' =>
        hq.none_before q' hle' (by omega)] at hfound
      split at hfound <;> omega
    refine ⟨hlt,?_⟩
    rw [findAvcStartcode_found hq hlt] at hfound
    have hpos : InWordLoop p stop q → p < q := by
      unfold InWordLoop
      omega
    constructor
    · intro hword
      by_contra hno
      have := hpos hword
      rw [if_pos hword,if_neg hno] at hfound
      omega
    · intro hzero
      by_contra hno
      rw [if_neg hno,if_pos hzero] at hfound
      omega
  · intro h
    constructor
    · intro q hq hin
      obtain ⟨hlt,hiff⟩ := h q hq hin
      rw [findAvcStartcode_found hq hlt]
      simp only [hiff]
    · intro hnone
      exact findAvcStartcode_not_found fun q hle hin => hnone q hle (by omega)

end Exact

def oneCode (i : ℕ) : UInt8 :=
  match i with
  | 0 => 5
  | 1 => 0
  | 2 => 0
  | 3 => 1
  | _ => 9

theorem oneCode_first (k : ℕ) : FirstCode (fun a => oneCode (a-k)) k (k+1) := by
  constructor
  · omega
  · simp only [StartCodeAt,show k+1-k = 1 by omega,show k+1+1-k = 2 by omega,
      show k+1+2-k = 3 by omega]
    decide
  · intro i hi hik hcode
    obtain rfl : i = k := by omega
    have hbyte : oneCode (i-i) = 0 := hcode.1
    rw [Nat.sub_self] at hbyte
    exact absurd hbyte (by decide)

/-- At an aligned address the code is found; one byte before a whole word, the byte
before the code is returned, and at the end of the range it is not found. -/
theorem start_code_search_not_exact : findAvcStartcode (fun a => oneCode (a-0)) 0 16 = 1 ∧
    findAvcStartcode (fun a => oneCode (a-3)) 3 19 = 3 ∧
    ¬ExactResult (fun a => oneCode (a-3)) 3 19 (findAvcStartcode (fun a => oneCode (a-3)) 3 19) ∧
    ¬ExactResult (fun a => oneCode (a-0)) 0 4 (findAvcStartcode (fun a => oneCode (a-0)) 0 4) := by
  refine ⟨by decide +kernel,by decide +kernel,?_,?_⟩
  · intro h
    have hfound := h.found 4 (oneCode_first 3) (by decide)
    exact absurd hfound (by decide +kernel)
  · intro h
    have hfound := h.found 1 (oneCode_first 0) (by decide)
    exact absurd hfound (by decide +kernel)

end TinaPackage.StartCode
