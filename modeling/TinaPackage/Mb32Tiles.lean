import TinaPackage.Mb32Model

/-! Every line of the destination holds the bytes of the tiles it crosses, and
nothing else is written. -/
namespace TinaPackage.PixelFormat
open List

/-- The result holds, for every channel, line below `height` and column below
`stride`, the source byte at the place given, and is the old destination
elsewhere. -/
def Untiled {A κ : Type*} (pSrc : ℕ → UInt8) (addr : κ → ℕ → A) (place : κ → ℕ → ℕ → ℕ)
    (height stride : ℕ) (dst res : A → UInt8) : Prop :=
  (∀ c, ∀ y < height, ∀ x < stride, res (addr c (y*stride+x)) = pSrc (place c x y)) ∧
    ∀ a, (∀ c, ∀ y < height, ∀ x < stride, a ≠ addr c (y*stride+x)) → res a = dst a

section Tiles
variable {A κ : Type*} [DecidableEq A]

/-- The stores of a row of tile `j`: the cells of the tile that lie in the line,
for every channel. -/
def RowOf (pSrc : ℕ → UInt8) (addr : κ → ℕ → A) (val : κ → ℕ → ℕ) (cells stride j : ℕ)
    (row : ℕ → ℕ → List (A × UInt8)) : Prop :=
  ∀ lineNum ptr w, w ∈ row lineNum ptr ↔ ∃ c k, k < cells ∧ j*cells+k < stride ∧
    w = (addr c (lineNum*stride+j*cells+k), pSrc (ptr+val c k))

variable (lines step nHeight i : ℕ) (row : ℕ → ℕ → List (A × UInt8))

def tileWrites (p : ℕ) : List (A × UInt8) :=
  loop lines fun m => if nHeight ≤ i*lines+m then [] else row (i*lines+m) (p+m*step)

theorem tile_eq (m : A → UInt8) (p : ℕ) :
    tile lines step nHeight i row (m, p) =
      (stores m (tileWrites lines step nHeight i row p), p+lines*step) := by
  refine forLoop_advance (fun k p => if nHeight ≤ i*lines+k then [] else row (i*lines+k) p) ?_ m p
  intro k _ m p
  split
  · rw [stores_nil]
  · rfl

def rowWrites (nCopyMbWidth nHeight : ℕ) (match? : Bool)
    (fast edge : ℕ → ℕ → ℕ → List (A × UInt8)) (i p : ℕ) : List (A × UInt8) :=
  (loop nCopyMbWidth fun j => tileWrites lines step nHeight i (fast j) (p+j*(lines*step))) ++
    if match? then []
    else tileWrites lines step nHeight i (edge nCopyMbWidth) (p+nCopyMbWidth*(lines*step))

def rowTiles (nCopyMbWidth : ℕ) (match? : Bool) : ℕ := nCopyMbWidth+if match? then 0 else 1

theorem convertTiles_eq (nMbHeight nCopyMbWidth nHeight : ℕ) (match? : Bool)
    (fast edge : ℕ → ℕ → ℕ → List (A × UInt8)) (dst : A → UInt8) :
    convertTiles lines step nMbHeight nCopyMbWidth nHeight match? fast edge dst =
      stores dst (loop nMbHeight fun i =>
        rowWrites lines step nCopyMbWidth nHeight match? fast edge i
          (i*(rowTiles nCopyMbWidth match? * (lines*step)))) := by
  have hrow (i : ℕ) (m : A → UInt8) (p : ℕ) :
      forLoop nCopyMbWidth (fun j => tile lines step nHeight i (fast j)) (m, p) =
        (stores m (loop nCopyMbWidth fun j =>
          tileWrites lines step nHeight i (fast j) (p+j*(lines*step))),
          p+nCopyMbWidth*(lines*step)) :=
    forLoop_advance (fun j p => tileWrites lines step nHeight i (fast j) p)
      (fun j _ m p => tile_eq lines step nHeight i (fast j) m p) m p
  rw [convertTiles,forLoop_advance (c := rowTiles nCopyMbWidth match? * (lines*step))
    (rowWrites lines step nCopyMbWidth nHeight match? fast edge)]
  · simp
  · intro i _ m p
    simp only [hrow,rowWrites,rowTiles]
    cases match? with
    | true => simp
    | false =>
      simp only [Bool.false_eq_true,if_false]
      rw [tile_eq,stores_append,add_mul,one_mul,add_assoc]

variable {lines step nMbHeight nCopyMbWidth nHeight cells stride : ℕ} {match? : Bool}
  {fast edge : ℕ → ℕ → ℕ → List (A × UInt8)} {pSrc : ℕ → UInt8} {addr : κ → ℕ → A}
  {val : κ → ℕ → ℕ}

variable {i p : ℕ} {w : A × UInt8}

theorem mem_tileWrites {row : ℕ → ℕ → List (A × UInt8)} {j : ℕ}
    (hrow : RowOf pSrc addr val cells stride j row) :
    w ∈ tileWrites lines step nHeight i row p ↔ ∃ m < lines, i*lines+m < nHeight ∧
      ∃ c k, k < cells ∧ j*cells+k < stride ∧
        w = (addr c ((i*lines+m)*stride+j*cells+k), pSrc (p+m*step+val c k)) := by
  rw [tileWrites,mem_loop]
  apply exists_congr
  intro m
  apply and_congr_right
  intro _
  split
  · rename_i hle
    constructor
    · exact fun h => absurd h not_mem_nil
    · rintro ⟨hlt,-⟩
      omega
  · rename_i hle
    rw [hrow]
    exact ⟨fun h => ⟨by omega,h⟩,fun h => h.2⟩

theorem mem_rowWrites (hfast : ∀ j < nCopyMbWidth, RowOf pSrc addr val cells stride j (fast j))
    (hedge : match? = false → RowOf pSrc addr val cells stride nCopyMbWidth (edge nCopyMbWidth)) :
    w ∈ rowWrites lines step nCopyMbWidth nHeight match? fast edge i p ↔
      ∃ j < rowTiles nCopyMbWidth match?, ∃ m < lines, i*lines+m < nHeight ∧
        ∃ c k, k < cells ∧ j*cells+k < stride ∧
          w = (addr c ((i*lines+m)*stride+j*cells+k), pSrc (p+j*(lines*step)+m*step+val c k)) := by
  have hcopy : (w ∈ loop nCopyMbWidth fun j =>
      tileWrites lines step nHeight i (fast j) (p+j*(lines*step))) ↔
      ∃ j < nCopyMbWidth, ∃ m < lines, i*lines+m < nHeight ∧
        ∃ c k, k < cells ∧ j*cells+k < stride ∧
          w = (addr c ((i*lines+m)*stride+j*cells+k), pSrc (p+j*(lines*step)+m*step+val c k)) := by
    rw [mem_loop]
    apply exists_congr
    intro j
    exact and_congr_right fun hj => mem_tileWrites (hfast j hj)
  rw [rowWrites,mem_append,hcopy,rowTiles]
  cases match? with
  | true => simp
  | false =>
    simp only [Bool.false_eq_true,if_false]
    rw [mem_tileWrites (hedge rfl)]
    constructor
    · rintro (⟨j,hj,h⟩ | h)
      · exact ⟨j,by omega,h⟩
      · exact ⟨nCopyMbWidth,by omega,h⟩
    · rintro ⟨j,hj,h⟩
      rcases Nat.lt_succ_iff_lt_or_eq.mp hj with hlt | rfl
      · exact .inl ⟨j,hlt,h⟩
      · exact .inr h

variable (pSrc addr val) in
theorem convertTiles_untiled {perRow size : ℕ} (hrow : rowTiles nCopyMbWidth match? = perRow)
    (hsize : lines*step = size) (hlines : 0 < lines) (hcells : 0 < cells)
    (hheight : nHeight ≤ nMbHeight*lines) (hstride : stride ≤ perRow*cells)
    (haddr : ∀ c c' o o', addr c o = addr c' o' → c = c' ∧ o = o')
    (hfast : ∀ j < nCopyMbWidth, RowOf pSrc addr val cells stride j (fast j))
    (hedge : match? = false → RowOf pSrc addr val cells stride nCopyMbWidth (edge nCopyMbWidth))
    (dst : A → UInt8) :
    Untiled pSrc addr
      (fun c x y => (y/lines*perRow+x/cells)*size+y % lines*step+val c (x % cells))
      nHeight stride dst
      (convertTiles lines step nMbHeight nCopyMbWidth nHeight match? fast edge dst) := by
  subst hrow hsize
  have hmem (w : A × UInt8) := mem_loop (n := nMbHeight) (x := w) (f := fun i =>
    rowWrites lines step nCopyMbWidth nHeight match? fast edge i
      (i*(rowTiles nCopyMbWidth match? * (lines*step))))
  simp only [mem_rowWrites hfast hedge] at hmem
  rw [convertTiles_eq]
  refine ⟨fun c y hy x hx => ?_, fun a ha => ?_⟩
  · have hline : y/lines*lines+y % lines = y := Nat.div_add_mod' y lines
    have hcol : x/cells*cells+x % cells = x := Nat.div_add_mod' x cells
    have hsource : y/lines*(rowTiles nCopyMbWidth match? * (lines*step)) +
        x/cells*(lines*step)+y % lines*step+val c (x % cells) =
        (y/lines*rowTiles nCopyMbWidth match? + x/cells)*(lines*step) +
          y % lines*step+val c (x % cells) := by ring
    apply stores_of_mem
    · refine (hmem _).mpr ⟨y/lines,?_,x/cells,?_,y % lines,Nat.mod_lt _ hlines,?_,c,
        x % cells,Nat.mod_lt _ hcells,?_,?_⟩
      · exact Nat.div_lt_of_lt_mul (by rw [mul_comm]; omega)
      · exact Nat.div_lt_of_lt_mul (by rw [mul_comm]; omega)
      · omega
      · omega
      · rw [hline,add_assoc (y*stride),hcol,hsource]
    · intro v' hv'
      obtain ⟨i,-,j,-,m,hm,hlt,c',k,hk,hkx,hw⟩ := (hmem _).mp hv'
      obtain ⟨ha,rfl⟩ := Prod.mk.inj hw
      obtain ⟨rfl,ho⟩ := haddr _ _ _ _ ha
      rw [add_assoc] at ho
      -- the line is that of the pixel, and so are the tile and the place in it
      obtain ⟨rfl,rfl⟩ := raster_inj hx hkx ho
      obtain ⟨hi,hmod⟩ := raster_div_mod i hm
      obtain ⟨hj,hmod'⟩ := raster_div_mod j hk
      dsimp only
      rw [← hsource,hi,hj,hmod,hmod']
  · apply stores_of_notMem
    intro v hv
    obtain ⟨i,-,j,-,m,hm,hlt,c,k,hk,hkx,hw⟩ := (hmem _).mp hv
    obtain ⟨rfl,-⟩ := Prod.mk.inj hw
    refine ha c (i*lines+m) hlt (j*cells+k) hkx ?_
    rw [add_assoc]

end Tiles

def tilesPerRow (n : ℕ) : ℕ := align32 n/32

/-- The number of tiles that are copied whole, and those of a row in all. The
lines are whole in the first ones and end in the last one. -/
theorem rowTiles_eq {nMbWidth nCopyMbWidth cells stride : ℕ} {match? : Bool}
    (hmatch : match? = (nMbWidth*cells == stride))
    (hcopy : nCopyMbWidth = if match? then nMbWidth else nMbWidth-1)
    (hzero : nMbWidth = 0 → stride = 0) (hbelow : (nMbWidth-1)*cells ≤ stride) :
    rowTiles nCopyMbWidth match? = nMbWidth ∧ nCopyMbWidth*cells ≤ stride := by
  cases match? with
  | true =>
    have heq : nMbWidth*cells = stride := by simpa using hmatch.symm
    subst hcopy
    exact ⟨rfl,heq.le⟩
  | false =>
    have hne : nMbWidth*cells ≠ stride := by simpa using hmatch.symm
    have hpos : nMbWidth ≠ 0 := by
      intro hz
      rw [hzero hz,hz,Nat.zero_mul] at hne
      exact hne rfl
    subst hcopy
    refine ⟨?_,hbelow⟩
    simp only [rowTiles,Bool.false_eq_true,if_false]
    omega

section Luma
variable (pSrc pDst : ℕ → UInt8) (nWidth nHeight : ℕ)

theorem rowOf_copy32 {j stride : ℕ} (hj : (j+1)*32 ≤ stride) :
    RowOf pSrc (fun (_ : Unit) o => o) (fun _ k => k) 32 stride j
      (fun lineNum ptr => copy32 pSrc ptr (lineNum*stride+j*32)) := by
  intro lineNum ptr w
  simp only [copy32,mem_loop,mem_singleton]
  constructor
  · rintro ⟨k,hk,rfl⟩
    exact ⟨(),k,hk,by omega,rfl⟩
  · rintro ⟨-,k,hk,-,rfl⟩
    exact ⟨k,hk,rfl⟩

theorem rowOf_copyEdge (j stride : ℕ) :
    RowOf pSrc (fun (_ : Unit) o => o) (fun _ k => k) 32 stride j (copyEdge pSrc stride j) := by
  intro lineNum ptr w
  rw [copyEdge,mem_loopWhile (by simp only [decide_eq_true_eq]; omega)]
  simp only [decide_eq_true_eq,mem_singleton]
  constructor
  · rintro ⟨k,hk,hlt,rfl⟩
    exact ⟨(),k,hk,hlt,rfl⟩
  · rintro ⟨-,k,hk,hlt,rfl⟩
    exact ⟨k,hk,hlt,rfl⟩

theorem convertMb32420ToNv21Y_untiled : Untiled pSrc (fun (_ : Unit) o => o)
      (fun _ x y => (y/32*tilesPerRow nWidth+x/32)*1024+y % 32*32+x % 32)
      nHeight (align16 nWidth) pDst (convertMb32420ToNv21Y pSrc pDst nWidth nHeight) := by
  have hzero : tilesPerRow nWidth = 0 → align16 nWidth = 0 := by
    unfold tilesPerRow align32 align16
    omega
  have hbelow : (tilesPerRow nWidth-1)*32 ≤ align16 nWidth := by
    unfold tilesPerRow align32 align16
    omega
  have hsize : 32*32 = 1024 := by decide
  obtain ⟨htiles,hcopy⟩ := rowTiles_eq rfl rfl hzero hbelow
  refine convertTiles_untiled pSrc (fun (_ : Unit) o => o) (fun _ k => k) htiles hsize (by decide)
    (by decide) ?_ ?_ (fun _ _ _ _ ho => ⟨rfl,ho⟩) ?_ ?_ pDst
  · unfold align32
    omega
  · unfold tilesPerRow align32 align16
    omega
  · intro j hj
    apply rowOf_copy32
    have hle : (j+1)*32 ≤ _*32 := Nat.mul_le_mul_right 32 hj
    exact hle.trans hcopy
  · exact fun _ => rowOf_copyEdge pSrc _ _

end Luma

section Interleaved
variable (pSrc pDst : ℕ → UInt8) (nPicWidth nPicHeight : ℕ)

def swapPair (k : ℕ) : ℕ := if k % 2 = 0 then k+1 else k-1

theorem rowOf_interleaved {stride : ℕ} (heven : stride % 2 = 0) (j : ℕ) :
    RowOf pSrc (fun (_ : Unit) o => o) (fun _ k => swapPair k) 32 stride j
      (interleaved pSrc stride j) := by
  intro lineNum ptr w
  rw [interleaved,mem_loopWhile (by simp only [decide_eq_true_eq]; omega)]
  simp only [decide_eq_true_eq,mem_cons,not_mem_nil,or_false]
  constructor
  · rintro ⟨k,hk,hlt,rfl | rfl⟩
    · refine ⟨(),2*k,by omega,by omega,?_⟩
      rw [swapPair,if_pos (by omega),add_assoc ptr]
    · refine ⟨(),2*k+1,by omega,by omega,?_⟩
      rw [swapPair,if_neg (by omega),Nat.add_sub_cancel,add_assoc _ (2*k)]
  · rintro ⟨-,k,hk,hlt,rfl⟩
    by_cases hk2 : k % 2 = 0
    · refine ⟨k/2,by omega,by omega,.inl ?_⟩
      rw [swapPair,if_pos hk2,show 2*(k/2) = k by omega,add_assoc ptr]
    · refine ⟨k/2,by omega,by omega,.inr ?_⟩
      rw [swapPair,if_neg hk2,show 2*(k/2) = k-1 by omega,add_assoc _ (k-1),show k-1+1 = k by omega]

theorem interleaved_untiled {lines step nMbHeight nWidth nHeight : ℕ}
    (hsize : lines*step = 1024) (hlines : 0 < lines) (hheight : nHeight ≤ nMbHeight*lines) :
    Untiled pSrc (fun (_ : Unit) o => o)
      (fun _ x y => (y/lines*tilesPerRow (nWidth*2)+x/32)*1024+y % lines*step + swapPair (x % 32))
      nHeight (align16 (nWidth*2)) pDst
      (convertTiles lines step nMbHeight (tilesPerRow (nWidth*2)) nHeight true
        (interleaved pSrc (align16 (nWidth*2))) (interleaved pSrc (align16 (nWidth*2)))
        pDst) := by
  have heven : align16 (nWidth*2) % 2 = 0 := by
    unfold align16
    omega
  have hrow : rowTiles (tilesPerRow (nWidth*2)) true = tilesPerRow (nWidth*2) := add_zero _
  refine convertTiles_untiled pSrc (fun (_ : Unit) o => o) (fun _ k => swapPair k) hrow hsize hlines
    (by decide) hheight ?_ (fun _ _ _ _ ho => ⟨rfl,ho⟩) ?_ ?_ pDst
  · unfold tilesPerRow align32 align16
    omega
  · exact fun j _ => rowOf_interleaved pSrc heven j
  · exact fun _ => rowOf_interleaved pSrc heven _

end Interleaved

section Planes
variable (pSrc : ℕ → UInt8) (pDst : Plane × ℕ → UInt8)

def Plane.pick (k : ℕ) : Plane → ℕ
  | .u => 2*k
  | .v => 2*k+1

theorem rowOf_split32 {j stride : ℕ} (hj : (j+1)*16 ≤ stride) :
    RowOf pSrc (fun (c : Plane) o => (c, o)) (fun c k => c.pick k) 16 stride j
      (fun lineNum ptr => split32 pSrc ptr (lineNum*stride+j*16)) := by
  intro lineNum ptr w
  simp only [split32,mem_append,mem_loop,mem_singleton]
  constructor
  · rintro (⟨k,hk,rfl⟩ | ⟨k,hk,rfl⟩)
    · exact ⟨.u,k,hk,by omega,rfl⟩
    · exact ⟨.v,k,hk,by omega,rfl⟩
  · rintro ⟨c,k,hk,-,rfl⟩
    cases c with
    | u => exact .inl ⟨k,hk,rfl⟩
    | v => exact .inr ⟨k,hk,rfl⟩

theorem rowOf_splitEdge (j stride : ℕ) :
    RowOf pSrc (fun (c : Plane) o => (c, o)) (fun c k => c.pick k) 16 stride j
      (splitEdge pSrc stride j) := by
  intro lineNum ptr w
  rw [splitEdge,mem_loopWhile (by simp only [decide_eq_true_eq]; omega)]
  simp only [decide_eq_true_eq,mem_cons,not_mem_nil,or_false]
  constructor
  · rintro ⟨k,hk,hlt,rfl | rfl⟩
    · exact ⟨.v,k,hk,hlt,rfl⟩
    · exact ⟨.u,k,hk,hlt,rfl⟩
  · rintro ⟨c,k,hk,hlt,rfl⟩
    cases c with
    | u => exact ⟨k,hk,hlt,.inr rfl⟩
    | v => exact ⟨k,hk,hlt,.inl rfl⟩

theorem planes_untiled {lines step nMbHeight nWidth nHeight : ℕ}
    (hsize : lines*step = 1024) (hlines : 0 < lines) (hheight : nHeight ≤ nMbHeight*lines) :
    Untiled pSrc (fun (c : Plane) o => (c, o))
      (fun c x y => (y/lines*tilesPerRow (nWidth*2)+x/16)*1024+y % lines*step + c.pick (x % 16))
      nHeight (align8 nWidth) pDst
      (convertMb32ToYv12C lines step nMbHeight pSrc pDst nWidth nHeight) := by
  have hzero : tilesPerRow (nWidth*2) = 0 → align8 nWidth = 0 := by
    unfold tilesPerRow align32 align8
    omega
  have hbelow : (tilesPerRow (nWidth*2)-1)*16 ≤ align8 nWidth := by
    unfold tilesPerRow align32 align8
    omega
  obtain ⟨htiles,hcopy⟩ := rowTiles_eq rfl rfl hzero hbelow
  refine convertTiles_untiled pSrc (fun (c : Plane) o => (c, o)) (fun c k => c.pick k) htiles hsize
    hlines (by decide) hheight ?_ (fun _ _ _ _ ho => Prod.mk.inj ho) ?_ ?_ pDst
  · unfold tilesPerRow align32 align8
    omega
  · intro j hj
    apply rowOf_split32
    have hle : (j+1)*16 ≤ _*16 := Nat.mul_le_mul_right 16 hj
    exact hle.trans hcopy
  · exact fun _ => rowOf_splitEdge pSrc _ _

end Planes

/-- For every size of the picture, the conversions write the bytes of the tiles to the lines below
the height and the columns below the line stride, and nothing else. The chroma conversions take
pairs in the other order or apart, those of 4:2:2 pictures every second line of a tile. -/
theorem tiles_to_lines (pSrc pDst : ℕ → UInt8) (pDstC : Plane × ℕ → UInt8) (nWidth nHeight : ℕ) :
    Untiled pSrc (fun (_ : Unit) o => o)
      (fun _ x y => (y/32*tilesPerRow nWidth+x/32)*1024+y % 32*32+x % 32)
      nHeight (align16 nWidth) pDst (convertMb32420ToNv21Y pSrc pDst nWidth nHeight) ∧
    Untiled pSrc (fun (_ : Unit) o => o)
      (fun _ x y => (y/32*tilesPerRow ((nWidth+1)/2*2)+x/32)*1024+y % 32*32 + swapPair (x % 32))
      ((nHeight+1)/2) (align16 ((nWidth+1)/2*2)) pDst
      (convertMb32420ToNv21C pSrc pDst nWidth nHeight) ∧
    Untiled pSrc (fun (_ : Unit) o => o)
      (fun _ x y => (y/16*tilesPerRow ((nWidth+1)/2*2)+x/32)*1024+y % 16*64 + swapPair (x % 32))
      ((nHeight+1)/2) (align16 ((nWidth+1)/2*2)) pDst
      (convertMb32422ToNv21C pSrc pDst nWidth nHeight) ∧
    Untiled pSrc (fun (c : Plane) o => (c, o))
      (fun c x y => (y/32*tilesPerRow ((nWidth+1)/2*2)+x/16)*1024+y % 32*32 + c.pick (x % 16))
      ((nHeight+1)/2) (align8 ((nWidth+1)/2)) pDstC
      (convertMb32420ToYv12C pSrc pDstC nWidth nHeight) ∧
    Untiled pSrc (fun (c : Plane) o => (c, o))
      (fun c x y => (y/16*tilesPerRow ((nWidth+1)/2*2)+x/16)*1024+y % 16*64 + c.pick (x % 16))
      ((nHeight+1)/2) (align8 ((nWidth+1)/2)) pDstC
      (convertMb32422ToYv12C pSrc pDstC nWidth nHeight) := by
  have h420 : (nHeight+1)/2 ≤ align32 ((nHeight+1)/2)/32*32 := by
    unfold align32
    omega
  have h422 : (nHeight+1)/2 ≤ align32 ((nHeight+1)/2*2)/32*16 := by
    unfold align32
    omega
  exact ⟨convertMb32420ToNv21Y_untiled pSrc pDst nWidth nHeight,
    interleaved_untiled pSrc pDst (by decide) (by decide) h420,
    interleaved_untiled pSrc pDst (by decide) (by decide) h422,
    planes_untiled pSrc pDstC (by decide) (by decide) h420,
    planes_untiled pSrc pDstC (by decide) (by decide) h422⟩

end TinaPackage.PixelFormat
