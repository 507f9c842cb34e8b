import TinaPackage.PictureModel

/-! Where the samples of a picture stand, and copying them to other places. -/
namespace TinaPackage.PixelFormat

inductive Channel
  | luma
  | first
  | second
  deriving DecidableEq, Repr

namespace VideoPicture

variable (p : VideoPicture)

def cols : Channel → ℕ
  | .luma => p.nWidth
  | _ => p.nWidth/2

def rows : Channel → ℕ
  | .luma => p.nHeight
  | _ => p.nHeight/2

def Interleaved : Prop := p.ePixelFormat = .nv21 ∨ p.ePixelFormat = .nv12

instance (p : VideoPicture) : Decidable p.Interleaved := inferInstanceAs (Decidable (_ ∨ _))

def addr (c : Channel) (x y : ℕ) : ℕ :=
  match c with
  | .luma => p.pData0+(y*p.nLineStride+x)
  | .first =>
    if p.Interleaved then p.chroma1+(y*p.nLineStride+2*x)
    else p.chroma1+(y*(p.nLineStride/2)+x)
  | .second =>
    if p.Interleaved then p.chroma1+(y*p.nLineStride+(2*x+1))
    else p.chroma2+(y*(p.nLineStride/2)+x)

def sample (c : Channel) (x y : ℕ) : UInt8 := p.mem (p.addr c x y)

structure Even : Prop where
  format : p.ePixelFormat = .yv12 ∨ p.Interleaved
  width : p.nWidth % 2 = 0
  height : p.nHeight % 2 = 0
  stride : p.nLineStride % 16 = 0
  fits : p.nWidth ≤ p.nLineStride

end VideoPicture

theorem align16_ge (n : ℕ) : n ≤ align16 n := by
  unfold align16
  omega

theorem align16_mod (n : ℕ) : align16 n % 16 = 0 := by
  unfold align16
  omega

theorem raster_lt {s h x y : ℕ} (hx : x < s) (hy : y < h) : y*s+x < h*s := by
  calc y*s+x < y*s+s := by omega
    _ = (y+1)*s := by ring
    _ ≤ h*s := Nat.mul_le_mul_right s hy

namespace VideoPicture
variable {p : VideoPicture} (hp : p.Even)
include hp

theorem half_plane : align16 p.nHeight/2*(p.nLineStride/2) = p.nMemSizeY/4 := by
  obtain ⟨a,ha⟩ : 16 ∣ p.nLineStride := Nat.dvd_of_mod_eq_zero hp.stride
  obtain ⟨b,hb⟩ : 16 ∣ align16 p.nHeight := Nat.dvd_of_mod_eq_zero (align16_mod _)
  rw [nMemSizeY,ha,hb,show 16*b/2 = 8*b by omega,show 16*a/2 = 8*a by omega,
    show 16*a*(16*b) = 4*(8*b*(8*a)) by ring,Nat.mul_div_cancel_left _ (by decide)]

variable {x y x' y' : ℕ}

theorem luma_lt (hx : x < p.cols .luma) (hy : y < p.rows .luma) : p.addr .luma x y < p.chroma1 := by
  have hlt : y*p.nLineStride+x < align16 p.nHeight*p.nLineStride :=
    raster_lt (hx.trans_le hp.fits) (hy.trans_le (align16_ge _))
  rw [Nat.mul_comm (align16 _)] at hlt
  exact Nat.add_lt_add_left hlt p.pData0

theorem half_lt (hx : x < p.nWidth/2) (hy : y < p.nHeight/2) :
    y*(p.nLineStride/2)+x < p.nMemSizeY/4 := by
  rw [← half_plane hp]
  have hfits := hp.fits
  have hheight := align16_ge p.nHeight
  exact raster_lt (by omega) (by omega)

omit hp in
theorem chroma1_le {c : Channel} (hc : c ≠ .luma) (x y : ℕ) : p.chroma1 ≤ p.addr c x y := by
  have h12 : p.chroma1 ≤ p.chroma2 := Nat.le_add_right ..
  cases c with
  | luma => exact absurd rfl hc
  | first | second =>
    rw [addr]
    split <;> omega

theorem interleaved_inj (k k' : ℕ) (hx : x < p.nWidth/2) (hx' : x' < p.nWidth/2) (hk : k < 2)
    (hk' : k' < 2) (h : p.chroma1+(y*p.nLineStride+(2*x+k)) =
      p.chroma1+(y'*p.nLineStride+(2*x'+k'))) : k = k' ∧ x = x' ∧ y = y' := by
  have hfits := hp.fits
  obtain ⟨hline,hcol⟩ := raster_inj (by omega) (by omega) (Nat.add_left_cancel h)
  omega

theorem planar_inj (hx : x < p.nWidth/2) (hx' : x' < p.nWidth/2)
    (h : y*(p.nLineStride/2)+x = y'*(p.nLineStride/2)+x') : x = x' ∧ y = y' := by
  have hfits := hp.fits
  obtain ⟨hline,hcol⟩ := raster_inj (by omega) (by omega) h
  exact ⟨hcol,hline⟩

theorem addr_inj {c c' : Channel} (hx : x < p.cols c) (hy : y < p.rows c) (hx' : x' < p.cols c')
    (hy' : y' < p.rows c') (h : p.addr c x y = p.addr c' x' y') : c = c' ∧ x = x' ∧ y = y' := by
  have hfits := hp.fits
  by_cases hl : c = .luma
  · subst hl
    by_cases hl' : c' = .luma
    · subst hl'
      obtain ⟨hline,hcol⟩ := raster_inj (hx.trans_le hfits) (hx'.trans_le hfits)
        (Nat.add_left_cancel h)
      exact ⟨rfl,hcol,hline⟩
    · have hlt := luma_lt hp hx hy
      have hle := chroma1_le (p := p) hl' x' y'
      omega
  · by_cases hl' : c' = .luma
    · subst hl'
      have hlt := luma_lt hp hx' hy'
      have hle := chroma1_le (p := p) hl x y
      omega
    · -- both are chroma samples: in pairs, or in two planes one behind the other
      by_cases hi : p.Interleaved
      · cases c <;> cases c' <;> simp only [addr,if_pos hi,not_true_eq_false] at h hl hl'
        · obtain ⟨-,hxy⟩ := interleaved_inj hp 0 0 hx hx' (by omega) (by omega) h
          exact ⟨rfl,hxy⟩
        · have hk := (interleaved_inj hp 0 1 hx hx' (by omega) (by omega) h).1
          omega
        · have hk := (interleaved_inj hp 1 0 hx hx' (by omega) (by omega) h).1
          omega
        · obtain ⟨-,hxy⟩ := interleaved_inj hp 1 1 hx hx' (by omega) (by omega) h
          exact ⟨rfl,hxy⟩
      · cases c <;> cases c' <;>
          simp only [addr,if_neg hi,chroma2,not_true_eq_false] at h hl hl'
        · exact ⟨rfl,planar_inj hp hx hx' (by omega)⟩
        · have hlt := half_lt hp hx hy
          omega
        · have hlt := half_lt hp hx' hy'
          omega
        · exact ⟨rfl,planar_inj hp hx hx' (by omega)⟩

end VideoPicture

namespace VideoPicture
variable {p r : VideoPicture}

theorem cols_eq (h : r.nWidth = p.nWidth) (c : Channel) : r.cols c = p.cols c := by
  cases c <;> simp only [cols,h]

theorem rows_eq (h : r.nHeight = p.nHeight) (c : Channel) : r.rows c = p.rows c := by
  cases c <;> simp only [rows,h]

theorem cols_eq_rows (h : r.nWidth = p.nHeight) (c : Channel) : r.cols c = p.rows c := by
  cases c <;> simp only [cols,rows,h]

theorem rows_eq_cols (h : r.nHeight = p.nWidth) (c : Channel) : r.rows c = p.cols c := by
  cases c <;> simp only [cols,rows,h]

end VideoPicture

structure SameCrop (r p : VideoPicture) : Prop where
  left : r.nLeftOffset = p.nLeftOffset
  right : r.nRightOffset = p.nRightOffset
  top : r.nTopOffset = p.nTopOffset
  bottom : r.nBottomOffset = p.nBottomOffset

namespace SameCrop
variable {p q r : VideoPicture}

theorem symm (h : SameCrop r p) : SameCrop p r :=
  ⟨h.left.symm,h.right.symm,h.top.symm,h.bottom.symm⟩

theorem trans (h : SameCrop r q) (h' : SameCrop q p) : SameCrop r p :=
  ⟨h.left.trans h'.left,h.right.trans h'.right,h.top.trans h'.top,h.bottom.trans h'.bottom⟩

end SameCrop

structure VideoPicture.Like (q o : VideoPicture) : Prop where
  format : q.ePixelFormat = o.ePixelFormat
  width : q.nWidth = o.nWidth
  height : q.nHeight = o.nHeight
  stride : q.nLineStride = o.nLineStride
  data : q.pData0 = o.pData0

namespace VideoPicture.Like
variable {q o : VideoPicture} (h : q.Like o)
include h

theorem addr : q.addr = o.addr := by
  have hi : q.Interleaved ↔ o.Interleaved := by
    rw [VideoPicture.Interleaved,h.format,VideoPicture.Interleaved]
  have h1 : q.chroma1 = o.chroma1 := by
    simp only [VideoPicture.chroma1,VideoPicture.nMemSizeY,h.data,h.stride,h.height]
  have h2 : q.chroma2 = o.chroma2 := by
    simp only [VideoPicture.chroma2,h1,VideoPicture.nMemSizeY,h.stride,h.height]
  funext c x y
  by_cases ho : o.Interleaved
  · cases c <;> simp only [VideoPicture.addr,if_pos ho,if_pos (hi.mpr ho),h.data,h.stride,h1]
  · cases c <;>
      simp only [VideoPicture.addr,if_neg ho,if_neg (mt hi.mp ho),h.data,h.stride,h1,h2]

theorem even (ho : o.Even) : q.Even := by
  obtain ⟨hf,hw,hh,hs,hfits⟩ := ho
  constructor
  · simpa only [VideoPicture.Interleaved,h.format] using hf
  · rwa [h.width]
  · rwa [h.height]
  · rwa [h.stride]
  · rwa [h.width,h.stride]

end VideoPicture.Like

structure Turn (p q : VideoPicture) (f : Channel → ℕ → ℕ → ℕ × ℕ) : Prop where
  range : ∀ c i j, i < p.cols c → j < p.rows c → (f c i j).1 < q.cols c ∧ (f c i j).2 < q.rows c
  inj : ∀ c i j i' j', i < p.cols c → j < p.rows c → i' < p.cols c → j' < p.rows c →
    f c i j = f c i' j' → i = i' ∧ j = j'

def Copies (p q : VideoPicture) (f : Channel → ℕ → ℕ → ℕ × ℕ) (ws : List (ℕ × UInt8)) : Prop :=
  ∀ w, w ∈ ws ↔ ∃ c i j, i < p.cols c ∧ j < p.rows c ∧
    w = (q.addr c (f c i j).1 (f c i j).2, p.sample c i j)

theorem Turn.sample_store {p q : VideoPicture} {f : Channel → ℕ → ℕ → ℕ × ℕ} (ht : Turn p q f)
    (hq : q.Even) {ws : List (ℕ × UInt8)} (hws : Copies p q f ws) {c : Channel} {i j : ℕ}
    (hi : i < p.cols c) (hj : j < p.rows c) :
    (q.store ws).sample c (f c i j).1 (f c i j).2 = p.sample c i j := by
  obtain ⟨hx,hy⟩ := ht.range c i j hi hj
  apply stores_of_mem
  · exact (hws _).mpr ⟨c,i,j,hi,hj,rfl⟩
  · intro v hv
    obtain ⟨c',i',j',hi',hj',hw⟩ := (hws _).mp hv
    obtain ⟨ha,rfl⟩ := Prod.mk.inj hw
    obtain ⟨hx',hy'⟩ := ht.range c' i' j' hi' hj'
    obtain ⟨rfl,h1,h2⟩ := VideoPicture.addr_inj hq hx hy hx' hy' ha
    obtain ⟨rfl,rfl⟩ := ht.inj c i j i' j' hi hj hi' hj' (Prod.ext h1 h2)
    rfl

end TinaPackage.PixelFormat
