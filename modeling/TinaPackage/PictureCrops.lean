import TinaPackage.PictureRotations

/-! What the rotations do to the crop rectangle. -/
namespace TinaPackage.PixelFormat

def InCrop (p : VideoPicture) (x y : ℤ) : Prop :=
  p.nLeftOffset ≤ x ∧ x < p.nRightOffset ∧ p.nTopOffset ≤ y ∧ y < p.nBottomOffset

def CropEmpty (p : VideoPicture) : Prop :=
  p.nRightOffset ≤ p.nLeftOffset ∨ p.nBottomOffset ≤ p.nTopOffset

theorem CropEmpty.not_inCrop {p : VideoPicture} (h : CropEmpty p) (x y : ℤ) : ¬InCrop p x y := by
  unfold CropEmpty at h
  unfold InCrop
  omega

theorem image_of_empty {p r : VideoPicture} (hr : CropEmpty r) (f : ℤ → ℤ → ℤ × ℤ) :
    (∀ x y, InCrop r (f x y).1 (f x y).2 ↔ InCrop p x y) ↔ CropEmpty p := by
  constructor
  · intro h
    have hcorner := (h p.nLeftOffset p.nTopOffset).not.mp (hr.not_inCrop _ _)
    unfold InCrop at hcorner
    unfold CropEmpty
    omega
  · intro hp x y
    exact iff_of_false (hr.not_inCrop _ _) (hp.not_inCrop x y)

theorem rotatePixels90_like (p o : VideoPicture) : (rotatePixels90 p o).Like o := by
  unfold rotatePixels90
  split <;> constructor <;> rfl

section Crops
variable (p o : VideoPicture)

theorem rotatePicture90Degree_size : (rotatePicture90Degree p o).nWidth = p.nHeight ∧
    (rotatePicture90Degree p o).nHeight = p.nWidth :=
  ⟨(rotatePixels90_like _ _).width,(rotatePixels90_like _ _).height⟩

theorem rotatePicture270Degree_size : (rotatePicture270Degree p o).nWidth = p.nHeight ∧
    (rotatePicture270Degree p o).nHeight = p.nWidth :=
  ⟨(rotatePixels270_like _ _).width,(rotatePixels270_like _ _).height⟩

theorem rotatePicture90Degree_crop :
    let r := rotatePicture90Degree p o
    r.nLeftOffset = p.nHeight-p.nTopOffset ∧ r.nRightOffset = p.nHeight-p.nTopOffset ∧
      r.nTopOffset = p.nLeftOffset ∧ r.nBottomOffset = p.nRightOffset := by
  have hsize := rotatePicture90Degree_size p o
  refine ⟨rfl,?_,rfl,?_⟩
  · show ((rotatePicture90Degree p o).nWidth : ℤ)-p.nTopOffset = _
    rw [hsize.1]
  · show ((rotatePicture90Degree p o).nHeight : ℤ)-(p.nWidth-p.nRightOffset) = _
    rw [hsize.2]
    omega

theorem rotatePicture180Degree_crop :
    let r := rotatePicture180Degree p o
    r.nLeftOffset = p.nWidth-p.nRightOffset ∧ r.nRightOffset = p.nWidth-p.nLeftOffset ∧
      r.nTopOffset = p.nHeight-p.nTopOffset ∧ r.nBottomOffset = p.nHeight-p.nTopOffset :=
  ⟨rfl,rfl,rfl,rfl⟩

theorem rotatePicture270Degree_crop :
    let r := rotatePicture270Degree p o
    r.nLeftOffset = p.nTopOffset ∧ r.nRightOffset = p.nTopOffset ∧
      r.nTopOffset = p.nWidth-p.nRightOffset ∧ r.nBottomOffset = p.nWidth-p.nLeftOffset := by
  have hsize := rotatePicture270Degree_size p o
  refine ⟨rfl,?_,rfl,?_⟩
  · show ((rotatePicture270Degree p o).nWidth : ℤ)-(p.nHeight-p.nTopOffset) = _
    rw [hsize.1]
    omega
  · show ((rotatePicture270Degree p o).nHeight : ℤ)-p.nLeftOffset = _
    rw [hsize.2]

end Crops

/-- Each rotation gives an empty rectangle. Two half turns lose the height of the rectangle, and a
quarter turn with the one that takes it back loses both sides. -/
theorem crop_follows_picture (p o₁ o₂ : VideoPicture) :
    ((∀ x y, InCrop (rotatePicture90Degree p o₁) (p.nHeight-1-y) x ↔ InCrop p x y) ↔ CropEmpty p) ∧
    ((∀ x y, InCrop (rotatePicture180Degree p o₁) (p.nWidth-1-x) (p.nHeight-1-y) ↔
      InCrop p x y) ↔ CropEmpty p) ∧
    ((∀ x y, InCrop (rotatePicture270Degree p o₁) y (p.nWidth-1-x) ↔ InCrop p x y) ↔ CropEmpty p) ∧
    (SameCrop (rotatePicture180Degree (rotatePicture180Degree p o₁) o₂) p ↔
      p.nTopOffset = p.nBottomOffset) ∧
    (SameCrop (rotatePicture270Degree (rotatePicture90Degree p o₁) o₂) p ↔
      p.nTopOffset = p.nBottomOffset ∧ p.nLeftOffset = p.nRightOffset) := by
  obtain ⟨hl,hr,ht,hb⟩ := rotatePicture90Degree_crop p o₁
  obtain ⟨hl',hr',ht',hb'⟩ := rotatePicture180Degree_crop p o₁
  obtain ⟨hl'',hr'',-,-⟩ := rotatePicture270Degree_crop p o₁
  refine ⟨?_,?_,?_,?_,?_⟩
  · exact image_of_empty (.inl (by omega)) fun x y => (p.nHeight-1-y, x)
  · exact image_of_empty (.inr (by omega)) fun x y => (p.nWidth-1-x, p.nHeight-1-y)
  · exact image_of_empty (.inl (by omega)) fun x y => (y, p.nWidth-1-x)
  · obtain ⟨hl₂,hr₂,ht₂,hb₂⟩ :=
      rotatePicture180Degree_crop (rotatePicture180Degree p o₁) o₂
    have hw : (rotatePicture180Degree p o₁).nWidth = p.nWidth := rfl
    have hh : (rotatePicture180Degree p o₁).nHeight = p.nHeight := rfl
    constructor
    · intro h
      have hbottom := h.bottom
      omega
    · intro h
      constructor <;> omega
  · obtain ⟨hl₂,hr₂,ht₂,hb₂⟩ := rotatePicture270Degree_crop (rotatePicture90Degree p o₁) o₂
    obtain ⟨hw,hh⟩ := rotatePicture90Degree_size p o₁
    constructor
    · intro h
      have hbottom := h.bottom
      have hright := h.right
      omega
    · intro h
      constructor <;> omega

theorem crop_lost :
    let p := fourPixels (fun _ => 0) 256
    InCrop p 0 0 ∧ ¬InCrop (rotatePicture90Degree p p) 1 0 ∧
      ¬SameCrop (rotatePicture180Degree (rotatePicture180Degree p p) p) p := by
  refine ⟨?_,?_,?_⟩
  · exact ⟨by decide,by decide,by decide,by decide⟩
  · intro h
    exact absurd h.1 (by decide)
  · intro h
    exact absurd h.bottom (by decide)

end TinaPackage.PixelFormat
