import TinaPackage.PictureLayout

/-! Converting a picture from one pixel format in line order to another. -/
namespace TinaPackage.PixelFormat
open List VideoPicture

def evenUp (n : ℕ) : ℕ := (n+1)/2*2

theorem align16_evenUp (n : ℕ) : align16 (evenUp n) = align16 n := by
  unfold align16 evenUp
  omega

variable (p : VideoPicture)

/-- The picture with its sides rounded up to even numbers, so that every pixel has
its chroma samples, and in the line stride that the conversions take. -/
def VideoPicture.whole : VideoPicture :=
  { p with
    nWidth := evenUp p.nWidth, nHeight := evenUp p.nHeight, nLineStride := align16 p.nWidth }

variable {p q r : VideoPicture} {f : Channel → Channel}

theorem VideoPicture.whole_even (hf : p.ePixelFormat = .yv12 ∨ p.ePixelFormat = .nv21) :
    p.whole.Even := by
  constructor
  · exact hf.imp_right .inl
  · simp [whole,evenUp]
  · simp [whole,evenUp]
  · exact align16_mod _
  · show evenUp p.nWidth ≤ align16 p.nWidth
    rw [← align16_evenUp]
    exact align16_ge _

@[simp] theorem VideoPicture.whole_memSizeY :
    p.whole.nMemSizeY = align16 p.nWidth*align16 p.nHeight := by
  show align16 p.nWidth*align16 (evenUp p.nHeight) = _
  rw [align16_evenUp]

@[simp] theorem VideoPicture.whole_chroma1 :
    p.whole.chroma1 = p.pData0+align16 p.nWidth*align16 p.nHeight := by
  rw [chroma1,whole_memSizeY]
  rfl

@[simp] theorem VideoPicture.whole_chroma2 :
    p.whole.chroma2 = p.pData0+align16 p.nWidth*align16 p.nHeight +
      align16 p.nWidth*align16 p.nHeight/4 := by
  rw [chroma2,whole_chroma1,whole_memSizeY]

@[simp] theorem VideoPicture.whole_format : p.whole.ePixelFormat = p.ePixelFormat := rfl

@[simp] theorem VideoPicture.whole_stride : p.whole.nLineStride = align16 p.nWidth := rfl

@[simp] theorem VideoPicture.whole_mem : p.whole.mem = p.mem := rfl

/-- The two chroma planes of planar YUV 4:2:0 stand in the other order. -/
def sourceChannel : Format → Channel → Channel
  | .yuvPlaner420, .first => .second
  | .yuvPlaner420, .second => .first
  | _, c => c

structure ChromaStores (p q : VideoPicture) (f : Channel → Channel) (ws : List (ℕ × UInt8)) :
    Prop where
  all : ∀ c x y, c ≠ .luma → x < q.cols c → y < q.rows c → (q.addr c x y, p.sample (f c) x y) ∈ ws
  behind : ∀ w ∈ ws, q.chroma1 ≤ w.1
  only : ∀ w ∈ ws, ∀ c x y, c ≠ .luma → x < q.cols c → y < q.rows c → w.1 = q.addr c x y →
    w.2 = p.sample (f c) x y

theorem mem_memcpy {src : ℕ → UInt8} {dst start n : ℕ} {w : ℕ × UInt8} :
    w ∈ memcpy src dst start n ↔ ∃ k < n, w = (dst+k, src (start+k)) := by
  simp [memcpy,mem_loop]

variable {ws : List (ℕ × UInt8)}

theorem ChromaStores.sample (h : ChromaStores p q f ws) (hq : q.Even)
    (hs : p.nLineStride = q.nLineStride) (hf : f .luma = .luma) {n : ℕ} (hn : n = q.nMemSizeY)
    {c : Channel} {x y : ℕ} (hx : x < q.cols c) (hy : y < q.rows c) :
    (q.store (memcpy p.mem q.pData0 p.pData0 n ++ ws)).sample c x y = p.sample (f c) x y := by
  show stores q.mem _ (q.addr c x y) = _
  apply stores_of_mem
  · rw [mem_append,mem_memcpy]
    by_cases hc : c = .luma
    · subst hc
      have hlt : q.pData0+(y*q.nLineStride+x) < q.pData0+q.nMemSizeY :=
        VideoPicture.luma_lt hq hx hy
      refine .inl ⟨y*q.nLineStride+x,by omega,?_⟩
      rw [hf,VideoPicture.sample,VideoPicture.addr,VideoPicture.addr,hs]
    · exact .inr (h.all c x y hc hx hy)
  · intro v hv
    rw [mem_append,mem_memcpy] at hv
    by_cases hc : c = .luma
    · subst hc
      have hlt := VideoPicture.luma_lt hq hx hy
      rcases hv with ⟨k,-,hk⟩ | hv
      · obtain ⟨haddr,rfl⟩ := Prod.mk.inj hk
        have hplace : y*q.nLineStride+x = k := add_left_cancel haddr
        rw [hf,VideoPicture.sample,VideoPicture.addr,hs,hplace]
      · have hbehind := h.behind _ hv
        omega
    · rcases hv with ⟨k,hk,heq⟩ | hv
      · have hle := VideoPicture.chroma1_le (p := q) hc x y
        have haddr : q.addr c x y = q.pData0+k := (Prod.mk.inj heq).1
        have hchroma1 : q.chroma1 = q.pData0+q.nMemSizeY := rfl
        omega
      · exact h.only _ hv c x y hc hx hy rfl

theorem loop_chromaStores (hq : q.Even) {h w : ℕ} (hh : h = q.nHeight/2) (hw : w = q.nWidth/2)
    {body : ℕ → ℕ → List (ℕ × UInt8)}
    (hbody : ∀ i j, body i j = [(q.addr .first j i, p.sample (f .first) j i),
      (q.addr .second j i, p.sample (f .second) j i)]) :
    ChromaStores p q f (loop h fun i => loop w (body i)) := by
  subst hh hw
  have hmem (w : ℕ × UInt8) (hw : w ∈ loop (q.nHeight/2) fun i => loop (q.nWidth/2) (body i)) :
      ∃ c x y, c ≠ .luma ∧ x < q.cols c ∧ y < q.rows c ∧
        w = (q.addr c x y, p.sample (f c) x y) := by
    simp only [mem_loop,hbody,mem_cons,not_mem_nil,or_false] at hw
    obtain ⟨i,hi,j,hj,rfl | rfl⟩ := hw
    · exact ⟨.first,j,i,by decide,hj,hi,rfl⟩
    · exact ⟨.second,j,i,by decide,hj,hi,rfl⟩
  constructor
  · intro c x y hc hx hy
    simp only [mem_loop,hbody,mem_cons,not_mem_nil,or_false]
    cases c with
    | luma => exact absurd rfl hc
    | first => exact ⟨y,hy,x,hx,.inl rfl⟩
    | second => exact ⟨y,hy,x,hx,.inr rfl⟩
  · intro w hw
    obtain ⟨c,x,y,hc,-,-,rfl⟩ := hmem w hw
    exact chroma1_le hc x y
  · intro w hw c x y _ hx hy haddr
    obtain ⟨c',x',y',-,hx',hy',rfl⟩ := hmem w hw
    obtain ⟨rfl,rfl,rfl⟩ := addr_inj hq hx hy hx' hy' haddr.symm
    rfl

theorem memcpy_chromaStores (hq : q.Even) (hqf : q.ePixelFormat = .yv12) (hpf : ¬p.Interleaved)
    (hs : p.nLineStride = q.nLineStride) (hfirst : f .first = .second)
    (hsecond : f .second = .first) :
    ChromaStores p q f (memcpy p.mem q.chroma1 p.chroma2 (q.nMemSizeY/4) ++
      memcpy p.mem q.chroma2 p.chroma1 (q.nMemSizeY/4)) := by
  have hqi : ¬q.Interleaved := by simp [Interleaved,hqf]
  have hchroma2 : q.chroma2 = q.chroma1+q.nMemSizeY/4 := rfl
  constructor
  · intro c x y hc hx hy
    rw [mem_append,mem_memcpy,mem_memcpy]
    cases c with
    | luma => exact absurd rfl hc
    | first =>
      refine .inl ⟨_,half_lt hq hx hy,?_⟩
      simp only [hfirst,sample,addr,if_neg hqi,if_neg hpf,hs]
    | second =>
      refine .inr ⟨_,half_lt hq hx hy,?_⟩
      simp only [hsecond,sample,addr,if_neg hqi,if_neg hpf,hs]
  · intro w hw
    rw [mem_append,mem_memcpy,mem_memcpy] at hw
    rcases hw with ⟨k,-,rfl⟩ | ⟨k,-,rfl⟩
    · exact Nat.le_add_right _ _
    · omega
  · intro w hw c x y hc hx hy haddr
    rw [mem_append,mem_memcpy,mem_memcpy] at hw
    cases c with
    | luma => exact absurd rfl hc
    | first =>
      have hlt := half_lt hq hx hy
      rw [addr,if_neg hqi] at haddr
      rcases hw with ⟨k,hk,rfl⟩ | ⟨k,hk,rfl⟩
      · have hk : k = y*(q.nLineStride/2)+x := add_left_cancel haddr
        simp only [hfirst,sample,addr,if_neg hpf,hs,hk]
      · omega
    | second =>
      rw [addr,if_neg hqi] at haddr
      rcases hw with ⟨k,hk,rfl⟩ | ⟨k,hk,rfl⟩
      · dsimp only at haddr
        omega
      · have hk : k = y*(q.nLineStride/2)+x := add_left_cancel haddr
        simp only [hsecond,sample,addr,if_neg hpf,hs,hk]

structure Converted (p r : VideoPicture) (f : Channel → Channel) : Prop where
  width : r.nWidth = p.nWidth
  height : r.nHeight = p.nHeight
  sample : ∀ c x y, x < p.whole.cols c → y < p.whole.rows c →
    r.whole.sample c x y = p.whole.sample (f c) x y

theorem evenUp_half (n : ℕ) : (n+1)/2 = evenUp n/2 := by
  unfold evenUp
  omega

theorem Converted.of_stores (hqf : q.ePixelFormat = .yv12 ∨ q.ePixelFormat = .nv21)
    (hw : q.nWidth = p.nWidth) (hh : q.nHeight = p.nHeight)
    (hws : q.whole.Even → ChromaStores p.whole q.whole f ws) (hf : f .luma = .luma) :
    Converted p (q.store
      (memcpy p.mem q.pData0 p.pData0 (align16 p.nWidth*align16 p.nHeight) ++ ws)) f := by
  have hwidth : q.whole.nWidth = p.whole.nWidth := by rw [whole,hw]; rfl
  have hheight : q.whole.nHeight = p.whole.nHeight := by rw [whole,hh]; rfl
  have hstride : p.whole.nLineStride = q.whole.nLineStride := by
    show align16 p.nWidth = align16 q.nWidth
    rw [hw]
  have hsize : align16 p.nWidth*align16 p.nHeight = q.whole.nMemSizeY := by
    rw [whole_memSizeY,hw,hh]
  refine ⟨hw,hh,?_⟩
  intro c x y hx hy
  rw [← cols_eq hwidth] at hx
  rw [← rows_eq hheight] at hy
  have hq := whole_even hqf
  exact (hws hq).sample hq hstride hf hsize hx hy

/-- The pairs of formats that `ConvertPixelFormat` handles. -/
def Convertible : Format → Format → Prop
  | .nv21, .yv12 | .yuvPlaner420, .yv12 | .yv12, .nv21 | .yuvPlaner420, .nv21 => True
  | _, _ => False

theorem convertPixelFormat_converted {o : VideoPicture}
    (h : Convertible p.ePixelFormat o.ePixelFormat) :
    Converted p (convertPixelFormat p o) (sourceChannel p.ePixelFormat) := by
  have hhalf (i : ℕ) : i*align16 p.nWidth/2 = i*(align16 p.nWidth/2) := by
    have heven := align16_mod p.nWidth
    exact Nat.mul_div_assoc i (by omega)
  simp only [convertPixelFormat,hhalf]
  split
  case h_2 ho hp =>
    rw [hp,append_assoc]
    refine .of_stores (.inl ho) rfl rfl (fun hq => ?_) rfl
    have hws := memcpy_chromaStores (p := p.whole) (f := sourceChannel .yuvPlaner420) hq ho
      (by simp [Interleaved,hp]) rfl rfl rfl
    simpa using hws
  case h_1 ho hp | h_3 ho hp | h_4 ho hp =>
    rw [hp]
    refine .of_stores (by simp [ho]) rfl rfl (fun hq => ?_) rfl
    refine loop_chromaStores hq (evenUp_half _) (evenUp_half _) ?_
    intro i j
    simp [sample,addr,Interleaved,sourceChannel,ho,hp,add_assoc]
  case h_5 h1 h2 h3 h4 =>
    unfold Convertible at h
    split at h
    case h_1 hp ho => exact absurd hp (h1 ho)
    case h_2 hp ho => exact absurd hp (h2 ho)
    case h_3 hp ho => exact absurd hp (h3 ho)
    case h_4 hp ho => exact absurd hp (h4 ho)
    case h_5 => exact absurd h id

theorem VideoPicture.whole_sample (h : p.nLineStride = align16 p.nWidth) :
    p.whole.sample = p.sample := by
  have hsize : p.nMemSizeY = align16 p.nWidth*align16 p.nHeight := by rw [nMemSizeY,h]
  funext c x y
  cases c <;> simp [sample,addr,Interleaved,chroma1,chroma2,hsize,h] <;> rfl

/-- `r` shows the picture `p` in a pixel format: the sizes, the crop rectangle and every sample are
those of `p`, also the chroma samples of the last pixel of an odd side. -/
structure PictureIn (format : Format) (r p : VideoPicture) : Prop where
  format : r.ePixelFormat = format
  width : r.nWidth = p.nWidth
  height : r.nHeight = p.nHeight
  crop : SameCrop r p
  sample : ∀ c x y, x < p.whole.cols c → y < p.whole.rows c →
    r.sample c x y = p.sample (sourceChannel p.ePixelFormat c) x y

section
variable {format : Format} {s : VideoPicture}

theorem PictureIn.cols (h : PictureIn format r p) (c : Channel) :
    r.whole.cols c = p.whole.cols c := cols_eq (congrArg evenUp h.width) c

theorem PictureIn.rows (h : PictureIn format r p) (c : Channel) :
    r.whole.rows c = p.whole.rows c := rows_eq (congrArg evenUp h.height) c

/-- By way of YV12, whose planes stand in the order of the channels. -/
theorem PictureIn.trans (h : PictureIn .yv12 q p) (h' : PictureIn format r q) :
    PictureIn format r p := by
  refine ⟨h'.format,h'.width.trans h.width,h'.height.trans h.height,h'.crop.trans h.crop,?_⟩
  intro c x y hx hy
  have hsample := h'.sample c x y
  rw [h.cols,h.rows,h.format] at hsample
  rw [hsample hx hy,show sourceChannel .yv12 c = c by cases c <;> rfl]
  exact h.sample c x y hx hy

theorem PictureIn.common (h : PictureIn .nv21 r p) (h' : PictureIn .nv21 s p) :
    PictureIn .nv21 r s := by
  refine ⟨h.format,h.width.trans h'.width.symm,h.height.trans h'.height.symm,
    h.crop.trans h'.crop.symm,?_⟩
  intro c x y hx hy
  rw [h'.cols] at hx
  rw [h'.rows] at hy
  rw [h'.format,show sourceChannel .nv21 c = c by cases c <;> rfl]
  exact (h.sample c x y hx hy).trans (h'.sample c x y hx hy).symm

end

theorem convertPixelFormat_stride (p o : VideoPicture) : (convertPixelFormat p o).nLineStride =
    align16 (convertPixelFormat p o).nWidth := by
  simp only [convertPixelFormat]
  split <;> rfl

theorem convertPixelFormat_pictureIn {o : VideoPicture} (hs : p.nLineStride = align16 p.nWidth)
    (h : Convertible p.ePixelFormat o.ePixelFormat) :
    PictureIn o.ePixelFormat (convertPixelFormat p o) p := by
  have hconv := convertPixelFormat_converted h
  obtain ⟨hformat,hcrop⟩ : (convertPixelFormat p o).ePixelFormat = o.ePixelFormat ∧
      SameCrop (convertPixelFormat p o) p := by
    simp only [convertPixelFormat]
    split <;> exact ⟨rfl,rfl,rfl,rfl,rfl⟩
  refine ⟨hformat,hconv.width,hconv.height,hcrop,?_⟩
  have hsample := hconv.sample
  rwa [whole_sample hs,whole_sample (convertPixelFormat_stride p o)] at hsample

/-- NV21 to YV12 gives the same picture in that format, and back the samples of before; planar
YUV 4:2:0 to NV21 gives the same picture directly and by way of YV12. -/
theorem conversions_commute (p o y n n' : VideoPicture) (hp : p.ePixelFormat = .nv21)
    (hps : p.nLineStride = align16 p.nWidth) (ho : o.ePixelFormat = .yuvPlaner420)
    (hos : o.nLineStride = align16 o.nWidth) (hy : y.ePixelFormat = .yv12)
    (hn : n.ePixelFormat = .nv21) (hn' : n'.ePixelFormat = .nv21) :
    PictureIn .yv12 (convertPixelFormat p y) p ∧
    PictureIn .nv21 (convertPixelFormat (convertPixelFormat p y) n) p ∧
    PictureIn .yv12 (convertPixelFormat o y) o ∧ PictureIn .nv21 (convertPixelFormat o n') o ∧
    PictureIn .nv21 (convertPixelFormat (convertPixelFormat o y) n) (convertPixelFormat o n') := by
  have hpy := convertPixelFormat_pictureIn (o := y) hps (by simp [Convertible,hp,hy])
  have hoy := convertPixelFormat_pictureIn (o := y) hos (by simp [Convertible,ho,hy])
  have hon := convertPixelFormat_pictureIn (o := n') hos (by simp [Convertible,ho,hn'])
  rw [hy] at hpy hoy
  rw [hn'] at hon
  have hback {q : VideoPicture} (hq : PictureIn .yv12 (convertPixelFormat q y) q) :
      PictureIn .nv21 (convertPixelFormat (convertPixelFormat q y) n) q := by
    have hyn := convertPixelFormat_pictureIn (o := n) (convertPixelFormat_stride q y)
      (by simp [Convertible,hq.format,hn])
    rw [hn] at hyn
    exact hq.trans hyn
  exact ⟨hpy,hback hpy,hoy,hon,(hback hoy).common hon⟩

def ninePixels (ePixelFormat : Format) : VideoPicture where
  ePixelFormat := ePixelFormat
  nWidth := 3
  nHeight := 3
  nLineStride := 16
  nTopOffset := 0
  nLeftOffset := 0
  nBottomOffset := 3
  nRightOffset := 3
  pData0 := 0
  pData1 := 0
  pData2 := 0
  mem := fun a => UInt8.ofNat (a % 251)

theorem conversions_commute_at_nine_pixels :
    PictureIn .yv12 (convertPixelFormat (ninePixels .nv21) (ninePixels .yv12)) (ninePixels .nv21) ∧
    PictureIn .nv21 (convertPixelFormat (convertPixelFormat (ninePixels .nv21) (ninePixels .yv12))
      (ninePixels .nv21)) (ninePixels .nv21) :=
  have h := conversions_commute (ninePixels .nv21) (ninePixels .yuvPlaner420) (ninePixels .yv12)
    (ninePixels .nv21) (ninePixels .nv21) rfl rfl rfl rfl rfl rfl rfl
  ⟨h.1,h.2.1⟩

end TinaPackage.PixelFormat
