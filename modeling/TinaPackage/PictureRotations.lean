import TinaPackage.PictureLayout

/-! What the rotations do to the samples of a picture. -/
namespace TinaPackage.PixelFormat
open List VideoPicture

theorem two_mul_half {s : ℕ} (hs : s % 16 = 0) (k : ℕ) : 2*k*(s/2) = k*s := by
  rw [mul_comm 2,mul_assoc,Nat.mul_div_cancel' (by omega)]

section Loops
variable {p q : VideoPicture} {f : Channel → ℕ → ℕ → ℕ × ℕ} {place : ℕ → ℕ → ℕ}

theorem mem_lumaStores
    (hplace : ∀ i < p.nWidth, ∀ j < p.nHeight,
      place i j = (f .luma i j).2*q.nLineStride+(f .luma i j).1) (w : ℕ × UInt8) :
    w ∈ lumaStores p q place ↔ ∃ i j, i < p.cols .luma ∧ j < p.rows .luma ∧
      w = (q.addr .luma (f .luma i j).1 (f .luma i j).2, p.sample .luma i j) := by
  simp only [lumaStores,mem_loop,mem_singleton]
  constructor
  · rintro ⟨j,hj,i,hi,rfl⟩
    exact ⟨i,j,hi,hj,by rw [hplace i hi j hj]; rfl⟩
  · rintro ⟨i,j,hi,hj,rfl⟩
    exact ⟨j,hj,i,hi,by rw [hplace i hi j hj]; rfl⟩

theorem copies_of_stores {u v : ℕ → ℕ → ℕ × UInt8}
    (hluma : ∀ i < p.nWidth, ∀ j < p.nHeight,
      place i j = (f .luma i j).2*q.nLineStride+(f .luma i j).1)
    (hfirst : ∀ i < p.nWidth/2, ∀ j < p.nHeight/2,
      u i j = (q.addr .first (f .first i j).1 (f .first i j).2, p.sample .first i j))
    (hsecond : ∀ i < p.nWidth/2, ∀ j < p.nHeight/2,
      v i j = (q.addr .second (f .second i j).1 (f .second i j).2, p.sample .second i j)) :
    Copies p q f (lumaStores p q place ++
      loop (p.nHeight/2) fun j => loop (p.nWidth/2) fun i => [u i j,v i j]) := by
  intro w
  rw [mem_append,mem_lumaStores hluma]
  simp only [mem_loop,mem_cons,not_mem_nil,or_false]
  constructor
  · rintro (⟨i,j,hi,hj,rfl⟩ | ⟨j,hj,i,hi,rfl | rfl⟩)
    · exact ⟨.luma,i,j,hi,hj,rfl⟩
    · exact ⟨.first,i,j,hi,hj,hfirst i hi j hj⟩
    · exact ⟨.second,i,j,hi,hj,hsecond i hi j hj⟩
  · rintro ⟨c,i,j,hi,hj,rfl⟩
    cases c with
    | luma => exact .inl ⟨i,j,hi,hj,rfl⟩
    | first => exact .inr ⟨j,hj,i,hi,.inl (hfirst i hi j hj).symm⟩
    | second => exact .inr ⟨j,hj,i,hi,.inr (hsecond i hi j hj).symm⟩

theorem planar_copies {place' : ℕ → ℕ → ℕ} (hp : p.ePixelFormat = .yv12)
    (hq : q.ePixelFormat = .yv12)
    (h1 : q.pData1 = q.chroma1) (h2 : q.pData2 = q.chroma2)
    (hluma : ∀ i < p.nWidth, ∀ j < p.nHeight,
      place i j = (f .luma i j).2*q.nLineStride+(f .luma i j).1)
    (hchroma : ∀ c, c ≠ .luma → ∀ i < p.nWidth/2, ∀ j < p.nHeight/2,
      place' i j = (f c i j).2*(q.nLineStride/2)+(f c i j).1) :
    Copies p q f (lumaStores p q place ++ planarStores p q place') := by
  have hp : ¬p.Interleaved := by simp [Interleaved,hp]
  have hq : ¬q.Interleaved := by simp [Interleaved,hq]
  refine copies_of_stores hluma (fun i hi j hj => ?_) fun i hi j hj => ?_
  · rw [hchroma .first (by decide) i hi j hj,h1]
    simp only [sample,addr,if_neg hp,if_neg hq]
  · rw [hchroma .second (by decide) i hi j hj,h2]
    simp only [sample,addr,if_neg hp,if_neg hq]

theorem interleaved_copies {place' place'' : ℕ → ℕ → ℕ} (hp : p.Interleaved) (hq : q.Interleaved)
    (hs : p.nLineStride % 16 = 0) (h1 : q.pData1 = q.chroma1)
    (hluma : ∀ i < p.nWidth, ∀ j < p.nHeight,
      place i j = (f .luma i j).2*q.nLineStride+(f .luma i j).1)
    (hfirst : ∀ i < p.nWidth/2, ∀ j < p.nHeight/2,
      place' i j = (f .first i j).2*q.nLineStride+2*(f .first i j).1)
    (hsecond : ∀ i < p.nWidth/2, ∀ j < p.nHeight/2,
      place'' i j = (f .second i j).2*q.nLineStride+(2*(f .second i j).1+1)) :
    Copies p q f (lumaStores p q place ++ interleavedStores p q place' place'') := by
  refine copies_of_stores hluma (fun i hi j hj => ?_) fun i hi j hj => ?_
  · rw [hfirst i hi j hj,h1]
    simp only [sample,addr,if_pos hp,if_pos hq,two_mul_half hs]
  · rw [hsecond i hi j hj,h1]
    simp only [sample,addr,if_pos hp,if_pos hq,two_mul_half hs,add_assoc]

end Loops

section Turns
variable (p : VideoPicture)

def turn90 (c : Channel) (i j : ℕ) : ℕ × ℕ := (p.rows c-1-j, i)

def turn180 (c : Channel) (i j : ℕ) : ℕ × ℕ := (p.cols c-1-i, p.rows c-1-j)

def turn270 (c : Channel) (i j : ℕ) : ℕ × ℕ := (j, p.cols c-1-i)

end Turns

variable {p q : VideoPicture}

theorem turn90_turn (hw : q.nWidth = p.nHeight) (hh : q.nHeight = p.nWidth) :
    Turn p q (turn90 p) := by
  constructor
  · intro c i j hi hj
    rw [cols_eq_rows hw,rows_eq_cols hh]
    exact ⟨by simp only [turn90]; omega,hi⟩
  · intro c i j i' j' hi hj hi' hj' h
    simp only [turn90,Prod.mk.injEq] at h
    omega

theorem turn180_turn (hw : q.nWidth = p.nWidth) (hh : q.nHeight = p.nHeight) :
    Turn p q (turn180 p) := by
  constructor
  · intro c i j hi hj
    rw [cols_eq hw,rows_eq hh]
    simp only [turn180]
    omega
  · intro c i j i' j' hi hj hi' hj' h
    simp only [turn180,Prod.mk.injEq] at h
    omega

theorem turn270_turn (hw : q.nWidth = p.nHeight) (hh : q.nHeight = p.nWidth) :
    Turn p q (turn270 p) := by
  constructor
  · intro c i j hi hj
    rw [cols_eq_rows hw,rows_eq_cols hh]
    exact ⟨hj,by simp only [turn270]; omega⟩
  · intro c i j i' j' hi hj hi' hj' h
    simp only [turn270,Prod.mk.injEq] at h
    omega

section Copies
variable {p o : VideoPicture} (hp : p.Even) (hf : o.ePixelFormat = p.ePixelFormat)
include hp hf

theorem rotatePixels90_copies (hs : o.nLineStride % 16 = 0) :
    ∃ q ws, rotatePixels90 p o = q.store ws ∧ q.Like o ∧ Copies p q (turn90 p) ws := by
  have hluma (i : ℕ) (_ : i < p.nWidth) (j : ℕ) (_ : j < p.nHeight) :
      i*o.nLineStride+p.nHeight-j-1 =
        (turn90 p .luma i j).2*o.nLineStride+(turn90 p .luma i j).1 := by
    simp only [turn90,rows]
    omega
  have hline := two_mul_half hs
  unfold rotatePixels90
  split
  case h_1 h =>
    refine ⟨_,_,rfl,⟨rfl,rfl,rfl,rfl,rfl⟩,?_⟩
    refine planar_copies (hf.symm.trans h) h rfl rfl hluma ?_
    intro c hc i hi j hj
    cases c <;> simp only [turn90,rows,ne_eq,not_true_eq_false] at hc ⊢ <;> omega
  case h_2 h | h_3 h =>
    refine ⟨_,_,rfl,⟨rfl,rfl,rfl,rfl,rfl⟩,?_⟩
    refine interleaved_copies (by simp [Interleaved,← hf,h])
      (by simp [Interleaved,h]) hp.stride rfl hluma ?_ ?_
    all_goals
      intro i hi j hj
      simp only [turn90,rows,hline]
      omega
  case h_4 h1 h2 h3 =>
    rcases hp.format with h | h | h
    exacts [absurd (hf.trans h) h1,absurd (hf.trans h) h2,absurd (hf.trans h) h3]

theorem rotatePixels180_copies (hs : o.nLineStride = p.nLineStride) :
    ∃ q ws, { rotatePixels180 p o with nHeight := p.nHeight, nWidth := p.nWidth } = q.store ws ∧
      q.Like { o with nHeight := p.nHeight, nWidth := p.nWidth } ∧ Copies p q (turn180 p) ws := by
  have hluma (i : ℕ) (_ : i < p.nWidth) (j : ℕ) (_ : j < p.nHeight) :
      (p.nHeight-1-j)*p.nLineStride+(p.nWidth-1-i) =
        (turn180 p .luma i j).2*o.nLineStride+(turn180 p .luma i j).1 := by
    rw [hs]
    rfl
  have hline := two_mul_half hp.stride
  unfold rotatePixels180
  split
  case h_1 h =>
    refine ⟨{ o with
        nHeight := p.nHeight, nWidth := p.nWidth, pData1 := o.pData0+p.nMemSizeY
        pData2 := o.pData0+p.nMemSizeY+p.nMemSizeY/4 },_,rfl,⟨rfl,rfl,rfl,rfl,rfl⟩,?_⟩
    refine planar_copies (hf.symm.trans h) h ?_ ?_ ?_ ?_
    · simp only [chroma1,nMemSizeY,hs]
    · simp only [chroma1,chroma2,nMemSizeY,hs]
    · exact hluma
    · intro c hc i hi j hj
      cases c <;> simp only [turn180,rows,cols,hs,ne_eq,not_true_eq_false] at hc ⊢
  case h_2 h | h_3 h =>
    refine ⟨{ o with
        nHeight := p.nHeight, nWidth := p.nWidth, pData1 := o.pData0+p.nMemSizeY },
      _,rfl,⟨rfl,rfl,rfl,rfl,rfl⟩,?_⟩
    refine interleaved_copies (by simp [Interleaved,← hf,h])
      (by simp [Interleaved,h]) hp.stride ?_ ?_ ?_ ?_
    · simp only [chroma1,nMemSizeY,hs]
    · exact hluma
    all_goals
      intro i hi j hj
      simp only [turn180,rows,cols,hline,hs,add_assoc]
  case h_4 h1 h2 h3 =>
    rcases hp.format with h | h | h
    exacts [absurd (hf.trans h) h1,absurd (hf.trans h) h2,absurd (hf.trans h) h3]

theorem rotatePixels270_copies (hs : o.nLineStride % 16 = 0)
    (h1 : p.ePixelFormat = .yv12 ∨ o.pData1 = o.chroma1) :
    ∃ q ws, rotatePixels270 p o = q.store ws ∧ q.Like o ∧ Copies p q (turn270 p) ws := by
  have hluma (i : ℕ) (_ : i < p.nWidth) (j : ℕ) (_ : j < p.nHeight) :
      (p.nWidth-1-i)*o.nLineStride+j =
        (turn270 p .luma i j).2*o.nLineStride+(turn270 p .luma i j).1 := rfl
  have hline := two_mul_half hs
  unfold rotatePixels270
  split
  case h_1 h =>
    refine ⟨_,_,rfl,⟨rfl,rfl,rfl,rfl,rfl⟩,?_⟩
    refine planar_copies (hf.symm.trans h) h rfl rfl hluma ?_
    intro c hc i hi j hj
    cases c <;> simp only [turn270,cols,ne_eq,not_true_eq_false] at hc ⊢
  case h_2 h | h_3 h =>
    -- the one branch that takes the pointer as it was
    have h1 : o.pData1 = o.chroma1 := h1.resolve_left (by simp [← hf,h])
    refine ⟨_,_,rfl,⟨rfl,rfl,rfl,rfl,rfl⟩,?_⟩
    refine interleaved_copies (by simp [Interleaved,← hf,h])
      (by simp [Interleaved,h]) hp.stride h1 hluma ?_ ?_
    all_goals
      intro i hi j hj
      simp only [turn270,cols,hline,add_assoc]
  case h_4 h1 h2 h3 =>
    rcases hp.format with h | h | h
    exacts [absurd (hf.trans h) h1,absurd (hf.trans h) h2,absurd (hf.trans h) h3]

end Copies

/-- `r` shows the samples of `p` in the places that `f` gives. -/
structure Turned (p r : VideoPicture) (w h : ℕ) (f : Channel → ℕ → ℕ → ℕ × ℕ) : Prop where
  even : r.Even
  format : r.ePixelFormat = p.ePixelFormat
  width : r.nWidth = w
  height : r.nHeight = h
  sample : ∀ c i j, i < p.cols c → j < p.rows c →
    r.sample c (f c i j).1 (f c i j).2 = p.sample c i j

theorem Turned.of_copies {p o q r t : VideoPicture} {w h : ℕ} {f : Channel → ℕ → ℕ → ℕ × ℕ}
    {ws : List (ℕ × UInt8)} (ho : o.Even) (hf : o.ePixelFormat = p.ePixelFormat)
    (hw : o.nWidth = w) (hh : o.nHeight = h) (ht : t = q.store ws)
    (hr : r.Like t ∧ r.mem = t.mem) (hq : q.Like o) (hws : Copies p q f ws) (hturn : Turn p q f) :
    Turned p r w h f := by
  subst ht
  obtain ⟨hr,hmem⟩ := hr
  have hlike : r.Like o := ⟨hr.format.trans hq.format,hr.width.trans hq.width,
    hr.height.trans hq.height,hr.stride.trans hq.stride,hr.data.trans hq.data⟩
  constructor
  · exact hlike.even ho
  · exact hlike.format.trans hf
  · exact hlike.width.trans hw
  · exact hlike.height.trans hh
  · intro c i j hi hj
    rw [← hturn.sample_store (hq.even ho) hws hi hj,VideoPicture.sample,VideoPicture.sample,hmem,
      hr.addr]

section Rotations
variable {p : VideoPicture} (hp : p.Even) (o : VideoPicture) (hf : o.ePixelFormat = p.ePixelFormat)
include hp hf

theorem swapped_even : VideoPicture.Even { o with
    nLineStride := align16 p.nHeight, nHeight := p.nWidth, nWidth := p.nHeight } := by
  constructor
  · simpa only [VideoPicture.Interleaved,hf] using hp.format
  · exact hp.height
  · exact hp.width
  · exact align16_mod _
  · exact align16_ge _

theorem rotatePicture90Degree_turned :
    Turned p (rotatePicture90Degree p o) p.nHeight p.nWidth (turn90 p) := by
  have ho := swapped_even hp o hf
  obtain ⟨q,ws,heq,hq,hws⟩ := rotatePixels90_copies hp (o := { o with
    nLineStride := align16 p.nHeight, nHeight := p.nWidth, nWidth := p.nHeight }) hf ho.stride
  exact .of_copies ho hf rfl rfl heq ⟨⟨rfl,rfl,rfl,rfl,rfl⟩,rfl⟩ hq hws
    (turn90_turn hq.width hq.height)

theorem rotatePicture180Degree_turned :
    Turned p (rotatePicture180Degree p o) p.nWidth p.nHeight (turn180 p) := by
  have ho : VideoPicture.Even { o with
      nLineStride := p.nLineStride, nHeight := p.nHeight, nWidth := p.nWidth } := by
    refine ⟨?_,hp.width,hp.height,hp.stride,hp.fits⟩
    simpa only [VideoPicture.Interleaved,hf] using hp.format
  obtain ⟨q,ws,heq,hq,hws⟩ := rotatePixels180_copies hp (o := { o with
    nLineStride := p.nLineStride }) hf rfl
  exact .of_copies ho hf rfl rfl heq ⟨⟨rfl,rfl,rfl,rfl,rfl⟩,rfl⟩ hq hws
    (turn180_turn hq.width hq.height)

theorem rotatePicture270Degree_turned
    (h1 : p.ePixelFormat = .yv12 ∨ o.pData1 = o.pData0+align16 p.nHeight*align16 p.nWidth) :
    Turned p (rotatePicture270Degree p o) p.nHeight p.nWidth (turn270 p) := by
  have ho := swapped_even hp o hf
  obtain ⟨q,ws,heq,hq,hws⟩ := rotatePixels270_copies hp (o := { o with
    nLineStride := align16 p.nHeight, nHeight := p.nWidth, nWidth := p.nHeight }) hf ho.stride h1
  exact .of_copies ho hf rfl rfl heq ⟨⟨rfl,rfl,rfl,rfl,rfl⟩,rfl⟩ hq hws
    (turn270_turn hq.width hq.height)

end Rotations

structure SameVisible (r p : VideoPicture) : Prop where
  width : r.nWidth = p.nWidth
  height : r.nHeight = p.nHeight
  sample : ∀ c x y, x < p.cols c → y < p.rows c → r.sample c x y = p.sample c x y

variable {p q r : VideoPicture}

theorem half_turns (h : Turned p q p.nWidth p.nHeight (turn180 p))
    (h' : Turned q r q.nWidth q.nHeight (turn180 q)) : SameVisible r p := by
  refine ⟨h'.width.trans h.width,h'.height.trans h.height,?_⟩
  intro c x y hx hy
  have hcols := cols_eq h.width c
  have hrows := rows_eq h.height c
  have hsample := h'.sample c (p.cols c-1-x) (p.rows c-1-y) (by omega) (by omega)
  have hback : turn180 q c (p.cols c-1-x) (p.rows c-1-y) = (x, y) :=
    Prod.ext (by simp only [turn180]; omega) (by simp only [turn180]; omega)
  rw [hback] at hsample
  exact hsample.trans (h.sample c x y hx hy)

theorem quarter_turns {p q r s : VideoPicture} (h : Turned p q p.nHeight p.nWidth (turn90 p))
    (h' : Turned q r q.nHeight q.nWidth (turn90 q))
    (hs : Turned p s p.nWidth p.nHeight (turn180 p)) : SameVisible r s := by
  refine ⟨(h'.width.trans h.height).trans hs.width.symm,
    (h'.height.trans h.width).trans hs.height.symm,?_⟩
  intro c x y hx hy
  rw [cols_eq hs.width] at hx
  rw [rows_eq hs.height] at hy
  have hcols := cols_eq_rows h.width c
  have hrows := rows_eq_cols h.height c
  -- both show the sample that stands opposite
  have hsample := h'.sample c y (p.cols c-1-x) (by omega) (by omega)
  have hplace : turn90 q c y (p.cols c-1-x) = (x, y) :=
    Prod.ext (by simp only [turn90]; omega) rfl
  have hfirst := h.sample c (p.cols c-1-x) (p.rows c-1-y) (by omega) (by omega)
  have hplace' : turn90 p c (p.cols c-1-x) (p.rows c-1-y) = (y, p.cols c-1-x) :=
    Prod.ext (by simp only [turn90]; omega) rfl
  have hhalf := hs.sample c (p.cols c-1-x) (p.rows c-1-y) (by omega) (by omega)
  have hplace'' : turn180 p c (p.cols c-1-x) (p.rows c-1-y) = (x, y) :=
    Prod.ext (by simp only [turn180]; omega) (by simp only [turn180]; omega)
  rw [hplace] at hsample
  rw [hplace'] at hfirst
  rw [hplace''] at hhalf
  exact hsample.trans (hfirst.trans hhalf.symm)

theorem quarter_turn_back (h : Turned p q p.nHeight p.nWidth (turn90 p))
    (h' : Turned q r q.nHeight q.nWidth (turn270 q)) : SameVisible r p := by
  refine ⟨h'.width.trans h.height,h'.height.trans h.width,?_⟩
  intro c x y hx hy
  have hcols := cols_eq_rows h.width c
  have hrows := rows_eq_cols h.height c
  have hsample := h'.sample c (p.rows c-1-y) x (by omega) (by omega)
  have hback : turn270 q c (p.rows c-1-y) x = (x, y) :=
    Prod.ext rfl (by simp only [turn270]; omega)
  rw [hback] at hsample
  exact hsample.trans (h.sample c x y hx hy)

variable {p o : VideoPicture}

theorem rotatePixels270_interleaved (hi : o.Interleaved) :
    rotatePixels270 p o = o.store
      ((lumaStores p o fun i j => (p.nWidth-1-i)*o.nLineStride+j) ++
        interleavedStores p o
          (fun i j => 2*(p.nWidth/2-1-i)*(o.nLineStride/2)+2*j)
          (fun i j => 2*(p.nWidth/2-1-i)*(o.nLineStride/2)+2*j+1)) := by
  unfold rotatePixels270
  split
  case h_1 h => simp [Interleaved,h] at hi
  case h_2 h | h_3 h => rfl
  case h_4 h1 h2 h3 => exact absurd hi (by simp only [Interleaved]; tauto)

theorem rotatePixels270_like (p o : VideoPicture) : (rotatePixels270 p o).Like o := by
  unfold rotatePixels270
  split <;> constructor <;> rfl

theorem rotatePicture270Degree_mem (hi : o.Interleaved) {a : ℕ}
    (hluma : ∀ x < p.nHeight, ∀ y < p.nWidth, a ≠ o.pData0+(y*align16 p.nHeight+x))
    (hchroma : ∀ x < p.nHeight/2, ∀ y < p.nWidth/2, ∀ k < 2,
      a ≠ o.pData1+(y*align16 p.nHeight+(2*x+k))) :
    (rotatePicture270Degree p o).mem a = o.mem a := by
  let q : VideoPicture := { o with
    nLineStride := align16 p.nHeight, nHeight := p.nWidth, nWidth := p.nHeight }
  have hiq : q.Interleaved := hi
  have hline (k : ℕ) : 2*k*(q.nLineStride/2) = k*q.nLineStride :=
    two_mul_half (align16_mod p.nHeight) k
  show (rotatePixels270 p q).mem a = q.mem a
  rw [rotatePixels270_interleaved hiq]
  apply stores_of_notMem
  intro v hv
  simp only [mem_append,lumaStores,interleavedStores,mem_loop,mem_cons,
    not_mem_nil,or_false,Prod.mk.injEq,hline,add_assoc] at hv
  rcases hv with ⟨j,hj,i,hi,ha,-⟩ | ⟨j,hj,i,hi,⟨ha,-⟩ | ⟨ha,-⟩⟩
  · exact hluma j hj (p.nWidth-1-i) (by omega) ha
  · exact hchroma j hj (p.nWidth/2-1-i) (by omega) 0 (by omega) ha
  · exact hchroma j hj (p.nWidth/2-1-i) (by omega) 1 (by omega) ha

theorem rotatePicture270Degree_misses (hp : p.Even) (hf : o.ePixelFormat = p.ePixelFormat)
    (hi : p.Interleaved) (hw : 0 < p.nWidth) (hh : 0 < p.nHeight)
    (h1 : o.pData1 ≠ o.pData0+align16 p.nHeight*align16 p.nWidth) :
    ∃ c x y, x < p.rows c ∧ y < p.cols c ∧ (rotatePicture270Degree p o).sample c x y =
      o.mem ((rotatePicture270Degree p o).addr c x y) := by
  have hwidth := hp.width
  have hheight := hp.height
  have hio : o.Interleaved := by rwa [VideoPicture.Interleaved,hf]
  let q : VideoPicture := { o with
    nLineStride := align16 p.nHeight, nHeight := p.nWidth, nWidth := p.nHeight }
  have heven : q.Even := swapped_even hp o hf
  have hiq : q.Interleaved := hio
  have haddr : (rotatePicture270Degree p o).addr = q.addr := (rotatePixels270_like p q).addr
  have hchroma1 : q.chroma1 = o.pData0+align16 p.nHeight*align16 p.nWidth := rfl
  have hbelow (x : ℕ) (hx : x < p.nHeight) (y : ℕ) (hy : y < p.nWidth) :
      o.pData0+(y*align16 p.nHeight+x) < q.chroma1 :=
    VideoPicture.luma_lt heven (x := x) (y := y) hx hy
  rcases Nat.lt_or_gt_of_ne h1 with hlt | hgt
  · -- the stores end before the last byte
    refine ⟨.second,p.nHeight/2-1,p.nWidth/2-1,by simp only [VideoPicture.rows]; omega,
      by simp only [VideoPicture.cols]; omega,?_⟩
    rw [VideoPicture.sample,haddr,VideoPicture.addr,if_pos hiq]
    apply rotatePicture270Degree_mem hio
    · intro x hx y hy
      have := hbelow x hx y hy
      omega
    · intro x hx y hy k hk
      have hmono : y*align16 p.nHeight ≤ (p.nWidth/2-1)*align16 p.nHeight :=
        Nat.mul_le_mul_right _ (by omega)
      show q.chroma1+((p.nWidth/2-1)*align16 p.nHeight+_) ≠ _
      omega
  · -- the stores begin behind the first byte
    refine ⟨.first,0,0,by simp only [VideoPicture.rows]; omega,
      by simp only [VideoPicture.cols]; omega,?_⟩
    rw [VideoPicture.sample,haddr,VideoPicture.addr,if_pos hiq]
    apply rotatePicture270Degree_mem hio
    · intro x hx y hy
      have := hbelow x hx y hy
      omega
    · intro x hx y hy k hk
      omega

/-- Two half turns are no turn and two quarter turns a half turn. A quarter turn and the one that
takes it back are no turn exactly when `pData1` of the result is where the chroma samples go. -/
theorem rotations_group (p o₁ o₂ o₃ : VideoPicture) (hp : p.Even)
    (h₁ : o₁.ePixelFormat = p.ePixelFormat) (h₂ : o₂.ePixelFormat = p.ePixelFormat)
    (h₃ : o₃.ePixelFormat = p.ePixelFormat) :
    SameVisible (rotatePicture180Degree (rotatePicture180Degree p o₁) o₂) p ∧
    SameVisible (rotatePicture90Degree (rotatePicture90Degree p o₁) o₂)
      (rotatePicture180Degree p o₃) ∧
    ((∀ m m' : ℕ → UInt8, SameVisible
        (rotatePicture270Degree (rotatePicture90Degree { p with mem := m } o₁)
          { o₂ with mem := m' }) { p with mem := m }) ↔
      p.nWidth = 0 ∨ p.nHeight = 0 ∨ p.ePixelFormat = .yv12 ∨
        o₂.pData1 = o₂.pData0+align16 p.nWidth*align16 p.nHeight) := by
  have h90 := rotatePicture90Degree_turned hp o₁ h₁
  have h180 := rotatePicture180Degree_turned hp o₁ h₁
  refine ⟨?_,?_,?_,?_⟩
  · have hback := rotatePicture180Degree_turned h180.even o₂ (h₂.trans h180.format.symm)
    exact half_turns h180 hback
  · have htwice := rotatePicture90Degree_turned h90.even o₂ (h₂.trans h90.format.symm)
    exact quarter_turns h90 htwice (rotatePicture180Degree_turned hp o₃ h₃)
  · intro hall
    by_contra hno
    push Not at hno
    obtain ⟨hw,hh,hf,hdata⟩ := hno
    -- samples of 1 everywhere, and a result that was 0
    let p' : VideoPicture := { p with mem := fun _ => 1 }
    have hp' : p'.Even := { hp with }
    have hq := rotatePicture90Degree_turned hp' o₁ h₁
    have hi : (rotatePicture90Degree p' o₁).Interleaved := by
      rw [VideoPicture.Interleaved,hq.format]
      exact hp.format.resolve_left hf
    obtain ⟨c,x,y,hx,hy,hmiss⟩ := rotatePicture270Degree_misses
      (o := { o₂ with mem := fun _ => 0 }) hq.even (h₂.trans hq.format.symm) hi
      (by rw [hq.width]; exact pos_of_ne_zero hh)
      (by rw [hq.height]; exact pos_of_ne_zero hw)
      (by rw [hq.width,hq.height]; exact hdata)
    rw [VideoPicture.rows_eq_cols hq.height] at hx
    rw [VideoPicture.cols_eq_rows hq.width] at hy
    have hsame := (hall (fun _ => 1) (fun _ => 0)).sample c x y hx hy
    have hzero : (0 : UInt8) = 1 := hmiss.symm.trans hsame
    exact absurd hzero (by decide)
  · intro hdata m m'
    have hp' : VideoPicture.Even { p with mem := m } :=
      { hp with }
    have hq := rotatePicture90Degree_turned hp' o₁ h₁
    rw [← or_assoc] at hdata
    rcases hdata with hempty | hdata
    · -- there are no samples
      refine ⟨(rotatePixels270_like _ _).width.trans hq.height,
        (rotatePixels270_like _ _).height.trans hq.width,?_⟩
      intro c x y hx hy
      cases c <;> simp only [VideoPicture.cols,VideoPicture.rows] at hx hy <;> omega
    · apply quarter_turn_back hq
      refine rotatePicture270Degree_turned hq.even { o₂ with mem := m' }
        (h₂.trans hq.format.symm) ?_
      rw [hq.format,hq.width,hq.height]
      exact hdata

def fourPixels (mem : ℕ → UInt8) (pData1 : ℕ) : VideoPicture where
  ePixelFormat := .nv21
  nWidth := 2
  nHeight := 2
  nLineStride := 16
  nTopOffset := 0
  nLeftOffset := 0
  nBottomOffset := 2
  nRightOffset := 2
  pData0 := 0
  pData1 := pData1
  pData2 := 0
  mem := mem

theorem fourPixels_even (mem : ℕ → UInt8) (pData1 : ℕ) : (fourPixels mem pData1).Even := by
  constructor <;> simp [fourPixels,Interleaved]

/-- The chroma samples overwrite luma samples. -/
theorem quarter_turn_not_taken_back :
    let p := fourPixels (fun a => if a < 256 then 1 else 2) 256
    p.Even ∧ ¬SameVisible (rotatePicture270Degree (rotatePicture90Degree p
      (fourPixels (fun _ => 0) 256)) (fourPixels (fun _ => 0) 0)) p := by
  refine ⟨fourPixels_even _ _,?_⟩
  intro h
  have hsample := h.sample .luma 0 0 (by decide) (by decide)
  exact absurd hsample (by decide +kernel)

theorem rotations_group_at_four_pixels :
    let p := fourPixels (fun a => UInt8.ofNat a) 256
    SameVisible (rotatePicture270Degree (rotatePicture90Degree p (fourPixels (fun _ => 0) 256))
      (fourPixels (fun _ => 0) 256)) p :=
  (rotations_group _ (fourPixels (fun _ => 0) 256) (fourPixels (fun _ => 0) 256)
    (fourPixels (fun _ => 0) 256) (fourPixels_even (fun a => UInt8.ofNat a) 256)
    rfl rfl rfl).2.2.mpr (by decide) _ _

end TinaPackage.PixelFormat
