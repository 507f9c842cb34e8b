import Mathlib

/-! Blocks of the C heap. Which address `malloc` returns is up to its caller's environment, as
long as the new block is apart from the live ones. -/
namespace TinaPackage

structure Block where
  addr : ℕ
  size : ℕ
  deriving DecidableEq

namespace Block

/-- The blocks share no byte. A block of size 0 has an address of its own. -/
def Apart (b c : Block) : Prop :=
  b.addr+max b.size 1 ≤ c.addr ∨ c.addr+max c.size 1 ≤ b.addr

instance (b c : Block) : Decidable (b.Apart c) := inferInstanceAs (Decidable (_ ∨ _))

instance : Std.Symm Apart where
  symm _ _ h := Or.symm h

theorem Apart.addr_ne {b c : Block} (h : b.Apart c) : b.addr ≠ c.addr := by
  unfold Apart at h
  omega

theorem Apart.mono {a c m n m' n' : ℕ} (h : Apart ⟨a,m⟩ ⟨c,n⟩) (hm : m' ≤ m) (hn : n' ≤ n) :
    Apart ⟨a,m'⟩ ⟨c,n'⟩ := by
  simp only [Apart] at h ⊢
  omega

/-- Blocks in the order of their addresses, from `lo` on and up to `hi`. -/
def Packed : ℕ → List Block → ℕ → Prop
  | lo, [], hi => lo ≤ hi
  | lo, b :: bs, hi => lo ≤ b.addr ∧ Packed (b.addr+b.size) bs hi

section Packed
variable {lo hi : ℕ} {bs cs : List Block}

theorem Packed.mono {lo' : ℕ} (h : Packed lo bs hi) (hlo : lo' ≤ lo) : Packed lo' bs hi := by
  cases bs with
  | nil => exact Nat.le_trans hlo h
  | cons b bs => exact ⟨Nat.le_trans hlo h.1,h.2⟩

theorem Packed.le (h : Packed lo bs hi) : lo ≤ hi := by
  induction bs generalizing lo with
  | nil => exact h
  | cons b bs ih =>
    have hrest := ih h.2
    have hfirst := h.1
    omega

theorem Packed.mem (h : Packed lo bs hi) {b : Block} (hb : b ∈ bs) :
    lo ≤ b.addr ∧ b.addr+b.size ≤ hi := by
  induction bs generalizing lo with
  | nil => cases hb
  | cons c cs ih =>
    rcases List.mem_cons.mp hb with rfl | hb
    · exact ⟨h.1,h.2.le⟩
    · have hrest := ih h.2 hb
      have hfirst := h.1
      omega

theorem packed_append : Packed lo (bs ++ cs) hi ↔ ∃ mid, Packed lo bs mid ∧ Packed mid cs hi := by
  induction bs generalizing lo with
  | nil => exact ⟨fun h => ⟨lo,Nat.le_refl lo,h⟩,fun ⟨mid,hlo,h⟩ => h.mono hlo⟩
  | cons b bs ih =>
    simp only [List.cons_append,Packed,ih]
    constructor
    · rintro ⟨hlo,mid,hbs,hcs⟩
      exact ⟨mid,⟨hlo,hbs⟩,hcs⟩
    · rintro ⟨mid,⟨hlo,hbs⟩,hcs⟩
      exact ⟨hlo,mid,hbs,hcs⟩

theorem Packed.sublist (h : Packed lo bs hi) (hs : cs.Sublist bs) : Packed lo cs hi := by
  induction hs generalizing lo with
  | slnil => exact h
  | cons b _ ih =>
    have hfirst := h.1
    exact (ih h.2).mono (by omega)
  | cons_cons b _ ih => exact ⟨h.1,ih h.2⟩

theorem Packed.pairwise (h : Packed lo bs hi) (hpos : ∀ b ∈ bs, 0 < b.size) :
    bs.Pairwise Apart := by
  induction bs generalizing lo with
  | nil => exact List.Pairwise.nil
  | cons b bs ih =>
    refine List.pairwise_cons.mpr ⟨?_,ih h.2 fun c hc => hpos c (List.mem_cons_of_mem _ hc)⟩
    intro c hc
    have hb := hpos b (List.mem_cons_self ..)
    have hc' := (h.2.mem hc).1
    rw [Apart]
    omega

end Packed

theorem Apart.inside {b c b' c' : Block} (h : b.Apart c) (hb : b.addr ≤ b'.addr)
    (hb' : b'.addr+b'.size ≤ b.addr+b.size) (hbpos : 0 < b'.size) (hc : c.addr ≤ c'.addr)
    (hc' : c'.addr+c'.size ≤ c.addr+c.size) (hcpos : 0 < c'.size) : b'.Apart c' := by
  rw [Apart] at h ⊢
  omega

end Block

/-- `malloc`, where `pick` is the address that it would return: `NULL` unless a block of this
size can be there. -/
def malloc (live : List Block) (pick size : ℕ) : Option ℕ :=
  if 0 < pick ∧ ∀ b ∈ live, Block.Apart ⟨pick,size⟩ b then some pick else none

/-- `free` of a pointer that may be `NULL`. It goes wrong if no live block begins there. -/
def free (live : List Block) : Option ℕ → Option (List Block)
  | none => some live
  | some a => if ∃ b ∈ live, b.addr = a then some (live.filter fun b => b.addr ≠ a) else none

/-- `memcpy` of `n` bytes from `src` to `dst`, which must not overlap. -/
def memcpy (mem : ℕ → UInt8) (dst src n : ℕ) : Option (ℕ → UInt8) :=
  if Block.Apart ⟨dst,n⟩ ⟨src,n⟩ then
    some fun x => if dst ≤ x ∧ x < dst+n then mem (src+(x-dst)) else mem x
  else none

section
variable {live : List Block}

theorem malloc_apart {pick size a : ℕ} (h : malloc live pick size = some a) :
    ∀ b ∈ live, Block.Apart ⟨a,size⟩ b := by
  unfold malloc at h
  split at h
  · next hfree =>
    cases h
    exact hfree.2
  · cases h

theorem apart_of_addr_ne (hlive : live.Pairwise Block.Apart) {b c : Block} (hb : b ∈ live)
    (hc : c ∈ live) (hne : b.addr ≠ c.addr) : b.Apart c :=
  hlive.forall hb hc fun h => hne (by rw [h])

theorem free_eq (live : List Block) (p : Option ℕ) (h : ∀ a, p = some a → ∃ b ∈ live, b.addr = a) :
    free live p = some (live.filter fun b => some b.addr ≠ p) := by
  cases p with
  | none =>
    rw [free,List.filter_eq_self.mpr]
    exact fun b _ => decide_eq_true nofun
  | some a => simp [free,if_pos (h a rfl)]

end

end TinaPackage
