/-
The words of the page tables.

The entry of a frame is the number of the frame above ten bits of attributes.  The
routines that set and clear attributes change the ten bits alone, and the walk reads
the frame back.  A user address without its offset is the three indices of a walk.
-/
import Mathlib.Data.Nat.Bitwise
import UcasKernel.Mm.Pgtable

namespace UcasKernel
namespace Mm

/-! ## Entries -/

/-- The entry that maps a frame with the attributes `bits`. -/
def entry (frame bits : ℕ) : ℕ := setAttribute (setPfn (kva2pa frame >>> 12)) bits

/-- The frame that an entry maps. -/
def frameOf (pte : ℕ) : ℕ := pa2kva (getPa pte)

/-- The entry has the attribute `_PAGE_PRESENT`. -/
def Present (pte : ℕ) : Prop := pte &&& PAGE_PRESENT ≠ 0

instance (pte : ℕ) : Decidable (Present pte) := inferInstanceAs (Decidable (_ ≠ _))

/-- An address that an entry can hold: aligned, and `NULL` or in the kernel's view of the
memory. -/
def IsFrame (f : ℕ) : Prop := f % PAGE_SIZE = 0 ∧ (f = 0 ∨ KERNEL_VM_OFFSET ≤ f ∧ f < 2 ^ 64)

variable {f bits bits' : ℕ}

lemma isFrame_zero : IsFrame 0 := ⟨rfl, Or.inl rfl⟩

/-- The number of a frame, which fits the entry. -/
lemma IsFrame.kva2pa_eq (hf : IsFrame f) :
    ∃ n, n < 2 ^ 27 ∧ kva2pa f = n * 4096 ∧ pa2kva (n * 4096) = f := by
  obtain ⟨halign, h⟩ := hf
  simp only [PAGE_SIZE] at halign
  refine ⟨kva2pa f / 4096, ?_, ?_, ?_⟩ <;> simp only [kva2pa, pa2kva, KERNEL_VM_OFFSET] at h ⊢ <;> omega

lemma setPfn_eq {n : ℕ} (hn : n < 2 ^ 27) : setPfn ((n * 4096) >>> 12) = n * 2 ^ 10 := by
  rw [setPfn, Nat.shiftRight_eq_div_pow, Nat.shiftLeft_eq]
  omega

lemma entry_eq (hf : IsFrame f) (hbits : bits < 2 ^ 10) :
    ∃ n, n < 2 ^ 27 ∧ kva2pa f = n * 4096 ∧ pa2kva (n * 4096) = f ∧
      entry f bits = n * 2 ^ 10 + bits := by
  obtain ⟨n, hn, hpa, hkva⟩ := hf.kva2pa_eq
  refine ⟨n, hn, hpa, hkva, ?_⟩
  rw [entry, setAttribute, hpa, setPfn_eq hn, ← Nat.shiftLeft_eq, Nat.shiftLeft_add_eq_or_of_lt hbits]

/-- The walk reads the frame of an entry back. -/
lemma frameOf_entry (hf : IsFrame f) (hbits : bits < 2 ^ 10) : frameOf (entry f bits) = f := by
  obtain ⟨n, hn, -, hkva, he⟩ := entry_eq hf hbits
  rw [frameOf, getPa, he, PTE_PPN_AND_ATTR_MASK, Nat.and_two_pow_sub_one_eq_mod,
    Nat.shiftRight_eq_div_pow, Nat.shiftLeft_eq]
  convert hkva using 2
  omega

/-- Only the first frame has the number zero. -/
lemma entry_ne_zero (hf : IsFrame f) (hbits : bits < 2 ^ 10) (hne : f ≠ KERNEL_VM_OFFSET) :
    entry f bits ≠ 0 := by
  obtain ⟨n, hn, hpa, -, he⟩ := entry_eq hf hbits
  have hlt := hf.2
  simp only [kva2pa, KERNEL_VM_OFFSET] at hpa hne hlt
  omega

lemma present_entry (hf : IsFrame f) (hbits : bits < 2 ^ 10) :
    Present (entry f bits) ↔ bits % 2 = 1 := by
  obtain ⟨n, -, -, -, he⟩ := entry_eq hf hbits
  rw [Present, PAGE_PRESENT, Nat.and_one_is_mod, he]
  omega

lemma Present.ne_zero {pte : ℕ} (h : Present pte) : pte ≠ 0 := by
  rintro rfl
  simp [Present] at h

/-! ## Attributes -/

/-- Clearing bits below the `k`-th leaves what is above it. -/
lemma and_mask {n w k x : ℕ} (hx : x < 2 ^ k) (hn : n * 2 ^ k < 2 ^ w) :
    n * 2 ^ k &&& (2 ^ w - 1 - x) = n * 2 ^ k := by
  refine Nat.eq_of_testBit_eq fun i => ?_
  rw [Nat.testBit_and]
  rcases lt_or_ge i k with hi | hi
  · rw [Nat.testBit_mul_two_pow, decide_eq_false (by omega), Bool.false_and, Bool.false_and]
  · rcases lt_or_ge i w with hi' | hi'
    · have hxw : x < 2 ^ w := hx.trans_le (Nat.pow_le_pow_right (by decide) (hi.trans hi'.le))
      have hxi : x.testBit i = false :=
        Nat.testBit_lt_two_pow (hx.trans_le (Nat.pow_le_pow_right (by decide) hi))
      rw [Nat.sub_sub, Nat.add_comm 1, Nat.testBit_two_pow_sub_succ hxw, hxi, decide_eq_true hi',
        Bool.not_false, Bool.and_true, Bool.and_true]
    · rw [Nat.testBit_lt_two_pow (hn.trans_le (Nat.pow_le_pow_right (by decide) hi')),
        Bool.false_and]

lemma setAttribute_entry : setAttribute (entry f bits) bits' = entry f (bits ||| bits') := by
  rw [entry, entry, setAttribute, setAttribute, setAttribute, Nat.or_assoc]

lemma unsetAttribute_entry (hf : IsFrame f) (hbits' : bits' < 2 ^ 10) :
    unsetAttribute (entry f bits) bits' = entry f (bits &&& (2 ^ 64 - 1 - bits')) := by
  obtain ⟨n, hn, hpa, -⟩ := hf.kva2pa_eq
  rw [entry, entry, setAttribute, setAttribute, unsetAttribute, hpa, setPfn_eq hn,
    Nat.and_or_distrib_right, and_mask (k := 10) hbits' (by omega)]

/-- Setting attributes leaves an entry of the frame. -/
lemma exists_setAttribute (hbits' : bits' < 2 ^ 10) (hbits : bits < 2 ^ 10) :
    ∃ b < 2 ^ 10, setAttribute (entry f bits) bits' = entry f b :=
  ⟨_, Nat.or_lt_two_pow hbits hbits', setAttribute_entry⟩

lemma exists_unsetAttribute (hbits' : bits' < 2 ^ 10) (hf : IsFrame f) (hbits : bits < 2 ^ 10) :
    ∃ b < 2 ^ 10, unsetAttribute (entry f bits) bits' = entry f b :=
  ⟨_, Nat.and_le_left.trans_lt hbits, unsetAttribute_entry hf hbits'⟩

lemma or_mod_two_eq_one (h : bits % 2 = 1) : (bits ||| bits') % 2 = 1 := by
  rw [Nat.or_mod_two_eq_one]
  exact Or.inl h

lemma or_mod_two (h : bits' % 2 = 0) : (bits ||| bits') % 2 = bits % 2 := by
  rw [← Nat.and_one_is_mod, Nat.and_or_distrib_right, Nat.and_one_is_mod, Nat.and_one_is_mod, h,
    Nat.or_zero]

lemma and_mod_two (h : bits' % 2 = 1) : (bits &&& bits') % 2 = bits % 2 := by
  rw [← Nat.and_one_is_mod, Nat.and_assoc, Nat.and_one_is_mod, h, Nat.and_one_is_mod]

lemma and_mod_two_eq_zero (h : bits' % 2 = 0) : (bits &&& bits') % 2 = 0 := by
  rw [← Nat.and_one_is_mod, Nat.and_assoc, Nat.and_one_is_mod, h, Nat.and_zero]

/-- Attributes other than `_PAGE_PRESENT` leave it as it is. -/
lemma exists_setAttribute_even (hbits' : bits' < 2 ^ 10) (heven : bits' % 2 = 0)
    (hbits : bits < 2 ^ 10) :
    ∃ b < 2 ^ 10, b % 2 = bits % 2 ∧ setAttribute (entry f bits) bits' = entry f b :=
  ⟨_, Nat.or_lt_two_pow hbits hbits', or_mod_two heven, setAttribute_entry⟩

lemma exists_unsetAttribute_even (hbits' : bits' < 2 ^ 10) (heven : bits' % 2 = 0) (hf : IsFrame f)
    (hbits : bits < 2 ^ 10) :
    ∃ b < 2 ^ 10, b % 2 = bits % 2 ∧ unsetAttribute (entry f bits) bits' = entry f b := by
  refine ⟨_, Nat.and_le_left.trans_lt hbits, and_mod_two ?_, unsetAttribute_entry hf hbits'⟩
  omega

/-! ## Addresses -/

/-- The indices of a walk, from the page directory down. -/
abbrev Vpns := Fin 512 × Fin 512 × Fin 512

def vpns (uva : ℕ) : Vpns := (vpn2 uva, vpn1 uva, vpn0 uva)

@[simp] lemma vpns_fst (uva : ℕ) : (vpns uva).1 = vpn2 uva := rfl
@[simp] lemma vpns_snd_fst (uva : ℕ) : (vpns uva).2.1 = vpn1 uva := rfl
@[simp] lemma vpns_snd_snd (uva : ℕ) : (vpns uva).2.2 = vpn0 uva := rfl

/-- The address that `free_pagetable` computes from the indices. -/
def uvaOf (p : Vpns) : ℕ := getUvaFromVpns p.1 p.2.1 p.2.2

/-- The entry of the page directory is the process's own: neither the kernel's nor that of the
devices. -/
def Own (vpn2 : Fin 512) : Prop := vpn2 ≠ KERNEL_VA_VPN2 ∧ vpn2 ≠ IO_REMAP_VA_VPN2

instance (vpn2 : Fin 512) : Decidable (Own vpn2) := inferInstanceAs (Decidable (_ ∧ _))

variable {uva : ℕ} {p : Vpns}

lemma uvaOf_eq : uvaOf p = ((p.1 * 512 + p.2.1) * 512 + p.2.2) * 4096 := by
  obtain ⟨a, b, c⟩ := p
  have hor : (a.val <<< 18 ||| b.val <<< 9 ||| c.val) = (a * 512 + b) * 512 + c := by
    have hab : (a.val <<< 18 ||| b.val <<< 9) = (a.val * 512 + b.val) <<< 9 := by
      have ha : a.val <<< 18 = (a.val <<< 9) <<< 9 := by rw [← Nat.shiftLeft_add]
      rw [ha, ← Nat.shiftLeft_or_distrib, ← Nat.shiftLeft_add_eq_or_of_lt b.isLt,
        Nat.shiftLeft_eq a.val 9]
    rw [hab, ← Nat.shiftLeft_add_eq_or_of_lt (show c.val < 2 ^ 9 from c.isLt), Nat.shiftLeft_eq]
  rw [uvaOf, getUvaFromVpns, hor, Nat.shiftLeft_eq]

lemma vpns_val (uva : ℕ) : (vpn2 uva).val = uva % 2 ^ 39 / 2 ^ 30 ∧
    (vpn1 uva).val = uva % 2 ^ 39 / 2 ^ 21 % 512 ∧ (vpn0 uva).val = uva % 2 ^ 39 / 2 ^ 12 % 512 := by
  have hmod : uva &&& VA_MASK = uva % 2 ^ 39 := Nat.and_two_pow_sub_one_eq_mod uva 39
  have hval : ∀ n, (Fin.ofNat 512 n).val = n % 512 := fun _ => rfl
  simp only [vpn2, vpn1, vpn0, hmod, Nat.shiftRight_eq_div_pow, hval, and_true]
  omega

/-- An aligned address below `2 ^ 39` is the address of its indices. -/
lemma uvaOf_vpns_iff : uvaOf (vpns uva) = uva ↔ uva % PAGE_SIZE = 0 ∧ uva < 2 ^ 39 := by
  obtain ⟨h2, h1, h0⟩ := vpns_val uva
  simp only [uvaOf_eq, vpns, h2, h1, h0, PAGE_SIZE]
  omega

/-- The addresses of a page of the user half are those with its indices. -/
lemma vpns_eq_iff {v : ℕ} (hu : uva < 2 ^ 38) (hv : v < 2 ^ 38) :
    vpns v = vpns uva ↔ v / PAGE_SIZE = uva / PAGE_SIZE := by
  obtain ⟨h2, h1, h0⟩ := vpns_val uva
  obtain ⟨h2', h1', h0'⟩ := vpns_val v
  simp only [vpns, Prod.mk.injEq, Fin.ext_iff, h2, h1, h0, h2', h1', h0', PAGE_SIZE]
  omega

lemma vpns_uvaOf : vpns (uvaOf p) = p := by
  obtain ⟨h2, h1, h0⟩ := vpns_val (uvaOf p)
  obtain ⟨a, b, c⟩ := p
  simp only [uvaOf_eq] at h2 h1 h0
  have ha := a.isLt
  have hb := b.isLt
  have hc := c.isLt
  refine Prod.ext (Fin.ext ?_) (Prod.ext (Fin.ext ?_) (Fin.ext ?_)) <;>
    simp only [vpns, uvaOf_eq, h2, h1, h0] <;> omega

/-- The lower half of the user addresses needs neither of the two shared entries. -/
lemma own_vpn2 (h : uva < 2 ^ 38) : Own (vpn2 uva) := by
  obtain ⟨h2, -, -⟩ := vpns_val uva
  have hk : (KERNEL_VA_VPN2 : ℕ) = 257 := rfl
  have hio : (IO_REMAP_VA_VPN2 : ℕ) = 384 := rfl
  constructor <;> rw [ne_eq, Fin.ext_iff] <;> omega

end Mm
end UcasKernel
