/-
Which bits the allocators set and clear.

`1 << k` is a shift of a 32-bit `int`, and the result is sign-extended: for a bit
below 31 it is that bit, for bit 31 it is the upper half of the word with it, and
from 32 on it is the bit 32 places below, or for bit 63 the upper half again.  So
an allocation marks what it returns when the bit lies below 31, when it is the
last of its word, or when the bits above it are set already.  Freeing takes one
from the bit number after the division by the word size, so the last bit of a word
is looked for in the next word.
-/
import UcasKernel.Fs.Bitmap
import UcasKernel.Fs.Ownership

namespace UcasKernel
namespace Fs

/-- The first sector of the block map. -/
def bmapStart (fs : Fs) : ℕ := fs.superblock.start + fs.superblock.bmapOffset

/-- The sector of the inode map. -/
def imapStart (fs : Fs) : ℕ := fs.superblock.start + fs.superblock.imapOffset

/-- The sectors of the two maps have 32-bit numbers. -/
structure MapsFit (fs : Fs) : Prop where
  bmap : fs.bmapStart + nsectorsBmap ≤ 2 ^ 32
  imap : fs.imapStart + nsectorsImap ≤ 2 ^ 32

/-- Bit `i` is the smallest clear one of a map of `n` sectors. -/
structure FirstClearBit (fs : Fs) (sector n i : ℕ) : Prop where
  lt : i < nbitsPerSector * n
  clear : fs.mapBit sector i = false
  set : ∀ j < i, fs.mapBit sector j = true

/-- The map of `n` sectors differs in bit `i` and in no other. -/
def DiffersAt (fs : Fs) (sector n i : ℕ) (fs' : Fs) : Prop :=
  ∀ j < nbitsPerSector * n, fs'.mapBit sector j ≠ fs.mapBit sector j ↔ j = i

/-- The map of `n` sectors has bit `i` clear and the others as before, and so has
the rest of the card. -/
structure ClearsBit (fs : Fs) (sector n i : ℕ) (fs' : Fs) : Prop where
  bit : ∀ j < nbitsPerSector * n, fs'.mapBit sector j = (fs.mapBit sector j && decide (j ≠ i))
  rest : ∀ x, x < nbytesPerSector * sector ∨ nbytesPerSector * (sector + n) ≤ x →
    fs'.disk x = fs.disk x

/-- The shift sets the clear bit `i` alone. -/
def ShiftSets (fs : Fs) (sector i : ℕ) : Prop :=
  i % 64 < 31 ∨ i % 64 = 63 ∨
    i % 64 = 31 ∧ ∀ j, i < j → j ≤ i + 32 → fs.mapBit sector j = true

/-- The shift clears bit `i` alone. -/
def ShiftClears (fs : Fs) (sector i : ℕ) : Prop :=
  i % 64 < 31 ∨
  (i % 64 = 31 ∧ ∀ j, i < j → j ≤ i + 32 → fs.mapBit sector j = false) ∨
  (32 ≤ i % 64 ∧ i % 64 ≤ 62 ∧ fs.mapBit sector i = false ∧ fs.mapBit sector (i - 32) = false) ∨
  (i % 64 = 63 ∧ fs.mapBit sector i = false ∧
    ∀ j, i + 32 ≤ j → j ≤ i + 64 → fs.mapBit sector j = false)

section Bits

variable {fs fs' : Fs} {sector n w k i : ℕ}

lemma mapBit_word (fs : Fs) (sector j : ℕ) :
    fs.mapBit sector j = (fs.mapWord sector (j / 64)).testBit (j % 64) := rfl

lemma mapBit_of_full {j : ℕ} (hfull : fs.mapWord sector (j / 64) = 0xffffffffffffffff) :
    fs.mapBit sector j = true := by
  rw [mapBit_word, hfull, testBit_full]
  exact decide_eq_true (by omega)

/-! ## Allocation -/

/-- The bits of a map after an allocation. -/
lemma Taken.mapBit (ht : fs.Taken sector n w k fs') {j : ℕ} (hj : j < nbitsPerSector * n) :
    fs'.mapBit sector j =
      (fs.mapBit sector j || (decide (j / 64 = w) && (shl1 (k : ℤ)).testBit (j % 64))) := by
  have hlt : j / 64 < 64 * n := by
    simp only [nbitsPerSector] at hj
    omega
  rw [mapBit_word, ht.word _ hlt, mapBit_word]
  split
  · rename_i heq
    rw [Nat.testBit_or, heq, decide_eq_true rfl, Bool.true_and]
  · rename_i hne
    rw [decide_eq_false hne, Bool.false_and, Bool.or_false]

/-- What is taken is the smallest clear bit. -/
lemma Taken.eq_of_first (ht : fs.Taken sector n w k fs') (hi : fs.FirstClearBit sector n i) :
    i = 64 * w + k := by
  have hk := ht.bit_lt
  have hclear : fs.mapBit sector (64 * w + k) = false := by
    rw [mapBit_word, show (64 * w + k) / 64 = w by omega, show (64 * w + k) % 64 = k by omega]
    exact ht.zero
  rcases Nat.lt_trichotomy i (64 * w + k) with hlt | heq | hgt
  · -- a bit below the one taken is set
    have hset : fs.mapBit sector i = true := by
      rcases Nat.lt_or_ge (i / 64) w with hw | hw
      · exact mapBit_of_full (ht.full _ hw)
      · have hw' : i / 64 = w := by omega
        rw [mapBit_word, hw']
        exact ht.ones _ (by omega)
    rw [hi.clear] at hset
    cases hset
  · exact heq
  · have := hi.set _ hgt
    rw [hclear] at this
    cases this

/-- An allocation changes the bit it takes and no other exactly if the shift does
so. -/
lemma Taken.differsAt_iff (ht : fs.Taken sector n w k fs') (hi : fs.FirstClearBit sector n i) :
    fs.DiffersAt sector n i fs' ↔ fs.ShiftSets sector i := by
  have heq := ht.eq_of_first hi
  have hk := ht.bit_lt
  have hw := ht.word_lt
  have hdiff : ∀ j < nbitsPerSector * n, fs'.mapBit sector j ≠ fs.mapBit sector j ↔
      fs.mapBit sector j = false ∧ j / 64 = w ∧ (shl1 (k : ℤ)).testBit (j % 64) = true := by
    intro j hj
    rw [ht.mapBit hj]
    cases fs.mapBit sector j <;> simp
  have hbit : ∀ j, (shl1 (k : ℤ)).testBit (j % 64) = true ↔
      if k % 32 = 31 then 31 ≤ j % 64 else j % 64 = k % 32 := by
    intro j
    rw [testBit_shl1_mod (r := k % 32) (by omega)]
    split
    · rw [decide_eq_true_eq]
      omega
    · rw [decide_eq_true_eq]
  have hclear := hi.clear
  have hlt := hi.lt
  simp only [nbitsPerSector] at hlt
  constructor
  · intro hall
    have hself := ((hdiff i hi.lt).1 ((hall i hi.lt).2 rfl)).2.2
    rw [hbit] at hself
    by_cases h31 : k = 31
    · refine .inr (.inr ⟨by omega, fun j hij hji => ?_⟩)
      -- a clear bit above bit 31 would be set with it
      by_contra hne
      have hj : j < nbitsPerSector * n := by
        simp only [nbitsPerSector]
        omega
      have hmark := (hall j hj).1 ((hdiff j hj).2 ⟨Bool.eq_false_iff.2 hne, by omega, by
        rw [hbit, if_pos (by omega)]
        omega⟩)
      omega
    · by_cases h63 : k = 63
      · exact .inr (.inl (by omega))
      · rw [if_neg (by omega)] at hself
        exact .inl (by omega)
  · intro hcond j hj
    rw [hdiff j hj, hbit]
    constructor
    · rintro ⟨hzero, hjw, hset⟩
      rcases Nat.lt_trichotomy j i with hji | hji | hji
      · rw [hi.set j hji] at hzero
        cases hzero
      · exact hji
      · rcases hcond with hlow | hlast | ⟨h31, hones⟩
        · rw [if_neg (by omega)] at hset
          omega
        · omega
        · rw [hones j hji (by omega)] at hzero
          cases hzero
    · rintro rfl
      refine ⟨hclear, by omega, ?_⟩
      rcases hcond with hlow | hlast | ⟨h31, -⟩
      · rw [if_neg (by omega)]
        omega
      · rw [if_pos (by omega)]
        omega
      · rw [if_pos (by omega)]
        omega

/-- A map with a clear bit is not full. -/
lemma FirstClearBit.not_full (hi : fs.FirstClearBit sector n i)
    (hfull : ∀ w < 64 * n, fs.mapWord sector w = 0xffffffffffffffff) : False := by
  have hlt := hi.lt
  simp only [nbitsPerSector] at hlt
  have := mapBit_of_full (hfull (i / 64) (by omega))
  rw [hi.clear] at this
  cases this

lemma allocBlock_of_first (hfit : fs.MapsFit) (hi : fs.FirstClearBit fs.bmapStart nsectorsBmap i) :
    fs.allocBlock.1 = i + 1 ∧
      (fs.DiffersAt fs.bmapStart nsectorsBmap i fs.allocBlock.2 ↔ fs.ShiftSets fs.bmapStart i) := by
  rcases allocBlock_taken rfl hfit.bmap with ⟨hfull, -⟩ | ⟨w, k, fs', halloc, ht⟩
  · exact (hi.not_full hfull).elim
  · rw [halloc, ht.eq_of_first hi]
    exact ⟨rfl, ht.eq_of_first hi ▸ ht.differsAt_iff hi⟩

lemma allocInode_of_first (hfit : fs.MapsFit) (hi : fs.FirstClearBit fs.imapStart nsectorsImap i) :
    fs.allocInode.1 = i + 1 ∧
      (fs.DiffersAt fs.imapStart nsectorsImap i fs.allocInode.2 ↔ fs.ShiftSets fs.imapStart i) := by
  rcases allocInode_taken rfl hfit.imap with ⟨hfull, -⟩ | ⟨w, k, fs', halloc, ht⟩
  · exact (hi.not_full hfull).elim
  · rw [halloc, ht.eq_of_first hi]
    exact ⟨by push_cast; rfl, ht.eq_of_first hi ▸ ht.differsAt_iff hi⟩

/-- Allocation marks exactly what it returns, unless the smallest clear bit is one
of the bits 32 to 62 of its word, or bit 31 with a clear bit above it. -/
theorem alloc_marks_iff (fs : Fs) (hfit : fs.MapsFit) :
    (∀ i, fs.FirstClearBit fs.bmapStart nsectorsBmap i →
      (fs.allocBlock.1 = i + 1 ∧ fs.DiffersAt fs.bmapStart nsectorsBmap i fs.allocBlock.2 ↔
        fs.ShiftSets fs.bmapStart i)) ∧
    (∀ i, fs.FirstClearBit fs.imapStart nsectorsImap i →
      (fs.allocInode.1 = i + 1 ∧ fs.DiffersAt fs.imapStart nsectorsImap i fs.allocInode.2 ↔
        fs.ShiftSets fs.imapStart i)) := by
  constructor
  · intro i hi
    obtain ⟨hnum, hmap⟩ := allocBlock_of_first hfit hi
    rw [and_iff_right hnum, hmap]
  · intro i hi
    obtain ⟨hnum, hmap⟩ := allocInode_of_first hfit hi
    rw [and_iff_right hnum, hmap]

/-- A card that is empty but for one word of its block map. -/
def cardWithWord (w v : ℕ) : Fs :=
  { emptyCard with
    disk := Bytes.set64 Bytes.zero (nbytesPerSector * bmapSector + 8 * w) v
    superblock := mkfsSuperblock }

lemma mapsFit_cardWithWord (w v : ℕ) : (cardWithWord w v).MapsFit :=
  ⟨show bmapSector + nsectorsBmap ≤ 2 ^ 32 by decide, show imapSector + nsectorsImap ≤ 2 ^ 32 by decide⟩

lemma mapBit_cardWithWord {w v j : ℕ} (hv : v < 2 ^ 64) :
    (cardWithWord w v).mapBit bmapSector j = (decide (j / 64 = w) && v.testBit (j % 64)) := by
  have hv' : v < 256 ^ 8 := hv.trans_le (by norm_num)
  rw [mapBit_word, mapWord, cardWithWord]
  by_cases heq : j / 64 = w
  · rw [heq, decide_eq_true rfl, Bool.true_and, Bytes.get64, Bytes.getLE_setLE,
      Nat.mod_eq_of_lt hv']
  · rw [decide_eq_false heq, Bool.false_and, Bytes.get64, Bytes.getLE_setLE_of_disjoint (by omega),
      Bytes.getLE_zero, Nat.zero_testBit]

/-- The smallest clear bit of a card whose first word has `k` trailing ones. -/
lemma firstClearBit_cardWithWord {v k : ℕ} (hv : v < 2 ^ 64) (hk : k < 64)
    (hset : ∀ i < k, v.testBit i = true) (hclear : v.testBit k = false) :
    (cardWithWord 0 v).FirstClearBit (cardWithWord 0 v).bmapStart nsectorsBmap k := by
  refine ⟨?_, ?_, fun j hj => ?_⟩
  · simp only [nbitsPerSector, nsectorsBmap]
    omega
  · rw [show (cardWithWord 0 v).bmapStart = bmapSector from rfl, mapBit_cardWithWord hv,
      Nat.mod_eq_of_lt hk, hclear, Bool.and_false]
  · rw [show (cardWithWord 0 v).bmapStart = bmapSector from rfl, mapBit_cardWithWord hv,
      Nat.mod_eq_of_lt (hj.trans hk), hset j hj, Bool.and_true]
    exact decide_eq_true (by omega)

/-- On an empty card the first block is marked, and nothing else. -/
theorem alloc_marks_empty :
    (cardWithWord 0 0).allocBlock.1 = 1 ∧
      (cardWithWord 0 0).DiffersAt bmapSector nsectorsBmap 0 (cardWithWord 0 0).allocBlock.2 :=
  ((alloc_marks_iff (cardWithWord 0 0) (mapsFit_cardWithWord 0 0)).1 0
    (firstClearBit_cardWithWord (by decide) (by decide) (by simp) (by decide))).2 (.inl (by decide))

/-- With 31 blocks in use, the allocation of block 32 marks the upper half of the
word too. -/
theorem allocBlock_marks_half :
    (cardWithWord 0 0x7fffffff).FirstClearBit bmapSector nsectorsBmap 31 ∧
      (cardWithWord 0 0x7fffffff).allocBlock.1 = 32 ∧
      ¬ (cardWithWord 0 0x7fffffff).DiffersAt bmapSector nsectorsBmap 31
        (cardWithWord 0 0x7fffffff).allocBlock.2 := by
  have hfirst : (cardWithWord 0 0x7fffffff).FirstClearBit
      (cardWithWord 0 0x7fffffff).bmapStart nsectorsBmap 31 :=
    firstClearBit_cardWithWord (by decide) (by decide) (by decide) (by decide)
  obtain ⟨hnum, hmap⟩ := allocBlock_of_first (mapsFit_cardWithWord ..) hfirst
  refine ⟨hfirst, hnum, fun hdiff => ?_⟩
  rcases hmap.1 hdiff with hlow | hlast | ⟨-, hones⟩
  · omega
  · omega
  · have := hones 32 (by decide) (by decide)
    rw [show (cardWithWord 0 0x7fffffff).bmapStart = bmapSector from rfl,
      mapBit_cardWithWord (by decide)] at this
    exact absurd this (by decide)

/-! ## Freeing -/

/-- The bits of a map after a free. -/
lemma Freed.mapBit {k : ℤ} (hf : fs.Freed sector n w k fs') {j : ℕ} (hj : j < nbitsPerSector * n) :
    fs'.mapBit sector j =
      (fs.mapBit sector j && !(decide (j / 64 = w) && (shl1 k).testBit (j % 64))) := by
  have hlt : j / 64 < 64 * n := by
    simp only [nbitsPerSector] at hj
    omega
  rw [mapBit_word, hf.word _ hlt, mapBit_word]
  split
  · rename_i heq
    have hbit : j % 64 < 64 := Nat.mod_lt _ (by decide)
    rw [Nat.testBit_and, testBit_not64 (shl1_lt _), heq, decide_eq_true rfl, decide_eq_true hbit,
      Bool.true_and, Bool.true_and]
  · rename_i hne
    rw [decide_eq_false hne, Bool.false_and, Bool.not_false, Bool.and_true]

/-- Freeing number `i + 1` clears bit `j`. -/
def FreeHits (i j : ℕ) : Prop :=
  j / 64 = (i + 1) / 64 ∧ if i % 32 = 31 then 31 ≤ j % 64 else j % 64 = i % 32

instance (i j : ℕ) : Decidable (FreeHits i j) := by
  unfold FreeHits
  infer_instance

lemma freeHits_iff (i j : ℕ) : FreeHits i j ↔
    i % 64 < 31 ∧ j = i ∨ i % 64 = 31 ∧ i ≤ j ∧ j ≤ i + 32 ∨
    (32 ≤ i % 64 ∧ i % 64 ≤ 62) ∧ j = i - 32 ∨ i % 64 = 63 ∧ i + 32 ≤ j ∧ j ≤ i + 64 := by
  unfold FreeHits
  split <;> omega

lemma Freed.mapBit_hits (hf : fs.Freed sector n ((i + 1) / 64) (((i + 1) % 64 : ℕ) - 1) fs') {j : ℕ}
    (hj : j < nbitsPerSector * n) :
    fs'.mapBit sector j = (fs.mapBit sector j && !decide (FreeHits i j)) := by
  rw [hf.mapBit hj, testBit_shl1_mod (r := i % 32) (by omega)]
  unfold FreeHits
  split
  · congr 2
    rw [← Bool.decide_and, decide_eq_decide]
    omega
  · rw [Bool.decide_and]

/-- A free clears the bit of its number and no other exactly if every set bit that
it clears is that bit, and that bit is cleared if it is set. -/
lemma Freed.clearsBit_iff_hits (hf : fs.Freed sector n ((i + 1) / 64) (((i + 1) % 64 : ℕ) - 1) fs') :
    fs.ClearsBit sector n i fs' ↔
      ∀ j < nbitsPerSector * n, fs.mapBit sector j = true → (FreeHits i j ↔ j = i) := by
  constructor
  · intro hclears j hj hset
    have hbit := hclears.bit j hj
    rw [hf.mapBit_hits hj, hset, Bool.true_and, Bool.true_and, ← decide_not, decide_eq_decide] at hbit
    exact not_iff_not.1 hbit
  · intro hhits
    refine ⟨fun j hj => ?_, hf.writes.outside⟩
    rw [hf.mapBit_hits hj]
    cases hset : fs.mapBit sector j with
    | false => rfl
    | true =>
      rw [Bool.true_and, Bool.true_and, ← decide_not, decide_eq_decide]
      exact not_congr (hhits j hj hset)

/-- A free clears the bit of its number and no other exactly if the shift does so. -/
lemma Freed.clearsBit_iff (hi : i + 1 < nbitsPerSector * n)
    (hf : fs.Freed sector n ((i + 1) / 64) (((i + 1) % 64 : ℕ) - 1) fs') :
    fs.ClearsBit sector n i fs' ↔ fs.ShiftClears sector i := by
  have hw := hf.word_lt
  rw [hf.clearsBit_iff_hits]
  simp only [nbitsPerSector] at hi ⊢
  constructor
  · intro hhits
    have hclear : ∀ j < 4096 * n, j ≠ i → FreeHits i j → fs.mapBit sector j = false := by
      intro j hj hne hin
      by_contra hset
      exact hne ((hhits j hj (by simpa using hset)).1 hin)
    have hself : ¬ FreeHits i i → fs.mapBit sector i = false := by
      intro hout
      by_contra hset
      exact hout ((hhits i (by omega) (by simpa using hset)).2 rfl)
    simp only [freeHits_iff] at hclear hself
    rcases Nat.lt_or_ge (i % 64) 31 with hlow | hhigh
    · exact .inl hlow
    · by_cases h31 : i % 64 = 31
      · refine .inr (.inl ⟨h31, fun j hij hji => hclear j (by omega) (by omega) (by omega)⟩)
      · by_cases h63 : i % 64 = 63
        · refine .inr (.inr (.inr ⟨h63, hself (by omega), fun j hij hji => ?_⟩))
          exact hclear j (by omega) (by omega) (by omega)
        · refine .inr (.inr (.inl ⟨by omega, by omega, hself (by omega), ?_⟩))
          exact hclear (i - 32) (by omega) (by omega) (by omega)
  · intro hcond j hj hset
    -- a bit that is set is none of those that the condition has clear
    have hne : ∀ x, fs.mapBit sector x = false → j ≠ x := by
      rintro x hx rfl
      rw [hset] at hx
      cases hx
    rw [freeHits_iff]
    rcases hcond with hlow | ⟨h31, hzero⟩ | ⟨h32, h62, hi0, hi32⟩ | ⟨h63, hi0, hzero⟩
    · omega
    · have : ¬ (i < j ∧ j ≤ i + 32) := fun hin => hne j (hzero j hin.1 hin.2) rfl
      omega
    · have h1 := hne _ hi0
      have h2 := hne _ hi32
      omega
    · have h1 := hne _ hi0
      have : ¬ (i + 32 ≤ j ∧ j ≤ i + 64) := fun hin => hne j (hzero j hin.1 hin.2) rfl
      omega

lemma freeBlock_clears_iff {b : ℕ} (hfit : fs.MapsFit) (hb : 1 ≤ b ∧ b ≤ 131071) :
    (∃ fs', fs.freeBlock b = some fs' ∧ fs.ClearsBit fs.bmapStart nsectorsBmap (b - 1) fs') ↔
      fs.ShiftClears fs.bmapStart (b - 1) := by
  obtain ⟨i, rfl⟩ : ∃ i, b = i + 1 := ⟨b - 1, by omega⟩
  obtain ⟨fs', hfree, hf⟩ := freeBlock_freed (Eq.refl fs.bmapStart) hfit.bmap hb
  rw [Nat.add_sub_cancel, ← hf.clearsBit_iff (by simp only [nbitsPerSector, nsectorsBmap]; omega)]
  simp only [hfree, Option.some.injEq, exists_eq_left']

/-- `free_inode` of the last inode leaves the sector buffer. -/
lemma freeInode_last (fs : Fs) : fs.freeInode (4096 : ℕ) = none := by
  rw [Fs.freeInode, show ((4096 : ℕ) : ℤ).tdiv 64 = 64 from rfl, clearBit, if_neg (by omega)]
  rfl

lemma freeInode_clears_iff {m : ℕ} (hfit : fs.MapsFit) (hm : 1 ≤ m ∧ m ≤ 4096) :
    (∃ fs', fs.freeInode m = some fs' ∧ fs.ClearsBit fs.imapStart nsectorsImap (m - 1) fs') ↔
      m ≠ 4096 ∧ fs.ShiftClears fs.imapStart (m - 1) := by
  by_cases hlast : m = 4096
  · subst hlast
    simp only [freeInode_last, reduceCtorEq, false_and, exists_false, ne_eq, not_true_eq_false]
  · obtain ⟨i, rfl⟩ : ∃ i, m = i + 1 := ⟨m - 1, by omega⟩
    obtain ⟨fs', hfree, hf⟩ := freeInode_freed (m := i + 1) (Eq.refl fs.imapStart) hfit.imap
      (by omega)
    change fs.Freed fs.imapStart nsectorsImap _ _ _ at hf
    rw [Nat.add_sub_cancel, ← hf.clearsBit_iff (by simp only [nbitsPerSector, nsectorsImap]; omega)]
    simp only [hfree, Option.some.injEq, exists_eq_left', ne_eq, hlast, not_false_eq_true, true_and]

end Bits

/-- Freeing undoes an allocation if the bit is one of the low 31 of its word;
otherwise only where the bits that the shift hits, and the bit that it misses, are
clear already. -/
theorem free_clears_iff (fs : Fs) (hfit : fs.MapsFit) :
    (∀ b : ℕ, 1 ≤ b → b ≤ 131071 →
      ((∃ fs', fs.freeBlock b = some fs' ∧ fs.ClearsBit fs.bmapStart nsectorsBmap (b - 1) fs') ↔
        fs.ShiftClears fs.bmapStart (b - 1))) ∧
    (∀ m : ℕ, 1 ≤ m → m ≤ 4096 →
      ((∃ fs', fs.freeInode m = some fs' ∧ fs.ClearsBit fs.imapStart nsectorsImap (m - 1) fs') ↔
        m ≠ 4096 ∧ fs.ShiftClears fs.imapStart (m - 1))) :=
  ⟨fun _ h1 h2 => freeBlock_clears_iff hfit ⟨h1, h2⟩,
    fun _ h1 h2 => freeInode_clears_iff hfit ⟨h1, h2⟩⟩

/-- On a card with block 1 in use, freeing block 1 clears its bit alone. -/
theorem free_clears_first :
    ∃ fs', (cardWithWord 0 1).freeBlock (1 : ℕ) = some fs' ∧
      (cardWithWord 0 1).ClearsBit bmapSector nsectorsBmap 0 fs' :=
  ((free_clears_iff (cardWithWord 0 1) (mapsFit_cardWithWord 0 1)).1 1 (by decide) (by decide)).2
    (.inl (by decide))

/-- With the first word full, freeing block 32 frees the upper half of the word. -/
theorem freeBlock_clears_half :
    (cardWithWord 0 (2 ^ 64 - 1)).mapBit bmapSector 32 = true ∧
      ¬ ∃ fs', (cardWithWord 0 (2 ^ 64 - 1)).freeBlock (32 : ℕ) = some fs' ∧
        (cardWithWord 0 (2 ^ 64 - 1)).ClearsBit bmapSector nsectorsBmap (32 - 1) fs' := by
  have hset : (cardWithWord 0 (2 ^ 64 - 1)).mapBit bmapSector 32 = true := by
    rw [mapBit_cardWithWord (by decide)]
    decide
  refine ⟨hset, fun hclears => ?_⟩
  rcases (freeBlock_clears_iff (mapsFit_cardWithWord 0 (2 ^ 64 - 1)) (by decide)).1 hclears with
    hlow | ⟨-, hzero⟩ | ⟨h32, -⟩ | ⟨h63, -⟩
  · omega
  · have hclear : (cardWithWord 0 (2 ^ 64 - 1)).mapBit bmapSector 32 = false :=
      hzero 32 (by decide) (by decide)
    rw [hset] at hclear
    cases hclear
  · omega
  · omega

end Fs
end UcasKernel
