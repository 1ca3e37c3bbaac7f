/-
The bit maps.

The allocators set a bit with a 32-bit shift, so bit 31 of a word is set and
cleared together with the bits 32 to 63.  A word in which those bits agree stays
such a word, and only its first 32 bits stand for inodes or blocks: `BitMap` says
which of them are set.  Bit `64 * w + k` stands for inode or block `64 * w + k + 1`.
-/
import UcasKernel.Fs.Card
import Mathlib.Data.Nat.Bitwise

namespace UcasKernel
namespace Fs

/-! ## Words -/

/-- Bits 31 to 63 of the word are all set or all clear. -/
structure Regular (v : ℕ) : Prop where
  lt : v < 2 ^ 64
  top : ∀ i, 31 ≤ i → i < 64 → v.testBit i = v.testBit 31

lemma trailingOnes_spec (n v : ℕ) : trailingOnes n v ≤ n ∧
    (∀ i < trailingOnes n v, v.testBit i = true) ∧
    (trailingOnes n v < n → v.testBit (trailingOnes n v) = false) := by
  induction n generalizing v with
  | zero => simp [trailingOnes]
  | succ n ih =>
    rw [trailingOnes]
    split
    · rename_i hodd
      obtain ⟨hle, hones, hzero⟩ := ih (v / 2)
      refine ⟨by omega, fun i hi => ?_, fun hlt => ?_⟩
      · cases i with
        | zero => simpa [Nat.testBit_zero] using hodd
        | succ i =>
          rw [Nat.testBit_succ]
          exact hones i (by omega)
      · rw [Nat.testBit_succ]
        exact hzero (by omega)
    · rename_i heven
      refine ⟨by omega, by simp, fun _ => ?_⟩
      simpa [Nat.testBit_zero] using heven

lemma testBit_full (i : ℕ) : (0xffffffffffffffff : ℕ).testBit i = decide (i < 64) := by
  rw [show (0xffffffffffffffff : ℕ) = 2 ^ 64 - 1 by norm_num, Nat.testBit_two_pow_sub_one]

lemma Regular.full_iff {v : ℕ} (hv : Regular v) :
    v = 0xffffffffffffffff ↔ ∀ k < 32, v.testBit k = true := by
  constructor
  · rintro rfl k hk
    rw [testBit_full]
    simp only [decide_eq_true_eq]
    omega
  · intro hall
    refine Nat.eq_of_testBit_eq fun i => ?_
    rw [testBit_full]
    by_cases hi : i < 64
    · rw [decide_eq_true hi]
      by_cases h32 : i < 32
      · exact hall i h32
      · rw [hv.top i (by omega) hi]
        exact hall 31 (by omega)
    · rw [decide_eq_false hi]
      exact Nat.testBit_lt_two_pow (hv.lt.trans_le (Nat.pow_le_pow_right (by decide) (by omega)))

/-- The first clear bit of a regular word that is not full. -/
lemma Regular.trailingOnes_lt {v : ℕ} (hv : Regular v) (hopen : v ≠ 0xffffffffffffffff) :
    trailingOnes 64 v < 32 := by
  by_contra hlt
  obtain ⟨-, hones, -⟩ := trailingOnes_spec 64 v
  exact hopen (hv.full_iff.2 fun k hk => hones k (by omega))

lemma shl1_lt (k : ℤ) : shl1 k < 2 ^ 64 := by
  have hmod : (k % 32).toNat < 32 := by omega
  simp only [shl1]
  split
  · norm_num
  · exact Nat.pow_lt_pow_right (by decide) (by omega)

/-- The bits that the shift sets: one of the low 31, or all from bit 31 on. -/
lemma testBit_shl1_mod {k : ℤ} {r : ℕ} (hr : (k % 32).toNat = r) (i : ℕ) :
    (shl1 k).testBit i = if r = 31 then decide (31 ≤ i ∧ i < 64) else decide (i = r) := by
  unfold shl1
  rw [hr]
  by_cases h31 : r = 31
  · subst h31
    rw [if_pos rfl, if_pos rfl, show 2 ^ 64 - 2 ^ 31 = (2 ^ 33 - 1) * 2 ^ 31 by norm_num,
      Nat.testBit_mul_two_pow, Nat.testBit_two_pow_sub_one]
    by_cases hi : 31 ≤ i
    · simp only [hi, decide_true, Bool.true_and, true_and]
      congr 1
      simp only [eq_iff_iff]
      omega
    · simp [hi]
  · have hne : 2 ^ r ≠ 2 ^ 31 := fun heq => h31 (Nat.pow_right_injective (le_refl 2) heq)
    rw [if_neg hne, if_neg h31, Nat.testBit_two_pow]
    congr 1
    simp only [eq_iff_iff]
    exact eq_comm

lemma testBit_shl1 {k : ℕ} (hk : k < 32) (i : ℕ) :
    (shl1 (k : ℤ)).testBit i = if k = 31 then decide (31 ≤ i ∧ i < 64) else decide (i = k) :=
  testBit_shl1_mod (by omega) i

/-- Setting a bit. -/
lemma Regular.set {v k : ℕ} (hv : Regular v) (hk : k < 32) :
    Regular (v ||| shl1 (k : ℤ)) ∧
      ∀ i < 32, (v ||| shl1 (k : ℤ)).testBit i = (v.testBit i || decide (i = k)) := by
  refine ⟨⟨Nat.or_lt_two_pow hv.lt (shl1_lt _), fun i hi hi' => ?_⟩, fun i hi => ?_⟩
  · rw [Nat.testBit_or, Nat.testBit_or, hv.top i hi hi', testBit_shl1 hk, testBit_shl1 hk]
    split
    · simp [hi, hi']
    · rename_i h31
      have h1 : i ≠ k := by omega
      have h2 : 31 ≠ k := by omega
      simp [h1, h2]
  · rw [Nat.testBit_or, testBit_shl1 hk]
    split
    · rename_i h31
      congr 1
      simp only [decide_eq_decide]
      omega
    · rfl

lemma testBit_not64 {v : ℕ} (hv : v < 2 ^ 64) (i : ℕ) :
    (not64 v).testBit i = (decide (i < 64) && !v.testBit i) := by
  unfold not64
  rw [Nat.mod_eq_of_lt hv, Nat.sub_sub, Nat.add_comm 1 v]
  exact Nat.testBit_two_pow_sub_succ hv i

/-- Clearing a bit. -/
lemma Regular.clear {v k : ℕ} (hv : Regular v) (hk : k < 32) :
    Regular (v &&& not64 (shl1 (k : ℤ))) ∧
      ∀ i < 32, (v &&& not64 (shl1 (k : ℤ))).testBit i = (v.testBit i && !decide (i = k)) := by
  refine ⟨⟨Nat.and_lt_two_pow _ ?_, fun i hi hi' => ?_⟩, fun i hi => ?_⟩
  · unfold not64
    omega
  · rw [Nat.testBit_and, Nat.testBit_and, hv.top i hi hi', testBit_not64 (shl1_lt _),
      testBit_not64 (shl1_lt _), testBit_shl1 hk, testBit_shl1 hk]
    split
    · simp [hi, hi']
    · rename_i h31
      have h1 : i ≠ k := by omega
      have h2 : 31 ≠ k := by omega
      simp [h1, h2, hi']
  · rw [Nat.testBit_and, testBit_not64 (shl1_lt _), testBit_shl1 hk]
    have hi64 : i < 64 := by omega
    split
    · rename_i h31
      subst h31
      by_cases heq : i = 31
      · simp [heq]
      · have : ¬ 31 ≤ i := by omega
        simp [heq, this, hi64]
    · simp [hi64]

/-! ## Maps -/

/-- Word `w` of the map that starts at a sector. -/
def mapWord (fs : Fs) (sector w : ℕ) : ℕ :=
  Bytes.get64 fs.disk (nbytesPerSector * sector + 8 * w)

/-- The map of `n` sectors has the bits `S`. -/
structure BitMap (fs : Fs) (sector n : ℕ) (S : ℕ → Prop) : Prop where
  regular : ∀ w < 64 * n, Regular (fs.mapWord sector w)
  bit : ∀ w < 64 * n, ∀ k < 32, (fs.mapWord sector w).testBit k = true ↔ S (64 * w + k)

/-- A word of the map is not full. -/
def MapOpen (fs : Fs) (sector n : ℕ) : Prop :=
  ∃ w < 64 * n, fs.mapWord sector w ≠ 0xffffffffffffffff

section Maps

variable {fs fs' : Fs} {sector n : ℕ} {S : ℕ → Prop}

lemma BitMap.congr {lo hi : ℕ} (hmap : fs.BitMap sector n S) (hw : fs.Writes lo hi fs')
    (hc : nbytesPerSector * (sector + n) ≤ lo ∨ hi ≤ nbytesPerSector * sector) :
    fs'.BitMap sector n S := by
  have hword : ∀ w < 64 * n, fs'.mapWord sector w = fs.mapWord sector w := fun w hw' =>
    hw.getLE (by simp only [nbytesPerSector] at hc ⊢; omega)
  exact ⟨fun w hw' => by rw [hword w hw']; exact hmap.regular w hw',
    fun w hw' => by rw [hword w hw']; exact hmap.bit w hw'⟩

lemma BitMap.of_iff {T : ℕ → Prop} (hmap : fs.BitMap sector n S)
    (hiff : ∀ w < 64 * n, ∀ k < 32, S (64 * w + k) ↔ T (64 * w + k)) : fs.BitMap sector n T :=
  ⟨hmap.regular, fun w hw k hk => (hmap.bit w hw k hk).trans (hiff w hw k hk)⟩

lemma BitMap.open_iff (hmap : fs.BitMap sector n S) :
    fs.MapOpen sector n ↔ ∃ w < 64 * n, ∃ k < 32, ¬ S (64 * w + k) := by
  constructor
  · rintro ⟨w, hw, hne⟩
    by_contra hall
    push Not at hall
    exact hne ((hmap.regular w hw).full_iff.2 fun k hk => (hmap.bit w hw k hk).2 (hall w hw k hk))
  · rintro ⟨w, hw, k, hk, hS⟩
    exact ⟨w, hw, fun hfull => hS ((hmap.bit w hw k hk).1 ((hmap.regular w hw).full_iff.1 hfull k hk))⟩

/-- A read of a sector returns its words. -/
lemma get64_sdread {s w : ℕ} (hs : s < 2 ^ 32) (hw : w < 64) :
    Bytes.get64 (fs.sdread 1 s) (8 * w) = fs.mapWord s w := by
  rw [Bytes.get64, getLE_sdread _ (by simp only [nbytesPerSector]; omega), Nat.mod_eq_of_lt hs]
  rfl

lemma mapWord_sdwrite {s w : ℕ} {buf : Bytes} (hs : s < 2 ^ 32) (hw : w < 64) :
    (fs.sdwrite buf 1 s).mapWord s w = Bytes.get64 buf (8 * w) :=
  getLE_written fs hs (by simp only [nbytesPerSector]; omega)

lemma mapWord_add (i w : ℕ) : fs.mapWord (sector + i) w = fs.mapWord sector (64 * i + w) := by
  unfold mapWord
  congr 1
  simp only [nbytesPerSector]
  omega

/-- The words of a map after one of its sectors was written. -/
lemma mapWord_write {i w v : ℕ} {buf : Bytes} (hs : sector + n ≤ 2 ^ 32) (hi : i < n) (hw : w < 64)
    (hbuf : ∀ w' < 64, Bytes.get64 buf (8 * w') =
      if w' = w then v else fs.mapWord sector (64 * i + w')) :
    (∀ w' < 64 * n, (fs.sdwrite buf 1 (sector + i)).mapWord sector w' =
      if w' = 64 * i + w then v else fs.mapWord sector w') ∧
      fs.Writes (nbytesPerSector * sector) (nbytesPerSector * (sector + n))
        (fs.sdwrite buf 1 (sector + i)) := by
  have hlt : sector + i < 2 ^ 32 := by omega
  refine ⟨fun w' hw' => ?_, (writes_sdwrite fs buf hlt).mono ?_ ?_⟩
  · by_cases hin : w' / 64 = i
    · have hsplit : w' = 64 * i + w' % 64 := by omega
      rw [hsplit, ← mapWord_add, mapWord_sdwrite hlt (by omega), hbuf _ (by omega)]
      by_cases heq : w' % 64 = w
      · rw [if_pos heq, if_pos (by omega)]
      · rw [if_neg heq, if_neg (by omega)]
    · rw [if_neg (by omega)]
      exact (writes_sdwrite fs buf hlt).getLE (by simp only [nbytesPerSector]; omega)
  · simp only [nbytesPerSector]
    omega
  · simp only [nbytesPerSector]
    omega

/-- A map after one of its words was replaced. -/
lemma BitMap.replace {T : ℕ → Prop} {w v : ℕ} (hmap : fs.BitMap sector n S) (hv : Regular v)
    (hword : ∀ w' < 64 * n, fs'.mapWord sector w' = if w' = w then v else fs.mapWord sector w')
    (hT : ∀ w' < 64 * n, ∀ k < 32, (T (64 * w' + k) ↔
      if w' = w then v.testBit k = true else S (64 * w' + k))) : fs'.BitMap sector n T := by
  refine ⟨fun w' hw' => ?_, fun w' hw' k hk => ?_⟩
  · rw [hword w' hw']
    split
    · exact hv
    · exact hmap.regular w' hw'
  · rw [hword w' hw', hT w' hw' k hk]
    split
    · rfl
    · exact hmap.bit w' hw' k hk

end Maps

/-! ## The allocators -/

/-- The bit is the first clear one. -/
def FirstClear (S : ℕ → Prop) (w k : ℕ) : Prop :=
  k < 32 ∧ ¬ S (64 * w + k) ∧ ∀ w' k', k' < 32 → 64 * w' + k' < 64 * w + k → S (64 * w' + k')

lemma scanWords_full {buf : Bytes} {bnum j n : ℕ}
    (hfull : ∀ i < n, Bytes.get64 buf (8 * (j + i)) = 0xffffffffffffffff) :
    scanWords buf bnum j n = (buf, bnum + 64 * n, false) := by
  induction n generalizing bnum j with
  | zero => rfl
  | succ n ih =>
    have h0 : Bytes.get64 buf (8 * j) = 0xffffffffffffffff := by simpa using hfull 0 (by omega)
    rw [scanWords, if_pos h0, ih fun i hi => by
      rw [show j + 1 + i = j + (i + 1) by omega]
      exact hfull (i + 1) (by omega)]
    simp only [Prod.mk.injEq, and_true, true_and]
    omega

/-- Writing back what was read changes nothing. -/
lemma sdwrite_sdread (fs : Fs) {n s : ℕ} : fs.sdwrite (fs.sdread n s) n s = fs := by
  have hdisk : Bytes.blit fs.disk (nbytesPerSector * (s % 2 ^ 32)) (fs.sdread n s) 0
      (nbytesPerSector * n) = fs.disk := by
    funext x
    by_cases hx : nbytesPerSector * (s % 2 ^ 32) ≤ x ∧
        x < nbytesPerSector * (s % 2 ^ 32) + nbytesPerSector * n
    · rw [Bytes.blit_apply_of_mem hx, Fs.sdread, Bytes.blit_apply_of_mem (by omega)]
      congr 1
      omega
    · rw [Bytes.blit_apply_of_notMem (by omega)]
  rw [Fs.sdwrite, hdisk]

/-- `fs'` is `fs` after an allocation from a map of `n` sectors: bit `k` of word
`w` was the first clear one, and the word got the bits of the shift by `k`. -/
structure Taken (fs : Fs) (sector n w k : ℕ) (fs' : Fs) : Prop where
  word_lt : w < 64 * n
  bit_lt : k < 64
  full : ∀ w' < w, fs.mapWord sector w' = 0xffffffffffffffff
  ones : ∀ i < k, (fs.mapWord sector w).testBit i = true
  zero : (fs.mapWord sector w).testBit k = false
  word : ∀ w' < 64 * n, fs'.mapWord sector w' =
    if w' = w then fs.mapWord sector w ||| shl1 (k : ℤ) else fs.mapWord sector w'
  writes : fs.Writes (nbytesPerSector * sector) (nbytesPerSector * (sector + n)) fs'

section Alloc

variable {fs fs' : Fs} {sector n : ℕ} {S : ℕ → Prop}

lemma mapWord_lt (fs : Fs) (sector w : ℕ) : fs.mapWord sector w < 2 ^ 64 :=
  (Bytes.getLE_lt _ 8 _).trans_le (by norm_num)

/-- A word that is not full has a clear bit. -/
lemma trailingOnes_lt {v : ℕ} (hv : v < 2 ^ 64) (hopen : v ≠ 0xffffffffffffffff) :
    trailingOnes 64 v < 64 := by
  by_contra hlt
  obtain ⟨-, hones, -⟩ := trailingOnes_spec 64 v
  refine hopen (Nat.eq_of_testBit_eq fun i => ?_)
  rw [testBit_full]
  by_cases hi : i < 64
  · rw [decide_eq_true hi]
    exact hones i (by omega)
  · rw [decide_eq_false hi]
    exact Nat.testBit_lt_two_pow (hv.trans_le (Nat.pow_le_pow_right (by decide) (by omega)))

/-- The scan of one sector of a map: it is full, or the first word that is not
gets a bit. -/
lemma scanWords_sector (fs : Fs) {i : ℕ} (hlt : sector + i < 2 ^ 32) :
    (∀ w < 64, fs.mapWord sector (64 * i + w) = 0xffffffffffffffff) ∧
      scanWords (fs.sdread 1 (sector + i)) (4096 * i) 0 64 =
        (fs.sdread 1 (sector + i), 4096 * (i + 1), false) ∨
    ∃ w k buf, w < 64 ∧ k < 64 ∧
      (∀ w' < w, fs.mapWord sector (64 * i + w') = 0xffffffffffffffff) ∧
      (∀ k' < k, (fs.mapWord sector (64 * i + w)).testBit k' = true) ∧
      (fs.mapWord sector (64 * i + w)).testBit k = false ∧
      scanWords (fs.sdread 1 (sector + i)) (4096 * i) 0 64 =
        (buf, 64 * (64 * i + w) + k, true) ∧
      ∀ w' < 64, Bytes.get64 buf (8 * w') =
        if w' = w then fs.mapWord sector (64 * i + w) ||| shl1 (k : ℤ)
        else fs.mapWord sector (64 * i + w') := by
  have hword : ∀ w < 64, Bytes.get64 (fs.sdread 1 (sector + i)) (8 * w) =
      fs.mapWord sector (64 * i + w) := by
    intro w hw
    rw [get64_sdread hlt hw, mapWord_add]
  have hread : ∀ w < 64, Bytes.get64 (fs.sdread 1 (sector + i)) (8 * (0 + w)) =
      fs.mapWord sector (64 * i + w) := by
    simpa only [Nat.zero_add] using hword
  by_cases hfull : ∀ w < 64, fs.mapWord sector (64 * i + w) = 0xffffffffffffffff
  · refine .inl ⟨hfull, ?_⟩
    rw [scanWords_full fun w hw => (hread w hw).trans (hfull w hw)]
    simp only [Prod.mk.injEq, and_true, true_and]
    omega
  · -- the first word that is not full, and its first clear bit
    have hex : ∃ w, w < 64 ∧ fs.mapWord sector (64 * i + w) ≠ 0xffffffffffffffff := by
      push Not at hfull
      exact hfull
    classical
    obtain ⟨hw, hopen⟩ := Nat.find_spec hex
    have hmin : ∀ w' < Nat.find hex, fs.mapWord sector (64 * i + w') = 0xffffffffffffffff := by
      intro w' hw'
      by_contra hne
      exact Nat.find_min hex hw' ⟨hw'.trans hw, hne⟩
    generalize Nat.find hex = w at hw hopen hmin
    obtain ⟨-, hones, hzero⟩ := trailingOnes_spec 64 (fs.mapWord sector (64 * i + w))
    have hk := trailingOnes_lt (mapWord_lt fs sector (64 * i + w)) hopen
    generalize htk : trailingOnes 64 (fs.mapWord sector (64 * i + w)) = k at hk hones hzero
    have hscan := @scanWords_of_full (fs.sdread 1 (sector + i)) (4096 * i) 0 w 64 hw
      (fun w' hw' => (hread w' (hw'.trans hw)).trans (hmin w' hw')) (by rw [hread w hw]; exact hopen)
    simp only [Nat.zero_add, hword w hw, htk] at hscan
    rw [show (4096 * i + 64 * w + k) % 64 = k by omega,
      show 4096 * i + 64 * w + k = 64 * (64 * i + w) + k by omega] at hscan
    refine .inr ⟨w, k, _, hw, hk, hmin, hones, hzero hk, hscan, fun w' hw' => ?_⟩
    by_cases heq : w' = w
    · subst heq
      rw [if_pos rfl, Bytes.get64, Bytes.getLE_setLE]
      exact Nat.mod_eq_of_lt (Nat.or_lt_two_pow (mapWord_lt ..) (shl1_lt _))
    · rw [if_neg heq, Bytes.get64, Bytes.getLE_setLE_of_disjoint (by omega)]
      exact hword w' hw'

/-- The loop of `alloc_block` from sector `i` on: the map is full and stays as it
was, or its first clear bit is taken. -/
lemma allocBlockLoop_taken (fs : Fs) {i m : ℕ} (hs : sector + n ≤ 2 ^ 32) (hm : i + m = n)
    (hbefore : ∀ w < 64 * i, fs.mapWord sector w = 0xffffffffffffffff) :
    (∀ w < 64 * n, fs.mapWord sector w = 0xffffffffffffffff) ∧
      fs.allocBlockLoop sector (4096 * i) i m = (4096 * n, fs) ∨
    ∃ w k fs', fs.allocBlockLoop sector (4096 * i) i m = (64 * w + k, fs') ∧
      fs.Taken sector n w k fs' := by
  induction m generalizing i with
  | zero =>
    obtain rfl : i = n := by omega
    exact .inl ⟨hbefore, rfl⟩
  | succ m ih =>
    rcases scanWords_sector fs (show sector + i < 2 ^ 32 by omega) with ⟨hfull, hscan⟩ |
      ⟨w, k, buf, hw, hk, hmin, hones, hzero, hscan, hbuf⟩
    · -- a full sector is written back as it was
      rw [Fs.allocBlockLoop, hscan]
      simp only [sdwrite_sdread, Bool.false_eq_true, if_false]
      refine ih (by omega) fun w hw => ?_
      by_cases hlt : w < 64 * i
      · exact hbefore w hlt
      · have := hfull (w - 64 * i) (by omega)
        rwa [show 64 * i + (w - 64 * i) = w by omega] at this
    · obtain ⟨hword, hwrites⟩ := mapWord_write hs (show i < n by omega) hw hbuf
      rw [Fs.allocBlockLoop, hscan]
      refine .inr ⟨64 * i + w, k, _, rfl, by omega, hk, fun w' hw' => ?_, hones, hzero, hword,
        hwrites⟩
      by_cases hlt : w' < 64 * i
      · exact hbefore w' hlt
      · have := hmin (w' - 64 * i) (by omega)
        rwa [show 64 * i + (w' - 64 * i) = w' by omega] at this

/-- `alloc_block`, whatever the map holds. -/
lemma allocBlock_taken (h : fs.superblock.start + fs.superblock.bmapOffset = sector)
    (hs : sector + nsectorsBmap ≤ 2 ^ 32) :
    (∀ w < 64 * nsectorsBmap, fs.mapWord sector w = 0xffffffffffffffff) ∧
      fs.allocBlock = (4096 * nsectorsBmap + 1, fs) ∨
    ∃ w k fs', fs.allocBlock = (64 * w + k + 1, fs') ∧ fs.Taken sector nsectorsBmap w k fs' := by
  rcases allocBlockLoop_taken fs (i := 0) hs (Nat.zero_add _) (by omega) with
    ⟨hfull, hloop⟩ | ⟨w, k, fs', hloop, htaken⟩
  · refine .inl ⟨hfull, ?_⟩
    rw [Nat.mul_zero] at hloop
    simp only [Fs.allocBlock, h, hloop]
  · refine .inr ⟨w, k, fs', ?_, htaken⟩
    rw [Nat.mul_zero] at hloop
    simp only [Fs.allocBlock, h, hloop]

/-- `alloc_inode` is the loop over a single sector. -/
lemma allocInode_taken (h : fs.superblock.start + fs.superblock.imapOffset = sector)
    (hs : sector + 1 ≤ 2 ^ 32) :
    (∀ w < 64 * 1, fs.mapWord sector w = 0xffffffffffffffff) ∧ fs.allocInode = (4097, fs) ∨
    ∃ w k fs', fs.allocInode = (((64 * w + k + 1 : ℕ) : ℤ), fs') ∧ fs.Taken sector 1 w k fs' := by
  have heq : fs.allocInode = (((fs.allocBlockLoop sector 0 0 1).1 : ℤ) + 1,
      (fs.allocBlockLoop sector 0 0 1).2) := by
    rcases hscan : scanWords (fs.sdread 1 sector) 0 0 64 with ⟨buf, bnum, finished⟩
    simp only [Fs.allocInode, h, Fs.allocBlockLoop, Nat.add_zero, hscan, ite_self]
  rcases allocBlockLoop_taken fs (i := 0) hs (Nat.zero_add _) (by omega) with
    ⟨hfull, hloop⟩ | ⟨w, k, fs', hloop, htaken⟩
  · rw [Nat.mul_zero] at hloop
    refine .inl ⟨hfull, ?_⟩
    simp only [heq, hloop, Nat.mul_one, Nat.cast_ofNat, Int.reduceAdd]
  · rw [Nat.mul_zero] at hloop
    refine .inr ⟨w, k, fs', ?_, htaken⟩
    rw [heq, hloop, Nat.cast_succ]

/-- An allocation from a map of regular words takes the first number that is not
in use. -/
lemma Taken.bitMap {w k : ℕ} (ht : fs.Taken sector n w k fs') (hmap : fs.BitMap sector n S) :
    FirstClear S w k ∧ fs'.BitMap sector n (fun x => S x ∨ x = 64 * w + k) := by
  have hreg := hmap.regular w ht.word_lt
  -- the bits from 32 on repeat bit 31
  have hk : k < 32 := by
    by_contra hge
    have htop := hreg.top k (by omega) ht.bit_lt
    rw [ht.zero, ht.ones 31 (by omega)] at htop
    cases htop
  obtain ⟨hreg', hbits⟩ := hreg.set hk
  refine ⟨⟨hk, fun hS => ?_, fun w' k' hk' hlt => ?_⟩, hmap.replace hreg' ht.word
    fun w' hw' k' hk' => ?_⟩
  · have := (hmap.bit w ht.word_lt k hk).2 hS
    rw [ht.zero] at this
    cases this
  · rcases Nat.lt_or_ge w' w with hw' | hw'
    · have hw64 := hw'.trans ht.word_lt
      exact (hmap.bit w' hw64 k' hk').1 ((hmap.regular w' hw64).full_iff.1 (ht.full w' hw') k' hk')
    · obtain rfl : w' = w := by omega
      exact (hmap.bit w' ht.word_lt k' hk').1 (ht.ones k' (by omega))
  · by_cases heq : w' = w
    · subst heq
      rw [if_pos rfl, hbits k' hk', Bool.or_eq_true, hmap.bit _ hw' k' hk', decide_eq_true_eq]
      refine or_congr_right ?_
      omega
    · rw [if_neg heq]
      refine ⟨fun hx => hx.resolve_right (by omega), .inl⟩

end Alloc

/-! ## Freeing -/

/-- `fs'` is `fs` after word `w` of a map of `n` sectors lost the bits of the shift
by `k`. -/
structure Freed (fs : Fs) (sector n w : ℕ) (k : ℤ) (fs' : Fs) : Prop where
  word_lt : w < 64 * n
  word : ∀ w' < 64 * n, fs'.mapWord sector w' =
    if w' = w then fs.mapWord sector w &&& not64 (shl1 k) else fs.mapWord sector w'
  writes : fs.Writes (nbytesPerSector * sector) (nbytesPerSector * (sector + n)) fs'

section Free

variable {fs fs' : Fs} {sector n : ℕ} {S : ℕ → Prop}

/-- One bit of a sector is cleared. -/
lemma clearBit_freed (fs : Fs) {i w : ℕ} (k : ℤ) (hs : sector + n ≤ 2 ^ 32) (hi : i < n) (hw : w < 64) :
    ∃ buf, clearBit (fs.sdread 1 (sector + i)) w k = some buf ∧
      fs.Freed sector n (64 * i + w) k (fs.sdwrite buf 1 (sector + i)) := by
  have hword : ∀ w < 64, Bytes.get64 (fs.sdread 1 (sector + i)) (8 * w) =
      fs.mapWord sector (64 * i + w) := by
    intro w hw
    rw [get64_sdread (by omega) hw, mapWord_add]
  refine ⟨Bytes.set64 (fs.sdread 1 (sector + i)) (8 * w)
    (fs.mapWord sector (64 * i + w) &&& not64 (shl1 k)), ?_, ?_⟩
  · rw [clearBit, if_pos (by omega)]
    simp only [Int.toNat_natCast, hword w hw]
  · have hbuf : ∀ w' < 64, Bytes.get64 (Bytes.set64 (fs.sdread 1 (sector + i)) (8 * w)
        (fs.mapWord sector (64 * i + w) &&& not64 (shl1 k))) (8 * w') =
        if w' = w then fs.mapWord sector (64 * i + w) &&& not64 (shl1 k)
        else fs.mapWord sector (64 * i + w') := by
      intro w' hw'
      by_cases heq : w' = w
      · subst heq
        rw [if_pos rfl, Bytes.get64, Bytes.getLE_setLE]
        exact Nat.mod_eq_of_lt (lt_of_le_of_lt Nat.and_le_left (mapWord_lt ..))
      · rw [if_neg heq, Bytes.get64, Bytes.getLE_setLE_of_disjoint (by omega)]
        exact hword w' hw'
    obtain ⟨hwords, hwrites⟩ := mapWord_write hs hi hw hbuf
    exact ⟨by omega, hwords, hwrites⟩

/-- `free_block` clears a bit of the word that holds bit `b`, not bit `b - 1`.  It knows no
end of the map. -/
lemma freeBlock_freed_of_lt {b : ℕ} (h : fs.superblock.start + fs.superblock.bmapOffset = sector)
    (hs : sector + n ≤ 2 ^ 32) (hb : 1 ≤ b ∧ b < nbitsPerSector * n) :
    ∃ fs', fs.freeBlock b = some fs' ∧
      fs.Freed sector n (b / 64) (((b % 64 : ℕ) : ℤ) - 1) fs' := by
  have hb' : b < 4096 * n := hb.2
  obtain ⟨buf, hbuf, hfreed⟩ := clearBit_freed fs (i := b / 4096) (w := b % 4096 / 64)
    (((b % 64 : ℕ) : ℤ) - 1) hs (show b / 4096 < n by omega) (by omega)
  rw [show 64 * (b / 4096) + b % 4096 / 64 = b / 64 by omega] at hfreed
  refine ⟨_, ?_, hfreed⟩
  have hsec : (b : ℤ).tdiv (nbitsPerSector : ℕ) = (b / 4096 : ℕ) := rfl
  have hoff : (b : ℤ).tmod (nbitsPerSector : ℕ) = (b % 4096 : ℕ) := rfl
  have hdiv : ((b % 4096 : ℕ) : ℤ).tdiv 64 = (b % 4096 / 64 : ℕ) := rfl
  have hmod : ((b % 4096 : ℕ) : ℤ).tmod 64 = (b % 64 : ℕ) := by
    rw [show ((b % 4096 : ℕ) : ℤ).tmod 64 = ((b % 4096 % 64 : ℕ) : ℤ) from rfl]
    congr 1
    omega
  have hsector : (((sector : ℕ) + ((b / 4096 : ℕ) : ℤ)) % 2 ^ 32).toNat = sector + b / 4096 := by
    omega
  rw [Fs.freeBlock, if_neg (by omega)]
  simp only [hsec, hoff, hdiv, hmod, ← Nat.cast_add, h]
  simp only [Nat.cast_add, hsector, hbuf]
  rfl

lemma freeBlock_freed {b : ℕ} (h : fs.superblock.start + fs.superblock.bmapOffset = sector)
    (hs : sector + nsectorsBmap ≤ 2 ^ 32) (hb : 1 ≤ b ∧ b ≤ 131071) :
    ∃ fs', fs.freeBlock b = some fs' ∧
      fs.Freed sector nsectorsBmap (b / 64) (((b % 64 : ℕ) : ℤ) - 1) fs' :=
  freeBlock_freed_of_lt h hs ⟨hb.1, by simp only [nbitsPerSector, nsectorsBmap]; omega⟩

/-- `free_inode` likewise. -/
lemma freeInode_freed {m : ℕ} (h : fs.superblock.start + fs.superblock.imapOffset = sector)
    (hs : sector + 1 ≤ 2 ^ 32) (hm : m < 4096) :
    ∃ fs', fs.freeInode m = some fs' ∧
      fs.Freed sector 1 (m / 64) (((m % 64 : ℕ) : ℤ) - 1) fs' := by
  obtain ⟨buf, hbuf, hfreed⟩ := clearBit_freed fs (i := 0) (w := m / 64)
    (((m % 64 : ℕ) : ℤ) - 1) hs (by decide) (by omega)
  simp only [Nat.mul_zero, Nat.zero_add, Nat.add_zero] at hbuf hfreed
  refine ⟨_, ?_, hfreed⟩
  have hdiv : (m : ℤ).tdiv 64 = (m / 64 : ℕ) := rfl
  have hmod : (m : ℤ).tmod 64 = (m % 64 : ℕ) := rfl
  rw [Fs.freeInode, h, hdiv, hmod, hbuf]
  rfl

/-- A free of a number that an allocation can return. -/
lemma Freed.bitMap {w k : ℕ} (hf : fs.Freed sector n w k fs') (hmap : fs.BitMap sector n S)
    (hk : k < 32) : fs'.BitMap sector n (fun x => S x ∧ x ≠ 64 * w + k) := by
  obtain ⟨hreg', hbits⟩ := (hmap.regular w hf.word_lt).clear hk
  refine hmap.replace hreg' hf.word fun w' hw' k' hk' => ?_
  by_cases heq : w' = w
  · subst heq
    rw [if_pos rfl, hbits k' hk', Bool.and_eq_true, hmap.bit _ hw' k' hk']
    refine and_congr_right fun _ => ?_
    simp
  · rw [if_neg heq]
    refine ⟨And.left, fun hx => ⟨hx, by omega⟩⟩

end Free

section Specs

variable {fs : Fs} {S : ℕ → Prop} (h : fs.superblock = mkfsSuperblock)
include h

/-- `alloc_inode` returns the first clear bit and sets it. -/
lemma allocInode_spec (hmap : fs.BitMap imapSector 1 S) (hopen : fs.MapOpen imapSector 1) :
    ∃ w k fs', w < 64 ∧ FirstClear S w k ∧ fs.allocInode = (((64 * w + k + 1 : ℕ) : ℤ), fs') ∧
      fs'.BitMap imapSector 1 (fun x => S x ∨ x = 64 * w + k) ∧
      fs.Writes (nbytesPerSector * imapSector) (nbytesPerSector * inodeSector) fs' := by
  rcases allocInode_taken (imapStart_eq h) (by decide) with ⟨hfull, -⟩ | ⟨w, k, fs', halloc, ht⟩
  · obtain ⟨w, hw, hne⟩ := hopen
    exact absurd (hfull w hw) hne
  · obtain ⟨hfirst, hmap'⟩ := ht.bitMap hmap
    exact ⟨w, k, fs', ht.word_lt, hfirst, halloc, hmap', ht.writes⟩

/-- `alloc_block` on a map that is not full. -/
lemma allocBlock_spec (hmap : fs.BitMap bmapSector 32 S)
    (hopen : ∃ w < 2048, ∃ k < 32, ¬ S (64 * w + k)) :
    ∃ w k fs', w < 2048 ∧ FirstClear S w k ∧ fs.allocBlock = (64 * w + k + 1, fs') ∧
      fs'.BitMap bmapSector 32 (fun x => S x ∨ x = 64 * w + k) ∧
      fs.Writes (nbytesPerSector * bmapSector) (nbytesPerSector * imapSector) fs' := by
  rcases allocBlock_taken (bmapStart_eq h) (by decide) with ⟨hfull, -⟩ | ⟨w, k, fs', halloc, ht⟩
  · obtain ⟨w, hw, hne⟩ := hmap.open_iff.2 hopen
    exact absurd (hfull w hw) hne
  · obtain ⟨hfirst, hmap'⟩ := ht.bitMap hmap
    exact ⟨w, k, fs', ht.word_lt, hfirst, halloc, hmap', ht.writes⟩

/-- `free_inode` of an inode that `alloc_inode` can return. -/
lemma freeInode_spec {w k : ℕ} (hmap : fs.BitMap imapSector 1 S) (hw : w < 64) (hk : k < 32) :
    ∃ fs', fs.freeInode (64 * w + k + 1 : ℕ) = some fs' ∧
      fs'.BitMap imapSector 1 (fun x => S x ∧ x ≠ 64 * w + k) ∧
      fs.Writes (nbytesPerSector * imapSector) (nbytesPerSector * inodeSector) fs' := by
  obtain ⟨fs', hfree, hf⟩ := freeInode_freed (m := 64 * w + k + 1) (imapStart_eq h) (by decide)
    (by omega)
  rw [show (64 * w + k + 1) / 64 = w by omega, show (64 * w + k + 1) % 64 = k + 1 by omega,
    show ((k + 1 : ℕ) : ℤ) - 1 = (k : ℕ) by push_cast; omega] at hf
  exact ⟨fs', hfree, hf.bitMap hmap hk, hf.writes⟩

/-- `free_block` of a block that `alloc_block` can return. -/
lemma freeBlock_spec {w k : ℕ} (hmap : fs.BitMap bmapSector 32 S) (hw : w < 2048) (hk : k < 32) :
    ∃ fs', fs.freeBlock (64 * w + k + 1 : ℕ) = some fs' ∧
      fs'.BitMap bmapSector 32 (fun x => S x ∧ x ≠ 64 * w + k) ∧
      fs.Writes (nbytesPerSector * bmapSector) (nbytesPerSector * imapSector) fs' := by
  obtain ⟨fs', hfree, hf⟩ := freeBlock_freed (b := 64 * w + k + 1) (bmapStart_eq h) (by decide)
    (by omega)
  rw [show (64 * w + k + 1) / 64 = w by omega, show (64 * w + k + 1) % 64 = k + 1 by omega,
    show ((k + 1 : ℕ) : ℤ) - 1 = (k : ℕ) by push_cast; omega] at hf
  exact ⟨fs', hfree, hf.bitMap hmap hk, hf.writes⟩

end Specs

end Fs
end UcasKernel
