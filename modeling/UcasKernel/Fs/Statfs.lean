/-
`do_statfs` and what it counts.

The call copies the superblock sector to the superblock object and adds up the set bits
of the words of the two maps.  It leaves the block map at the first word without a set
bit, and the inode map at the first one with fewer than 32, so what is set behind such a
word is not counted.  The copy has the size of the sector, not of the object.
-/
import UcasKernel.Fs.MapBits
import Mathlib.Algebra.BigOperators.Intervals
import Mathlib.Data.Nat.Count

namespace UcasKernel
namespace Fs

/-- `sizeof(superblock_t)`. -/
def Superblock.sizeof : ℕ := 32

/-- The superblock object with the given bytes. -/
def Superblock.get (b : Bytes) (a : ℕ) : Superblock where
  magic := Bytes.get32 b a
  start := Bytes.get32 b (a + 4)
  size := Bytes.get32 b (a + 8)
  bmapOffset := Bytes.get32 b (a + 12)
  imapOffset := Bytes.get32 b (a + 16)
  inodeOffset := Bytes.get32 b (a + 20)
  dataOffset := Bytes.get32 b (a + 24)
  inodeSize := Bytes.get16 b (a + 28)
  dentrySize := Bytes.get16 b (a + 30)

/-- The loop of `popcnt` on a word of `n` bits. -/
def popcntLoop : ℕ → ℕ → ℕ
  | 0, _ => 0
  | n + 1, val => if val ≠ 0 then val % 2 + popcntLoop n (val / 2) else 0

/-- `popcnt`. -/
def popcnt (val : ℕ) : ℕ := popcntLoop 64 val

/-- The loop over the words `j .. j + n - 1` of a sector of a map: the number of set bits,
and whether it was left at a word where `stop` holds. -/
def countWords (stop : ℕ → Bool) (sectorBuf : Bytes) (j : ℕ) : ℕ → ℕ × Bool
  | 0 => (0, false)
  | n + 1 =>
    let cnt := popcnt (Bytes.get64 sectorBuf (8 * j))
    if stop cnt then (cnt, true)
    else
      let (used, finished) := countWords stop sectorBuf (j + 1) n
      (cnt + used, finished)

/-- The loop over the `n` sectors of the block map from number `i`. -/
def countBlocks (fs : Fs) (bmapStart i : ℕ) : ℕ → ℕ
  | 0 => 0
  | n + 1 =>
    let (used, finished) := countWords (· = 0) (fs.sdread 1 (bmapStart + i)) 0 64
    if finished then used else used + fs.countBlocks bmapStart (i + 1) n

/-- What `do_statfs` prints. -/
structure Statfs where
  magic : ℕ
  blocksUsed : ℕ
  start : ℕ
  bmapOffset : ℕ
  imapOffset : ℕ
  inodesUsed : ℕ
  dataOffset : ℕ
  dataSectors : ℕ
  inodeSize : ℕ
  dentrySize : ℕ

/-- `do_statfs`.  The memory of the kernel is an argument, with the address of the
superblock object in it: `memcpy` stores a whole `sector_buf` there. -/
def doStatfs (fs : Fs) (memory : Bytes) (superblockAt : ℕ) : ℤ × Statfs × Bytes × Fs :=
  let sectorBuf := fs.sdread 1 fsStartSector
  let memory := Bytes.blit memory superblockAt sectorBuf 0 nbytesPerSector
  let fs := { fs with superblock := Superblock.get sectorBuf 0 }
  let sb := fs.superblock
  let blocksUsed := fs.countBlocks (sb.start + sb.bmapOffset) 0 nsectorsBmap
  let inodesUsed :=
    (countWords (· < 32) (fs.sdread 1 (sb.start + sb.imapOffset)) 0 64).1
  (0,
    { magic := sb.magic
      blocksUsed := blocksUsed
      start := sb.start
      bmapOffset := sb.bmapOffset
      imapOffset := sb.imapOffset
      inodesUsed := inodesUsed
      dataOffset := sb.dataOffset
      dataSectors := (sb.size + (2 ^ 32 - sb.dataOffset)) % 2 ^ 32
      inodeSize := sb.inodeSize
      dentrySize := sb.dentrySize },
    memory, fs)

/-! ## Sums that are left early -/

/-- The sum of `f j, f (j + 1), …`, `n` terms at most, left behind the first term where
`stop` holds. -/
def sumUntil (stop : ℕ → Bool) (f : ℕ → ℕ) (j : ℕ) : ℕ → ℕ
  | 0 => 0
  | n + 1 => if stop (f j) then f j else f j + sumUntil stop f (j + 1) n

section SumUntil

variable {stop : ℕ → Bool} {f : ℕ → ℕ}

/-- The terms behind a stop are not added. -/
lemma sumUntil_add_of_stop {i j m : ℕ} (n : ℕ) (hlo : j ≤ i) (hhi : i < j + m)
    (hi : stop (f i) = true) : sumUntil stop f j (m + n) = sumUntil stop f j m := by
  induction m generalizing j with
  | zero => omega
  | succ m ih =>
    rw [Nat.add_right_comm, sumUntil, sumUntil]
    split
    · rfl
    · rename_i hstop
      have hne : i ≠ j := by
        rintro rfl
        exact hstop hi
      rw [ih (by omega) (by omega)]

/-- Without a stop the sum goes on. -/
lemma sumUntil_add_of_not_stop {j m : ℕ} (n : ℕ) (hnot : ∀ i, j ≤ i → i < j + m → stop (f i) = false) :
    sumUntil stop f j (m + n) = sumUntil stop f j m + sumUntil stop f (j + m) n := by
  induction m generalizing j with
  | zero => rw [sumUntil, Nat.zero_add, Nat.zero_add, Nat.add_zero]
  | succ m ih =>
    have hstop : ¬ stop (f j) = true := by
      rw [hnot j le_rfl (by omega)]
      exact Bool.false_ne_true
    rw [Nat.add_right_comm, sumUntil, sumUntil, if_neg hstop, if_neg hstop,
      ih fun i hlo hhi => hnot i (by omega) (by omega), show j + (m + 1) = j + 1 + m by omega,
      Nat.add_assoc (f j)]

/-- Nothing is left out exactly if the terms behind every stop are zero. -/
theorem sumUntil_eq_sum_iff (j n : ℕ) :
    sumUntil stop f j n = ∑ i ∈ Finset.Ico j (j + n), f i ↔
      ∀ i, j ≤ i → i < j + n → stop (f i) → ∀ k, i < k → k < j + n → f k = 0 := by
  induction n generalizing j with
  | zero =>
    rw [Nat.add_zero, Finset.Ico_self, Finset.sum_empty, sumUntil]
    exact ⟨fun _ i hlo hhi => by omega, fun _ => rfl⟩
  | succ n ih =>
    have hend : j + (n + 1) = j + 1 + n := by omega
    rw [Finset.sum_eq_sum_Ico_succ_bot (by omega), sumUntil, hend]
    by_cases hstop : stop (f j) = true
    · rw [if_pos hstop, left_eq_add, Finset.sum_eq_zero_iff]
      constructor
      · intro hzero i hlo hhi hi k hik hk
        exact hzero k (Finset.mem_Ico.2 ⟨by omega, hk⟩)
      · intro hzero k hk
        obtain ⟨hlo, hhi⟩ := Finset.mem_Ico.1 hk
        exact hzero j le_rfl (by omega) hstop k (by omega) hhi
    · rw [if_neg hstop, Nat.add_left_cancel_iff, ih]
      constructor
      · intro hzero i hlo hhi hi
        have hne : i ≠ j := by
          rintro rfl
          exact hstop hi
        exact hzero i (by omega) hhi hi
      · intro hzero i hlo hhi hi
        exact hzero i (by omega) hhi hi

end SumUntil

/-! ## Set bits -/

/-- The set bits of a map of `n` sectors. -/
def usedBits (fs : Fs) (sector n : ℕ) : ℕ :=
  Nat.count (fun i => fs.mapBit sector i = true) (nbitsPerSector * n)

lemma popcntLoop_eq_count (n val : ℕ) :
    popcntLoop n val = Nat.count (fun i => val.testBit i = true) n := by
  induction n generalizing val with
  | zero => rfl
  | succ n ih =>
    rw [popcntLoop, Nat.count_succ']
    by_cases hval : val = 0
    · subst hval
      simp
    · have hshift : ∀ i, val.testBit (i + 1) = (val / 2).testBit i := fun i => Nat.testBit_succ ..
      simp only [hshift, ← ih, if_pos hval]
      rw [Nat.add_comm]
      congr 1
      rcases Nat.mod_two_eq_zero_or_one val with h | h <;> simp [Nat.testBit_zero, h]

lemma popcnt_eq_zero_iff {val : ℕ} (hval : val < 2 ^ 64) : popcnt val = 0 ↔ val = 0 := by
  rw [popcnt, popcntLoop_eq_count, Nat.count_iff_forall_not]
  constructor
  · intro hnone
    refine Nat.eq_of_testBit_eq fun i => ?_
    rw [Nat.zero_testBit]
    by_cases hi : i < 64
    · exact Bool.eq_false_iff.2 (hnone i hi)
    · exact Nat.testBit_lt_two_pow (hval.trans_le (Nat.pow_le_pow_right (by decide) (by omega)))
  · rintro rfl i hi
    simp

section Words

variable (fs : Fs) (sector : ℕ)

/-- The set bits of a map are those of its words. -/
lemma usedBits_eq_sum (n : ℕ) :
    fs.usedBits sector n = ∑ w ∈ Finset.Ico 0 (64 * n), popcnt (fs.mapWord sector w) := by
  have hwords : ∀ m, Nat.count (fun i => fs.mapBit sector i = true) (64 * m) =
      ∑ w ∈ Finset.range m, popcnt (fs.mapWord sector w) := by
    intro m
    induction m with
    | zero => rfl
    | succ m ih =>
      have hbit : ∀ k < 64, fs.mapBit sector (64 * m + k) = (fs.mapWord sector m).testBit k := by
        intro k hk
        rw [mapBit_word, show (64 * m + k) / 64 = m by omega, show (64 * m + k) % 64 = k by omega]
      have hcount : Nat.count (fun k => fs.mapBit sector (64 * m + k) = true) 64 =
          popcnt (fs.mapWord sector m) := by
        rw [popcnt, popcntLoop_eq_count]
        refine le_antisymm (Nat.count_mono_left fun k hk h => ?_)
          (Nat.count_mono_left fun k hk h => ?_)
        · rwa [← hbit k hk]
        · rwa [hbit k hk]
      rw [Nat.mul_succ, Nat.count_add, ih, hcount, Finset.sum_range_succ]
  rw [usedBits, show nbitsPerSector * n = 64 * (64 * n) by simp only [nbitsPerSector]; omega, hwords,
    Finset.range_eq_Ico]

end Words

/-! ## The two loops -/

section Loops

variable {fs : Fs} {stop : ℕ → Bool} {f : ℕ → ℕ}

/-- The loop over the words of one sector, where `f` counts the bits of the words of the map. -/
lemma countWords_eq {sectorBuf : Bytes} {base j n : ℕ}
    (hf : ∀ k < 64, popcnt (Bytes.get64 sectorBuf (8 * k)) = f (base + k)) (hj : j + n ≤ 64) :
    (countWords stop sectorBuf j n).1 = sumUntil stop f (base + j) n ∧
      ((countWords stop sectorBuf j n).2 = true ↔
        ∃ w, base + j ≤ w ∧ w < base + j + n ∧ stop (f w) = true) := by
  induction n generalizing j with
  | zero =>
    refine ⟨rfl, ⟨fun h => absurd h Bool.false_ne_true, ?_⟩⟩
    rintro ⟨w, hlo, hhi, -⟩
    omega
  | succ n ih =>
    obtain ⟨ihsum, ihstop⟩ := ih (j := j + 1) (by omega)
    rw [countWords, hf j (by omega), sumUntil]
    generalize countWords stop sectorBuf (j + 1) n = rest at ihsum ihstop ⊢
    obtain ⟨used, finished⟩ := rest
    dsimp only at *
    by_cases hstop : stop (f (base + j)) = true
    · rw [if_pos hstop, if_pos hstop]
      exact ⟨rfl, fun _ => ⟨_, le_rfl, by omega, hstop⟩, fun _ => rfl⟩
    · rw [if_neg hstop, if_neg hstop]
      refine ⟨by rw [ihsum, Nat.add_assoc], ihstop.trans ⟨?_, ?_⟩⟩
      · rintro ⟨w, hlo, hhi, hw⟩
        exact ⟨w, by omega, by omega, hw⟩
      · rintro ⟨w, hlo, hhi, hw⟩
        have hne : w ≠ base + j := by
          rintro rfl
          exact hstop hw
        exact ⟨w, by omega, by omega, hw⟩

/-- The loop over the sectors of the block map goes on where the one before was not left. -/
lemma countBlocks_eq {sector i n : ℕ}
    (hf : ∀ l < i + n, ∀ k < 64,
      popcnt (Bytes.get64 (fs.sdread 1 (sector + l)) (8 * k)) = f (64 * l + k)) :
    fs.countBlocks sector i n = sumUntil (· = 0) f (64 * i) (64 * n) := by
  induction n generalizing i with
  | zero => rfl
  | succ n ih =>
    have hloop := @countWords_eq (· = 0) f _ (64 * i) 0 64 (hf i (by omega)) le_rfl
    rw [countBlocks, Nat.mul_succ, Nat.add_comm (64 * n)]
    generalize countWords (· = 0) (fs.sdread 1 (sector + i)) 0 64 = loop at hloop ⊢
    obtain ⟨used, finished⟩ := loop
    obtain ⟨hsum, hstop⟩ := hloop
    dsimp only at *
    rw [Nat.add_zero] at hsum hstop
    cases finished with
    | true =>
      obtain ⟨w, hlo, hhi, hw⟩ := hstop.1 rfl
      rw [if_pos rfl, hsum, sumUntil_add_of_stop _ hlo hhi hw]
    | false =>
      have hnot : ∀ w, 64 * i ≤ w → w < 64 * i + 64 → decide (f w = 0) = false := by
        intro w hlo hhi
        by_contra hw
        exact absurd (hstop.2 ⟨w, hlo, hhi, Bool.eq_true_of_not_eq_false hw⟩) Bool.false_ne_true
      rw [if_neg Bool.false_ne_true, hsum, sumUntil_add_of_not_stop _ hnot,
        ih fun l hl => hf l (by omega), Nat.mul_succ]

end Loops

/-! ## What the call reports and changes -/

/-- The call prints the numbers of set bits of the two maps, changes nothing on the card
or in the file system but the superblock object, and stores to no byte of memory
outside of that object. -/
structure StatfsLaw (fs : Fs) (memory : Bytes) (superblockAt : ℕ) : Prop where
  blocks : (fs.doStatfs memory superblockAt).2.1.blocksUsed = fs.usedBits bmapSector nsectorsBmap
  inodes : (fs.doStatfs memory superblockAt).2.1.inodesUsed = fs.usedBits imapSector nsectorsImap
  state : ∃ sb, (fs.doStatfs memory superblockAt).2.2.2 = { fs with superblock := sb }
  memory : ∀ a, a < superblockAt ∨ superblockAt + Superblock.sizeof ≤ a →
    (fs.doStatfs memory superblockAt).2.2.1 a = memory a

/-- No bit of the block map is set behind a word without one. -/
def BmapSeen (fs : Fs) : Prop :=
  ∀ w < 64 * nsectorsBmap, fs.mapWord bmapSector w = 0 →
    ∀ w' < 64 * nsectorsBmap, w < w' → fs.mapWord bmapSector w' = 0

/-- No bit of the inode map is set behind a word with fewer than 32. -/
def ImapSeen (fs : Fs) : Prop :=
  ∀ w < 64 * nsectorsImap, popcnt (fs.mapWord imapSector w) < 32 →
    ∀ w' < 64 * nsectorsImap, w < w' → fs.mapWord imapSector w' = 0

/-- The memory behind the superblock object holds what the superblock sector has there. -/
def SectorBehind (fs : Fs) (memory : Bytes) (superblockAt : ℕ) : Prop :=
  ∀ a, superblockAt + Superblock.sizeof ≤ a → a < superblockAt + nbytesPerSector →
    memory a = fs.sdread 1 fsStartSector (a - superblockAt)

section Law

variable {fs : Fs}

/-- A count that is left early is right if nothing is set behind the word where it was left. -/
lemma sumUntil_usedBits_iff (fs : Fs) (sector n : ℕ) (stop : ℕ → Bool) :
    sumUntil stop (fun w => popcnt (fs.mapWord sector w)) 0 (64 * n) = fs.usedBits sector n ↔
      ∀ w < 64 * n, stop (popcnt (fs.mapWord sector w)) = true →
        ∀ w' < 64 * n, w < w' → fs.mapWord sector w' = 0 := by
  have hsum := @sumUntil_eq_sum_iff stop (fun w => popcnt (fs.mapWord sector w)) 0 (64 * n)
  rw [Nat.zero_add] at hsum
  rw [usedBits_eq_sum, hsum]
  constructor
  · intro hzero w hw hstop w' hw' hlt
    exact (popcnt_eq_zero_iff (mapWord_lt _ _ _)).1 (hzero w (Nat.zero_le _) hw hstop w' hlt hw')
  · intro hzero w _ hw hstop w' hlt hw'
    exact (popcnt_eq_zero_iff (mapWord_lt _ _ _)).2 (hzero w hw hstop w' hw' hlt)

lemma blocksUsed_eq_iff (memory : Bytes) (superblockAt : ℕ)
    (h : Superblock.get (fs.sdread 1 fsStartSector) 0 = mkfsSuperblock) :
    (fs.doStatfs memory superblockAt).2.1.blocksUsed = fs.usedBits bmapSector nsectorsBmap ↔
      fs.BmapSeen := by
  have hcount : (fs.doStatfs memory superblockAt).2.1.blocksUsed =
      sumUntil (· = 0) (fun w => popcnt (fs.mapWord bmapSector w)) 0 (64 * nsectorsBmap) := by
    simp only [doStatfs, h]
    refine countBlocks_eq (i := 0) (n := nsectorsBmap) fun l hl k hk => ?_
    have hs : bmapSector + l < 2 ^ 32 := by
      simp only [nsectorsBmap, bmapSector] at *
      omega
    exact congrArg popcnt ((get64_sdread hs hk).trans (mapWord_add l k))
  rw [hcount, sumUntil_usedBits_iff]
  simp only [decide_eq_true_eq, popcnt_eq_zero_iff (mapWord_lt _ _ _)]
  rfl

lemma inodesUsed_eq_iff (memory : Bytes) (superblockAt : ℕ)
    (h : Superblock.get (fs.sdread 1 fsStartSector) 0 = mkfsSuperblock) :
    (fs.doStatfs memory superblockAt).2.1.inodesUsed = fs.usedBits imapSector nsectorsImap ↔
      fs.ImapSeen := by
  have hcount : (fs.doStatfs memory superblockAt).2.1.inodesUsed =
      sumUntil (· < 32) (fun w => popcnt (fs.mapWord imapSector w)) 0 (64 * nsectorsImap) := by
    simp only [doStatfs, h]
    refine (@countWords_eq _ _ _ 0 0 64 (fun k hk => ?_) le_rfl).1
    exact congrArg popcnt (by rw [Nat.zero_add]; exact get64_sdread (by decide) hk)
  rw [hcount, sumUntil_usedBits_iff]
  simp only [decide_eq_true_eq]
  rfl

lemma memory_eq_iff (memory : Bytes) (superblockAt : ℕ) :
    (∀ a, a < superblockAt ∨ superblockAt + Superblock.sizeof ≤ a →
      (fs.doStatfs memory superblockAt).2.2.1 a = memory a) ↔
      fs.SectorBehind memory superblockAt := by
  have hcopy : (fs.doStatfs memory superblockAt).2.2.1 =
      Bytes.blit memory superblockAt (fs.sdread 1 fsStartSector) 0 nbytesPerSector := rfl
  rw [hcopy]
  constructor
  · intro hkeep a hlo hhi
    have hbyte := hkeep a (.inr hlo)
    rw [Bytes.blit_apply_of_mem ⟨by omega, hhi⟩, Nat.zero_add] at hbyte
    exact hbyte.symm
  · rintro hbehind a hout
    by_cases hin : superblockAt ≤ a ∧ a < superblockAt + nbytesPerSector
    · rw [Bytes.blit_apply_of_mem hin, Nat.zero_add, hbehind a (by omega) hin.2]
    · exact Bytes.blit_apply_of_notMem (by omega)

/-- Some memory is changed behind the superblock object. -/
lemma exists_not_sectorBehind (fs : Fs) : ∃ memory, ¬ fs.SectorBehind memory 0 := by
  refine ⟨fun a => fs.sdread 1 fsStartSector a + 1, fun hbehind => ?_⟩
  have hbyte := hbehind Superblock.sizeof (by omega) (by decide)
  rw [Nat.sub_zero] at hbyte
  exact absurd hbyte (by simp)

/-- The law fails for some content of the memory whatever the card holds; for a given
content it depends on where the maps have gaps. -/
theorem statfsLaw_iff (h : Superblock.get (fs.sdread 1 fsStartSector) 0 = mkfsSuperblock) :
    (¬ ∀ memory superblockAt, fs.StatfsLaw memory superblockAt) ∧
      ∀ memory superblockAt, fs.StatfsLaw memory superblockAt ↔
        fs.BmapSeen ∧ fs.ImapSeen ∧ fs.SectorBehind memory superblockAt := by
  have hlaw : ∀ memory superblockAt, fs.StatfsLaw memory superblockAt ↔
      fs.BmapSeen ∧ fs.ImapSeen ∧ fs.SectorBehind memory superblockAt := by
    intro memory superblockAt
    constructor
    · intro hlaw
      exact ⟨(blocksUsed_eq_iff memory superblockAt h).1 hlaw.blocks,
        (inodesUsed_eq_iff memory superblockAt h).1 hlaw.inodes,
        (memory_eq_iff memory superblockAt).1 hlaw.memory⟩
    · rintro ⟨hblocks, hinodes, hbehind⟩
      exact ⟨(blocksUsed_eq_iff memory superblockAt h).2 hblocks,
        (inodesUsed_eq_iff memory superblockAt h).2 hinodes, ⟨_, rfl⟩,
        (memory_eq_iff memory superblockAt).2 hbehind⟩
  refine ⟨fun hall => ?_, hlaw⟩
  obtain ⟨memory, hmemory⟩ := exists_not_sectorBehind fs
  exact hmemory ((hlaw memory 0).1 (hall memory 0)).2.2

end Law

/-- A card with a gap in the inode map: inode 65 is in use, and none below it. -/
def gapCard : Fs :=
  (emptyCard.sdwrite (mkfsSuperblock.put Bytes.zero) 1 fsStartSector).sdwrite
    (Bytes.set64 Bytes.zero 8 1) 1 imapSector

lemma superblock_gapCard : Superblock.get (gapCard.sdread 1 fsStartSector) 0 = mkfsSuperblock := by
  have hread : ∀ m a, a + m ≤ 32 → Bytes.getLE (gapCard.sdread 1 fsStartSector) m a =
      Bytes.getLE (mkfsSuperblock.put Bytes.zero) m a := by
    intro m a ha
    have hle : a + m ≤ nbytesPerSector * 1 := by
      simp only [nbytesPerSector]
      omega
    rw [getLE_sdread _ hle, gapCard, getLE_sdwrite_of_disjoint, getLE_sdwrite _ hle]
    left
    simp only [fsStartSector, imapSector, nbytesPerSector] at *
    omega
  have h32 : ∀ a, a + 4 ≤ 32 → Bytes.get32 (gapCard.sdread 1 fsStartSector) a =
      Bytes.get32 (mkfsSuperblock.put Bytes.zero) a := hread 4
  have h16 : ∀ a, a + 2 ≤ 32 → Bytes.get16 (gapCard.sdread 1 fsStartSector) a =
      Bytes.get16 (mkfsSuperblock.put Bytes.zero) a := hread 2
  rw [Superblock.get, h32 0 (by decide), h32 _ (by decide), h32 _ (by decide), h32 _ (by decide),
    h32 _ (by decide), h32 _ (by decide), h32 _ (by decide), h16 _ (by decide), h16 _ (by decide)]
  decide

lemma not_imapSeen_gapCard : ¬ gapCard.ImapSeen := by
  have hword : ∀ w < 64, gapCard.mapWord imapSector w =
    Bytes.get64 (Bytes.set64 Bytes.zero 8 1) (8 * w) :=
    fun w hw => mapWord_sdwrite (by decide) hw
  intro hseen
  have hone : Bytes.get64 (Bytes.set64 Bytes.zero 8 1) (8 * 1) = 0 := by
    rw [← hword 1 (by decide)]
    refine hseen 0 (by decide) ?_ 1 (by decide) (by decide)
    rw [hword 0 (by decide)]
    decide
  exact absurd hone (by decide)

/-- On the card with the gap the count of the inodes is wrong. -/
theorem statfsLaw_gapCard : ¬ gapCard.StatfsLaw Bytes.zero 0 := fun hlaw =>
  not_imapSeen_gapCard (((statfsLaw_iff superblock_gapCard).2 Bytes.zero 0).1 hlaw).2.1

/-- On a card that was just formatted the copy overwrites memory behind the object. -/
theorem statfs_overwrites :
    ∃ fs, emptyCard.doMkfs = some (0, fs) ∧
      ¬ ∀ memory superblockAt, fs.StatfsLaw memory superblockAt := by
  obtain ⟨fs, hmkfs, -⟩ := afterMkfs_doMkfs emptyCard
  obtain ⟨memory, hmemory⟩ := exists_not_sectorBehind fs
  exact ⟨fs, hmkfs, fun hlaw => hmemory ((memory_eq_iff memory 0).1 (hlaw memory 0).memory)⟩

end Fs
end UcasKernel
