/-
The tree on a freshly formatted card.

`do_mkfs` is followed step by step on the volume: the two maps, the root
directory, the entry of `8MB.dat`, and the block map and inode that
`init_bigfile` writes over them.
-/
import UcasKernel.Fs.Refine

namespace UcasKernel
namespace Fs

/-! ## Words of the maps -/

lemma Regular.of_lt {v : ℕ} (h : v < 2 ^ 31) : Regular v := by
  have hbit : ∀ i, 31 ≤ i → v.testBit i = false := fun i hi =>
    Nat.testBit_lt_two_pow (h.trans_le (Nat.pow_le_pow_right (by decide) hi))
  exact ⟨by omega, fun i hi _ => by rw [hbit i hi, hbit 31 le_rfl]⟩

lemma regular_full : Regular 0xffffffffffffffff :=
  ⟨by norm_num, fun i _ hi => by rw [testBit_full, testBit_full, decide_eq_true hi]; rfl⟩

/-- The words of a map of which the first `m` bits are set, as the code writes
them. -/
structure FirstBits (fs : Fs) (sector n q r : ℕ) : Prop where
  full : ∀ w < 64 * n, w < q → fs.mapWord sector w = 0xffffffffffffffff
  partly : q < 64 * n → fs.mapWord sector q = 2 ^ r - 1
  zero : ∀ w < 64 * n, q < w → fs.mapWord sector w = 0

lemma FirstBits.bitMap {fs : Fs} {sector n q r : ℕ} (h : fs.FirstBits sector n q r) (hr : r < 31) :
    fs.BitMap sector n fun x => x < 64 * q + r := by
  have hword : ∀ w < 64 * n, fs.mapWord sector w =
      if w < q then 0xffffffffffffffff else if w = q then 2 ^ r - 1 else 0 := by
    intro w hw
    split
    · exact h.full w hw ‹_›
    · split
      · rename_i heq
        subst heq
        exact h.partly hw
      · exact h.zero w hw (by omega)
  have hsmall : 2 ^ r - 1 < 2 ^ 31 := by
    have : 2 ^ r < 2 ^ 31 := Nat.pow_lt_pow_right (by decide) hr
    omega
  refine ⟨fun w hw => ?_, fun w hw k hk => ?_⟩
  · rw [hword w hw]
    split
    · exact regular_full
    · split
      · exact Regular.of_lt hsmall
      · exact Regular.of_lt (by norm_num)
  · rw [hword w hw]
    split
    · rw [testBit_full, decide_eq_true_eq]
      omega
    · split
      · rw [Nat.testBit_two_pow_sub_one, decide_eq_true_eq]
        omega
      · rw [Nat.zero_testBit]
        simp only [Bool.false_eq_true, false_iff]
        omega

/-- The words behind those that were filled. -/
lemma getLE_fillWords_of_le {v n w : ℕ} (hw : n ≤ w) :
    Bytes.getLE (fillWords Bytes.zero v n) 8 (8 * w) = 0 := by
  induction n with
  | zero => exact Bytes.getLE_zero _ _
  | succ n ih =>
    rw [fillWords, Bytes.getLE_setLE_of_disjoint (by omega)]
    exact ih (by omega)

/-! ## The maps of `do_mkfs` -/

/-- The sectors that were cleared are zero. -/
lemma getLE_clearBmap_of_mem {fs : Fs} {bmapStart i n j m a : ℕ} (hlt : bmapStart + i + n ≤ 2 ^ 32)
    (hj : i ≤ j ∧ j < i + n) (ha : a + m ≤ nbytesPerSector) :
    Bytes.getLE (fs.clearBmap bmapStart i n).disk m (nbytesPerSector * (bmapStart + j) + a) = 0 := by
  induction n generalizing fs i with
  | zero => omega
  | succ n ih =>
    rw [clearBmap]
    rcases Nat.eq_or_lt_of_le hj.1 with rfl | hlt'
    · rw [getLE_clearBmap (by omega) (by simp only [nbytesPerSector] at ha ⊢; omega),
        getLE_written _ (by omega) (by omega), Bytes.getLE_zero]
    · exact ih (by omega) ⟨hlt', by omega⟩

section Maps

variable (fs : Fs)

lemma fdescArray_clearBmap (bmapStart i n : ℕ) :
    (fs.clearBmap bmapStart i n).fdescArray = fs.fdescArray := by
  induction n generalizing fs i with
  | zero => rfl
  | succ n ih => exact ih _ _

/-- Formatting does not touch the open files. -/
lemma fdescArray_mkfsMaps : fs.mkfsMaps.fdescArray = fs.fdescArray := by
  have hsdwrite : ∀ (fs : Fs) (buf : Bytes) (n s : ℕ),
      (fs.sdwrite buf n s).fdescArray = fs.fdescArray := fun _ _ _ _ => rfl
  simp only [mkfsMaps, hsdwrite, fdescArray_clearBmap]

lemma firstBits_imap : fs.mkfsMaps.FirstBits imapSector 1 0 0 := by
  have hi : ∀ sb : Superblock, sb = mkfsSuperblock → sb.start + sb.imapOffset = imapSector := by
    rintro _ rfl
    rfl
  have hword : ∀ w < 64, fs.mkfsMaps.mapWord imapSector w = 0 := by
    intro w hw
    simp only [mkfsMaps]
    rw [hi _ rfl, mapWord_sdwrite (by decide) hw]
    exact Bytes.getLE_zero _ _
  exact ⟨fun _ _ h => absurd h (Nat.not_lt_zero _), fun _ => hword 0 (by decide),
    fun w hw _ => hword w hw⟩

lemma firstBits_bmap : fs.mkfsMaps.FirstBits bmapSector 32 1 6 := by
  have hfirst : ∀ w < 64, fs.mkfsMaps.mapWord bmapSector w = Bytes.get64
      (Bytes.set64 (Bytes.set64 Bytes.zero 0 0xffffffffffffffff) 8 0x3f) (8 * w) := fun w hw =>
    bmap_mkfsMaps fs (by simp only [nbytesPerSector]; omega)
  have hrest : ∀ w, 64 ≤ w → w < 2048 → fs.mkfsMaps.mapWord bmapSector w = 0 := by
    intro w hw hw'
    have hb : ∀ sb : Superblock, sb = mkfsSuperblock → sb.start + sb.bmapOffset = bmapSector := by
      rintro _ rfl
      rfl
    have hi : ∀ sb : Superblock, sb = mkfsSuperblock → sb.start + sb.imapOffset = imapSector := by
      rintro _ rfl
      rfl
    have hsplit : nbytesPerSector * bmapSector + 8 * w =
        nbytesPerSector * (bmapSector + w / 64) + 8 * (w % 64) := by
      simp only [nbytesPerSector]
      omega
    simp only [mkfsMaps]
    rw [hb _ rfl, hi _ rfl, mapWord, Bytes.get64, getLE_sdwrite_of_disjoint, hsplit,
      getLE_clearBmap_of_mem]
    · decide
    · simp only [nsectorsBmap]
      omega
    · simp only [nbytesPerSector]
      omega
    · left
      norm_num [nbytesPerSector, bmapSector, imapSector]
      omega
  refine ⟨fun w _ hw => ?_, fun _ => ?_, fun w hw hw' => ?_⟩
  · obtain rfl : w = 0 := by omega
    rw [hfirst 0 (by decide), Bytes.get64, Bytes.getLE_setLE_of_disjoint (by decide),
      Bytes.getLE_setLE]
    norm_num
  · rw [hfirst 1 (by decide), Bytes.get64, Bytes.getLE_setLE]
    norm_num
  · by_cases h64 : w < 64
    · rw [hfirst w h64, Bytes.get64, Bytes.getLE_setLE_of_disjoint (by omega),
        Bytes.getLE_setLE_of_disjoint (by omega), Bytes.getLE_zero]
    · exact hrest w (by omega) hw

end Maps

/-- The numbers of the first bits of a map. -/
def firstNumbers (bound m : ℕ) : Set ℕ := {n | Handed bound n ∧ n ≤ m}

lemma mem_firstNumbers_bit {bound w k m : ℕ} (hw : 64 * w < bound) (hN : 64 ∣ bound) (hk : k < 32) :
    64 * w + k + 1 ∈ firstNumbers bound m ↔ 64 * w + k < m :=
  and_iff_right (handed_bit hw hN hk)

/-- What `do_mkfs` has on the card before the root directory. -/
def mapsVolume (fs : Fs) : Volume where
  imap := ∅
  bmap := firstNumbers nblocks 70
  inode := fs.inode
  block := fs.block
  cwdInum := fs.cwdInum
  fdescArray := fs.fdescArray

lemma shows_maps {fs : Fs} (hsb : fs.superblock = mkfsSuperblock)
    (himap : fs.FirstBits imapSector 1 0 0) (hbmap : fs.FirstBits bmapSector 32 1 6) :
    fs.Shows (mapsVolume fs) := by
  refine ⟨hsb, (himap.bitMap (by decide)).of_iff ?_, fun n hn => absurd hn (Set.notMem_empty n),
    (hbmap.bitMap (by decide)).of_iff ?_, fun b hb => hb.1, fun n _ _ => Inode.Same.refl _,
    fun n _ _ => Inode.sameIndex_get _ _, fun b _ x _ => rfl, rfl, rfl⟩
  · intro w _ k _
    exact iff_of_false (by omega) (Set.notMem_empty _)
  · intro w hw k hk
    have hlt : 64 * w < nblocks := by
      simp only [nblocks]
      omega
    exact (mem_firstNumbers_bit hlt ⟨2048, rfl⟩ hk).symm

/-! ## The root directory and the big file -/

/-- The tree on a fresh card: the root directory and `8MB.dat`. -/
def imageTree (fdescArray : ℕ → Fdesc) : Tree where
  node := fun n =>
    if n = 1 then some (.dir (freshEntries 1 1 ++ [⟨true, 2, bigfileName⟩]))
    else if n = 2 then some (.file 1)
    else none
  cwd := 1
  fdescArray := fdescArray
  indexed := true

/-- The tree with the root directory only. -/
def rootTree (fdescArray : ℕ → Fdesc) : Tree where
  node := fun n => if n = 1 then some (.dir (freshEntries 1 1)) else none
  cwd := 1
  fdescArray := fdescArray
  indexed := false

section Root

variable {fs : Fs} (hs : fs.Shows (mapsVolume fs))
include hs

/-- The empty tree. -/
def emptyTree (fdescArray : ℕ → Fdesc) : Tree := ⟨fun _ => none, 1, fdescArray, false⟩

omit hs in
lemma represents_empty (fs : Fs) :
    Represents { mapsVolume fs with cwdInum := rootDirInum } (emptyTree fs.fdescArray) := by
  have hnone : ∀ n, n ∉ (mapsVolume fs).imap := fun n => Set.notMem_empty n
  refine ⟨fun n => iff_of_false (hnone n) fun hne => hne rfl, fun n nd hn => ?_,
    fun n hn => absurd hn (hnone n), fun n hn => absurd hn (hnone n), fun b hb hlt => ?_,
    fun b hb hb' => ⟨hb', hb⟩, fun hflag => (by cases hflag), rfl, rfl⟩
  · cases hn
  · have := hb.2
    simp only [imageBlocks] at hlt
    omega

/-- The root directory gets inode 1 and block 71. -/
lemma initDirInode_image :
    ∃ (x : Inode) (buf : Bytes) (fs' : Fs), fs.initDirInode rootDirInum = some (((1 : ℕ) : ℤ), fs') ∧
      (∀ i, x.direct i = if i = 0 then 71 else 0) ∧ x.IndexAt ∧
      ({ fs' with cwdInum := rootDirInum } : Fs).Shows { mapsVolume fs with
        imap := insert 1 ∅
        bmap := insert 71 (firstNumbers nblocks 70)
        inode := Function.update fs.inode 1 x
        block := Function.update fs.block 71 buf
        cwdInum := rootDirInum } ∧
      Represents { mapsVolume fs with
        imap := insert 1 ∅
        bmap := insert 71 (firstNumbers nblocks 70)
        inode := Function.update fs.inode 1 x
        block := Function.update fs.block 71 buf
        cwdInum := rootDirInum } (rootTree fs.fdescArray) := by
  have hone : Handed ninodes 1 := ⟨le_rfl, by decide, by decide⟩
  have h71 : Handed nblocks 71 := ⟨by decide, by decide, by decide⟩
  have hnot : 71 ∉ (mapsVolume fs).bmap := fun hmem => absurd hmem.2 (by decide)
  obtain ⟨n, b, x, buf, fs', hinit, -, hhanded, -, hmin, -, hge, hnew, hminB, htype, hdirect, hindex,
    hbuf, hshows⟩ := hs.initDirInode (hs.mapOpen_iff.2 ⟨1, hone, Set.notMem_empty 1⟩) ⟨71, h71, hnot⟩
      (fun b hb hb' => ⟨hb', hb⟩) hone
  obtain rfl : n = 1 := by
    by_contra hne
    have h1 := hhanded.1
    exact absurd (hmin 1 (by omega) hone) (Set.notMem_empty 1)
  obtain rfl : b = 71 := by
    by_contra hne
    exact hnot (hminB 71 (by omega) h71)
  refine ⟨x, buf, fs', hinit, hdirect, hindex, hshows.setCwdInum rootDirInum, ?_⟩
  have hr := (represents_empty fs).createDir (Set.notMem_empty 1) hge hnew htype hdirect hindex hbuf
  have htree : (emptyTree fs.fdescArray).set 1 (some (.dir (freshEntries 1 1))) =
      rootTree fs.fdescArray := by
    simp only [emptyTree, rootTree, Tree.set, Tree.mk.injEq, and_true]
    funext n
    rw [Function.update_apply]
  rw [htree] at hr
  exact hr

end Root

/-- The index blocks as `init_bigfile` fills them. -/
lemma indexes_image {v : Volume} (himap : v.imap = {1, 2})
    (hbmap : v.bmap = firstNumbers nblocks 2119)
    (hone : ∀ i < ndirectBlocks, (v.inode 1).direct i = if i = 0 then 71 else 0)
    (hdirect : ∀ i < ndirectBlocks, (v.inode 2).direct i = 72 + i)
    (hroot : (v.inode 1).IndexAt) (hbig : (v.inode 2).IndexAt)
    (h82 : v.block 82 = Bytes.fill32 Bytes.zero 83 1024)
    (h1107 : v.block 1107 = Bytes.set32 Bytes.zero 0 1108)
    (h1108 : v.block 1108 = Bytes.fill32 Bytes.zero 1109 1014) : Indexes v := by
  have hcases : ∀ b ∈ imageIndex, b = 82 ∨ b = 1107 ∨ b = 1108 := fun b hb => by
    simpa [imageIndex] using hb
  have hfile : ∀ b, 71 ≤ b → b < 2200 → b ≠ 82 → b ≠ 1107 → b ≠ 1108 → FileBlock b := by
    intro b hb hb' h1 h2 h3
    refine ⟨⟨by omega, by simp only [nblocks]; omega⟩, fun hmem => ?_⟩
    rcases hcases b hmem with h | h | h
    · exact h1 h
    · exact h2 h
    · exact h3 h
  refine ⟨fun b hb => ?_, fun n hn i hi hmem => ?_, fun n hn => ?_, fun k hk => ?_, fun k hk => ?_,
    fun k hk => ?_⟩
  · rw [hbmap]
    rcases hcases b hb with rfl | rfl | rfl <;>
      exact ⟨⟨by decide, by decide, by decide⟩, by decide⟩
  · have hi10 : i < 10 := hi
    rw [himap] at hn
    rcases hn with rfl | hn
    · rw [hone i hi] at hmem
      rcases hcases _ hmem with h | h | h <;> split at h <;> omega
    · obtain rfl := Set.mem_singleton_iff.1 hn
      rw [hdirect i hi] at hmem
      rcases hcases _ hmem with h | h | h <;> omega
  · rw [himap] at hn
    rcases hn with rfl | hn
    · exact hroot
    · obtain rfl := Set.mem_singleton_iff.1 hn
      exact hbig
  · have hk' : k < 1024 := hk
    rw [Volume.entry, h82, Bytes.get32_fill32 _ _ hk' (by norm_num)]
    exact hfile _ (by omega) (by omega) (by omega) (by omega) (by omega)
  · rw [Volume.entry, h1107]
    split
    · rename_i h0
      rw [h0, Bytes.get32, Bytes.getLE_setLE]
      norm_num
    · rw [Bytes.get32, Bytes.getLE_setLE_of_disjoint (by omega), Bytes.getLE_zero]
  · rw [Volume.entry, h1108]
    by_cases hk' : k < 1014
    · rw [Bytes.get32_fill32 _ _ hk' (by norm_num)]
      exact .inr (hfile _ (by omega) (by omega) (by omega) (by omega) (by omega))
    · rw [Bytes.get32_fill32_of_le _ _ (by omega), Bytes.get32, Bytes.getLE_zero]
      exact .inl rfl

/-- The volume `init_bigfile` leaves. -/
lemma represents_image {v : Volume} (himap : v.imap = {1, 2})
    (hbmap : v.bmap = firstNumbers nblocks 2119)
    (hdir : DirAt v 1 (freshEntries 1 1 ++ [⟨true, 2, bigfileName⟩]))
    (hroot : (v.inode 1).direct 0 = 71) (htype : (v.inode 2).type = typeFile)
    (href : (v.inode 2).ref = 1) (hdirect : ∀ i < ndirectBlocks, (v.inode 2).direct i = 72 + i)
    (hcwd : v.cwdInum = rootDirInum)
    (hindex : (∀ i < ndirectBlocks, (v.inode 1).direct i = if i = 0 then 71 else 0) → Indexes v) :
    Represents v (imageTree v.fdescArray) := by
  have hmem : ∀ n, n ∈ v.imap ↔ n = 1 ∨ n = 2 := fun n => by rw [himap]; rfl
  have hblock : ∀ b, b ∈ v.bmap ↔ Handed nblocks b ∧ b ≤ 2119 := fun b => by rw [hbmap]; rfl
  have hone : ∀ i < ndirectBlocks, (v.inode 1).direct i = if i = 0 then 71 else 0 := by
    intro i hi
    split
    · rename_i h0
      rw [h0, hroot]
    · exact hdir.rest i (by omega) hi
  refine ⟨fun n => ?_, fun n nd hn => ?_, fun n hn i hi h0 => ?_,
    fun n hn n' hn' i hi i' hi' h0 heq => ?_,
    fun b hb hlt => ?_, fun b hb hb' => (hblock b).2 ⟨hb', by omega⟩, fun _ => hindex hone, hcwd,
    rfl⟩
  · rw [hmem, imageTree]
    dsimp only
    split
    · exact iff_of_true (.inl ‹_›) (Option.some_ne_none _)
    · split
      · exact iff_of_true (.inr ‹_›) (Option.some_ne_none _)
      · exact iff_of_false (by omega) fun hne => hne rfl
  · rw [imageTree] at hn
    dsimp only at hn
    split at hn
    · rename_i h1
      subst h1
      rw [← Option.some.inj hn]
      exact hdir
    · split at hn
      · rename_i h2
        subst h2
        rw [← Option.some.inj hn]
        exact ⟨htype, href⟩
      · cases hn
  · rw [hblock]
    have hi10 : i < 10 := hi
    rcases (hmem n).1 hn with rfl | rfl
    · rw [hone i hi] at h0 ⊢
      split
      · exact ⟨⟨⟨by decide, by decide, by decide⟩, by decide⟩, le_rfl⟩
      · rename_i hne
        exact absurd (if_neg hne) h0
    · rw [hdirect i hi]
      refine ⟨⟨⟨by omega, ?_, by omega⟩, by omega⟩, by omega⟩
      simp only [nblocks]
      omega
  · rcases (hmem n).1 hn with rfl | rfl <;> rcases (hmem n').1 hn' with rfl | rfl
    · rw [hone i hi] at h0 heq
      rw [hone i' hi'] at heq
      split at h0
      · rename_i hz
        rw [if_pos hz] at heq
        split at heq
        · exact ⟨rfl, by omega⟩
        · omega
      · exact absurd rfl h0
    · rw [hone i hi] at h0 heq
      rw [hdirect i' hi'] at heq
      split at heq <;> omega
    · rw [hdirect i hi, hone i' hi'] at heq
      split at heq <;> omega
    · rw [hdirect i hi, hdirect i' hi'] at heq
      exact ⟨rfl, by omega⟩
  · have := ((hblock b).1 hb).2
    simp only [imageBlocks] at hlt
    omega

/-- The block map that `init_bigfile` writes. -/
lemma Shows.writeBigfileBmap {fs : Fs} {v : Volume} (h : fs.Shows v)
    (hv : ∀ b ∈ v.bmap, b ≤ imageBlocks) :
    (fs.sdwrite bigfileBmap 1 bmapSector).Shows { v with bmap := firstNumbers nblocks 2119 } := by
  have hw := writes_sdwrite fs bigfileBmap (n := 1) (s := bmapSector) (by decide)
  refine h.bmapWritten (hw.mono le_rfl (by decide)) ?_ fun b hb => hb.1
  have hlow : ∀ w < 64, (fs.sdwrite bigfileBmap 1 bmapSector).mapWord bmapSector w =
      if w < 33 then 0xffffffffffffffff else if w = 33 then 2 ^ 7 - 1 else 0 := by
    intro w hw'
    rw [mapWord_sdwrite (by decide) hw', bigfileBmap]
    split
    · rw [Bytes.get64, Bytes.getLE_setLE_of_disjoint (by omega)]
      exact (get64_fillWords _ _ ‹_›).trans (by norm_num)
    · split
      · rename_i heq
        subst heq
        exact Bytes.getLE_setLE _ 8 _ _
      · rw [Bytes.get64, Bytes.getLE_setLE_of_disjoint (by omega)]
        exact getLE_fillWords_of_le (by omega)
  have hhigh : ∀ w, 64 ≤ w → w < 2048 →
      (fs.sdwrite bigfileBmap 1 bmapSector).mapWord bmapSector w = fs.mapWord bmapSector w :=
    fun w hw' _ => hw.getLE (.inr (by simp only [nbytesPerSector]; omega))
  have hmem : ∀ w < 2048, ∀ k < 32, (64 * w + k + 1 ∈ firstNumbers nblocks 2119 ↔
      64 * w + k < 2119) := by
    intro w hw' k hk
    refine mem_firstNumbers_bit ?_ ⟨2048, rfl⟩ hk
    simp only [nblocks]
    omega
  refine ⟨fun w hw' => ?_, fun w hw' k hk => ?_⟩
  · by_cases h64 : w < 64
    · rw [hlow w h64]
      split
      · exact regular_full
      · split <;> exact Regular.of_lt (by norm_num)
    · rw [hhigh w (by omega) hw']
      exact h.bmap.regular w hw'
  · rw [hmem w hw' k hk]
    by_cases h64 : w < 64
    · rw [hlow w h64]
      split
      · rw [testBit_full, decide_eq_true_eq]
        omega
      · split
        · rw [Nat.testBit_two_pow_sub_one, decide_eq_true_eq]
          omega
        · rw [Nat.zero_testBit]
          simp only [Bool.false_eq_true, false_iff]
          omega
    · rw [hhigh w (by omega) hw', h.bmap.bit w hw' k hk]
      refine iff_of_false (fun hb => ?_) (by omega)
      have := hv _ hb
      simp only [imageBlocks] at this
      omega

/-- The blocks of a volume that differ from another's in none that the tree uses. -/
lemma Shows.fillBlock {fs : Fs} {v : Volume} (h : fs.Shows v) {b : ℕ} (hb : DataBlock b)
    (buf : Bytes) : (fs.fillBlock b buf).Shows { v with block := Function.update v.block b buf } :=
  (h.setBlockBuf buf).writeBlock hb

/-- `init_bigfile` behind `do_touch`. -/
lemma fillBigfile_stores {fs : Fs} {v : Volume} (h : fs.Shows v) (himap : v.imap = {1, 2})
    (hbmap : ∀ b ∈ v.bmap, b ≤ imageBlocks)
    (hdir : DirAt v 1 (freshEntries 1 1 ++ [⟨true, 2, bigfileName⟩]))
    (hroot : (v.inode 1).direct 0 = 71) (hindex : (v.inode 1).IndexAt)
    (htype : (v.inode 2).type = typeFile) (href : (v.inode 2).ref = 1)
    (hcwd : v.cwdInum = rootDirInum) :
    ∃ fs', fs.fillBigfile = some fs' ∧ fs'.Stores (imageTree v.fdescArray) := by
  obtain ⟨y, hy, hsame, hfits⟩ := h.readInode (n := 2) (by decide) (by decide)
  have hdata : ∀ b, 70 ≤ b → b < 2000 → DataBlock b := fun b hb hb' =>
    ⟨hb, by simp only [nblocks]; omega⟩
  obtain ⟨A, hA⟩ : ∃ f, f = fs.sdwrite bigfileBmap 1 bmapSector := ⟨_, rfl⟩
  have hsA := h.writeBigfileBmap hbmap
  rw [← hA] at hsA
  obtain ⟨B, hB⟩ : ∃ f, f = A.fillBlock 82 (Bytes.fill32 Bytes.zero 83 1024) := ⟨_, rfl⟩
  have hsB := hsA.fillBlock (hdata 82 (by decide) (by decide)) (Bytes.fill32 Bytes.zero 83 1024)
  rw [← hB] at hsB
  obtain ⟨C, hC⟩ : ∃ f, f = B.fillBlock 1107 (Bytes.set32 Bytes.zero 0 1108) := ⟨_, rfl⟩
  have hsC := hsB.fillBlock (hdata 1107 (by decide) (by decide)) (Bytes.set32 Bytes.zero 0 1108)
  rw [← hC] at hsC
  obtain ⟨D, hD⟩ : ∃ f, f = C.fillBlock 1108 (Bytes.fill32 Bytes.zero 1109 1014) := ⟨_, rfl⟩
  have hsD := hsC.fillBlock (hdata 1108 (by decide) (by decide)) (Bytes.fill32 Bytes.zero 1109 1014)
  rw [← hD] at hsD
  have hfits' : (bigfileInode y).Fits := by
    refine ⟨hfits.type, hfits.ref, fun i hi => ?_⟩
    have hi10 : i < 10 := hi
    simp only [bigfileInode, if_pos hi]
    omega
  obtain ⟨fs', hwrite, hs'⟩ := hsD.writeInode (n := 2) (by decide) (by decide) hfits'
  refine ⟨fs', ?_, _, hs', ?_⟩
  · have hinum : testBigFileInum = ((2 : ℕ) : ℤ) := rfl
    rw [Fs.fillBigfile, hinum, hy]
    simp only [Option.bind_eq_bind, Option.bind_some]
    rw [bmapStart_eq h.superblock, ← hA, ← hB, ← hC, ← hD]
    exact hwrite
  · have h12 : (1 : ℕ) ≠ 2 := by decide
    have hdirect : ∀ i < ndirectBlocks, (bigfileInode y).direct i = 72 + i := fun i hi => if_pos hi
    refine represents_image himap rfl (hdir.congr ?_ (fun i _ => ?_) ?_) ?_ ?_ ?_ (fun i hi => ?_)
      hcwd fun hone => indexes_image himap rfl hone (fun i hi => ?_) ?_ ?_ ?_ ?_ ?_
    · simp only [Function.update_of_ne h12]
    · simp only [Function.update_of_ne h12]
    · rw [hroot]
      dsimp only
      rw [Function.update_of_ne (by decide), Function.update_of_ne (by decide),
        Function.update_of_ne (by decide)]
    · simp only [Function.update_of_ne h12]
      exact hroot
    · simp only [Function.update_self]
      exact hsame.type.trans htype
    · simp only [Function.update_self]
      exact hsame.ref.trans href
    · simp only [Function.update_self]
      exact hdirect i hi
    · simp only [Function.update_self]
      exact hdirect i hi
    · simp only [Function.update_of_ne h12]
      exact hindex
    · simp only [Function.update_self]
      exact .inr ⟨rfl, rfl⟩
    · dsimp only
      rw [Function.update_of_ne (by decide), Function.update_of_ne (by decide), Function.update_self]
    · dsimp only
      rw [Function.update_of_ne (by decide), Function.update_self]
    · dsimp only
      rw [Function.update_self]

/-- `init_bigfile`: the entry of the big file gets inode 2. -/
lemma initBigfile_stores {fs : Fs} {v : Volume} (hs : fs.Shows v)
    (hr : Represents v (rootTree v.fdescArray)) (himap : v.imap = {1})
    (hbmap : ∀ b ∈ v.bmap, b ≤ imageBlocks) (hroot : (v.inode 1).direct 0 = 71)
    (hindex : (v.inode 1).IndexAt) :
    ∃ fs', fs.initBigfile = some fs' ∧ fs'.Stores (imageTree v.fdescArray) := by
  have hmem : ∀ n, n ∈ v.imap ↔ n = 1 := fun n => by rw [himap]; rfl
  have hnode : (rootTree v.fdescArray).node (rootTree v.fdescArray).cwd =
      some (.dir (freshEntries 1 1)) := rfl
  have htwo : Handed ninodes 2 := ⟨by decide, by decide, by decide⟩
  have hopen := hs.mapOpen_iff.2 ⟨2, htwo, fun h2 => absurd ((hmem 2).1 h2) (by decide)⟩
  obtain ⟨n, b, ticks, fs₁, c, halloc, htouch⟩ := hs.doTouch_created hr hnode
    (show 0 ∉ bigfileName by decide) (by decide) rfl hopen (by decide)
  obtain ⟨n', f, halloc', hhanded, hnew, hmin, -⟩ := hs.allocInode hopen
  obtain rfl : n' = n := by
    have heq : ((n' : ℕ) : ℤ) = n := by rw [← halloc, halloc']
    exact_mod_cast heq
  obtain rfl : n' = 2 := by
    by_contra hne
    have h1 : n' ≠ 1 := fun heq => hnew ((hmem n').2 heq)
    have h0 := hhanded.1
    exact absurd ((hmem 2).1 (hmin 2 (by omega) htwo)) (by decide)
  have h12 : (1 : ℕ) ≠ 2 := by decide
  have hone : ∀ w : Inode, Function.update v.inode 2 w 1 = v.inode 1 := fun w =>
    Function.update_of_ne h12 _ _
  obtain ⟨buf, fs₂, happend, hs₂, hr₂⟩ := c.enter (show 0 ∉ bigfileName by decide) (by decide)
    ⟨by decide, by decide⟩
  have hdir : DirAt _ 1 (freshEntries 1 1 ++ [⟨true, 2, bigfileName⟩]) := hr₂.node 1 _ rfl
  have himap' : insert 2 v.imap = {1, 2} := by
    rw [himap]
    exact Set.pair_comm 2 1
  obtain ⟨fs', hfill, hstores⟩ := fillBigfile_stores hs₂ himap' hbmap hdir
    ((congrArg (fun x => x.direct 0) (hone (newFile ticks))).trans hroot)
    ((congrArg Inode.IndexAt (hone (newFile ticks))).mpr hindex)
    (congrArg Inode.type (Function.update_self 2 (newFile ticks) v.inode))
    (congrArg Inode.ref (Function.update_self 2 (newFile ticks) v.inode)) hr.cwd
  refine ⟨fs', ?_, hstores⟩
  rw [Fs.initBigfile, htouch, happend]
  exact hfill

/-- The tree after `do_mkfs`. -/
theorem doMkfs_stores (fs : Fs) :
    ∃ fs', fs.doMkfs = some (0, fs') ∧ fs'.Stores (imageTree fs.fdescArray) := by
  have hs₀ := shows_maps (superblock_mkfsMaps fs) (firstBits_imap fs) (firstBits_bmap fs)
  obtain ⟨fs₀, hfs₀⟩ : ∃ f, f = fs.mkfsMaps := ⟨_, rfl⟩
  have hfd : fs.fdescArray = fs₀.fdescArray := by rw [hfs₀, fdescArray_mkfsMaps]
  rw [← hfs₀] at hs₀
  rw [hfd]
  obtain ⟨x, buf, fs₁, hinit, hdirect, hindex, hs₁, hr₁⟩ := initDirInode_image hs₀
  have hbmap : ∀ b ∈ insert 71 (firstNumbers nblocks 70), b ≤ imageBlocks := by
    rintro b (rfl | hb)
    · decide
    · exact hb.2.trans (by decide)
  have hroot : (Function.update fs₀.inode 1 x 1).direct 0 = 71 := by
    rw [Function.update_self, hdirect, if_pos rfl]
  have hindex' : (Function.update fs₀.inode 1 x 1).IndexAt := by
    rw [Function.update_self]
    exact hindex
  obtain ⟨fs', hbig, hstores⟩ :=
    initBigfile_stores hs₁ hr₁ (insert_empty_eq 1) hbmap hroot hindex'
  refine ⟨fs', ?_, hstores⟩
  rw [doMkfs, ← hfs₀, hinit]
  simp only [Option.bind_eq_bind, Option.bind_some, hbig]

lemma stores_of_doMkfs {fs fs' : Fs} {r : ℤ} (h : fs.doMkfs = some (r, fs')) :
    fs'.Stores (imageTree fs.fdescArray) := by
  obtain ⟨fs₁, hmkfs, hstores⟩ := doMkfs_stores fs
  rw [h, Option.some.injEq, Prod.mk.injEq] at hmkfs
  rw [hmkfs.2]
  exact hstores

end Fs
end UcasKernel
