/-
What `do_fwrite` stores in a file.

As in `do_fread` the request is cut at the block boundaries of the file, and each piece is
copied from the start of `buff`.  So a block behind the first one gets the bytes of the
buffer from index 0 again.  The blocks are those of the file or newly allocated ones; within
the ten direct blocks, and on a block map as the allocator leaves it, the loop touches no
other block that is marked.
-/
import UcasKernel.Fs.Exhaustion
import UcasKernel.Fs.Reading
import Mathlib.Data.Set.Card

namespace UcasKernel
namespace Fs

/-- The blocks that `alloc_block` can return, where `S` are the marked ones. -/
def freeBlocks (S : Set ℕ) : Set ℕ := {b | Handed nblocks b ∧ b ∉ S}

/-- The blocks of the map are marked as in `S`, and the direct blocks of the inode are
data blocks among them, each in one place. -/
structure OwnsIn (fs : Fs) (x : Inode) (S : Set ℕ) : Prop where
  superblock : fs.superblock = mkfsSuperblock
  bmap : fs.BitMap bmapSector nsectorsBmap fun i => i + 1 ∈ S
  metadata : ∀ b, Handed nblocks b → b < 70 → b ∈ S
  block : ∀ i < ndirectBlocks, x.direct i ≠ 0 → DataBlock (x.direct i) ∧ x.direct i ∈ S
  distinct : ∀ i < ndirectBlocks, ∀ j < ndirectBlocks, x.direct i ≠ 0 →
    x.direct i = x.direct j → i = j
  inRange : x.InRange

/-- The direct slots without a block that a request touches. -/
def missing (x : Inode) (offset n : ℕ) : Finset ℕ :=
  (Finset.range ndirectBlocks).filter fun k =>
    x.direct k = 0 ∧ offset < nbytesPerBlock * (k + 1) ∧ nbytesPerBlock * k < offset + n

/-- The index of the buffer whose byte the request stores at a position. -/
def stored (offset p : ℕ) : ℕ :=
  if p / nbytesPerBlock = offset / nbytesPerBlock then p - offset else p % nbytesPerBlock

section Blocks

variable {fs fs' : Fs} {x : Inode} {S : Set ℕ} {inum b k : ℕ}

lemma OwnsIn.setBlockBuf (h : OwnsIn fs x S) (buf : Bytes) :
    OwnsIn { fs with blockBuf := buf } x S :=
  ⟨h.superblock, ⟨h.bmap.regular, h.bmap.bit⟩, h.metadata, h.block, h.distinct, h.inRange⟩

/-- A write behind the maps. -/
lemma OwnsIn.writes {lo hi : ℕ} (h : OwnsIn fs x S) (hw : fs.Writes lo hi fs')
    (hlo : nbytesPerSector * inodeSector ≤ lo) : OwnsIn fs' x S :=
  ⟨hw.superblock.trans h.superblock, h.bmap.congr hw (.inl (le_trans (by decide) hlo)), h.metadata,
    h.block, h.distinct, h.inRange⟩

/-- A new block in a slot that has none. -/
lemma OwnsIn.setDirect (h : OwnsIn fs x S) (hw : fs.Writes (nbytesPerSector * bmapSector)
      (nbytesPerSector * imapSector) fs')
    (hmap : fs'.BitMap bmapSector nsectorsBmap fun i => i + 1 ∈ insert b S) (hb : DataBlock b)
    (hnot : b ∉ S) : OwnsIn fs' (x.setDirect k b) (insert b S) := by
  have hdirect : ∀ i, (x.setDirect k b).direct i = if i = k then b else x.direct i := fun i =>
    Function.update_apply ..
  refine ⟨hw.superblock.trans h.superblock, hmap, fun c hc hlt => .inr (h.metadata c hc hlt),
    fun i hi hne => ?_, fun i hi j hj hne heq => ?_, ?_⟩
  · rw [hdirect] at hne ⊢
    split
    · exact ⟨hb, .inl rfl⟩
    · rename_i hik
      rw [if_neg hik] at hne
      exact ⟨(h.block i hi hne).1, .inr (h.block i hi hne).2⟩
  · rw [hdirect] at hne
    rw [hdirect, hdirect] at heq
    by_cases hik : i = k
    · by_cases hjk : j = k
      · rw [hik, hjk]
      · rw [if_pos hik, if_neg hjk] at heq
        refine absurd (h.block j hj ?_).2 (heq ▸ hnot)
        rw [← heq]
        exact (by have := hb.1; omega)
    · rw [if_neg hik] at hne heq
      by_cases hjk : j = k
      · rw [if_pos hjk] at heq
        exact absurd (h.block i hi hne).2 (heq ▸ hnot)
      · rw [if_neg hjk] at heq
        exact h.distinct i hi j hj hne heq
  · have hrange := h.inRange
    refine ⟨⟨hrange.type, hrange.ref, fun i hi => ?_⟩, hrange.permission, hrange.size,
      hrange.timeCreated, hrange.indirect, hrange.doubleIndirect⟩
    rw [hdirect]
    split
    · exact lt_trans hb.2 (by decide)
    · exact hrange.direct i hi

/-- A free block is taken from the map. -/
lemma OwnsIn.allocBlock (h : OwnsIn fs x S) (hfree : (freeBlocks S).Nonempty) :
    ∃ b fs', fs.allocBlock = (b, fs') ∧ DataBlock b ∧ b ∈ freeBlocks S ∧
      fs'.BitMap bmapSector nsectorsBmap (fun i => i + 1 ∈ insert b S) ∧
      fs.Writes (nbytesPerSector * bmapSector) (nbytesPerSector * imapSector) fs' := by
  obtain ⟨b₀, hhanded, hnot⟩ := hfree
  obtain ⟨w₀, k₀, hk₀, hw₀, rfl⟩ := hhanded.bit
  obtain ⟨w, k, fs', hw, ⟨hk, hclear, -⟩, halloc, hmap, hwrites⟩ :=
    allocBlock_spec h.superblock h.bmap
      ⟨w₀, by simp only [nblocks] at hw₀; omega, k₀, hk₀, hnot⟩
  have hhanded' : Handed nblocks (64 * w + k + 1) :=
    handed_bit (by simp only [nblocks]; omega) (by decide) hk
  refine ⟨64 * w + k + 1, fs', halloc, ⟨?_, hhanded'.lt⟩, ⟨hhanded', hclear⟩,
    hmap.of_iff fun w' _ k' _ => ?_, hwrites⟩
  · by_contra hlt
    exact hclear (h.metadata _ hhanded' (by omega))
  · rw [Set.mem_insert_iff, or_comm]
    exact or_congr_left (by omega)

/-- What is there when the block of a piece is in the block buffer: it is the block of the
file, or a free one that the inode got. -/
structure Prepared (fs : Fs) (x : Inode) (S : Set ℕ) (k b : ℕ) (x' : Inode) (fs' : Fs)
    (S' : Set ℕ) : Prop where
  owns : OwnsIn fs' x' S'
  data : DataBlock b
  marked : b ∈ S'
  subset : S ⊆ S'
  direct : ∀ i, x'.direct i = if i = k then b else x.direct i
  fields : ∀ f : ℕ → ℕ, { x' with direct := f } = { x with direct := f }
  kept : ∀ c, DataBlock c → fs'.block c = fs.block c
  fdescArray : fs'.fdescArray = fs.fdescArray
  source : x.direct k = b ∧ S' = S ∧ fs'.blockBuf = fs.block b ∨
    x.direct k = 0 ∧ b ∈ freeBlocks S ∧ S' = insert b S ∧ fs'.blockBuf = Bytes.zero

lemma offsetToBlk_direct (fs : Fs) (x : Inode) {offset : ℕ}
    (hk : offset / nbytesPerBlock < ndirectBlocks) :
    fs.offsetToBlk offset x = (x.direct (offset / nbytesPerBlock), fs) := by
  rw [offsetToBlk]
  exact if_pos hk

/-- The block of a piece within the direct blocks. -/
lemma OwnsIn.fwriteBlock (h : OwnsIn fs x S) (hinum : 1 ≤ inum ∧ inum ≤ ninodes) {offset : ℕ}
    (hk : offset / nbytesPerBlock < ndirectBlocks)
    (hfree : x.direct (offset / nbytesPerBlock) = 0 → (freeBlocks S).Nonempty) :
    ∃ b x' fs' S', fs.fwriteBlock x inum offset = some (b, x', fs') ∧
      Prepared fs x S (offset / nbytesPerBlock) b x' fs' S' := by
  obtain ⟨k, hkdef⟩ : ∃ k, offset / nbytesPerBlock = k := ⟨_, rfl⟩
  rw [Fs.fwriteBlock, offsetToBlk_direct fs x hk]
  rw [hkdef] at hk hfree ⊢
  dsimp only
  by_cases h0 : x.direct k = 0
  · obtain ⟨b, fs₁, halloc, hb, hbfree, hmap, hw⟩ := h.allocBlock (hfree h0)
    have howns : OwnsIn fs₁ (x.setDirect k b) (insert b S) := h.setDirect hw hmap hb hbfree.2
    obtain ⟨fs₂, hwrite, hw₂, -⟩ := writeInode_spec howns.superblock hinum (x.setDirect k b)
    have hset : fs₁.setInodeBlkNum offset b x inum = some (x.setDirect k b, fs₂) := by
      rw [setInodeBlkNum, hkdef]
      dsimp only
      rw [if_pos hk, hwrite]
      rfl
    refine ⟨b, x.setDirect k b, { fs₂ with blockBuf := Bytes.zero }, insert b S, ?_, ?_⟩
    · rw [if_pos h0, halloc]
      simp only [hset, Option.bind_eq_bind, Option.bind_some]
    · refine ⟨(howns.writes hw₂ le_rfl).setBlockBuf _, hb, .inl rfl, Set.subset_insert _ _,
        fun i => Function.update_apply .., fun f => rfl, fun c hc => ?_, ?_,
        .inr ⟨h0, hbfree, rfl, rfl⟩⟩
      · have hbehind := dataBlock_behind hc
        calc fs₂.block c = fs₁.block c := hw₂.block (.inr hbehind)
          _ = fs.block c := hw.block (.inr (le_trans (by decide) hbehind))
      · exact hw₂.fdescArray.trans hw.fdescArray
  · have hblock := h.block k hk h0
    rw [if_neg h0]
    refine ⟨_, x, _, S, rfl, ?_⟩
    rw [readBlock_block h.superblock hblock.1.2]
    refine ⟨h.setBlockBuf _, hblock.1, hblock.2, subset_rfl, fun i => ?_, fun f => rfl,
      fun c _ => rfl, rfl, .inl ⟨rfl, rfl, rfl⟩⟩
    split
    · rename_i hik
      rw [hik]
    · rfl

/-- The piece is copied into the block buffer and the block is written. -/
def putPiece (fs : Fs) (b r l : ℕ) (buff : Bytes) : Fs :=
  ({ fs with blockBuf := Bytes.blit fs.blockBuf r buff 0 l } : Fs).writeBlock b

section PutPiece

variable {r l : ℕ} {buff : Bytes}

lemma putPiece_writes (h : OwnsIn fs x S) (hb : DataBlock b) :
    fs.Writes (blockBase b) (blockBase b + nbytesPerBlock) (fs.putPiece b r l buff) := by
  have hw := @writeBlock_writes { fs with blockBuf := Bytes.blit fs.blockBuf r buff 0 l } b
    h.superblock hb.2
  exact ⟨hw.superblock, hw.cwdInum, hw.fdescArray, hw.outside⟩

lemma OwnsIn.putPiece (h : OwnsIn fs x S) (hb : DataBlock b) :
    OwnsIn (fs.putPiece b r l buff) x S :=
  h.writes (putPiece_writes h hb) (le_trans (by decide) (dataBlock_behind hb))

/-- The bytes of the piece are those of the buffer, the others stay. -/
lemma block_putPiece (h : OwnsIn fs x S) (hb : DataBlock b) {j : ℕ} (hj : j < nbytesPerBlock) :
    (fs.putPiece b r l buff).block b j =
      if r ≤ j ∧ j < r + l then buff (j - r) else fs.blockBuf j := by
  rw [Fs.putPiece, block_writeBlock (by exact h.superblock) hb.2 hj]
  dsimp only
  rw [Bytes.blit]
  split
  · rw [Nat.zero_add]
  · rfl

lemma block_putPiece_of_ne (h : OwnsIn fs x S) (hb : DataBlock b) {c : ℕ} (hc : c ≠ b) :
    (fs.putPiece b r l buff).block c = fs.block c := by
  refine (putPiece_writes h hb).block ?_
  simp only [blockBase, nbytesPerSector, nbytesPerBlock]
  omega

end PutPiece

/-- One round of the loop within the direct blocks. -/
lemma OwnsIn.fwriteRound (h : OwnsIn fs x S) (hinum : 1 ≤ inum ∧ inum ≤ ninodes) {offset n : ℕ}
    (buff : Bytes) (hn : 0 < n) (hend : offset + n ≤ ndirectBlocks * nbytesPerBlock)
    (hfree : x.direct (offset / nbytesPerBlock) = 0 → (freeBlocks S).Nonempty) :
    ∃ b x' fs₁ S', Prepared fs x S (offset / nbytesPerBlock) b x' fs₁ S' ∧
      fs.fwriteRound x inum offset buff n =
        some (x', fs₁.putPiece b (offset % nbytesPerBlock) (piece offset n) buff,
          offset + piece offset n, ((n - piece offset n : ℕ) : ℤ)) := by
  have hk : offset / nbytesPerBlock < ndirectBlocks := by
    simp only [ndirectBlocks, nbytesPerBlock] at *
    omega
  have hint : offset % nbytesPerBlock + n < 2 ^ 31 := by
    simp only [ndirectBlocks, nbytesPerBlock] at *
    omega
  have hin : ¬ ((offset % nbytesPerBlock : ℕ) : ℤ) + (piece offset n : ℕ) > nbytesPerBlock := by
    simp only [piece, nbytesPerBlock]
    omega
  have hle := piece_le offset n
  have hnext : (offset + piece offset n) % 2 ^ 32 = offset + piece offset n := by
    simp only [ndirectBlocks, nbytesPerBlock] at hend
    omega
  obtain ⟨b, x', fs₁, S', hblock, hp⟩ := h.fwriteBlock hinum hk hfree
  refine ⟨b, x', fs₁, S', hp, ?_⟩
  rw [Fs.fwriteRound, hblock, Option.bind_some]
  dsimp only
  rw [pieceLen_eq hint, if_neg hin, Int.toNat_natCast, hnext, Int.ofNat_sub hle]
  rfl

end Blocks

/-! ## The loop -/

/-- What the loop leaves of a request within the direct blocks. -/
structure Stored (fs : Fs) (x : Inode) (S : Set ℕ) (offset n : ℕ) (buff : Bytes) (x' : Inode)
    (fs' : Fs) (S' : Set ℕ) : Prop where
  owns : OwnsIn fs' x' S'
  fields : ∀ f : ℕ → ℕ, { x' with direct := f } = { x with direct := f }
  kept : ∀ k, x.direct k ≠ 0 → x'.direct k = x.direct k
  fdescArray : fs'.fdescArray = fs.fdescArray
  bytes : ∀ p, offset ≤ p → p < offset + n → x'.direct (p / nbytesPerBlock) ≠ 0 ∧
    fs'.block (x'.direct (p / nbytesPerBlock)) (p % nbytesPerBlock) = buff (stored offset p)
  others : ∀ c, DataBlock c → c ∈ S → ∀ j < nbytesPerBlock,
    (∀ k < ndirectBlocks, x.direct k = c →
      ¬ (offset ≤ nbytesPerBlock * k + j ∧ nbytesPerBlock * k + j < offset + n)) →
    fs'.block c j = fs.block c j

section Loop

variable {fs : Fs} {x : Inode} {S : Set ℕ} {inum offset n fuel : ℕ} {buff : Bytes}

/-- The number of slots without a block goes down where one was filled. -/
lemma missing_card {x' : Inode} {b : ℕ} (hn : 0 < n)
    (hend : offset + n ≤ ndirectBlocks * nbytesPerBlock)
    (hdirect : ∀ i, x'.direct i = if i = offset / nbytesPerBlock then b else x.direct i) (hb : b ≠ 0) :
    (missing x' (offset + piece offset n) (n - piece offset n)).card +
        (if x.direct (offset / nbytesPerBlock) = 0 then 1 else 0) ≤ (missing x offset n).card := by
  have hle := piece_le offset n
  have hsub : ∀ k ∈ missing x' (offset + piece offset n) (n - piece offset n),
      k ∈ missing x offset n ∧ k ≠ offset / nbytesPerBlock := by
    intro k hk
    obtain ⟨hk10, h0, hlo, hhi⟩ := Finset.mem_filter.1 hk
    have hne : k ≠ offset / nbytesPerBlock := by
      rintro rfl
      rw [hdirect, if_pos rfl] at h0
      exact hb h0
    rw [hdirect, if_neg hne] at h0
    exact ⟨Finset.mem_filter.2 ⟨hk10, h0, by omega, by omega⟩, hne⟩
  split
  · rename_i h0
    have hmem : offset / nbytesPerBlock ∈ missing x offset n := by
      refine Finset.mem_filter.2 ⟨Finset.mem_range.2 ?_, h0, ?_, ?_⟩ <;>
        simp only [ndirectBlocks, nbytesPerBlock] at * <;> omega
    have hcard : (missing x' (offset + piece offset n) (n - piece offset n)).card ≤
        ((missing x offset n).erase (offset / nbytesPerBlock)).card := by
      refine Finset.card_le_card fun k hk => ?_
      exact Finset.mem_erase.2 ⟨(hsub k hk).2, (hsub k hk).1⟩
    rw [Finset.card_erase_of_mem hmem] at hcard
    have hpos := Finset.card_pos.2 ⟨_, hmem⟩
    omega
  · exact Finset.card_le_card fun k hk => (hsub k hk).1

/-- A block that was taken is no longer free. -/
lemma freeBlocks_insert (S : Set ℕ) (b : ℕ) : freeBlocks (insert b S) = freeBlocks S \ {b} := by
  ext c
  simp only [freeBlocks, Set.mem_ofPred_eq, Set.mem_insert_iff, Set.mem_sdiff, Set.mem_singleton_iff,
    not_or]
  tauto

/-- The free blocks after a round are enough for the rest. -/
lemma Prepared.free {fs' : Fs} {x' : Inode} {S' : Set ℕ} {b : ℕ}
    (hp : Prepared fs x S (offset / nbytesPerBlock) b x' fs' S') (hn : 0 < n)
    (hend : offset + n ≤ ndirectBlocks * nbytesPerBlock)
    (hfree : (missing x offset n).card ≤ (freeBlocks S).ncard) :
    (missing x' (offset + piece offset n) (n - piece offset n)).card ≤ (freeBlocks S').ncard := by
  have hb : b ≠ 0 := by
    have := hp.data.1
    omega
  have hcard := missing_card hn hend hp.direct hb
  rcases hp.source with ⟨hk, hS, -⟩ | ⟨h0, hbfree, hS, -⟩
  · rw [hS]
    omega
  · rw [if_pos h0] at hcard
    rw [hS, freeBlocks_insert, Set.ncard_sdiff_singleton_of_mem hbfree]
    omega

lemma Prepared.kept_direct {fs' : Fs} {x' : Inode} {S' : Set ℕ} {b k : ℕ}
    (hp : Prepared fs x S k b x' fs' S') {i : ℕ} (hi : x.direct i ≠ 0) :
    x'.direct i = x.direct i := by
  rw [hp.direct]
  split
  · rename_i hik
    subst hik
    rcases hp.source with ⟨hb, -⟩ | ⟨h0, -⟩
    · exact hb.symm
    · exact absurd h0 hi
  · rfl

/-- The first piece, and the rest behind it. -/
lemma Prepared.stored {fs₁ fs' : Fs} {x' y : Inode} {S' T : Set ℕ} {b : ℕ}
    (hp : Prepared fs x S (offset / nbytesPerBlock) b x' fs₁ S') (hn : 0 < n)
    (hend : offset + n ≤ ndirectBlocks * nbytesPerBlock)
    (hrest : Stored (fs₁.putPiece b (offset % nbytesPerBlock) (piece offset n) buff) x' S'
      (offset + piece offset n) (n - piece offset n) buff y fs' T) :
    Stored fs x S offset n buff y fs' T := by
  obtain ⟨k, hk⟩ : ∃ k, offset / nbytesPerBlock = k := ⟨_, rfl⟩
  obtain ⟨r, hr⟩ : ∃ r, offset % nbytesPerBlock = r := ⟨_, rfl⟩
  obtain ⟨l, hl⟩ : ∃ l, piece offset n = l := ⟨_, rfl⟩
  rw [hk] at hp
  rw [hl, hr] at hrest
  have hcut : offset = 4096 * k + r ∧ r < 4096 ∧ k < 10 ∧ l ≤ n ∧ r + l ≤ 4096 ∧
      (l = n ∨ r + l = 4096) := by
    simp only [piece, ndirectBlocks, nbytesPerBlock] at *
    omega
  obtain ⟨hoffset, hr', hk', hle, hin, hcut⟩ := hcut
  have hb0 : b ≠ 0 := by
    have := hp.data.1
    omega
  have hat : x'.direct k = b := by rw [hp.direct, if_pos rfl]
  refine ⟨hrest.owns, fun f => (hrest.fields f).trans (hp.fields f), fun i hi => ?_,
    hrest.fdescArray.trans hp.fdescArray, fun p hlo hhi => ?_, fun c hc hcS j hj hout => ?_⟩
  · rw [hrest.kept i (by rwa [hp.kept_direct hi]), hp.kept_direct hi]
  · by_cases hp1 : p < offset + l
    · -- the block of the first piece is not touched by the rest
      have hdiv : p / nbytesPerBlock = k := by
        simp only [nbytesPerBlock]
        omega
      have hmod : p % nbytesPerBlock = p - 4096 * k := by
        simp only [nbytesPerBlock]
        omega
      have hy : y.direct k = b := by rw [hrest.kept k (by rwa [hat]), hat]
      have hkeep := hrest.others b hp.data hp.marked (p % nbytesPerBlock) (Nat.mod_lt _ (by decide))
        fun i hi hib => ?_
      · rw [hdiv, hy, hkeep, block_putPiece hp.owns hp.data (Nat.mod_lt _ (by decide)), hmod,
          if_pos (by omega), Fs.stored, hdiv, if_pos hk.symm]
        refine ⟨hb0, congrArg buff ?_⟩
        omega
      · have hik : i = k := by
          refine hp.owns.distinct i hi k hk' ?_ (hib.trans hat.symm)
          rwa [hib]
        rw [hik, hmod]
        simp only [nbytesPerBlock]
        omega
    · have hbyte := hrest.bytes p (by omega) (by omega)
      refine ⟨hbyte.1, hbyte.2.trans (congrArg buff ?_)⟩
      have hfull : r + l = 4096 := by omega
      have hne : p / nbytesPerBlock ≠ offset / nbytesPerBlock := by
        simp only [nbytesPerBlock]
        omega
      rw [Fs.stored, Fs.stored, if_neg hne]
      by_cases hnext : p / nbytesPerBlock = (offset + l) / nbytesPerBlock
      · rw [if_pos hnext]
        simp only [nbytesPerBlock] at hnext ⊢
        omega
      · rw [if_neg hnext]
  · have hrest' := hrest.others c hc (hp.subset hcS) j hj fun i hi hic => ?_
    · rw [hrest']
      by_cases hcb : c = b
      · subst hcb
        rcases hp.source with ⟨hxk, -, hbuf⟩ | ⟨-, hfree, -⟩
        · have hnot := hout k hk' hxk
          simp only [nbytesPerBlock] at hnot
          rw [block_putPiece hp.owns hc hj, if_neg (by omega), hbuf]
        · exact absurd hcS hfree.2
      · rw [block_putPiece_of_ne hp.owns hp.data hcb, hp.kept c hc]
    · have hxi : x.direct i = c := by
        rw [hp.direct] at hic
        split at hic
        · rename_i hik
          rcases hp.source with ⟨hxk, -⟩ | ⟨-, hfree, -⟩
          · rw [hik, hxk, hic]
          · exact absurd hcS (hic ▸ hfree.2)
        · exact hic
      have hnot := hout i hi hxi
      omega

/-- The loop within the direct blocks stores the request. -/
lemma OwnsIn.fwriteLoop (h : OwnsIn fs x S) (hinum : 1 ≤ inum ∧ inum ≤ ninodes) (hfuel : n < fuel)
    (hend : offset + n ≤ ndirectBlocks * nbytesPerBlock)
    (hfree : (missing x offset n).card ≤ (freeBlocks S).ncard) :
    ∃ x' fs' S', Fs.fwriteLoop fuel fs x inum offset buff n = some (0, x', fs') ∧
      Stored fs x S offset n buff x' fs' S' := by
  induction fuel generalizing fs x S offset n with
  | zero => omega
  | succ fuel ih =>
    rcases Nat.eq_zero_or_pos n with rfl | hn
    · refine ⟨x, fs, S, ?_, h, fun _ => rfl, fun _ _ => rfl, rfl, fun p hlo hhi => by omega,
        fun _ _ _ _ _ _ => rfl⟩
      rw [Fs.fwriteLoop, if_pos (by simp)]
      rfl
    have hnonempty : x.direct (offset / nbytesPerBlock) = 0 → (freeBlocks S).Nonempty := by
      intro h0
      refine Set.nonempty_of_ncard_ne_zero ?_
      have hcard := @missing_card x offset n (x.setDirect (offset / nbytesPerBlock) 1) 1 hn hend
        (fun i => Function.update_apply ..) one_ne_zero
      rw [if_pos h0] at hcard
      omega
    obtain ⟨b, x', fs₁, S', hp, hround⟩ := h.fwriteRound hinum buff hn hend hnonempty
    have hle := piece_le offset n
    have hpos := @piece_pos offset n hn
    obtain ⟨y, fs', T, hloop, hrest⟩ := @ih (fs₁.putPiece b (offset % nbytesPerBlock)
      (piece offset n) buff) x' S' (offset + piece offset n) (n - piece offset n)
      (hp.owns.putPiece hp.data) (by omega) (by omega) (hp.free hn hend hfree)
    refine ⟨y, fs', T, ?_, hp.stored hn hend hrest⟩
    rw [fwriteLoop_succ (by omega), hround]
    exact hloop

end Loop

/-! ## The call -/

/-- The blocks whose bits are set in the block map. -/
def markedBlocks (fs : Fs) : Set ℕ := {b | fs.blockMarked b}

/-- The state after a write: the size and the offset of the descriptor, the bytes of the
request at the positions from the offset on, and the bytes of all blocks that were marked
before, the old ones of the file among them, but for those positions. -/
structure Written (fs : Fs) (fd : ℤ) (d : Fdesc) (x : Inode) (n : ℕ) (byte : ℕ → UInt8) (fs' : Fs)
    (y : Inode) : Prop where
  inode : fs'.readInode d.inum = some y
  fdesc : fs'.fdesc fd = some { d with offset := d.offset + n }
  size : y.size = max x.size (d.offset + n)
  bytes : ∀ i < n, fs'.block (y.direct ((d.offset + i) / nbytesPerBlock))
    ((d.offset + i) % nbytesPerBlock) = byte i
  kept : ∀ k < ndirectBlocks, x.direct k ≠ 0 → y.direct k = x.direct k
  others : ∀ c, DataBlock c → fs.blockMarked c → ∀ j < nbytesPerBlock,
    (∀ k < ndirectBlocks, x.direct k = c →
      ¬ (d.offset ≤ nbytesPerBlock * k + j ∧ nbytesPerBlock * k + j < d.offset + n)) →
    fs'.block c j = fs.block c j

/-- A write stores the bytes of the buffer in order. -/
def FwriteStores (fs : Fs) (fd : ℤ) (d : Fdesc) (x : Inode) (n : ℕ) (buff : Bytes) : Prop :=
  ∃ r fs' y, fs.doFwrite fd buff n = some (r, fs') ∧ Written fs fd d x n buff fs' y

section Call

variable {fs : Fs} {x : Inode} {fd : ℤ} {d : Fdesc} {inum n : ℕ} {buff : Bytes}

/-- The inode with the size it has after the write. -/
lemma grown_size (x : Inode) (m : ℕ) :
    (if m > x.size then { x with size := m } else x) = { x with size := max x.size m } := by
  split
  · rw [max_eq_right (by omega)]
  · rw [max_eq_left (by omega)]

/-- What a write within the direct blocks stores. -/
lemma doFwrite_written (hfd : fs.fdesc fd = some d) (hwrite : d.write = true)
    (hinum : d.inum = inum ∧ 1 ≤ inum ∧ inum ≤ ninodes) (hx : fs.readInode d.inum = some x)
    (h : OwnsIn fs x fs.markedBlocks) (hend : d.offset + n ≤ ndirectBlocks * nbytesPerBlock)
    (hfree : (missing x d.offset n).card ≤ (freeBlocks fs.markedBlocks).ncard) :
    ∃ fs' y, fs.doFwrite fd buff n = some (0, fs') ∧
      Written fs fd d x n (fun i => buff (stored d.offset (d.offset + i))) fs' y := by
  obtain ⟨hd, hinum⟩ := hinum
  have hend' : d.offset + n ≤ 40960 := hend
  have hmod : d.offset % 2 ^ 32 = d.offset := Nat.mod_eq_of_lt (by omega)
  have hgrow : (((d.offset : ℤ) + (n : ℕ)) % 2 ^ 32).toNat = d.offset + n := by omega
  obtain ⟨x₀, hx₀⟩ : ∃ x₀, x₀ = { x with size := max x.size (d.offset + n) } := ⟨_, rfl⟩
  obtain ⟨fs₀, hfs₀⟩ : ∃ fs₀, fs₀ = fs.setFdesc fd { d with offset := d.offset + n } := ⟨_, rfl⟩
  have hrange := h.inRange
  have howns : OwnsIn fs₀ x₀ fs.markedBlocks := by
    rw [hfs₀, hx₀]
    refine ⟨h.superblock, ⟨h.bmap.regular, h.bmap.bit⟩, h.metadata, h.block, h.distinct,
      ⟨hrange.type, hrange.ref, hrange.direct⟩, hrange.permission, ?_, hrange.timeCreated,
      hrange.indirect, hrange.doubleIndirect⟩
    exact max_lt hrange.size (by omega)
  have hfree₀ : (missing x₀ d.offset n).card ≤ (freeBlocks fs.markedBlocks).ncard := by
    rw [hx₀]
    exact hfree
  obtain ⟨y₀, fs₁, S', hloop, hs⟩ := @OwnsIn.fwriteLoop fs₀ x₀ fs.markedBlocks inum d.offset n (n + 1)
    buff howns hinum (Nat.lt_succ_self n) hend hfree₀
  obtain ⟨fs₂, hput, hw, -⟩ := writeInode_spec hs.owns.superblock hinum y₀
  have hagree := agree_inode_writeInode hs.owns.superblock hinum hs.owns.inRange hput
  have hblocks : ∀ c, DataBlock c → fs₂.block c = fs₁.block c := fun c hc =>
    hw.block (.inr (dataBlock_behind hc))
  refine ⟨fs₂, fs₂.inode inum, ?_, ?_, ?_, ?_, fun i hi => ?_, fun k hk hne => ?_,
    fun c hc hmarked j hj hout => ?_⟩
  · rw [Fs.doFwrite, hfd]
    simp only [Option.bind_eq_bind, Option.bind_some]
    rw [if_neg (by rw [hwrite]; decide), hx]
    simp only [Option.bind_some, hmod, hgrow, grown_size, Int.toNat_natCast]
    rw [← hx₀, ← hfs₀, hd, hloop]
    simp only [Option.bind_some, hput]
  · rw [hd, readInode_inode (hw.superblock.trans hs.owns.superblock) hinum]
  · have harray : fs₂.fdescArray = fs₀.fdescArray := hw.fdescArray.trans hs.fdescArray
    have hfdesc := @fdesc_setFdesc fs fd d fs hfd { d with offset := d.offset + n }
    rw [← hfs₀] at hfdesc
    rw [Fs.fdesc, harray]
    exact hfdesc
  · have hfields := congrArg Inode.size (hs.fields fun _ => 0)
    have hsize : y₀.size = x₀.size := hfields
    rw [hagree.size, hsize, hx₀]
  · obtain ⟨hne, hbyte⟩ := hs.bytes (d.offset + i) (by omega) (by omega)
    have hk : (d.offset + i) / nbytesPerBlock < ndirectBlocks := by
      simp only [ndirectBlocks, nbytesPerBlock]
      omega
    rw [hagree.direct _ hk, hblocks _ (hs.owns.block _ hk hne).1, hbyte]
  · have hkept : y₀.direct k = x₀.direct k := hs.kept k (by rwa [hx₀])
    rw [hagree.direct k hk, hkept, hx₀]
  · have hout₀ : ∀ k < ndirectBlocks, x₀.direct k = c → ¬ (d.offset ≤ nbytesPerBlock * k + j ∧
        nbytesPerBlock * k + j < d.offset + n) := by
      rw [hx₀]
      exact hout
    rw [hblocks c hc, hs.others c hc hmarked j hj hout₀, hfs₀]
    rfl

/-- A write stores the buffer exactly if each byte that goes to a later block than the first
is the one at its place in that block. -/
theorem fwriteStores_iff (hfd : fs.fdesc fd = some d) (hwrite : d.write = true)
    (hinum : d.inum = inum ∧ 1 ≤ inum ∧ inum ≤ ninodes) (hx : fs.readInode d.inum = some x)
    (h : OwnsIn fs x fs.markedBlocks) (hend : d.offset + n ≤ ndirectBlocks * nbytesPerBlock)
    (hfree : (missing x d.offset n).card ≤ (freeBlocks fs.markedBlocks).ncard) :
    fs.FwriteStores fd d x n buff ↔
      ∀ i < n, (d.offset + i) / nbytesPerBlock ≠ d.offset / nbytesPerBlock →
        buff ((d.offset + i) % nbytesPerBlock) = buff i := by
  obtain ⟨fs', y, hcall, hw⟩ := @doFwrite_written fs x fd d inum n buff hfd hwrite hinum hx h hend hfree
  have hstored : ∀ i, stored d.offset (d.offset + i) =
      if (d.offset + i) / nbytesPerBlock ≠ d.offset / nbytesPerBlock then
        (d.offset + i) % nbytesPerBlock else i := by
    intro i
    rw [stored, ite_not, Nat.add_sub_cancel_left]
  constructor
  · rintro ⟨r, fs₁, y₁, hcall₁, hw₁⟩ i hi hne
    rw [hcall, Option.some.injEq, Prod.mk.injEq] at hcall₁
    obtain ⟨-, rfl⟩ := hcall₁
    obtain rfl := Option.some.inj (hw.inode.symm.trans hw₁.inode)
    have hbyte := (hw.bytes i hi).symm.trans (hw₁.bytes i hi)
    rwa [hstored, if_pos hne] at hbyte
  · intro hall
    refine ⟨0, fs', y, hcall, hw.inode, hw.fdesc, hw.size, fun i hi => ?_, hw.kept, hw.others⟩
    rw [hw.bytes i hi, hstored]
    split
    · exact hall i hi ‹_›
    · rfl

end Call

/-! ## A file to write -/

/-- The card with the file of ten blocks, all blocks of the card marked. -/
def markedCard (size : ℕ) : Fs :=
  { stripedCard size with
    disk := fun a => if a < nbytesPerSector * imapSector then 255 else (stripedCard size).disk a }

section MarkedCard

variable {size : ℕ}

lemma mapWord_markedCard {w : ℕ} (hw : w < 64 * nsectorsBmap) :
    (markedCard size).mapWord bmapSector w = 0xffffffffffffffff := by
  calc (markedCard size).mapWord bmapSector w
      = Bytes.getLE (fun _ => 255) 8 0 := Bytes.getLE_congr fun k hk => by
        refine if_pos ?_
        simp only [nsectorsBmap] at hw
        simp only [nbytesPerSector, bmapSector, imapSector]
        omega
    _ = 0xffffffffffffffff := by decide

lemma marked_markedCard {b : ℕ} (hpos : 1 ≤ b) (hb : b ≤ nblocks) :
    b ∈ (markedCard size).markedBlocks := by
  refine ⟨hpos, mapBit_of_full (mapWord_markedCard ?_)⟩
  simp only [nblocks] at hb
  simp only [nsectorsBmap]
  omega

/-- The file of the card owns its ten blocks. -/
lemma ownsIn_markedCard (hsize : size < 2 ^ 32) :
    ∃ x, (markedCard size).readInode 1 = some x ∧
      OwnsIn (markedCard size) x (markedCard size).markedBlocks ∧
      ∀ i < ndirectBlocks, x.direct i = 71 + i := by
  have hsmall : ∀ i < ndirectBlocks, 71 + i < 2 ^ 32 := by
    intro i hi
    simp only [ndirectBlocks] at hi
    omega
  obtain ⟨y, hy, hfile⟩ := @readInode_fileCard (fileInode size fun i => 71 + i) ⟨1, true, true, 0⟩
    (fun b _ => UInt8.ofNat b) (inRange_fileInode hsize hsmall)
  have hy₁ : (stripedCard size).inode 1 = y :=
    Option.some.inj ((readInode_inode (n := 1) rfl (by decide)).symm.trans hy)
  have hagree : Inode.Agree ((markedCard size).inode 1) (fileInode size fun i => 71 + i) := by
    refine Inode.Agree.trans (agree_inode_of_disk (by decide) fun a ha => ?_) (hy₁ ▸ hfile)
    refine if_neg ?_
    have hlo := (slotBytes_subset (i := 1) (by decide) ha).1
    simp only [nbytesPerSector, imapSector, inodeSector] at *
    omega
  have hdirect : ∀ i < ndirectBlocks, ((markedCard size).inode 1).direct i = 71 + i := hagree.direct
  refine ⟨_, readInode_inode (n := 1) rfl (by decide), ⟨rfl, ⟨fun w hw => ?_, fun w hw k hk => ?_⟩,
    fun b hb _ => marked_markedCard hb.1 hb.2.1, fun i hi _ => ?_, fun i hi j hj _ heq => ?_,
    Inode.inRange_get _ _⟩, hdirect⟩
  · rw [mapWord_markedCard hw]
    refine ⟨by decide, fun i _ hi => ?_⟩
    rw [testBit_full, testBit_full, decide_eq_true hi]
    rfl
  · have hmarked : 64 * w + k + 1 ∈ (markedCard size).markedBlocks := by
      refine marked_markedCard (Nat.succ_pos _) ?_
      simp only [nsectorsBmap] at hw
      simp only [nblocks]
      omega
    rw [mapWord_markedCard hw, testBit_full]
    exact iff_of_true (decide_eq_true (by omega)) hmarked
  · rw [hdirect i hi]
    simp only [ndirectBlocks] at hi
    exact ⟨⟨by omega, by simp only [nblocks]; omega⟩,
      marked_markedCard (by omega) (by simp only [nblocks]; omega)⟩
  · rw [hdirect i hi, hdirect j hj] at heq
    omega

lemma missing_eq_empty {x : Inode} (hx : ∀ i < ndirectBlocks, x.direct i ≠ 0) (offset n : ℕ) :
    missing x offset n = ∅ :=
  Finset.filter_eq_empty_iff.2 fun i hi h => hx i (Finset.mem_range.1 hi) h.1

end MarkedCard

/-- Ten bytes are written at the end of the first block. -/
theorem fwriteStores_first :
    ∃ x, (markedCard 5000).readInode 1 = some x ∧
      (markedCard 5000).FwriteStores 0 ⟨1, true, true, 0⟩ x 10 fun i => UInt8.ofNat i := by
  obtain ⟨x, hx, howns, hdirect⟩ := @ownsIn_markedCard 5000 (by decide)
  have hmissing : missing x 0 10 = ∅ := missing_eq_empty (fun i hi => by rw [hdirect i hi]; omega) 0 10
  refine ⟨x, hx, (@fwriteStores_iff _ x 0 ⟨1, true, true, 0⟩ 1 10 _ rfl rfl (by decide) hx howns
    (by decide) ?_).2 fun i hi hne => ?_⟩
  · rw [hmissing]
    exact Nat.zero_le _
  · refine absurd ?_ hne
    simp only [nbytesPerBlock]
    omega

/-- A write of two blocks stores the first one twice. -/
theorem fwrite_not_stores :
    ∃ x, (markedCard 8192).readInode 1 = some x ∧
      OwnsIn (markedCard 8192) x (markedCard 8192).markedBlocks ∧
      ¬ (markedCard 8192).FwriteStores 0 ⟨1, true, true, 0⟩ x 8192 fun i => UInt8.ofNat (i / 4096) := by
  obtain ⟨x, hx, howns, hdirect⟩ := @ownsIn_markedCard 8192 (by decide)
  refine ⟨x, hx, howns, ?_⟩
  have hmissing : missing x 0 8192 = ∅ :=
    missing_eq_empty (fun i hi => by rw [hdirect i hi]; omega) 0 8192
  obtain ⟨fs', y, hcall, hw⟩ := @doFwrite_written _ x 0 ⟨1, true, true, 0⟩ 1 8192
    (fun i => UInt8.ofNat (i / 4096)) rfl rfl (by decide) hx howns (by decide)
    (by rw [hmissing]; exact Nat.zero_le _)
  rintro ⟨r, fs₁, y₁, hcall₁, hw₁⟩
  rw [hcall, Option.some.injEq, Prod.mk.injEq] at hcall₁
  obtain ⟨-, rfl⟩ := hcall₁
  obtain rfl := Option.some.inj (hw.inode.symm.trans hw₁.inode)
  exact absurd ((hw.bytes 4096 (by decide)).symm.trans (hw₁.bytes 4096 (by decide))) (by decide)

end Fs
end UcasKernel
