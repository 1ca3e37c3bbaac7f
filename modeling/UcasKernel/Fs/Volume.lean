/-
What the card holds, without its layout.

A `Volume` has the two maps as sets of numbers, and the inodes and blocks under
their numbers.  `Shows` relates it to the bytes of the card, and each function of
the block and inode layer becomes an update of one field.
-/
import UcasKernel.Fs.Bitmap
import UcasKernel.Fs.DirBlock
import Mathlib.Data.Set.Insert
import Mathlib.Order.CompletePartialOrder

namespace UcasKernel
namespace Fs

/-- The numbers up to a bound that the allocators can return. -/
def Handed (bound n : ℕ) : Prop := 1 ≤ n ∧ n ≤ bound ∧ (n - 1) % 64 < 32

/-- The number of bits of the inode map and of the block map. -/
def ninodes : ℕ := 4096
def nblocks : ℕ := 131072

/-- The content of the card, with the state of the kernel that is not on it. -/
structure Volume where
  imap : Set ℕ
  bmap : Set ℕ
  inode : ℕ → Inode
  block : ℕ → Bytes
  cwdInum : ℤ
  fdescArray : ℕ → Fdesc

/-- Block `b` lies behind the inodes. -/
def DataBlock (b : ℕ) : Prop := 70 ≤ b ∧ b < nblocks

/-- The card holds the volume. -/
structure Shows (fs : Fs) (v : Volume) : Prop where
  superblock : fs.superblock = mkfsSuperblock
  imap : fs.BitMap imapSector 1 fun x => x + 1 ∈ v.imap
  imap_handed : ∀ n ∈ v.imap, Handed ninodes n
  bmap : fs.BitMap bmapSector 32 fun x => x + 1 ∈ v.bmap
  bmap_handed : ∀ b ∈ v.bmap, Handed nblocks b
  inode : ∀ n, 1 ≤ n → n ≤ ninodes → Inode.Same (fs.inode n) (v.inode n)
  index : ∀ n, 1 ≤ n → n ≤ ninodes → Inode.SameIndex (fs.inode n) (v.inode n)
  block : ∀ b, DataBlock b → ∀ x < nbytesPerBlock, fs.block b x = v.block b x
  cwdInum : fs.cwdInum = v.cwdInum
  fdescArray : fs.fdescArray = v.fdescArray

/-- The fields of an inode fit into their bytes. -/
structure Inode.Fits (x : Inode) : Prop where
  type : x.type < 2 ^ 16
  ref : x.ref < 2 ^ 32
  direct : ∀ i < ndirectBlocks, x.direct i < 2 ^ 32

lemma Inode.fits_get (b : Bytes) (a : ℕ) : (Inode.get b a).Fits :=
  ⟨Bytes.getLE_lt b 2 a, Bytes.getLE_lt b 4 _, fun _ _ => Bytes.getLE_lt b 4 _⟩

lemma Handed.lt {b : ℕ} (h : Handed nblocks b) : b < nblocks := by
  obtain ⟨h1, h2, h3⟩ := h
  simp only [nblocks] at *
  omega

/-- The number of a bit. -/
lemma handed_bit {w k N : ℕ} (hw : 64 * w < N) (hN : 64 ∣ N) (hk : k < 32) :
    Handed N (64 * w + k + 1) := by
  obtain ⟨m, rfl⟩ := hN
  refine ⟨by omega, by omega, ?_⟩
  rw [Nat.add_sub_cancel]
  omega

/-- The bit of a number. -/
lemma Handed.bit {N n : ℕ} (h : Handed N n) :
    ∃ w k, k < 32 ∧ 64 * w < N ∧ n = 64 * w + k + 1 := by
  obtain ⟨h1, h2, h3⟩ := h
  exact ⟨(n - 1) / 64, (n - 1) % 64, h3, by omega, by omega⟩

section Shows

variable {fs fs' : Fs} {v : Volume}

/-- The block buffer and the clock are not part of the volume. -/
lemma Shows.of_disk (h : fs.Shows v) (hsb : fs'.superblock = fs.superblock)
    (hcwd : fs'.cwdInum = fs.cwdInum) (hfd : fs'.fdescArray = fs.fdescArray)
    (hdisk : fs'.disk = fs.disk) : fs'.Shows v := by
  have hw : fs.Writes 0 0 fs' := Writes.of_disk hsb hcwd hfd hdisk
  refine ⟨hsb.trans h.superblock, h.imap.congr hw (.inr (Nat.zero_le _)), h.imap_handed,
    h.bmap.congr hw (.inr (Nat.zero_le _)), h.bmap_handed, fun n hn hn' => ?_, fun n hn hn' => ?_,
    fun b hb x hx => ?_, hcwd.trans h.cwdInum, hfd.trans h.fdescArray⟩
  · rw [hw.inode hn' (.inl (Nat.zero_le _))]
    exact h.inode n hn hn'
  · rw [hw.inode hn' (.inl (Nat.zero_le _))]
    exact h.index n hn hn'
  · rw [hw.block (.inr (Nat.zero_le _))]
    exact h.block b hb x hx

lemma Shows.setBlockBuf (h : fs.Shows v) (buf : Bytes) :
    ({ fs with blockBuf := buf } : Fs).Shows v := h.of_disk rfl rfl rfl rfl

lemma Shows.setCwdInum (h : fs.Shows v) (n : ℤ) :
    ({ fs with cwdInum := n } : Fs).Shows { v with cwdInum := n } :=
  ⟨h.superblock, ⟨h.imap.regular, h.imap.bit⟩, h.imap_handed, ⟨h.bmap.regular, h.bmap.bit⟩,
    h.bmap_handed, h.inode, h.index, h.block, rfl, h.fdescArray⟩

lemma dataBlock_behind {b : ℕ} (hb : DataBlock b) :
    nbytesPerSector * (inodeSector + 512) ≤ blockBase b := by
  obtain ⟨hb, -⟩ := hb
  simp only [nbytesPerSector, inodeSector, blockBase]
  omega

/-- A write to the inode map. -/
lemma Shows.imapWritten {S : Set ℕ} (h : fs.Shows v)
    (hw : fs.Writes (nbytesPerSector * imapSector) (nbytesPerSector * inodeSector) fs')
    (hmap : fs'.BitMap imapSector 1 fun x => x + 1 ∈ S) (hS : ∀ n ∈ S, Handed ninodes n) :
    fs'.Shows { v with imap := S } := by
  refine ⟨hw.superblock.trans h.superblock, hmap, hS, h.bmap.congr hw (.inl (by decide)),
    h.bmap_handed, fun n hn hn' => ?_, fun n hn hn' => ?_, fun b hb x hx => ?_,
    hw.cwdInum.trans h.cwdInum, hw.fdescArray.trans h.fdescArray⟩
  · rw [hw.inode hn' (.inl le_rfl)]
    exact h.inode n hn hn'
  · rw [hw.inode hn' (.inl le_rfl)]
    exact h.index n hn hn'
  · rw [hw.block (.inr (le_trans (by decide) (dataBlock_behind hb)))]
    exact h.block b hb x hx

/-- A write to the block map. -/
lemma Shows.bmapWritten {S : Set ℕ} (h : fs.Shows v)
    (hw : fs.Writes (nbytesPerSector * bmapSector) (nbytesPerSector * imapSector) fs')
    (hmap : fs'.BitMap bmapSector 32 fun x => x + 1 ∈ S) (hS : ∀ b ∈ S, Handed nblocks b) :
    fs'.Shows { v with bmap := S } := by
  refine ⟨hw.superblock.trans h.superblock, h.imap.congr hw (.inr le_rfl), h.imap_handed, hmap, hS,
    fun n hn hn' => ?_, fun n hn hn' => ?_, fun b hb x hx => ?_, hw.cwdInum.trans h.cwdInum,
    hw.fdescArray.trans h.fdescArray⟩
  · rw [hw.inode hn' (.inl (by decide))]
    exact h.inode n hn hn'
  · rw [hw.inode hn' (.inl (by decide))]
    exact h.index n hn hn'
  · rw [hw.block (.inr (le_trans (by decide) (dataBlock_behind hb)))]
    exact h.block b hb x hx

/-! ## The maps -/

lemma Shows.mapOpen_iff (h : fs.Shows v) :
    fs.MapOpen imapSector 1 ↔ ∃ n, Handed ninodes n ∧ n ∉ v.imap := by
  rw [h.imap.open_iff]
  constructor
  · rintro ⟨w, hw, k, hk, hS⟩
    exact ⟨64 * w + k + 1, handed_bit (by simp only [ninodes]; omega) ⟨64, rfl⟩ hk, hS⟩
  · rintro ⟨n, hn, hS⟩
    obtain ⟨w, k, hk, hw, rfl⟩ := hn.bit
    exact ⟨w, by simp only [ninodes] at hw; omega, k, hk, hS⟩

/-- `alloc_inode` returns the least number that is not marked. -/
lemma Shows.allocInode (h : fs.Shows v) (hopen : fs.MapOpen imapSector 1) :
    ∃ (n : ℕ) (fs' : Fs), fs.allocInode = ((n : ℤ), fs') ∧ Handed ninodes n ∧ n ∉ v.imap ∧
      (∀ m < n, Handed ninodes m → m ∈ v.imap) ∧
      fs'.Shows { v with imap := insert n v.imap } := by
  obtain ⟨w, k, fs', hw, ⟨hk, hclear, hmin⟩, halloc, hmap, hwrites⟩ :=
    allocInode_spec h.superblock h.imap hopen
  have hhanded : Handed ninodes (64 * w + k + 1) :=
    handed_bit (by simp only [ninodes]; omega) ⟨64, rfl⟩ hk
  refine ⟨64 * w + k + 1, fs', halloc, hhanded, hclear, fun m hm hm' => ?_,
    h.imapWritten hwrites (hmap.of_iff fun w' _ k' _ => ?_) fun m hm => ?_⟩
  · obtain ⟨w', k', hk', -, rfl⟩ := hm'.bit
    exact hmin w' k' hk' (by omega)
  · rw [Set.mem_insert_iff, or_comm]
    exact or_congr_left (by omega)
  · rcases hm with rfl | hm
    · exact hhanded
    · exact h.imap_handed m hm

/-- `alloc_block` returns the least number that is not marked. -/
lemma Shows.allocBlock (h : fs.Shows v) (hopen : ∃ b, Handed nblocks b ∧ b ∉ v.bmap) :
    ∃ (b : ℕ) (fs' : Fs), fs.allocBlock = (b, fs') ∧ Handed nblocks b ∧ b ∉ v.bmap ∧
      (∀ c < b, Handed nblocks c → c ∈ v.bmap) ∧
      fs'.Shows { v with bmap := insert b v.bmap } := by
  have hopen' : ∃ w < 2048, ∃ k < 32, ¬ 64 * w + k + 1 ∈ v.bmap := by
    obtain ⟨b, hb, hS⟩ := hopen
    obtain ⟨w, k, hk, hw, rfl⟩ := hb.bit
    exact ⟨w, by simp only [nblocks] at hw; omega, k, hk, hS⟩
  obtain ⟨w, k, fs', hw, ⟨hk, hclear, hmin⟩, halloc, hmap, hwrites⟩ :=
    allocBlock_spec h.superblock h.bmap hopen'
  have hhanded : Handed nblocks (64 * w + k + 1) :=
    handed_bit (by simp only [nblocks]; omega) ⟨2048, rfl⟩ hk
  refine ⟨64 * w + k + 1, fs', halloc, hhanded, hclear, fun m hm hm' => ?_,
    h.bmapWritten hwrites (hmap.of_iff fun w' _ k' _ => ?_) fun m hm => ?_⟩
  · obtain ⟨w', k', hk', -, rfl⟩ := hm'.bit
    exact hmin w' k' hk' (by omega)
  · rw [Set.mem_insert_iff, or_comm]
    exact or_congr_left (by omega)
  · rcases hm with rfl | hm
    · exact hhanded
    · exact h.bmap_handed m hm

lemma Shows.freeInode (h : fs.Shows v) {n : ℕ} (hn : Handed ninodes n) :
    ∃ fs', fs.freeInode n = some fs' ∧ fs'.Shows { v with imap := v.imap \ {n} } := by
  obtain ⟨w, k, hk, hw, rfl⟩ := hn.bit
  obtain ⟨fs', hfree, hmap, hwrites⟩ :=
    freeInode_spec h.superblock h.imap (w := w) (by simp only [ninodes] at hw; omega) hk
  refine ⟨fs', hfree, h.imapWritten hwrites (hmap.of_iff fun w' _ k' _ => ?_) fun m hm =>
    h.imap_handed m hm.1⟩
  rw [Set.mem_sdiff, Set.mem_singleton_iff]
  exact and_congr_right fun _ => by omega

lemma Shows.freeBlock (h : fs.Shows v) {b : ℕ} (hb : Handed nblocks b) :
    ∃ fs', fs.freeBlock b = some fs' ∧ fs'.Shows { v with bmap := v.bmap \ {b} } := by
  obtain ⟨w, k, hk, hw, rfl⟩ := hb.bit
  obtain ⟨fs', hfree, hmap, hwrites⟩ :=
    freeBlock_spec h.superblock h.bmap (w := w) (by simp only [nblocks] at hw; omega) hk
  refine ⟨fs', hfree, h.bmapWritten hwrites (hmap.of_iff fun w' _ k' _ => ?_) fun m hm =>
    h.bmap_handed m hm.1⟩
  rw [Set.mem_sdiff, Set.mem_singleton_iff]
  exact and_congr_right fun _ => by omega

/-- The blocks in the direct slots `i .. i + n - 1` of an inode. -/
def directBlocks (x : Inode) (i n : ℕ) : Set ℕ := {b | ∃ j, i ≤ j ∧ j < i + n ∧ x.direct j = b}

lemma Shows.freeDirect {x : Inode} {i n : ℕ} (h : fs.Shows v)
    (hx : ∀ j, i ≤ j → j < i + n → x.direct j = 0 ∨ Handed nblocks (x.direct j)) :
    ∃ fs', fs.freeDirect x i n = some fs' ∧
      fs'.Shows { v with bmap := v.bmap \ directBlocks x i n } := by
  induction n generalizing fs v i with
  | zero =>
    have hempty : v.bmap \ directBlocks x i 0 = v.bmap := by
      refine sdiff_eq_left.2 (Set.disjoint_left.2 fun b _ hb => ?_)
      obtain ⟨j, hj, hj', -⟩ := hb
      omega
    exact ⟨fs, rfl, by rw [hempty]; exact h⟩
  | succ n ih =>
    have hsplit : ∀ b, b ∈ directBlocks x i (n + 1) ↔
        b = x.direct i ∨ b ∈ directBlocks x (i + 1) n := by
      intro b
      constructor
      · rintro ⟨j, hj, hj', rfl⟩
        rcases Nat.eq_or_lt_of_le hj with rfl | hlt
        · exact .inl rfl
        · exact .inr ⟨j, hlt, by omega, rfl⟩
      · rintro (rfl | ⟨j, hj, hj', rfl⟩)
        · exact ⟨i, le_rfl, by omega, rfl⟩
        · exact ⟨j, by omega, by omega, rfl⟩
    have hfree : ∃ fs₁, fs.freeBlock (toInt32 (x.direct i)) = some fs₁ ∧
        fs₁.Shows { v with bmap := v.bmap \ {x.direct i} } := by
      rcases hx i le_rfl (by omega) with h0 | hhanded
      · rw [h0]
        have hnone : v.bmap \ {0} = v.bmap := by
          refine Set.sdiff_singleton_eq_self fun hmem => ?_
          exact absurd (h.bmap_handed 0 hmem).1 (by decide)
        exact ⟨fs, rfl, by rw [hnone]; exact h⟩
      · have hlt := hhanded.lt
        have hint : toInt32 (x.direct i) = x.direct i := by
          rw [toInt32]
          refine Int.bmod_eq_of_le (by omega) ?_
          simp only [nblocks] at hlt
          omega
        rw [hint]
        exact h.freeBlock hhanded
    obtain ⟨fs₁, hfs₁, hshows⟩ := hfree
    obtain ⟨fs', hfs', hshows'⟩ := ih (i := i + 1) hshows fun j hj hj' => hx j (by omega) (by omega)
    refine ⟨fs', ?_, ?_⟩
    · rw [Fs.freeDirect, hfs₁]
      exact hfs'
    · have heq : v.bmap \ directBlocks x i (n + 1) =
          (v.bmap \ {x.direct i}) \ directBlocks x (i + 1) n := by
        ext b
        simp only [Set.mem_sdiff, Set.mem_singleton_iff, hsplit, not_or, and_assoc]
      rw [heq]
      exact hshows'

/-! ## Inodes and blocks -/

lemma Shows.readInode (h : fs.Shows v) {n : ℕ} (hn : 1 ≤ n) (hn' : n ≤ ninodes) :
    ∃ x, fs.readInode n = some x ∧ Inode.Same x (v.inode n) ∧ x.Fits :=
  ⟨fs.inode n, readInode_inode h.superblock ⟨hn, hn'⟩, h.inode n hn hn', Inode.fits_get _ _⟩

/-- The index blocks of an inode that was read. -/
lemma Shows.readInode_index (h : fs.Shows v) {n : ℕ} (hn : 1 ≤ n) (hn' : n ≤ ninodes) {x : Inode}
    (hx : fs.readInode n = some x) : Inode.SameIndex x (v.inode n) := by
  rw [readInode_inode h.superblock ⟨hn, hn'⟩] at hx
  obtain rfl := Option.some.inj hx
  exact h.index n hn hn'

lemma Shows.writeInode (h : fs.Shows v) {n : ℕ} (hn : 1 ≤ n) (hn' : n ≤ ninodes) {x : Inode}
    (hx : x.Fits) :
    ∃ fs', fs.writeInode n x = some fs' ∧
      fs'.Shows { v with inode := Function.update v.inode n x } := by
  obtain ⟨fs', hwrite, hw, htype, href, hdirect, hother⟩ :=
    writeInode_spec h.superblock ⟨hn, hn'⟩ x
  obtain ⟨hself, hkeep⟩ := writeInode_index h.superblock ⟨hn, hn'⟩ hwrite
  refine ⟨fs', hwrite, hw.superblock.trans h.superblock, h.imap.congr hw (.inl le_rfl),
    h.imap_handed, h.bmap.congr hw (.inl (by decide)), h.bmap_handed, fun m hm hm' => ?_,
    fun m hm hm' => ?_, fun b hb y hy => ?_, hw.cwdInum.trans h.cwdInum,
    hw.fdescArray.trans h.fdescArray⟩
  · by_cases hmn : m = n
    · subst hmn
      simp only [Function.update_self]
      refine ⟨?_, ?_, fun i hi => ?_⟩
      · rw [htype, Nat.mod_eq_of_lt hx.type]
      · rw [href, Nat.mod_eq_of_lt hx.ref]
      · rw [hdirect i hi, Nat.mod_eq_of_lt (hx.direct i hi)]
    · simp only [Function.update_of_ne hmn]
      exact (hother m ⟨hm, hm'⟩ hmn).trans (h.inode m hm hm')
  · by_cases hmn : m = n
    · subst hmn
      simp only [Function.update_self]
      exact hself
    · simp only [Function.update_of_ne hmn]
      obtain ⟨hindirect, hdouble⟩ := hkeep m ⟨hm, hm'⟩ hmn
      exact ⟨hindirect.trans (h.index m hm hm').indirect,
        hdouble.trans (h.index m hm hm').doubleIndirect⟩
  · rw [hw.block (.inr (dataBlock_behind hb))]
    exact h.block b hb y hy

lemma Shows.readBlock (h : fs.Shows v) {b : ℕ} (hb : DataBlock b) :
    (fs.readBlock b).Shows v ∧ ∀ x < nbytesPerBlock, (fs.readBlock b).blockBuf x = v.block b x := by
  rw [readBlock_block h.superblock hb.2]
  exact ⟨h.setBlockBuf _, h.block b hb⟩

lemma Shows.writeBlock (h : fs.Shows v) {b : ℕ} (hb : DataBlock b) :
    (fs.writeBlock b).Shows { v with block := Function.update v.block b fs.blockBuf } := by
  have hw := writeBlock_writes h.superblock hb.2
  have hbehind := dataBlock_behind hb
  refine ⟨hw.superblock.trans h.superblock, h.imap.congr hw (.inl (le_trans (by decide) hbehind)),
    h.imap_handed, h.bmap.congr hw (.inl (le_trans (by decide) hbehind)), h.bmap_handed,
    fun n hn hn' => ?_, fun n hn hn' => ?_, fun c hc x hx => ?_, hw.cwdInum.trans h.cwdInum,
    hw.fdescArray.trans h.fdescArray⟩
  · rw [hw.inode hn' (.inr hbehind)]
    exact h.inode n hn hn'
  · rw [hw.inode hn' (.inr hbehind)]
    exact h.index n hn hn'
  · by_cases hcb : c = b
    · subst hcb
      simp only [Function.update_self]
      exact block_writeBlock h.superblock hb.2 hx
    · simp only [Function.update_of_ne hcb]
      rw [hw.block]
      · exact h.block c hc x hx
      · simp only [blockBase, nbytesPerSector, nbytesPerBlock]
        omega

end Shows

end Fs
end UcasKernel
