/-
Block ownership over runs of file-system calls.

A block is owned when an allocated inode reaches it: through a direct slot, an
index block, or an entry of an index block.  Ownership is sound when every owned
block lies in the data area, is marked in the block map, and is reached through
one slot of one inode only; otherwise `alloc_block` may hand out a block that
some file owns.

The image that `do_mkfs` builds is not sound.  The last three data blocks of
`8MB.dat`, entries 1011 to 1013 of its second-level index block, are 2120 to
2122, and the block map it starts with ends at block 2119.  The first call of
`alloc_block` on this image returns block 2120.
-/
import UcasKernel.Fs.Mkfs
import UcasKernel.Lib.Trace

namespace UcasKernel
namespace Fs

/-! ## Owned blocks -/

/-- Bit `i` of a bit map that starts at a sector of the card. -/
def mapBit (fs : Fs) (sector i : ℕ) : Bool :=
  (Bytes.get64 fs.disk (nbytesPerSector * sector + 8 * (i / 64))).testBit (i % 64)

/-- Inode `inum` is represented by bit `inum - 1` of the inode map. -/
def inodeAllocated (fs : Fs) (inum : ℕ) : Prop :=
  1 ≤ inum ∧ inum ≤ nbitsPerSector ∧
    fs.mapBit (fs.superblock.start + fs.superblock.imapOffset) (inum - 1) = true

/-- Block `b` is represented by bit `b - 1` of the block map. -/
def blockMarked (fs : Fs) (b : ℕ) : Prop :=
  1 ≤ b ∧ fs.mapBit (fs.superblock.start + fs.superblock.bmapOffset) (b - 1) = true

/-- The places of an inode and its index blocks that hold a block number. -/
inductive Slot
  | direct (i : Fin ndirectBlocks)
  | indirect
  | doubleIndirect
  | indirectEntry (k : Fin nindirectBlocks)
  | doubleEntry (k : Fin nindirectBlocks)
  | secondEntry (k l : Fin nindirectBlocks)
deriving DecidableEq

/-- Entry `k` of index block `b`; there is no index block 0. -/
def blockEntry (fs : Fs) (b k : ℕ) : ℕ :=
  if b = 0 then 0 else (fs.readBlock b).indexEntry k

/-- The block number in a slot of an inode, 0 when the slot is empty. -/
def slotBlock (fs : Fs) (inode : Inode) : Slot → ℕ
  | .direct i => inode.direct i
  | .indirect => inode.indirect
  | .doubleIndirect => inode.doubleIndirect
  | .indirectEntry k => fs.blockEntry inode.indirect k
  | .doubleEntry k => fs.blockEntry inode.doubleIndirect k
  | .secondEntry k l => fs.blockEntry (fs.blockEntry inode.doubleIndirect k) l

/-- Allocated inode `inum` has block `b` in the given slot. -/
def Owns (fs : Fs) (inum : ℕ) (slot : Slot) (b : ℕ) : Prop :=
  fs.inodeAllocated inum ∧ b ≠ 0 ∧
    ∃ inode, fs.readInode inum = some inode ∧ fs.slotBlock inode slot = b

/-- Every owned block lies in the data area, is marked, and has one owner. -/
structure BlockOwnership (fs : Fs) : Prop where
  dataArea : ∀ inum slot b, fs.Owns inum slot b → 70 ≤ b ∧ b ≤ 131071
  marked : ∀ inum slot b, fs.Owns inum slot b → fs.blockMarked b
  unique : ∀ inum slot inum' slot' b, fs.Owns inum slot b → fs.Owns inum' slot' b →
    inum = inum' ∧ slot = slot'

/-! ## Runs of system calls -/

/-- A C string: the bytes before its terminator. -/
def Path : Type := { p : List UInt8 // 0 ∉ p }

/-- The file-system calls with their arguments. -/
inductive Syscall
  | mkdir (path : Path)
  | rmdir (path : Path)
  | touch (path : Path)
  | rm (path : Path)
  | ln (srcPath dstPath : Path)
  | cd (path : Path)
  | fopen (path : Path) (mode : ℤ)
  | fread (fd : ℤ) (buff : Bytes) (length : ℤ)
  | fwrite (fd : ℤ) (buff : Bytes) (length : ℤ)
  | fclose (fd : ℤ)
  | lseek (fd offset whence : ℤ)

/-- The state after a call, if it returns. -/
def syscall (fs : Fs) : Syscall → Option Fs
  | .mkdir path => (fs.doMkdir path.1).map (·.2)
  | .rmdir path => (fs.doRmdir path.1).map (·.2)
  | .touch path => (fs.doTouch path.1).map (·.2)
  | .rm path => (fs.doRm path.1).map (·.2)
  | .ln srcPath dstPath => (fs.doLn srcPath.1 dstPath.1).map (·.2)
  | .cd path => (fs.doCd path.1).map (·.2)
  | .fopen path mode => (fs.doFopen path.1 mode).map (·.2)
  | .fread fd buff length => (fs.doFread fd buff length).map (·.2.2)
  | .fwrite fd buff length => (fs.doFwrite fd buff length).map (·.2)
  | .fclose fd => (fs.doFclose fd).map (·.2)
  | .lseek fd offset whence => (fs.doLseek fd offset whence).map (·.2)

/-! ## The image of `do_mkfs` -/

section AfterMkfs

variable {fs : Fs} (h : AfterMkfs fs)
include h

lemma inodeAllocated_bigfile : fs.inodeAllocated 2 := by
  refine ⟨by decide, by decide, ?_⟩
  rw [imapStart_eq h.superblock, mapBit, show 8 * ((2 - 1) / 64) = 0 by decide, Nat.add_zero, h.imap]
  rfl

/-- The entry of an index block is the integer on the card. -/
lemma blockEntry_eq {b k : ℕ} (h0 : b ≠ 0) (hb : b < 2 ^ 17) (hk : k < nindirectBlocks) :
    fs.blockEntry b k =
      Bytes.get32 fs.disk (nbytesPerSector * (0x100000 + 8 * b) + 4 * k) := by
  have hk' : k < 1024 := hk
  rw [blockEntry, if_neg h0, indexEntry, readBlock, blockSector_eq h.superblock hb, Bytes.get32,
    getLE_sdread _ (by simp only [nbytesPerSector, nsectorsPerBlock]; omega),
    Nat.mod_eq_of_lt (by omega)]

/-- The big file owns the blocks `1109 + k` through its second-level block. -/
lemma owns_bigfile {k : ℕ} (hk : k < 1014) :
    fs.Owns 2 (.secondEntry ⟨0, by decide⟩ ⟨k, hk.trans (by decide)⟩) (1109 + k) := by
  refine ⟨inodeAllocated_bigfile h, by omega, _, readInode_eq h.superblock (by decide), ?_⟩
  simp only [slotBlock, h.doubleIndirect]
  rw [blockEntry_eq h (b := 1107) (by decide) (by decide) (by decide), Nat.mul_zero, Nat.add_zero,
    h.index, blockEntry_eq h (by decide) (by decide) (hk.trans (by decide)), h.second k hk]

/-- The bits from number 2119 on of word 33 are clear. -/
lemma not_blockMarked {b : ℕ} (hb : 2120 ≤ b ∧ b ≤ 2176) : ¬ fs.blockMarked b := by
  rintro ⟨-, hbit⟩
  have hdiv : (b - 1) / 64 = 33 := by omega
  rw [bmapStart_eq h.superblock, mapBit, hdiv, h.bmap 33 (by decide), bigfileBmap, Bytes.get64,
    Bytes.getLE_setLE] at hbit
  have hlt : 0x7f % 256 ^ 8 < 2 ^ ((b - 1) % 64) :=
    calc 0x7f % 256 ^ 8 < 2 ^ 7 := by norm_num
      _ ≤ 2 ^ ((b - 1) % 64) := Nat.pow_le_pow_right (by decide) (by omega)
  rw [Nat.testBit_lt_two_pow hlt] at hbit
  exact Bool.noConfusion hbit

/-- The first block handed out on the image is 2120. -/
lemma allocBlock_afterMkfs : fs.allocBlock.1 = 2120 := by
  have hread : ∀ i < 64, Bytes.get64 (fs.sdread 1 bmapSector) (8 * (0 + i)) =
      Bytes.get64 bigfileBmap (8 * i) := by
    intro i hi
    rw [Bytes.get64, getLE_sdread _ (by simp only [nbytesPerSector]; omega), Nat.zero_add]
    exact h.bmap i hi
  have hfull : ∀ i < 33, Bytes.get64 bigfileBmap (8 * i) = 0xffffffffffffffff := by
    intro i hi
    rw [bigfileBmap, Bytes.get64, Bytes.getLE_setLE_of_disjoint (by omega)]
    exact (get64_fillWords _ _ hi).trans (by norm_num)
  have hopen : Bytes.get64 bigfileBmap (8 * 33) = 0x7f := Bytes.getLE_setLE _ 8 _ _
  have hscan := @scanWords_of_full (fs.sdread 1 bmapSector) 0 0 33 64 (by decide)
    (fun i hi => (hread i (by omega)).trans (hfull i hi))
    (by rw [hread 33 (by decide), hopen]; decide)
  rw [hread 33 (by decide), hopen] at hscan
  rw [allocBlock_of_finished h.superblock hscan, show trailingOnes 64 0x7f = 7 by decide]

end AfterMkfs

/-! ## Ownership is broken from the start -/

lemma not_blockOwnership {fs : Fs} (h : AfterMkfs fs) : ¬ BlockOwnership fs := by
  intro hown
  have hmarked := hown.marked _ _ _ (owns_bigfile h (k := 1011) (by decide))
  exact not_blockMarked h (by decide) hmarked

/-- Whatever the card held before, the image of `do_mkfs` breaks block
ownership, so no run of calls from it keeps it; and the first block the
allocator hands out is one of the big file. -/
theorem blockOwnership_never (fs₀ : Fs) :
    ∃ fs, fs₀.doMkfs = some (0, fs) ∧
      (∀ calls, ¬ Trace.Always syscall BlockOwnership fs calls) ∧
      ∃ slot, fs.Owns 2 slot fs.allocBlock.1 := by
  obtain ⟨fs, hmkfs, h⟩ := afterMkfs_doMkfs fs₀
  refine ⟨fs, hmkfs, fun calls hall => not_blockOwnership h hall.first, ?_⟩
  rw [allocBlock_afterMkfs h]
  exact ⟨_, owns_bigfile h (k := 1011) (by decide)⟩

/-- An empty card and a fresh boot. -/
def emptyCard : Fs where
  disk := Bytes.zero
  superblock := ⟨0, 0, 0, 0, 0, 0, 0, 0, 0⟩
  fdescArray := fun _ => Fdesc.zero
  blockBuf := Bytes.zero
  cwdInum := 1
  clock := id

/-- Formatting an empty card gives a state in which block 2120 belongs to the big
file, is not marked, and is the next block to be handed out. -/
theorem blockOwnership_emptyCard :
    ∃ fs, emptyCard.doMkfs = some (0, fs) ∧ ¬ BlockOwnership fs ∧
      fs.Owns 2 (.secondEntry ⟨0, by decide⟩ ⟨1011, by decide⟩) 2120 ∧
      ¬ fs.blockMarked 2120 ∧ fs.allocBlock.1 = 2120 := by
  obtain ⟨fs, hmkfs, h⟩ := afterMkfs_doMkfs emptyCard
  exact ⟨fs, hmkfs, not_blockOwnership h, owns_bigfile h (by decide), not_blockMarked h (by decide),
    allocBlock_afterMkfs h⟩

end Fs
end UcasKernel
