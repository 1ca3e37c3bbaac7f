/-
What `do_fwrite` reads and writes on the card.

The functions `do_fwrite` calls once more, with a log of the sectors they pass to
`bios_sdwrite` and of the blocks they read and write as index blocks.  Without the log they
are the functions of the other modules.
-/
import UcasKernel.Fs.Exhaustion
import UcasKernel.Lib.Logged

namespace UcasKernel
namespace Fs

/-- A block that is read or written as an index block, or `n` sectors written from `s` on. -/
inductive Access
  | readIndex (blockNum : ℕ)
  | writeIndex (blockNum : ℕ)
  | write (n s : ℕ)

/-- A computation with what it does on the card. -/
abbrev AccessLog (α : Type) : Type := Logged Access α

/-- `bios_sdwrite`. -/
def sdwriteA (fs : Fs) (buf : Bytes) (n s : ℕ) : AccessLog Fs :=
  .tell (.write n (s % 2 ^ 32)) (some (fs.sdwrite buf n s))

/-- The loop of `alloc_block`. -/
def allocBlockLoopA (fs : Fs) (bmapStart bnum i : ℕ) : ℕ → AccessLog (ℕ × Fs)
  | 0 => pure (bnum, fs)
  | n + 1 => do
    let (buf, bnum, finished) := scanWords (fs.sdread 1 (bmapStart + i)) bnum 0 64
    let fs ← fs.sdwriteA buf 1 (bmapStart + i)
    if finished then pure (bnum, fs) else fs.allocBlockLoopA bmapStart bnum (i + 1) n

/-- `alloc_block`. -/
def allocBlockA (fs : Fs) : AccessLog (ℕ × Fs) := do
  let bmapStart := fs.superblock.start + fs.superblock.bmapOffset
  let (bnum, fs) ← fs.allocBlockLoopA bmapStart 0 0 nsectorsBmap
  pure (bnum + 1, fs)

/-- `write_block`. -/
def writeBlockA (fs : Fs) (blockNum : ℕ) : AccessLog Fs :=
  fs.sdwriteA fs.blockBuf nsectorsPerBlock (fs.blockSector blockNum)

/-- `write_inode`. -/
def writeInodeA (fs : Fs) (inodeNum : ℤ) (inode : Inode) : AccessLog Fs :=
  let (sector, offset) := fs.inodeSlot inodeNum
  if offset < 8 then
    fs.sdwriteA (Inode.put (fs.sdread 1 sector) (Inode.sizeof * offset) inode) 1 sector
  else .of none

/-- `read_block` of an index block. -/
def readIndexA (fs : Fs) (blockNum : ℕ) : AccessLog Fs :=
  .tell (.readIndex blockNum) (some (fs.readBlock blockNum))

/-- `write_block` of an index block. -/
def writeIndexA (fs : Fs) (blockNum : ℕ) : AccessLog Fs := do
  let fs ← .tell (.writeIndex blockNum) (some fs)
  fs.writeBlockA blockNum

/-- `offset_to_blk`. -/
def offsetToBlkA (fs : Fs) (offset : ℕ) (inode : Inode) : AccessLog (ℕ × Fs) :=
  let blkNum := offset / nbytesPerBlock
  if blkNum < ndirectBlocks then pure (inode.direct blkNum, fs)
  else if blkNum < ndirectBlocks + nindirectBlocks then do
    let fs ← fs.readIndexA inode.indirect
    pure (fs.indexEntry (blkNum - ndirectBlocks), fs)
  else do
    let blkNum := blkNum - (ndirectBlocks + nindirectBlocks)
    let dbIndirectOffset := blkNum / nindirectBlocks
    let indirectOffset := blkNum % nindirectBlocks
    let fs ← fs.readIndexA inode.doubleIndirect
    let fs ← fs.readIndexA (fs.indexEntry dbIndirectOffset)
    pure (fs.indexEntry indirectOffset, fs)

/-- `set_inode_blk_num`. -/
def setInodeBlkNumA (fs : Fs) (offset newBlk : ℕ) (inode : Inode) (inum : ℤ) :
    AccessLog (Inode × Fs) :=
  let blkNum := offset / nbytesPerBlock
  if blkNum < ndirectBlocks then do
    let inode := inode.setDirect blkNum newBlk
    let fs ← fs.writeInodeA inum inode
    pure (inode, fs)
  else if blkNum < ndirectBlocks + nindirectBlocks then do
    let fs ← fs.readIndexA inode.indirect
    let fs := fs.setIndexEntry (blkNum - ndirectBlocks) newBlk
    let fs ← fs.writeIndexA inode.indirect
    pure (inode, fs)
  else do
    let blkNum := blkNum - (ndirectBlocks + nindirectBlocks)
    let dbIndirectOffset := blkNum / nindirectBlocks
    let indirectOffset := blkNum % nindirectBlocks
    let fs ← fs.readIndexA inode.doubleIndirect
    let dbIndirectBlkNum := fs.indexEntry dbIndirectOffset
    let fs ← fs.readIndexA dbIndirectBlkNum
    let fs := fs.setIndexEntry indirectOffset newBlk
    let fs ← fs.writeIndexA dbIndirectBlkNum
    pure (inode, fs)

/-- The block of the next piece. -/
def fwriteBlockA (fs : Fs) (inode : Inode) (inum : ℤ) (offset : ℕ) :
    AccessLog (ℕ × Inode × Fs) := do
  let (blkNum, fs) ← fs.offsetToBlkA offset inode
  if blkNum = 0 then
    let (blkNum, fs) ← fs.allocBlockA
    let (inode, fs) ← fs.setInodeBlkNumA offset blkNum inode inum
    pure (blkNum, inode, { fs with blockBuf := Bytes.zero })
  else pure (blkNum, inode, fs.readBlock blkNum)

/-- One round of the loop. -/
def fwriteRoundA (fs : Fs) (inode : Inode) (inum : ℤ) (offset : ℕ) (buff : Bytes) (length : ℤ) :
    AccessLog (Inode × Fs × ℕ × ℤ) := do
  let (blkNum, inode, fs) ← fs.fwriteBlockA inode inum offset
  let inblkOffset := offset % nbytesPerBlock
  let len := pieceLen inblkOffset length
  if inblkOffset + len > nbytesPerBlock then .of none
  else
    let fs := { fs with blockBuf := Bytes.blit fs.blockBuf inblkOffset buff 0 len.toNat }
    let fs ← fs.writeBlockA blkNum
    pure (inode, fs, (offset + len.toNat) % 2 ^ 32, length - len)

/-- The loop of `do_fwrite`. -/
def fwriteLoopA : ℕ → Fs → Inode → ℤ → ℕ → Bytes → ℤ → AccessLog (ℤ × Inode × Fs)
  | 0, fs, inode, _, _, _, length => pure (length, inode, fs)
  | fuel + 1, fs, inode, inum, offset, buff, length =>
    if length ≤ 0 then pure (length, inode, fs)
    else do
      let (inode, fs, offset, length) ← fs.fwriteRoundA inode inum offset buff length
      fwriteLoopA fuel fs inode inum offset buff length

/-- `do_fwrite`. -/
def doFwriteA (fs : Fs) (fd : ℤ) (buff : Bytes) (length : ℤ) : AccessLog (ℤ × Fs) := do
  let fdesc ← .of (fs.fdesc fd)
  if !fdesc.write then pure (-1, fs)
  else
    let offset := fdesc.offset % 2 ^ 32
    let inode ← .of (fs.readInode fdesc.inum)
    let endOffset := ((offset + length) % 2 ^ 32).toNat
    let inode := if endOffset > inode.size then { inode with size := endOffset } else inode
    let fs := fs.setFdesc fd { fdesc with offset := endOffset }
    let (length, inode, fs) ←
      fwriteLoopA (length.toNat + 1) fs inode fdesc.inum offset buff length
    let fs ← fs.writeInodeA fdesc.inum inode
    pure (length, fs)

/-! ## Without the log -/

section Result

open Logged

variable (fs : Fs)

lemma result_allocBlockLoopA (bmapStart bnum i n : ℕ) :
    (fs.allocBlockLoopA bmapStart bnum i n).result = some (fs.allocBlockLoop bmapStart bnum i n) := by
  induction n generalizing fs bnum i with
  | zero => rfl
  | succ n ih =>
    rw [allocBlockLoopA, allocBlockLoop]
    rcases scanWords (fs.sdread 1 (bmapStart + i)) bnum 0 64 with ⟨buf, bnum', finished⟩
    dsimp only
    rw [result_bind, sdwriteA, result_tell, Option.bind_some]
    split
    · rfl
    · exact ih _ _ _

lemma result_allocBlockA : fs.allocBlockA.result = some fs.allocBlock := by
  rw [allocBlockA, allocBlock, result_bind, result_allocBlockLoopA, Option.bind_some]
  rcases fs.allocBlockLoop (fs.superblock.start + fs.superblock.bmapOffset) 0 0 nsectorsBmap with
    ⟨bnum, fs₁⟩
  rfl

lemma result_writeInodeA (inodeNum : ℤ) (inode : Inode) :
    (fs.writeInodeA inodeNum inode).result = fs.writeInode inodeNum inode := by
  rw [writeInodeA, writeInode]
  rcases fs.inodeSlot inodeNum with ⟨sector, offset⟩
  dsimp only
  split <;> rfl

lemma result_offsetToBlkA (offset : ℕ) (inode : Inode) :
    (fs.offsetToBlkA offset inode).result = some (fs.offsetToBlk offset inode) := by
  rw [offsetToBlkA, offsetToBlk]
  dsimp only
  split
  · rfl
  split <;> rfl

lemma result_setInodeBlkNumA (offset newBlk : ℕ) (inode : Inode) (inum : ℤ) :
    (fs.setInodeBlkNumA offset newBlk inode inum).result =
      fs.setInodeBlkNum offset newBlk inode inum := by
  rw [setInodeBlkNumA, setInodeBlkNum]
  dsimp only
  split
  · exact result_bind_congr (result_writeInodeA _ _ _) fun _ => rfl
  split <;> rfl

lemma result_fwriteBlockA (inode : Inode) (inum : ℤ) (offset : ℕ) :
    (fs.fwriteBlockA inode inum offset).result = fs.fwriteBlock inode inum offset := by
  rw [fwriteBlockA, fwriteBlock, result_bind, result_offsetToBlkA, Option.bind_some]
  rcases fs.offsetToBlk offset inode with ⟨blkNum, fs₁⟩
  dsimp only
  split
  · rw [result_bind, result_allocBlockA, Option.bind_some]
    exact result_bind_congr (result_setInodeBlkNumA _ _ _ _ _) fun _ => rfl
  · rfl

lemma result_fwriteRoundA (inode : Inode) (inum : ℤ) (offset : ℕ) (buff : Bytes) (length : ℤ) :
    (fs.fwriteRoundA inode inum offset buff length).result =
      fs.fwriteRound inode inum offset buff length := by
  rw [fwriteRoundA, fwriteRound]
  refine result_bind_congr (result_fwriteBlockA _ _ _ _) fun r => ?_
  dsimp only
  split <;> rfl

lemma result_fwriteLoopA (fuel : ℕ) (inode : Inode) (inum : ℤ) (offset : ℕ) (buff : Bytes)
    (length : ℤ) : (fwriteLoopA fuel fs inode inum offset buff length).result =
      fwriteLoop fuel fs inode inum offset buff length := by
  induction fuel generalizing fs inode offset length with
  | zero => rfl
  | succ fuel ih =>
    by_cases hlen : length ≤ 0
    · rw [fwriteLoopA, fwriteLoop, if_pos hlen, if_pos hlen, result_pure]
    · rw [fwriteLoopA, if_neg hlen, fwriteLoop_succ (not_le.1 hlen)]
      exact result_bind_congr (result_fwriteRoundA _ _ _ _ _ _) fun _ => ih _ _ _ _

/-- The log changes nothing. -/
theorem result_doFwriteA (fd : ℤ) (buff : Bytes) (length : ℤ) :
    (fs.doFwriteA fd buff length).result = fs.doFwrite fd buff length := by
  rw [doFwriteA, doFwrite]
  refine result_bind_congr (result_of _) fun fdesc => ?_
  split
  · rfl
  refine result_bind_congr (result_of _) fun inode => ?_
  refine result_bind_congr (result_fwriteLoopA _ _ _ _ _ _ _) fun _ => ?_
  exact result_bind_congr (result_writeInodeA _ _ _) fun _ => rfl

end Result

end Fs
end UcasKernel
