/-
Descriptors and file data, from `kernel/fs/fs.c`: the three-level block lookup
and the calls `fopen`, `fread`, `fwrite`, `fclose`, `lseek`.

C integers keep their widths: offsets are `uint32_t`, lengths and seek results
are `int`.  A descriptor number outside the table, and a `memcpy` that leaves
`block_buf`, have no defined result.
-/
import UcasKernel.Fs.Dir

namespace UcasKernel
namespace Fs

/-- Entry `k` of the index block in the block buffer. -/
def indexEntry (fs : Fs) (k : ℕ) : ℕ := Bytes.get32 fs.blockBuf (4 * k)

/-- `offset_to_blk`. -/
def offsetToBlk (fs : Fs) (offset : ℕ) (inode : Inode) : ℕ × Fs :=
  let blkNum := offset / nbytesPerBlock
  if blkNum < ndirectBlocks then (inode.direct blkNum, fs)
  else if blkNum < ndirectBlocks + nindirectBlocks then
    let fs := fs.readBlock inode.indirect
    (fs.indexEntry (blkNum - ndirectBlocks), fs)
  else
    let blkNum := blkNum - (ndirectBlocks + nindirectBlocks)
    let dbIndirectOffset := blkNum / nindirectBlocks
    let indirectOffset := blkNum % nindirectBlocks
    let fs := fs.readBlock inode.doubleIndirect
    let fs := fs.readBlock (fs.indexEntry dbIndirectOffset)
    (fs.indexEntry indirectOffset, fs)

/-- Store a block number in entry `k` of the index block in the block buffer. -/
def setIndexEntry (fs : Fs) (k newBlk : ℕ) : Fs :=
  { fs with blockBuf := Bytes.set32 fs.blockBuf (4 * k) newBlk }

/-- `set_inode_blk_num`, with the inode it updates. -/
def setInodeBlkNum (fs : Fs) (offset newBlk : ℕ) (inode : Inode) (inum : ℤ) :
    Option (Inode × Fs) :=
  let blkNum := offset / nbytesPerBlock
  if blkNum < ndirectBlocks then do
    let inode := inode.setDirect blkNum newBlk
    let fs ← fs.writeInode inum inode
    some (inode, fs)
  else if blkNum < ndirectBlocks + nindirectBlocks then
    let fs := fs.readBlock inode.indirect
    let fs := fs.setIndexEntry (blkNum - ndirectBlocks) newBlk
    some (inode, fs.writeBlock inode.indirect)
  else
    let blkNum := blkNum - (ndirectBlocks + nindirectBlocks)
    let dbIndirectOffset := blkNum / nindirectBlocks
    let indirectOffset := blkNum % nindirectBlocks
    let fs := fs.readBlock inode.doubleIndirect
    let dbIndirectBlkNum := fs.indexEntry dbIndirectOffset
    let fs := fs.readBlock dbIndirectBlkNum
    let fs := fs.setIndexEntry indirectOffset newBlk
    some (inode, fs.writeBlock dbIndirectBlkNum)

/-- `fdesc_array[fd]`. -/
def fdesc (fs : Fs) (fd : ℤ) : Option Fdesc :=
  if 0 ≤ fd ∧ fd < numFdescs then some (fs.fdescArray fd.toNat) else none

/-- Store a descriptor. -/
def setFdesc (fs : Fs) (fd : ℤ) (fdesc : Fdesc) : Fs :=
  { fs with fdescArray := Function.update fs.fdescArray fd.toNat fdesc }

/-- The `switch (mode)` of `do_fopen`: another mode leaves the permissions of
the slot as they were. -/
def openAs (fdesc : Fdesc) (inum mode : ℤ) : Fdesc :=
  if mode = 1 then { fdesc with inum := inum, read := true, write := false }
  else if mode = 2 then { fdesc with inum := inum, read := false, write := true }
  else if mode = 3 then { fdesc with inum := inum, read := true, write := true }
  else { fdesc with inum := inum }

/-- `do_fopen`. -/
def doFopen (fs : Fs) (path : List UInt8) (mode : ℤ) : Option (ℤ × Fs) := do
  let (inum, fs) ← fs.parsePath path fs.cwdInum
  if inum = 0 then some (-1, fs)
  else
    match (List.range numFdescs).find? fun i => (fs.fdescArray i).inum = 0 with
    | some i => some (i, fs.setFdesc i (openAs (fs.fdescArray i) inum mode))
    | none => some (-1, fs)

/-- The number of bytes of a request that lie in the block of `inblkOffset`. -/
def pieceLen (inblkOffset : ℕ) (length : ℤ) : ℤ :=
  if toInt32 (inblkOffset + length) > nbytesPerBlock then nbytesPerBlock - inblkOffset else length

/-- The loop of `do_fread`.  Every piece is copied to the start of `buff`. -/
def freadLoop : ℕ → Fs → Inode → ℕ → Bytes → ℤ → ℤ → Option (ℤ × Bytes × Fs)
  | 0, fs, _, _, buff, _, bytesRead => some (bytesRead, buff, fs)
  | fuel + 1, fs, inode, offset, buff, length, bytesRead =>
    if length ≤ 0 then some (bytesRead, buff, fs)
    else
      let (blkNum, fs) := fs.offsetToBlk offset inode
      if blkNum = 0 then some (bytesRead, buff, fs)
      else
        let inblkOffset := offset % nbytesPerBlock
        let len := pieceLen inblkOffset length
        let fs := fs.readBlock blkNum
        if inblkOffset + len > nbytesPerBlock then none
        else
          let buff := Bytes.blit buff 0 fs.blockBuf inblkOffset len.toNat
          freadLoop fuel fs inode ((offset + len.toNat) % 2 ^ 32) buff (length - len)
            (bytesRead + len)

/-- `do_fread`: the returned number, the user buffer and the new state.  Every
round of the loop takes at least one byte off `length`. -/
def doFread (fs : Fs) (fd : ℤ) (buff : Bytes) (length : ℤ) : Option (ℤ × Bytes × Fs) := do
  let fdesc ← fs.fdesc fd
  if !fdesc.read then some (-1, buff, fs)
  else
    let inode ← fs.readInode fdesc.inum
    let (bytesRead, buff, fs) ←
      freadLoop (length.toNat + 1) fs inode (fdesc.offset % 2 ^ 32) buff length 0
    let offset := ((fdesc.offset + bytesRead) % 2 ^ 64).toNat
    some (bytesRead, buff, fs.setFdesc fd { fdesc with offset := offset })

/-- The loop of `do_fwrite`.  Every piece is copied from the start of `buff`. -/
def fwriteLoop : ℕ → Fs → Inode → ℤ → ℕ → Bytes → ℤ → Option (ℤ × Inode × Fs)
  | 0, fs, inode, _, _, _, length => some (length, inode, fs)
  | fuel + 1, fs, inode, inum, offset, buff, length =>
    if length ≤ 0 then some (length, inode, fs)
    else do
      let (blkNum, fs) := fs.offsetToBlk offset inode
      let (blkNum, inode, fs) ←
        if blkNum = 0 then do
          let (blkNum, fs) := fs.allocBlock
          let (inode, fs) ← fs.setInodeBlkNum offset blkNum inode inum
          some (blkNum, inode, { fs with blockBuf := Bytes.zero })
        else some (blkNum, inode, fs.readBlock blkNum)
      let inblkOffset := offset % nbytesPerBlock
      let len := pieceLen inblkOffset length
      if inblkOffset + len > nbytesPerBlock then none
      else
        let fs := { fs with blockBuf := Bytes.blit fs.blockBuf inblkOffset buff 0 len.toNat }
        let fs := fs.writeBlock blkNum
        fwriteLoop fuel fs inode inum ((offset + len.toNat) % 2 ^ 32) buff (length - len)

/-- `do_fwrite`. -/
def doFwrite (fs : Fs) (fd : ℤ) (buff : Bytes) (length : ℤ) : Option (ℤ × Fs) := do
  let fdesc ← fs.fdesc fd
  if !fdesc.write then some (-1, fs)
  else
    let offset := fdesc.offset % 2 ^ 32
    let inode ← fs.readInode fdesc.inum
    let endOffset := ((offset + length) % 2 ^ 32).toNat
    let inode := if endOffset > inode.size then { inode with size := endOffset } else inode
    let fs := fs.setFdesc fd { fdesc with offset := endOffset }
    let (length, inode, fs) ←
      fwriteLoop (length.toNat + 1) fs inode fdesc.inum offset buff length
    let fs ← fs.writeInode fdesc.inum inode
    some (length, fs)

/-- `do_fclose`. -/
def doFclose (fs : Fs) (fd : ℤ) : Option (ℤ × Fs) := do
  let _ ← fs.fdesc fd
  some (0, fs.setFdesc fd Fdesc.zero)

/-- The `switch (whence)` of `do_lseek`; another `whence` leaves the result
uninitialised. -/
def seekOffset (curOffset fileSize offset whence : ℤ) : Option ℤ :=
  if whence = 0 then
    some (if offset ≥ 0 then (if offset > fileSize then fileSize else offset) else 0)
  else if whence = 1 then
    let sum := toInt32 (offset + curOffset)
    some (if offset ≥ 0 then (if sum > fileSize then fileSize else sum)
      else (if sum ≥ 0 then sum else 0))
  else if whence = 2 then
    let sum := toInt32 (fileSize + offset)
    some (if offset ≥ 0 then fileSize else (if sum ≥ 0 then sum else 0))
  else none

/-- `do_lseek`. -/
def doLseek (fs : Fs) (fd offset whence : ℤ) : Option (ℤ × Fs) := do
  let fdesc ← fs.fdesc fd
  let inode ← fs.readInode fdesc.inum
  let result ← seekOffset (toInt32 fdesc.offset) (toInt32 inode.size) offset whence
  some (result, fs.setFdesc fd { fdesc with offset := (result % 2 ^ 64).toNat })

end Fs
end UcasKernel
