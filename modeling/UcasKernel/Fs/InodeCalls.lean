/-
The inode numbers a call reads and writes.

Every call of `kernel/fs/fs.c` once more, with a log of the numbers it passes to
`read_inode` and `write_inode`, and the two calls that only print, `do_ls` and `do_cat`.
Without the log they are the functions of the other modules.
-/
import UcasKernel.Fs.Ownership
import UcasKernel.Lib.Logged

namespace UcasKernel
namespace Fs

/-- A computation with the inode numbers it uses. -/
abbrev InodeLog (α : Type) : Type := Logged ℤ α

/-- `read_inode`. -/
def readInodeL (fs : Fs) (inodeNum : ℤ) : InodeLog Inode := .tell inodeNum (fs.readInode inodeNum)

/-- `write_inode`. -/
def writeInodeL (fs : Fs) (inodeNum : ℤ) (inode : Inode) : InodeLog Fs :=
  .tell inodeNum (fs.writeInode inodeNum inode)

/-! ## Directories -/

/-- `parse_path`. -/
def parsePathLoopL : ℕ → Fs → List UInt8 → ℤ → InodeLog (ℤ × Fs)
  | 0, _, _, _ => .of none
  | fuel + 1, fs, path, cwndInum =>
    if path = [] then pure (cwndInum, fs)
    else if path.length ≥ 16 then .of none
    else do
      let next := (path.takeWhile (· ≠ 47)).length + 1
      let inode ← fs.readInodeL cwndInum
      let (scan, _, fs) ← .of (fs.scanBlocks inode (isNamed path) isUnused 0 0 ndirectBlocks)
      match scan with
      | .hit j =>
        let inum ← .of (dentryInum fs.blockBuf j)
        if next < 16 then parsePathLoopL fuel fs (path.drop next) (toInt32 inum) else .of none
      | _ => pure (0, fs)

def parsePathL (fs : Fs) (path : List UInt8) (cwndInum : ℤ) : InodeLog (ℤ × Fs) :=
  parsePathLoopL (path.length + 1) fs path cwndInum

/-- `do_cd`. -/
def doCdL (fs : Fs) (path : List UInt8) : InodeLog (ℤ × Fs) := do
  let (inum, fs) ← fs.parsePathL path fs.cwdInum
  if inum = 0 then pure (1, fs)
  else
    let newCwd ← fs.readInodeL inum
    if newCwd.type = typeFile then pure (1, fs)
    else pure (0, { fs with cwdInum := inum })

/-- `init_dir_inode`. -/
def initDirInodeL (fs : Fs) (parentInum : ℤ) : InodeLog (ℤ × Fs) := do
  let (inodeNum, fs) := fs.allocInode
  let (blockNum, fs) := fs.allocBlock
  let (ticks, fs) := fs.getTicks
  let inode := { Inode.zero with
    type := typeDirectory
    permission := 0b1111101101
    timeCreated := ticks
    ref := 1 }
  let fs ← fs.writeInodeL inodeNum (inode.setDirect 0 blockNum)
  let dentries := setDentry (setDentry Bytes.zero 0 inodeNum [46]) 1 parentInum [46, 46]
  let fs := { fs with blockBuf := Bytes.blit Bytes.zero 0 dentries 0 (2 * sizeofDentry) }
  pure (inodeNum, fs.writeBlock blockNum)

/-- `do_mkdir`. -/
def doMkdirL (fs : Fs) (path : List UInt8) : InodeLog (ℤ × Fs) := do
  let cwdInum := fs.cwdInum
  let cwd ← fs.readInodeL cwdInum
  if path.length > dentryNameLen then pure (1, fs)
  else
    let (scan, blockNum, fs) ← .of (fs.scanBlocks cwd (isNamed path) isUnused 0 0 ndirectBlocks)
    match scan with
    | .hit _ => pure (1, fs)
    | _ =>
      let (newDirInum, fs) ← fs.initDirInodeL cwdInum
      let fs ← .of ((fs.readBlock blockNum).appendDentry blockNum newDirInum path)
      pure (0, fs)

/-- `do_touch`. -/
def doTouchL (fs : Fs) (path : List UInt8) : InodeLog (ℤ × Fs) := do
  let cwd ← fs.readInodeL fs.cwdInum
  if path.length > dentryNameLen then pure (1, fs)
  else
    let (scan, blockNum, fs) ← .of (fs.scanBlocks cwd (isNamed path) isUnused 0 0 ndirectBlocks)
    match scan with
    | .hit _ => pure (1, fs)
    | _ =>
      let (newFileInum, fs) := fs.allocInode
      let (ticks, fs) := fs.getTicks
      let fs ← fs.writeInodeL newFileInum (newFile ticks)
      let fs ← .of ((fs.readBlock blockNum).appendDentry blockNum newFileInum path)
      pure (0, fs)

/-- `do_rmdir`. -/
def doRmdirL (fs : Fs) (path : List UInt8) : InodeLog (ℤ × Fs) := do
  let cwdInum := fs.cwdInum
  let (dirInum, fs) ← fs.parsePathL path cwdInum
  let cwdInode ← fs.readInodeL cwdInum
  let dirInode ← fs.readInodeL dirInum
  if dirInode.type = typeFile then pure (1, fs)
  else
    let endTest := fun buf i _ => isUnused buf i i
    let (scan, blockNum, fs) ← .of (fs.scanBlocks cwdInode (isNamed path) endTest 0 0 ndirectBlocks)
    match scan with
    | .stop _ => pure (1, fs)
    | _ =>
      let fs := match scan with
        | .hit j => fs.clearValid j
        | _ => fs
      let fs ← .of ((fs.writeBlock blockNum).freeInode dirInum)
      let fs ← .of (fs.freeDirect dirInode 0 ndirectBlocks)
      pure (0, fs)

/-- `do_ln`. -/
def doLnL (fs : Fs) (srcPath dstPath : List UInt8) : InodeLog (ℤ × Fs) := do
  if srcPath = dstPath then pure (1, fs)
  else
    let (srcInum, fs) ← fs.parsePathL srcPath fs.cwdInum
    let srcInode ← fs.readInodeL srcInum
    let srcInode := { srcInode with ref := (srcInode.ref + 1) % 2 ^ 32 }
    let cwdInode ← fs.readInodeL fs.cwdInum
    let (_, blockNum, fs) ← .of (fs.scanBlocks cwdInode never isUnused 0 0 ndirectBlocks)
    let fs ← .of (fs.appendDentry blockNum srcInum dstPath)
    let fs ← fs.writeInodeL srcInum srcInode
    pure (0, fs)

/-- `do_rm`. -/
def doRmL (fs : Fs) (path : List UInt8) : InodeLog (ℤ × Fs) := do
  let (fileInum, fs) ← fs.parsePathL path fs.cwdInum
  if fileInum = 0 then pure (1, fs)
  else
    let fileInode ← fs.readInodeL fileInum
    if fileInode.type ≠ typeFile then pure (1, fs)
    else
      let cwdInode ← fs.readInodeL fs.cwdInum
      let fileInode := { fileInode with ref := (fileInode.ref + (2 ^ 32 - 1)) % 2 ^ 32 }
      let (scan, blockNum, fs) ← .of (fs.scanBlocks cwdInode (isNamed path) never 0 0 ndirectBlocks)
      let fs := match scan with
        | .hit j => fs.clearValid j
        | _ => fs
      let fs := fs.writeBlock blockNum
      if fileInode.ref > 0 then
        let fs ← fs.writeInodeL fileInum fileInode
        pure (0, fs)
      else
        let fs ← .of (fs.freeInode fileInum)
        let fs ← .of (fs.freeDirect fileInode 0 ndirectBlocks)
        pure (0, fs)

/-! ## Descriptors -/

/-- `do_fopen`. -/
def doFopenL (fs : Fs) (path : List UInt8) (mode : ℤ) : InodeLog (ℤ × Fs) := do
  let (inum, fs) ← fs.parsePathL path fs.cwdInum
  if inum = 0 then pure (-1, fs)
  else
    match (List.range numFdescs).find? fun i => (fs.fdescArray i).inum = 0 with
    | some i => pure (i, fs.setFdesc i (openAs (fs.fdescArray i) inum mode))
    | none => pure (-1, fs)

/-- `do_fread`. -/
def doFreadL (fs : Fs) (fd : ℤ) (buff : Bytes) (length : ℤ) : InodeLog (ℤ × Bytes × Fs) := do
  let fdesc ← .of (fs.fdesc fd)
  if !fdesc.read then pure (-1, buff, fs)
  else
    let inode ← fs.readInodeL fdesc.inum
    let (bytesRead, buff, fs) ← .of
      (freadLoop (length.toNat + 1) fs inode (fdesc.offset % 2 ^ 32) buff length 0)
    let offset := ((fdesc.offset + bytesRead) % 2 ^ 64).toNat
    pure (bytesRead, buff, fs.setFdesc fd { fdesc with offset := offset })

/-- `set_inode_blk_num`. -/
def setInodeBlkNumL (fs : Fs) (offset newBlk : ℕ) (inode : Inode) (inum : ℤ) :
    InodeLog (Inode × Fs) :=
  if offset / nbytesPerBlock < ndirectBlocks then do
    let inode := inode.setDirect (offset / nbytesPerBlock) newBlk
    let fs ← fs.writeInodeL inum inode
    pure (inode, fs)
  else .of (fs.setInodeBlkNum offset newBlk inode inum)

/-- The loop of `do_fwrite`. -/
def fwriteLoopL : ℕ → Fs → Inode → ℤ → ℕ → Bytes → ℤ → InodeLog (ℤ × Inode × Fs)
  | 0, fs, inode, _, _, _, length => pure (length, inode, fs)
  | fuel + 1, fs, inode, inum, offset, buff, length =>
    if length ≤ 0 then pure (length, inode, fs)
    else do
      let (blkNum, fs) := fs.offsetToBlk offset inode
      let (blkNum, inode, fs) ←
        if blkNum = 0 then do
          let (blkNum, fs) := fs.allocBlock
          let (inode, fs) ← fs.setInodeBlkNumL offset blkNum inode inum
          pure (blkNum, inode, ({ fs with blockBuf := Bytes.zero } : Fs))
        else pure (blkNum, inode, fs.readBlock blkNum)
      let inblkOffset := offset % nbytesPerBlock
      let len := pieceLen inblkOffset length
      if inblkOffset + len > nbytesPerBlock then .of none
      else
        let fs := { fs with blockBuf := Bytes.blit fs.blockBuf inblkOffset buff 0 len.toNat }
        let fs := fs.writeBlock blkNum
        fwriteLoopL fuel fs inode inum ((offset + len.toNat) % 2 ^ 32) buff (length - len)

/-- `do_fwrite`. -/
def doFwriteL (fs : Fs) (fd : ℤ) (buff : Bytes) (length : ℤ) : InodeLog (ℤ × Fs) := do
  let fdesc ← .of (fs.fdesc fd)
  if !fdesc.write then pure (-1, fs)
  else
    let offset := fdesc.offset % 2 ^ 32
    let inode ← fs.readInodeL fdesc.inum
    let endOffset := ((offset + length) % 2 ^ 32).toNat
    let inode := if endOffset > inode.size then { inode with size := endOffset } else inode
    let fs := fs.setFdesc fd { fdesc with offset := endOffset }
    let (length, inode, fs) ←
      fwriteLoopL (length.toNat + 1) fs inode fdesc.inum offset buff length
    let fs ← fs.writeInodeL fdesc.inum inode
    pure (length, fs)

/-- `do_lseek`. -/
def doLseekL (fs : Fs) (fd offset whence : ℤ) : InodeLog (ℤ × Fs) := do
  let fdesc ← .of (fs.fdesc fd)
  let inode ← fs.readInodeL fdesc.inum
  let result ← .of (seekOffset (toInt32 fdesc.offset) (toInt32 inode.size) offset whence)
  pure (result, fs.setFdesc fd { fdesc with offset := (result % 2 ^ 64).toNat })

/-! ## The calls that print -/

/-- The values of `option` in `do_ls`. -/
def defaultMode : ℤ := 0
def allMode : ℤ := 1
def longMode : ℤ := 2

/-- What `print_dentry` prints of an entry: its name, and before it in a long list the type,
the size and the time of its inode. -/
inductive Line
  | name (name : List UInt8)
  | long (type size timeCreated : ℕ) (name : List UInt8)
deriving DecidableEq, Repr

/-- The name of entry `j` in a copy of the entry; a name that does not end inside the entry
is read past the copy. -/
def dentryName (buf : Bytes) (j : ℕ) : Option (List UInt8) :=
  if sizeofDentry * (j + 1) ≤ nbytesPerBlock then
    let bytes := (List.range (sizeofDentry - 8)).map fun i => buf (sizeofDentry * j + 8 + i)
    if 0 ∈ bytes then some (bytes.takeWhile (· ≠ 0)) else none
  else none

/-- `print_dentry` for entry `j` of the block buffer. -/
def printDentryL (fs : Fs) (j : ℕ) (option : ℤ) : InodeLog (List Line) := do
  let name ← .of (dentryName fs.blockBuf j)
  if option = defaultMode then pure (if name.head? = some 46 then [] else [.name name])
  else if option = allMode then pure [.name name]
  else if option = longMode then
    let inum ← .of (dentryInum fs.blockBuf j)
    let inode ← fs.readInodeL (toInt32 inum)
    if inode.type = typeFile ∨ inode.type = typeDirectory then
      pure [.long inode.type inode.size inode.timeCreated name]
    else .of none
  else pure []

/-- The inner loop of `do_ls` over the entries `j .. j + n - 1` of the block buffer. -/
def lsEntriesL (fs : Fs) (option : ℤ) (j : ℕ) : ℕ → InodeLog (List Line)
  | 0 => pure []
  | n + 1 => do
    if ← .of (dentryValid fs.blockBuf j) then
      let line ← fs.printDentryL j option
      let rest ← fs.lsEntriesL option (j + 1) n
      pure (line ++ rest)
    else if (← .of (dentryInum fs.blockBuf j)) = 0 then pure []
    else fs.lsEntriesL option (j + 1) n

/-- The outer loop of `do_ls` over the direct blocks `i .. i + n - 1`. -/
def lsBlocksL (fs : Fs) (inode : Inode) (option : ℤ) (i : ℕ) : ℕ → InodeLog (List Line × Fs)
  | 0 => pure ([], fs)
  | n + 1 =>
    if inode.direct i = 0 then pure ([], fs)
    else do
      let fs := fs.readBlock (inode.direct i)
      let lines ← fs.lsEntriesL option 0 ndentriesPerBlock
      let (rest, fs) ← fs.lsBlocksL inode option (i + 1) n
      pure (lines ++ rest, fs)

/-- `do_ls`: the returned number, the lines it prints and the new state. -/
def doLsL (fs : Fs) (path : List UInt8) (option : ℤ) : InodeLog (ℤ × List Line × Fs) := do
  let (inum, fs) ← fs.parsePathL path fs.cwdInum
  let inode ← fs.readInodeL inum
  if inode.type = typeFile then pure (1, [], fs)
  else
    let (lines, fs) ← fs.lsBlocksL inode option 0 ndirectBlocks
    pure (0, lines, fs)

/-- The inner loop of `do_cat` over the pieces `j .. j + n - 1` of the block buffer: what it
prints, and whether it came to the end of the text. -/
def catPieces (buf : Bytes) (j : ℕ) : ℕ → List UInt8 × Bool
  | 0 => ([], false)
  | n + 1 =>
    if buf (j * 32) = 0 then ([], true)
    else
      let piece := ((List.range 32).map fun i => buf (j * 32 + i)).takeWhile (· ≠ 0)
      let (rest, finished) := catPieces buf (j + 1) n
      (piece ++ rest, finished)

/-- The outer loop of `do_cat` over the direct blocks `i .. i + n - 1`; it has no test for a
block that is missing. -/
def catBlocks (fs : Fs) (inode : Inode) (i : ℕ) : ℕ → List UInt8 × Fs
  | 0 => ([], fs)
  | n + 1 =>
    let fs := fs.readBlock (inode.direct i)
    let (text, finished) := catPieces fs.blockBuf 0 128
    if finished then (text, fs)
    else
      let (rest, fs) := fs.catBlocks inode (i + 1) n
      (text ++ rest, fs)

/-- `do_cat`: the returned number, the text it prints and the new state. -/
def doCatL (fs : Fs) (path : List UInt8) : InodeLog (ℤ × List UInt8 × Fs) := do
  let (inum, fs) ← fs.parsePathL path fs.cwdInum
  let inode ← fs.readInodeL inum
  if inode.type = typeDirectory then pure (1, [], fs)
  else
    let (text, fs) := fs.catBlocks inode 0 ndirectBlocks
    pure (0, text, fs)

/-! ## Formatting -/

/-- `init_bigfile` behind `do_touch`. -/
def fillBigfileL (fs : Fs) : InodeLog Fs := do
  let bigFile ← fs.readInodeL testBigFileInum
  let fs := fs.sdwrite bigfileBmap 1 (fs.superblock.start + fs.superblock.bmapOffset)
  let fs := fs.fillBlock 82 (Bytes.fill32 Bytes.zero 83 1024)
  let fs := fs.fillBlock 1107 (Bytes.set32 Bytes.zero 0 1108)
  let fs := fs.fillBlock 1108 (Bytes.fill32 Bytes.zero 1109 1014)
  fs.writeInodeL testBigFileInum (bigfileInode bigFile)

/-- `init_bigfile`. -/
def initBigfileL (fs : Fs) : InodeLog Fs := do
  let (_, fs) ← fs.doTouchL bigfileName
  fs.fillBigfileL

/-- `do_mkfs`. -/
def doMkfsL (fs : Fs) : InodeLog (ℤ × Fs) := do
  let (_, fs) ← fs.mkfsMaps.initDirInodeL rootDirInum
  let fs ← ({ fs with cwdInum := rootDirInum } : Fs).initBigfileL
  pure (0, fs)

/-! ## Without the log -/

open Logged

lemma result_parsePathLoopL (fuel : ℕ) (fs : Fs) (path : List UInt8) (n : ℤ) :
    (parsePathLoopL fuel fs path n).result = parsePathLoop fuel fs path n := by
  induction fuel generalizing fs path n with
  | zero => rfl
  | succ fuel ih =>
    rw [parsePathLoopL, parsePathLoop]
    split
    · rfl
    split
    · rfl
    refine result_bind_congr rfl fun inode => result_bind_congr rfl fun ⟨scan, _, fs₁⟩ => ?_
    cases scan with
    | stop j | past => rfl
    | hit j =>
      refine result_bind_congr rfl fun inum => ?_
      rw [apply_ite result, ih]
      rfl

lemma result_parsePathL (fs : Fs) (path : List UInt8) (n : ℤ) :
    (fs.parsePathL path n).result = fs.parsePath path n := result_parsePathLoopL _ fs path n

lemma result_doCdL (fs : Fs) (path : List UInt8) : (fs.doCdL path).result = fs.doCd path := by
  rw [doCdL, doCd]
  refine result_bind_congr (result_parsePathL fs path _) fun ⟨inum, fs₁⟩ => ?_
  dsimp only
  split
  · rfl
  · refine result_bind_congr rfl fun newCwd => ?_
    split <;> rfl

lemma result_initDirInodeL (fs : Fs) (parentInum : ℤ) :
    (fs.initDirInodeL parentInum).result = fs.initDirInode parentInum := by
  rw [initDirInodeL, initDirInode]
  rcases fs.allocInode with ⟨inodeNum, fs₁⟩
  rcases fs₁.allocBlock with ⟨blockNum, fs₂⟩
  rcases fs₂.getTicks with ⟨ticks, fs₃⟩
  dsimp only
  exact result_bind_congr rfl fun _ => rfl

lemma result_doMkdirL (fs : Fs) (path : List UInt8) :
    (fs.doMkdirL path).result = fs.doMkdir path := by
  rw [doMkdirL, doMkdir]
  refine result_bind_congr (result_tell _ _) fun cwd => ?_
  split
  · rfl
  refine result_bind_congr (result_of _) fun ⟨scan, blockNum, fs₁⟩ => ?_
  cases scan with
  | hit j =>
    dsimp only
    exact result_pure _
  | stop j | past =>
    dsimp only
    refine result_bind_congr (result_initDirInodeL fs₁ _) fun p => ?_
    refine result_bind_congr (result_of _) fun _ => ?_
    exact result_pure _

lemma result_doTouchL (fs : Fs) (path : List UInt8) :
    (fs.doTouchL path).result = fs.doTouch path := by
  rw [doTouchL, doTouch]
  refine result_bind_congr (result_tell _ _) fun cwd => ?_
  split
  · rfl
  refine result_bind_congr (result_of _) fun r => ?_
  obtain ⟨scan, blockNum, fs₁⟩ := r
  cases scan with
  | hit j =>
    dsimp only
    exact result_pure _
  | stop j | past =>
    dsimp only
    rcases fs₁.allocInode with ⟨newFileInum, fs₂⟩
    rcases fs₂.getTicks with ⟨ticks, fs₃⟩
    dsimp only
    refine result_bind_congr (result_tell _ _) fun fs₄ => ?_
    refine result_bind_congr (result_of _) fun _ => ?_
    exact result_pure _

lemma result_fillBigfileL (fs : Fs) : fs.fillBigfileL.result = fs.fillBigfile :=
  result_bind_congr rfl fun _ => rfl

lemma result_initBigfileL (fs : Fs) : fs.initBigfileL.result = fs.initBigfile :=
  result_bind_congr (result_doTouchL _ _) fun _ => result_fillBigfileL _

lemma result_doMkfsL (fs : Fs) : fs.doMkfsL.result = fs.doMkfs :=
  result_bind_congr (result_initDirInodeL _ _) fun _ =>
    result_bind_congr (result_initBigfileL _) fun _ => rfl

lemma result_doRmdirL (fs : Fs) (path : List UInt8) :
    (fs.doRmdirL path).result = fs.doRmdir path := by
  rw [doRmdirL, doRmdir]
  refine result_bind_congr (result_parsePathL fs path _) fun ⟨dirInum, fs₁⟩ => ?_
  refine result_bind_congr (result_tell _ _) fun cwdInode => ?_
  refine result_bind_congr (result_tell _ _) fun dirInode => ?_
  split
  · rfl
  refine result_bind_congr (result_of _) fun ⟨scan, blockNum, fs₂⟩ => ?_
  cases scan with
  | stop j =>
    dsimp only
    exact result_pure _
  | hit j | past =>
    dsimp only
    refine result_bind_congr (result_of _) fun fs₃ => ?_
    refine result_bind_congr (result_of _) fun _ => ?_
    exact result_pure _

lemma result_doLnL (fs : Fs) (srcPath dstPath : List UInt8) :
    (fs.doLnL srcPath dstPath).result = fs.doLn srcPath dstPath := by
  rw [doLnL, doLn]
  split
  · rfl
  refine result_bind_congr (result_parsePathL fs srcPath _) fun ⟨srcInum, fs₁⟩ => ?_
  refine result_bind_congr (result_tell _ _) fun srcInode => ?_
  refine result_bind_congr (result_tell _ _) fun cwdInode => ?_
  refine result_bind_congr (result_of _) fun ⟨_, blockNum, fs₂⟩ => ?_
  refine result_bind_congr (result_of _) fun fs₃ => ?_
  exact result_bind_congr (result_tell _ _) fun _ => result_pure _

lemma result_doRmL (fs : Fs) (path : List UInt8) : (fs.doRmL path).result = fs.doRm path := by
  rw [doRmL, doRm]
  refine result_bind_congr (result_parsePathL fs path _) fun ⟨fileInum, fs₁⟩ => ?_
  dsimp only
  split
  · rfl
  refine result_bind_congr (result_tell _ _) fun fileInode => ?_
  split
  · rfl
  refine result_bind_congr (result_tell _ _) fun cwdInode => ?_
  refine result_bind_congr (result_of _) fun ⟨scan, blockNum, fs₂⟩ => ?_
  dsimp only
  split
  · exact result_bind_congr (result_tell _ _) fun _ => result_pure _
  · refine result_bind_congr (result_of _) fun _ => ?_
    refine result_bind_congr (result_of _) fun _ => ?_
    exact result_pure _

lemma result_doFopenL (fs : Fs) (path : List UInt8) (mode : ℤ) :
    (fs.doFopenL path mode).result = fs.doFopen path mode := by
  rw [doFopenL, doFopen]
  refine result_bind_congr (result_parsePathL fs path _) fun ⟨inum, fs₁⟩ => ?_
  dsimp only
  split
  · rfl
  cases (List.range numFdescs).find? fun i => (fs₁.fdescArray i).inum = 0 <;> rfl

lemma result_doFreadL (fs : Fs) (fd : ℤ) (buff : Bytes) (length : ℤ) :
    (fs.doFreadL fd buff length).result = fs.doFread fd buff length := by
  rw [doFreadL, doFread]
  refine result_bind_congr rfl fun fdesc => ?_
  split
  · rfl
  exact result_bind_congr rfl fun inode => result_bind_congr rfl fun ⟨_, _, _⟩ => rfl

lemma result_setInodeBlkNumL (fs : Fs) (offset newBlk : ℕ) (inode : Inode) (inum : ℤ) :
    (fs.setInodeBlkNumL offset newBlk inode inum).result =
      fs.setInodeBlkNum offset newBlk inode inum := by
  rw [setInodeBlkNumL]
  split
  · rename_i hlt
    rw [setInodeBlkNum, if_pos hlt]
    exact result_bind_congr rfl fun _ => rfl
  · rfl

lemma result_fwriteLoopL (fuel : ℕ) (fs : Fs) (inode : Inode) (inum : ℤ) (offset : ℕ) (buff : Bytes)
    (length : ℤ) : (fwriteLoopL fuel fs inode inum offset buff length).result =
      fwriteLoop fuel fs inode inum offset buff length := by
  induction fuel generalizing fs inode offset length with
  | zero => rfl
  | succ fuel ih =>
    rw [fwriteLoopL, fwriteLoop]
    split
    · rfl
    rcases fs.offsetToBlk offset inode with ⟨blkNum, fs₁⟩
    dsimp only
    split
    · rcases fs₁.allocBlock with ⟨blkNum, fs₂⟩
      dsimp only
      refine result_bind_congr (result_setInodeBlkNumL _ _ _ _ _) fun ⟨inode₁, fs₃⟩ => ?_
      refine result_bind_congr rfl fun ⟨_, _, _⟩ => ?_
      dsimp only
      split
      · rfl
      · exact ih _ _ _ _
    · refine result_bind_congr rfl fun ⟨_, _, _⟩ => ?_
      dsimp only
      split
      · rfl
      · exact ih _ _ _ _

lemma result_doFwriteL (fs : Fs) (fd : ℤ) (buff : Bytes) (length : ℤ) :
    (fs.doFwriteL fd buff length).result = fs.doFwrite fd buff length := by
  rw [doFwriteL, doFwrite]
  refine result_bind_congr rfl fun fdesc => ?_
  split
  · rfl
  refine result_bind_congr rfl fun inode => ?_
  exact result_bind_congr (result_fwriteLoopL _ _ _ _ _ _ _) fun ⟨_, _, _⟩ =>
    result_bind_congr rfl fun _ => rfl

lemma result_doLseekL (fs : Fs) (fd offset whence : ℤ) :
    (fs.doLseekL fd offset whence).result = fs.doLseek fd offset whence := by
  rw [doLseekL, doLseek]
  refine result_bind_congr rfl fun fdesc => result_bind_congr rfl fun inode => ?_
  exact result_bind_congr rfl fun _ => rfl

end Fs
end UcasKernel
