/-
Path resolution and the system calls that edit directories, from
`kernel/fs/fs.c`.

Every one of them walks the direct blocks of a directory through the shared
block buffer and, in each block, the entries in order.  The loops differ only in
the two tests they make on an entry, so they are one definition: `scanBlocks`
stops at the first entry that passes the test `hit` or the test `stop`.

An access outside `block_buf`, outside the 16 bytes of `path_copy` or outside a
sector buffer has no defined result and is `none`.
-/
import UcasKernel.Fs.Disk

namespace UcasKernel
namespace Fs

/-- Where a walk over directory entries ended. -/
inductive Scan
  | hit (j : ℕ)
  | stop (j : ℕ)
  | past
deriving DecidableEq, Repr

/-- The inner loop over the entries `j .. j + n - 1` of the block buffer. -/
def scanEntries (hit stop : ℕ → Option Bool) (j : ℕ) : ℕ → Option Scan
  | 0 => some .past
  | n + 1 => do
    if ← hit j then some (.hit j)
    else if ← stop j then some (.stop j)
    else scanEntries hit stop (j + 1) n

/-- The outer loop over the direct blocks `i .. i + n - 1` of a directory.  The
tests may look at the buffer, the index of the block and the index of the entry.
Returns the value of `block_num` after the loop. -/
def scanBlocks (fs : Fs) (inode : Inode) (hit stop : Bytes → ℕ → ℕ → Option Bool)
    (blockNum i : ℕ) : ℕ → Option (Scan × ℕ × Fs)
  | 0 => some (.past, blockNum, fs)
  | n + 1 =>
    let blockNum := inode.direct i
    if blockNum = 0 then some (.past, 0, fs)
    else do
      let fs := fs.readBlock blockNum
      match ← scanEntries (hit fs.blockBuf i) (stop fs.blockBuf i) 0 ndentriesPerBlock with
      | .past => fs.scanBlocks inode hit stop blockNum (i + 1) n
      | r => some (r, blockNum, fs)

/-- The test `dentries[j].valid && strcmp(dentries[j].name, path) == 0`. -/
def isNamed (path : List UInt8) : Bytes → ℕ → ℕ → Option Bool :=
  fun buf _ j => dentryMatches buf j path

/-- The test `dentries[j].inum == 0`. -/
def isUnused : Bytes → ℕ → ℕ → Option Bool :=
  fun buf _ j => (dentryInum buf j).map (· = 0)

/-- A test that is never made. -/
def never : Bytes → ℕ → ℕ → Option Bool := fun _ _ _ => some false

/-- `parse_path`.  The recursion is on the rest of the path behind the first
separator of the copy; the entry is compared with the whole path. -/
def parsePathLoop : ℕ → Fs → List UInt8 → ℤ → Option (ℤ × Fs)
  | 0, _, _, _ => none
  | fuel + 1, fs, path, cwndInum =>
    if path = [] then some (cwndInum, fs)
    else if path.length ≥ 16 then none
    else do
      let next := (path.takeWhile (· ≠ 47)).length + 1
      let inode ← fs.readInode cwndInum
      let (scan, _, fs) ← fs.scanBlocks inode (isNamed path) isUnused 0 0 ndirectBlocks
      match scan with
      | .hit j =>
        let inum ← dentryInum fs.blockBuf j
        if next < 16 then parsePathLoop fuel fs (path.drop next) (toInt32 inum) else none
      | _ => some (0, fs)

def parsePath (fs : Fs) (path : List UInt8) (cwndInum : ℤ) : Option (ℤ × Fs) :=
  parsePathLoop (path.length + 1) fs path cwndInum

/-- `do_cd`. -/
def doCd (fs : Fs) (path : List UInt8) : Option (ℤ × Fs) := do
  let (inum, fs) ← fs.parsePath path fs.cwdInum
  if inum = 0 then some (1, fs)
  else
    let newCwd ← fs.readInode inum
    if newCwd.type = typeFile then some (1, fs)
    else some (0, { fs with cwdInum := inum })

/-- `init_dir_inode`. -/
def initDirInode (fs : Fs) (parentInum : ℤ) : Option (ℤ × Fs) := do
  let (inodeNum, fs) := fs.allocInode
  let (blockNum, fs) := fs.allocBlock
  let (ticks, fs) := fs.getTicks
  let inode := { Inode.zero with
    type := typeDirectory
    permission := 0b1111101101
    timeCreated := ticks
    ref := 1 }
  let fs ← fs.writeInode inodeNum (inode.setDirect 0 blockNum)
  let dentries := setDentry (setDentry Bytes.zero 0 inodeNum [46]) 1 parentInum [46, 46]
  let fs := { fs with blockBuf := Bytes.blit Bytes.zero 0 dentries 0 (2 * sizeofDentry) }
  some (inodeNum, fs.writeBlock blockNum)

/-- The loop `while (dentry->inum != 0) dentry++` from entry `j` of the block
buffer. -/
def firstUnused (buf : Bytes) (j : ℕ) : ℕ → Option ℕ
  | 0 => none
  | n + 1 => do
    if (← dentryInum buf j) = 0 then some j else firstUnused buf (j + 1) n

/-- Fill the first unused entry of the block buffer and write the block. -/
def appendDentry (fs : Fs) (blockNum : ℕ) (inum : ℤ) (name : List UInt8) : Option Fs := do
  let j ← firstUnused fs.blockBuf 0 ndentriesPerBlock
  let buf ← putDentry fs.blockBuf j inum name
  some (({ fs with blockBuf := buf } : Fs).writeBlock blockNum)

/-- `do_mkdir`. -/
def doMkdir (fs : Fs) (path : List UInt8) : Option (ℤ × Fs) := do
  let cwdInum := fs.cwdInum
  let cwd ← fs.readInode cwdInum
  if path.length > dentryNameLen then some (1, fs)
  else
    let (scan, blockNum, fs) ← fs.scanBlocks cwd (isNamed path) isUnused 0 0 ndirectBlocks
    match scan with
    | .hit _ => some (1, fs)
    | _ =>
      let (newDirInum, fs) ← fs.initDirInode cwdInum
      let fs ← (fs.readBlock blockNum).appendDentry blockNum newDirInum path
      some (0, fs)

/-- The inode `do_touch` gives a new file. -/
def newFile (ticks : ℕ) : Inode :=
  { Inode.zero with
    type := typeFile
    timeCreated := ticks
    permission := 0b0111101101
    ref := 1 }

/-- `do_touch`. -/
def doTouch (fs : Fs) (path : List UInt8) : Option (ℤ × Fs) := do
  let cwd ← fs.readInode fs.cwdInum
  if path.length > dentryNameLen then some (1, fs)
  else
    let (scan, blockNum, fs) ← fs.scanBlocks cwd (isNamed path) isUnused 0 0 ndirectBlocks
    match scan with
    | .hit _ => some (1, fs)
    | _ =>
      let (newFileInum, fs) := fs.allocInode
      let (ticks, fs) := fs.getTicks
      let fs ← fs.writeInode newFileInum (newFile ticks)
      let fs ← (fs.readBlock blockNum).appendDentry blockNum newFileInum path
      some (0, fs)

/-- The loop `free_block(inode.direct[i])` over the direct slots from `i`. -/
def freeDirect (fs : Fs) (inode : Inode) (i : ℕ) : ℕ → Option Fs
  | 0 => some fs
  | n + 1 => do
    let fs ← fs.freeBlock (toInt32 (inode.direct i))
    fs.freeDirect inode (i + 1) n

/-- `dentries[j].valid = 0`. -/
def clearValid (fs : Fs) (j : ℕ) : Fs :=
  { fs with blockBuf := Function.update fs.blockBuf (sizeofDentry * j) 0 }

/-- `do_rmdir`.  The test for the end of a directory is made on entry `i`, the
index of the block, and not on entry `j`. -/
def doRmdir (fs : Fs) (path : List UInt8) : Option (ℤ × Fs) := do
  let cwdInum := fs.cwdInum
  let (dirInum, fs) ← fs.parsePath path cwdInum
  let cwdInode ← fs.readInode cwdInum
  let dirInode ← fs.readInode dirInum
  if dirInode.type = typeFile then some (1, fs)
  else
    let endTest := fun buf i _ => isUnused buf i i
    let (scan, blockNum, fs) ← fs.scanBlocks cwdInode (isNamed path) endTest 0 0 ndirectBlocks
    match scan with
    | .stop _ => some (1, fs)
    | _ =>
      let fs := match scan with
        | .hit j => fs.clearValid j
        | _ => fs
      let fs ← (fs.writeBlock blockNum).freeInode dirInum
      let fs ← fs.freeDirect dirInode 0 ndirectBlocks
      some (0, fs)

/-- `do_ln`. -/
def doLn (fs : Fs) (srcPath dstPath : List UInt8) : Option (ℤ × Fs) := do
  if srcPath = dstPath then some (1, fs)
  else
    let (srcInum, fs) ← fs.parsePath srcPath fs.cwdInum
    let srcInode ← fs.readInode srcInum
    let srcInode := { srcInode with ref := (srcInode.ref + 1) % 2 ^ 32 }
    let cwdInode ← fs.readInode fs.cwdInum
    let (_, blockNum, fs) ← fs.scanBlocks cwdInode never isUnused 0 0 ndirectBlocks
    let fs ← fs.appendDentry blockNum srcInum dstPath
    let fs ← fs.writeInode srcInum srcInode
    some (0, fs)

/-- `do_rm`. -/
def doRm (fs : Fs) (path : List UInt8) : Option (ℤ × Fs) := do
  let (fileInum, fs) ← fs.parsePath path fs.cwdInum
  if fileInum = 0 then some (1, fs)
  else
    let fileInode ← fs.readInode fileInum
    if fileInode.type ≠ typeFile then some (1, fs)
    else
      let cwdInode ← fs.readInode fs.cwdInum
      let fileInode := { fileInode with ref := (fileInode.ref + (2 ^ 32 - 1)) % 2 ^ 32 }
      let (scan, blockNum, fs) ← fs.scanBlocks cwdInode (isNamed path) never 0 0 ndirectBlocks
      let fs := match scan with
        | .hit j => fs.clearValid j
        | _ => fs
      let fs := fs.writeBlock blockNum
      if fileInode.ref > 0 then
        let fs ← fs.writeInode fileInum fileInode
        some (0, fs)
      else
        let fs ← fs.freeInode fileInum
        let fs ← fs.freeDirect fileInode 0 ndirectBlocks
        some (0, fs)

end Fs
end UcasKernel
