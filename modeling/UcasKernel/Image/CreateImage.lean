/-
The image writer `tools/createimage.c`, and the code that reads the image back:
`init_task_info` from `init/main.c` and `load_task_img` from
`kernel/loader/loader.c`.

The image is the bootblock, the kernel `main` and the tasks, each padded to whole
sectors, with a record of the sizes at the end of the first sector and the array
of task records behind the last task.  The writer copies the loadable segments of
a file, but the sizes it records add up `p_filesz` over all program headers.
-/
import UcasKernel.Lib.Bytes

namespace UcasKernel
namespace Image

def sectorSize : ℕ := 512
def appInfoOffset : ℕ := 0x1f0
def taskMaxnum : ℕ := 16
def ptLoad : ℕ := 1

/-- `NBYTES2SEC` of an `int`. -/
def nbytes2sec (nbytes : ℤ) : ℤ :=
  nbytes.tdiv sectorSize + if nbytes.tmod sectorSize ≠ 0 then 1 else 0

lemma nbytes2sec_of_nonneg {nbytes : ℤ} (h : 0 ≤ nbytes) :
    nbytes2sec nbytes = (nbytes + 511) / 512 := by
  have hd : nbytes.tdiv 512 = nbytes / 512 := Int.tdiv_eq_ediv_of_nonneg h
  have hm : nbytes.tmod 512 = nbytes % 512 := Int.tmod_eq_emod_of_nonneg h
  simp only [nbytes2sec, sectorSize, Nat.cast_ofNat, hd, hm]
  split_ifs <;> omega

/-- `ROUND(a, SECTOR_SIZE)`. -/
def round (a : ℕ) : ℕ := (a + (sectorSize - 1)) / sectorSize * sectorSize

/-- The fields of `Elf64_Phdr` that the writer reads. -/
structure Phdr where
  pType : ℕ
  pOffset : ℕ
  pFilesz : ℕ
  pMemsz : ℕ
deriving DecidableEq

/-- An executable: its path, its program headers and its content. -/
structure ElfFile where
  name : List UInt8
  phdrs : List Phdr
  bytes : List UInt8

/-- `fgetc` at an offset, as `fputc` writes it: behind the end it is `EOF`. -/
def ElfFile.fgetc (f : ElfFile) : Bytes := fun i => f.bytes.getD i 0xff

/-- `get_filesz` and `get_memsz`, which return a `uint32_t`. -/
def getFilesz (phdr : Phdr) : ℕ := phdr.pFilesz % 2 ^ 32
def getMemsz (phdr : Phdr) : ℕ := phdr.pMemsz % 2 ^ 32

/-- `task_info_t`. -/
structure TaskInfo where
  name : List UInt8
  sectorsNum : ℤ
  filesz : ℤ
  memsz : ℤ
deriving DecidableEq

/-- `sizeof(task_info_t)`. -/
def sizeofTaskInfo : ℕ := 28

/-- The variables of `create_image`; `starts` records where each task begins. -/
structure Build where
  img : Bytes
  phyaddr : ℕ
  kernelFilesz : ℤ
  nsectorsKernel : ℤ
  taskFileSz : ℤ
  taskMemSz : ℤ
  taskinfo : List TaskInfo
  starts : List ℕ

/-- The file names `bootblock` and `main`. -/
def bootblockName : List UInt8 := [98, 111, 111, 116, 98, 108, 111, 99, 107]
def mainName : List UInt8 := [109, 97, 105, 110]

/-! ## The writer -/

/-- The segment is written: it is loadable and not empty in memory. -/
def Phdr.Written (phdr : Phdr) : Prop := phdr.pMemsz ≠ 0 ∧ phdr.pType = ptLoad

instance (phdr : Phdr) : Decidable phdr.Written := inferInstanceAs (Decidable (_ ∧ _))

/-- `write_segment`; `phyaddr` is an `int`, a position it cannot hold has no
defined result. -/
def writeSegment (b : Build) (f : ElfFile) (phdr : Phdr) : Option Build :=
  if phdr.Written then
    if b.phyaddr + phdr.pFilesz < 2 ^ 31 then
      some { b with
        img := Bytes.blit b.img b.phyaddr f.fgetc phdr.pOffset phdr.pFilesz
        phyaddr := b.phyaddr + phdr.pFilesz }
    else none
  else some b

/-- The size counters after a program header. -/
def countPhdr (b : Build) (f : ElfFile) (phdr : Phdr) : Build :=
  if f.name = mainName then
    { b with kernelFilesz := toInt32 (b.kernelFilesz + getFilesz phdr) }
  else if f.name ≠ bootblockName then
    { b with
      taskFileSz := toInt32 (b.taskFileSz + getFilesz phdr)
      taskMemSz := toInt32 (b.taskMemSz + getMemsz phdr) }
  else b

/-- The loop over the program headers of a file. -/
def writePhdrs (b : Build) (f : ElfFile) : List Phdr → Option Build
  | [] => some b
  | phdr :: phdrs => do
    let b ← writeSegment b f phdr
    writePhdrs (countPhdr b f phdr) f phdrs

/-- `write_padding` up to the next sector. -/
def writePadding (b : Build) : Option Build :=
  let newPhyaddr := round b.phyaddr
  if newPhyaddr < 2 ^ 31 then
    some { b with
      img := Bytes.blit b.img b.phyaddr Bytes.zero 0 (newPhyaddr - b.phyaddr)
      phyaddr := newPhyaddr }
  else none

/-- One round of the loop over the input files. -/
def addFile (b : Build) (f : ElfFile) : Option Build := do
  let start := b.phyaddr
  let b ← writePhdrs b f f.phdrs
  if f.name = bootblockName then writePadding b
  else if f.name = mainName then
    writePadding { b with nsectorsKernel := nbytes2sec b.kernelFilesz }
  else do
    let b ← writePadding b
    some { b with
      taskinfo := b.taskinfo ++ [⟨f.name, nbytes2sec b.taskFileSz, b.taskFileSz, b.taskMemSz⟩]
      taskFileSz := 0
      taskMemSz := 0
      starts := b.starts ++ [start] }

/-- The loop over the input files. -/
def addFiles (b : Build) : List ElfFile → Option Build
  | [] => some b
  | f :: files => do
    let b ← addFile b f
    addFiles b files

/-- An `int` as the four bytes that are written. -/
def putInt (img : Bytes) (a : ℕ) (v : ℤ) : Bytes := Bytes.set32 img a (v % 2 ^ 32).toNat

/-- `strcpy` into a zeroed array of `n` bytes. -/
def putName (img : Bytes) (a n : ℕ) (name : List UInt8) : Bytes :=
  Bytes.blit img a (Bytes.ofList name) 0 n

/-- The bytes of a task record. -/
def putTaskInfo (img : Bytes) (a : ℕ) (task : TaskInfo) : Bytes :=
  let img := putName img a 16 task.name
  let img := putInt img (a + 16) task.sectorsNum
  let img := putInt img (a + 20) task.filesz
  putInt img (a + 24) task.memsz

/-- `write_img_info`. -/
def writeImgInfo (img : Bytes) (a : ℕ) : List TaskInfo → Bytes
  | [] => img
  | task :: tasks => writeImgInfo (putTaskInfo img a task) (a + sizeofTaskInfo) tasks

/-- The record at the end of the first sector. -/
def writeAppInfo (b : Build) (tasknum : ℤ) : Bytes :=
  let img := putInt b.img appInfoOffset b.kernelFilesz
  let img := putInt img (appInfoOffset + 4) tasknum
  let img := putInt img (appInfoOffset + 8) (b.phyaddr / sectorSize : ℕ)
  let img := Bytes.set16 img (appInfoOffset + 12) (b.nsectorsKernel % 2 ^ 16).toNat
  Function.update (Function.update img (appInfoOffset + 14) 0x55) (appInfoOffset + 15) 0xaa

/-- The variables before the first file. -/
def emptyBuild : Build := ⟨Bytes.zero, 0, 0, 0, 0, 0, [], []⟩

/-- `create_image`: the bytes of the image and where its tasks begin. -/
def createImage (files : List ElfFile) : Option (Bytes × List ℕ) := do
  let b ← addFiles emptyBuild files
  let img := writeAppInfo b (files.length - 2)
  let fileEnd := max b.phyaddr (appInfoOffset + 16)
  some (writeImgInfo img fileEnd b.taskinfo, b.starts)

/-! ## The reader -/

/-- An `int` at an address. -/
def getInt (b : Bytes) (a : ℕ) : ℤ := toInt32 (Bytes.get32 b a)

/-- The task record at an address. -/
def getTaskInfo (b : Bytes) (a : ℕ) : TaskInfo where
  name := (b.slice a 16).takeWhile (· ≠ 0)
  sectorsNum := getInt b (a + 16)
  filesz := getInt b (a + 20)
  memsz := getInt b (a + 24)

/-- What `init_task_info` stores. -/
structure AppInfo where
  kernelSectorsNum : ℤ
  tasksNum : ℤ
  totalSectorsNum : ℤ
  tasks : ℕ → TaskInfo

/-- `init_task_info`: the first sector of the image is in memory, the sector of
the task records is read. -/
def initTaskInfo (img : Bytes) : AppInfo :=
  let kernelFileSz := getInt img appInfoOffset
  let tasksNum := getInt img (appInfoOffset + 4)
  let totalSectorsNum := getInt img (appInfoOffset + 8)
  let array := Bytes.blit Bytes.zero 0 img (sectorSize * totalSectorsNum.toNat) sectorSize
  { kernelSectorsNum := nbytes2sec kernelFileSz
    tasksNum := tasksNum
    totalSectorsNum := totalSectorsNum
    tasks := fun i => getTaskInfo array (sizeofTaskInfo * i) }

/-- The search of `load_task_img` for the first task with a name, from number
`taskIdx` on: the number of the task and the sector where it starts reading. -/
def findTask (info : AppInfo) (name : List UInt8) (taskIdx : ℕ) (blockId : ℤ) :
    ℕ → Option (ℕ × ℤ)
  | 0 => none
  | n + 1 =>
    if (info.tasks taskIdx).name = name then some (taskIdx, blockId)
    else findTask info name (taskIdx + 1) (blockId + (info.tasks taskIdx).sectorsNum) n

/-- The head of `load_task_img`: where it starts reading the task with a name. -/
def loadTaskImg (info : AppInfo) (name : List UInt8) : Option (ℕ × ℤ) :=
  findTask info name 0 (info.kernelSectorsNum + 1) info.tasksNum.toNat

/-- The sector where task `k` is read from: behind the kernel and the sectors of
the earlier tasks. -/
def AppInfo.taskStart (info : AppInfo) (k : ℕ) : ℤ :=
  info.kernelSectorsNum + 1 + ((List.range k).map fun i => (info.tasks i).sectorsNum).sum

lemma AppInfo.taskStart_succ (info : AppInfo) (k : ℕ) :
    info.taskStart (k + 1) = info.taskStart k + (info.tasks k).sectorsNum := by
  simp only [taskStart, List.range_succ, List.map_append, List.sum_append, List.map_cons, List.map_nil,
    List.sum_cons, List.sum_nil, add_zero, add_assoc]

lemma findTask_start (info : AppInfo) (name : List UInt8) {i k n : ℕ} {b : ℤ}
    (h : findTask info name i (info.taskStart i) n = some (k, b)) : b = info.taskStart k := by
  induction n generalizing i with
  | zero => simp [findTask] at h
  | succ n ih =>
    rw [findTask] at h
    split at h
    · obtain ⟨rfl, rfl⟩ := Prod.mk.inj (Option.some.inj h)
      rfl
    · rw [← AppInfo.taskStart_succ] at h
      exact ih h

/-- `load_task_img` reads a task from its start sector. -/
lemma loadTaskImg_start {info : AppInfo} {name : List UInt8} {k : ℕ} {b : ℤ}
    (h : loadTaskImg info name = some (k, b)) : b = info.taskStart k := by
  have hstart : info.taskStart 0 = info.kernelSectorsNum + 1 := by simp [AppInfo.taskStart]
  rw [loadTaskImg, ← hstart] at h
  exact findTask_start info name h

end Image
end UcasKernel
