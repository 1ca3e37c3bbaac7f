/-
When the image writer and the loader agree.

The writer places each file behind the sectors of the files before it, counting
the bytes it wrote; the loader adds up the recorded sector counts, which come from
the sizes of all program headers.  The two agree exactly when the headers that are
not written have no size.
-/
import Mathlib.Algebra.Order.BigOperators.Group.List
import UcasKernel.Image.CreateImage

namespace UcasKernel
namespace Image

/-! ## Sizes of a file -/

namespace ElfFile

/-- The bytes of a loadable segment; a header without memory has none. -/
def segmentBytes (f : ElfFile) (phdr : Phdr) : List UInt8 :=
  if phdr.Written then f.fgetc.slice phdr.pOffset phdr.pFilesz else []

/-- The bytes of the loadable segments of a file. -/
def loadBytes (f : ElfFile) : List UInt8 := f.phdrs.flatMap f.segmentBytes

/-- The number of bytes written for a list of headers. -/
def writtenOf (phdrs : List Phdr) : ℕ :=
  (phdrs.map fun phdr => if phdr.Written then phdr.pFilesz else 0).sum

/-- The sizes of the headers of a list for which nothing is written. -/
def skippedOf (phdrs : List Phdr) : ℕ :=
  (phdrs.map fun phdr => if phdr.Written then 0 else getFilesz phdr).sum

/-- The sizes of all headers of a list. -/
def countedOf (phdrs : List Phdr) : ℕ := (phdrs.map getFilesz).sum

def writtenSize (f : ElfFile) : ℕ := writtenOf f.phdrs

def skippedSize (f : ElfFile) : ℕ := skippedOf f.phdrs

/-- The size that is recorded for a file: an `int`. -/
def recordedSize (f : ElfFile) : ℤ := toInt32 (countedOf f.phdrs)

/-- The sectors a file takes up in the image. -/
def sectors (f : ElfFile) : ℕ := (f.writtenSize + 511) / 512

end ElfFile

open ElfFile

lemma length_loadBytes (f : ElfFile) : f.loadBytes.length = f.writtenSize := by
  rw [loadBytes, List.length_flatMap, writtenSize, writtenOf]
  congr 1
  refine List.map_congr_left fun phdr _ => ?_
  by_cases h : phdr.Written <;> simp [segmentBytes, h]

/-- Written bytes below `2 ^ 31` are counted exactly. -/
lemma countedOf_eq {phdrs : List Phdr} (h : writtenOf phdrs < 2 ^ 31) :
    countedOf phdrs = writtenOf phdrs + skippedOf phdrs := by
  induction phdrs with
  | nil => rfl
  | cons phdr phdrs ih =>
    simp only [countedOf, writtenOf, skippedOf, List.map_cons, List.sum_cons] at ih h ⊢
    by_cases hw : phdr.Written
    · simp only [hw, if_true] at h ⊢
      have hlt : getFilesz phdr = phdr.pFilesz := Nat.mod_eq_of_lt (by omega)
      rw [ih (by omega), hlt]
      omega
    · simp only [hw, if_false] at h ⊢
      rw [ih (by omega)]
      omega

/-! ## Sectors and `int`s -/

lemma round_eq (a : ℕ) : round a = (a + 511) / 512 * 512 := rfl

lemma le_round (a : ℕ) : a ≤ round a := by
  rw [round_eq]
  omega

lemma round_add {p w : ℕ} (h : p % 512 = 0) : round (p + w) = p + round w := by
  rw [round_eq, round_eq]
  omega

lemma nbytes2sec_natCast (n : ℕ) : nbytes2sec n = ((n + 511) / 512 : ℕ) := by
  rw [nbytes2sec_of_nonneg (Int.natCast_nonneg n)]
  omega

/-! ## One file -/

lemma bootblockName_ne : bootblockName ≠ mainName := by decide

/-- What writing some headers of a file does to the image. -/
structure Wrote (b b' : Build) (bytes : List UInt8) (w : ℕ) : Prop where
  phyaddr : b'.phyaddr = b.phyaddr + w
  before : ∀ x < b.phyaddr, b'.img x = b.img x
  slice : b'.img.slice b.phyaddr w = bytes
  nsectorsKernel : b'.nsectorsKernel = b.nsectorsKernel
  taskinfo : b'.taskinfo = b.taskinfo
  starts : b'.starts = b.starts

section File

variable {b b' : Build} {f : ElfFile}

@[simp] lemma countPhdr_img (phdr : Phdr) : (countPhdr b f phdr).img = b.img := by
  rw [countPhdr]
  split <;> [rfl; split <;> rfl]

@[simp] lemma countPhdr_phyaddr (phdr : Phdr) : (countPhdr b f phdr).phyaddr = b.phyaddr := by
  rw [countPhdr]
  split <;> [rfl; split <;> rfl]

@[simp] lemma countPhdr_nsectorsKernel (phdr : Phdr) :
    (countPhdr b f phdr).nsectorsKernel = b.nsectorsKernel := by
  rw [countPhdr]
  split <;> [rfl; split <;> rfl]

@[simp] lemma countPhdr_taskinfo (phdr : Phdr) : (countPhdr b f phdr).taskinfo = b.taskinfo := by
  rw [countPhdr]
  split <;> [rfl; split <;> rfl]

@[simp] lemma countPhdr_starts (phdr : Phdr) : (countPhdr b f phdr).starts = b.starts := by
  rw [countPhdr]
  split <;> [rfl; split <;> rfl]

/-- The headers are written if and only if the position stays an `int`. -/
lemma writePhdrs_isSome {phdrs : List Phdr} (hb : b.phyaddr < 2 ^ 31) :
    (writePhdrs b f phdrs).isSome ↔ b.phyaddr + writtenOf phdrs < 2 ^ 31 := by
  induction phdrs generalizing b with
  | nil => simpa [writePhdrs, writtenOf] using hb
  | cons phdr phdrs ih =>
    have hsum : writtenOf (phdr :: phdrs) =
        (if phdr.Written then phdr.pFilesz else 0) + writtenOf phdrs := by simp [writtenOf]
    rw [hsum]
    by_cases hw : phdr.Written
    · by_cases hfit : b.phyaddr + phdr.pFilesz < 2 ^ 31
      · simp only [writePhdrs, writeSegment, hw, hfit, if_true, Option.bind_eq_bind, Option.bind_some]
        rw [ih (by simpa using hfit), countPhdr_phyaddr, Nat.add_assoc]
      · simp only [writePhdrs, writeSegment, hw, hfit, if_true, if_false, Option.bind_eq_bind,
          Option.bind_none, Option.isSome_none, Bool.false_eq_true, false_iff]
        omega
    · simp only [writePhdrs, writeSegment, hw, if_false, Option.bind_eq_bind, Option.bind_some,
        Nat.zero_add]
      rw [ih (by simpa using hb), countPhdr_phyaddr]

lemma writePhdrs_wrote {phdrs : List Phdr} (h : writePhdrs b f phdrs = some b') :
    Wrote b b' (phdrs.flatMap f.segmentBytes) (writtenOf phdrs) := by
  induction phdrs generalizing b with
  | nil =>
    obtain rfl := Option.some.inj h
    exact ⟨rfl, fun _ _ => rfl, rfl, rfl, rfl, rfl⟩
  | cons phdr phdrs ih =>
    simp only [writePhdrs, Option.bind_eq_bind, Option.bind_eq_some_iff] at h
    obtain ⟨c, hc, h⟩ := h
    have hrest := ih h
    have hsum : writtenOf (phdr :: phdrs) =
        (if phdr.Written then phdr.pFilesz else 0) + writtenOf phdrs := by simp [writtenOf]
    rw [writeSegment] at hc
    by_cases hw : phdr.Written
    · simp only [hw, if_true, Option.ite_none_right_eq_some, Option.some.injEq] at hc
      obtain ⟨-, rfl⟩ := hc
      have hpos := hrest.phyaddr
      have hbefore := hrest.before
      have hslice := hrest.slice
      simp only [countPhdr_phyaddr, countPhdr_img] at hpos hbefore hslice
      simp only [hw, if_true] at hsum
      refine ⟨?_, fun x hx => ?_, ?_, ?_, ?_, ?_⟩
      · rw [hpos, hsum, Nat.add_assoc]
      · rw [hbefore x (by omega), Bytes.blit_apply_of_notMem (by omega)]
      · -- the bytes of this segment stay, those of the others follow
        have hfirst : b'.img.slice b.phyaddr phdr.pFilesz =
            f.fgetc.slice phdr.pOffset phdr.pFilesz := by
          rw [← Bytes.slice_blit b.img f.fgetc b.phyaddr phdr.pOffset phdr.pFilesz]
          exact Bytes.slice_congr fun i hi => hbefore _ (by omega)
        rw [hsum, Bytes.slice_add, hfirst, hslice, List.flatMap_cons, segmentBytes, if_pos hw]
      · simpa using hrest.nsectorsKernel
      · simpa using hrest.taskinfo
      · simpa using hrest.starts
    · simp only [hw, if_false, Option.some.injEq] at hc
      subst hc
      simp only [hw, if_false, Nat.zero_add] at hsum
      refine ⟨?_, fun x hx => ?_, ?_, ?_, ?_, ?_⟩
      · rw [hrest.phyaddr, hsum, countPhdr_phyaddr]
      · rw [hrest.before x (by simpa using hx), countPhdr_img]
      · have hslice := hrest.slice
        rw [countPhdr_phyaddr] at hslice
        rw [hsum, hslice, List.flatMap_cons, segmentBytes, if_neg hw, List.nil_append]
      · simpa using hrest.nsectorsKernel
      · simpa using hrest.taskinfo
      · simpa using hrest.starts

/-- The sizes of all headers are counted, for `main` and for a task. -/
lemma writePhdrs_counters {phdrs : List Phdr} {m n : ℤ} (hn : b.kernelFilesz = toInt32 n)
    (hm : b.taskFileSz = toInt32 m) (h : writePhdrs b f phdrs = some b') :
    b'.kernelFilesz = toInt32 (n + if f.name = mainName then (countedOf phdrs : ℤ) else 0) ∧
      b'.taskFileSz = toInt32
        (m + if f.name ≠ mainName ∧ f.name ≠ bootblockName then (countedOf phdrs : ℤ) else 0) := by
  induction phdrs generalizing b m n with
  | nil =>
    obtain rfl := Option.some.inj h
    simp [countedOf, hn, hm]
  | cons phdr phdrs ih =>
    simp only [writePhdrs, Option.bind_eq_bind, Option.bind_eq_some_iff] at h
    obtain ⟨c, hc, h⟩ := h
    have hck : c.kernelFilesz = b.kernelFilesz ∧ c.taskFileSz = b.taskFileSz := by
      rw [writeSegment] at hc
      split at hc
      · simp only [Option.ite_none_right_eq_some, Option.some.injEq] at hc
        obtain ⟨-, rfl⟩ := hc
        exact ⟨rfl, rfl⟩
      · obtain rfl := Option.some.inj hc
        exact ⟨rfl, rfl⟩
    have hsum : (countedOf (phdr :: phdrs) : ℤ) = getFilesz phdr + countedOf phdrs := by
      simp [countedOf]
    by_cases hmain : f.name = mainName
    · have hrest := ih (n := n + getFilesz phdr) (m := m)
        (by simp [countPhdr, hmain, hck, hn, toInt32_add]) (by simp [countPhdr, hmain, hck, hm]) h
      simpa [hmain, hsum, add_assoc] using hrest
    · by_cases hboot : f.name = bootblockName
      · have hrest := ih (n := n) (m := m) (by simp [countPhdr, hboot, bootblockName_ne, hck, hn])
          (by simp [countPhdr, hboot, bootblockName_ne, hck, hm]) h
        simpa [hboot, bootblockName_ne] using hrest
      · have hrest := ih (n := n) (m := m + getFilesz phdr)
          (by simp [countPhdr, hmain, hboot, hck, hn])
          (by simp [countPhdr, hmain, hboot, hck, hm, toInt32_add]) h
        simpa [hmain, hboot, hsum, add_assoc] using hrest

lemma writePadding_isSome : (writePadding b).isSome ↔ round b.phyaddr < 2 ^ 31 := by
  rw [writePadding]
  split <;> simp_all

lemma writePadding_eq (h : writePadding b = some b') : b' = { b with
    img := Bytes.blit b.img b.phyaddr Bytes.zero 0 (round b.phyaddr - b.phyaddr)
    phyaddr := round b.phyaddr } := by
  rw [writePadding] at h
  simp only [Option.ite_none_right_eq_some, Option.some.injEq] at h
  exact h.2.symm

/-- What adding a file does to the image. -/
structure Added (b b' : Build) (f : ElfFile) : Prop where
  phyaddr : b'.phyaddr = b.phyaddr + 512 * f.sectors
  before : ∀ x < b.phyaddr, b'.img x = b.img x
  slice : b'.img.slice b.phyaddr f.writtenSize = f.loadBytes

lemma Wrote.added {c : Build} (ha : b.phyaddr % 512 = 0) (h : Wrote b c f.loadBytes f.writtenSize)
    (himg : b'.img = Bytes.blit c.img c.phyaddr Bytes.zero 0 (round c.phyaddr - c.phyaddr))
    (hpos : b'.phyaddr = round c.phyaddr) : Added b b' f := by
  refine ⟨?_, fun x hx => ?_, ?_⟩
  · rw [hpos, h.phyaddr, round_add ha, round_eq, sectors, Nat.mul_comm]
  · rw [himg, Bytes.blit_apply_of_notMem (by have := h.phyaddr; omega), h.before x hx]
  · rw [himg, Bytes.slice_blit_of_disjoint (by have := h.phyaddr; omega), h.slice]

/-- A file is added if and only if the position stays an `int`. -/
lemma addFile_isSome (ha : b.phyaddr % 512 = 0) (hb : b.phyaddr < 2 ^ 31) :
    (addFile b f).isSome ↔ b.phyaddr + 512 * f.sectors < 2 ^ 31 := by
  have hround : round (b.phyaddr + f.writtenSize) = b.phyaddr + 512 * f.sectors := by
    rw [round_add ha, round_eq, sectors, Nat.mul_comm]
  cases h : writePhdrs b f f.phdrs with
  | none =>
    have hno : ¬ b.phyaddr + writtenOf f.phdrs < 2 ^ 31 := by
      rw [← writePhdrs_isSome hb (f := f), h]
      simp
    have hle := le_round (b.phyaddr + f.writtenSize)
    simp only [addFile, h, Option.bind_eq_bind, Option.bind_none, Option.isSome_none,
      Bool.false_eq_true, false_iff]
    rw [writtenSize] at hle hround
    omega
  | some c =>
    have hpos := (writePhdrs_wrote h).phyaddr
    have hpad : ∀ c' : Build, c'.phyaddr = c.phyaddr →
        ((writePadding c').isSome ↔ b.phyaddr + 512 * f.sectors < 2 ^ 31) := by
      intro c' hc'
      rw [writePadding_isSome, hc', hpos, ← hround, writtenSize]
    simp only [addFile, h, Option.bind_eq_bind, Option.bind_some]
    split
    · exact hpad c rfl
    · split
      · exact hpad _ rfl
      · rw [← hpad c rfl]
        cases writePadding c <;> simp

lemma addFile_added (ha : b.phyaddr % 512 = 0) (h : addFile b f = some b') : Added b b' f := by
  simp only [addFile, Option.bind_eq_bind, Option.bind_eq_some_iff] at h
  obtain ⟨c, hc, h⟩ := h
  have hwrote := writePhdrs_wrote hc
  split at h
  · rw [writePadding_eq h]
    exact hwrote.added ha rfl rfl
  · split at h
    · rw [writePadding_eq h]
      exact hwrote.added ha rfl rfl
    · simp only [Option.bind_eq_some_iff, Option.some.injEq] at h
      obtain ⟨d, hd, rfl⟩ := h
      obtain rfl := writePadding_eq hd
      exact hwrote.added ha rfl rfl

/-- The bootblock and the kernel. -/
lemma addFile_bootblock (hf : f.name = bootblockName) (hn : b.kernelFilesz = toInt32 0)
    (hm : b.taskFileSz = toInt32 0) (h : addFile b f = some b') :
    b'.kernelFilesz = toInt32 0 ∧ b'.taskFileSz = toInt32 0 ∧ b'.taskinfo = b.taskinfo ∧
      b'.starts = b.starts := by
  simp only [addFile, hf, Option.bind_eq_bind, Option.bind_eq_some_iff, if_true] at h
  obtain ⟨c, hc, h⟩ := h
  have hwrote := writePhdrs_wrote hc
  have hcount := writePhdrs_counters hn hm hc
  simp only [hf, bootblockName_ne, if_false, ne_eq, not_true_eq_false, and_false, add_zero] at hcount
  rw [writePadding_eq h]
  exact ⟨hcount.1, hcount.2, hwrote.taskinfo, hwrote.starts⟩

lemma addFile_main (hf : f.name = mainName) (hn : b.kernelFilesz = toInt32 0)
    (hm : b.taskFileSz = toInt32 0) (h : addFile b f = some b') :
    b'.kernelFilesz = f.recordedSize ∧ b'.taskFileSz = toInt32 0 ∧ b'.taskinfo = b.taskinfo ∧
      b'.starts = b.starts := by
  simp only [addFile, hf, bootblockName_ne.symm, Option.bind_eq_bind, Option.bind_eq_some_iff,
    if_true, if_false] at h
  obtain ⟨c, hc, h⟩ := h
  have hwrote := writePhdrs_wrote hc
  have hcount := writePhdrs_counters hn hm hc
  simp only [hf, if_true, ne_eq, not_true_eq_false, false_and, if_false, add_zero, zero_add] at hcount
  rw [writePadding_eq h]
  exact ⟨hcount.1, hcount.2, hwrote.taskinfo, hwrote.starts⟩

/-- A task: its record is appended, and its position is where the file begins. -/
lemma addFile_task (hf : f.name ≠ bootblockName ∧ f.name ≠ mainName) {n : ℤ}
    (hn : b.kernelFilesz = toInt32 n) (hm : b.taskFileSz = toInt32 0) (h : addFile b f = some b') :
    b'.kernelFilesz = toInt32 n ∧ b'.taskFileSz = toInt32 0 ∧
      (∃ memsz, b'.taskinfo = b.taskinfo ++
        [⟨f.name, nbytes2sec f.recordedSize, f.recordedSize, memsz⟩]) ∧
      b'.starts = b.starts ++ [b.phyaddr] := by
  simp only [addFile, hf, Option.bind_eq_bind, Option.bind_eq_some_iff, if_false,
    Option.some.injEq] at h
  obtain ⟨c, hc, d, hd, rfl⟩ := h
  have hwrote := writePhdrs_wrote hc
  have hcount := writePhdrs_counters hn hm hc
  simp only [hf, if_false, ne_eq, not_false_eq_true, and_self, if_true, add_zero, zero_add] at hcount
  obtain rfl := writePadding_eq hd
  refine ⟨hcount.1, by simp [toInt32], ⟨c.taskMemSz, ?_⟩, ?_⟩
  · show c.taskinfo ++ [⟨f.name, nbytes2sec c.taskFileSz, c.taskFileSz, c.taskMemSz⟩] = _
    rw [hwrote.taskinfo, hcount.2]
    rfl
  · show c.starts ++ [b.phyaddr] = _
    rw [hwrote.starts]

end File

/-! ## All files -/

/-- The sectors a list of files takes up. -/
def totalSectors (files : List ElfFile) : ℕ := (files.map sectors).sum

/-- Where the files of a list begin when the first of them begins at `p`. -/
def startsFrom : ℕ → List ElfFile → List ℕ
  | _, [] => []
  | p, f :: files => p :: startsFrom (p + 512 * f.sectors) files

/-- The files of a list lie in the image from position `p` on. -/
def Laid (img : Bytes) : ℕ → List ElfFile → Prop
  | _, [] => True
  | p, f :: files => img.slice p f.writtenSize = f.loadBytes ∧ Laid img (p + 512 * f.sectors) files

lemma totalSectors_cons (f : ElfFile) (files : List ElfFile) :
    totalSectors (f :: files) = f.sectors + totalSectors files := by simp [totalSectors]

lemma writtenSize_le (f : ElfFile) : f.writtenSize ≤ 512 * f.sectors := by
  rw [sectors]
  omega

lemma laid_congr {img img' : Bytes} {p : ℕ} {files : List ElfFile}
    (h : ∀ x, p ≤ x → x < p + 512 * totalSectors files → img' x = img x)
    (hlaid : Laid img p files) : Laid img' p files := by
  induction files generalizing p with
  | nil => trivial
  | cons f files ih =>
    rw [totalSectors_cons] at h
    have hle := writtenSize_le f
    refine ⟨?_, ih (fun x hx hx' => h x (by omega) (by omega)) hlaid.2⟩
    rw [← hlaid.1]
    exact Bytes.slice_congr fun i hi => h _ (by omega) (by omega)

lemma laid_getElem {img : Bytes} {p q k : ℕ} {f : ElfFile} {files : List ElfFile}
    (hlaid : Laid img p files) (hf : files[k]? = some f) (hq : (startsFrom p files)[k]? = some q) :
    img.slice q f.writtenSize = f.loadBytes := by
  induction files generalizing p k with
  | nil => simp at hf
  | cons g files ih =>
    cases k with
    | zero =>
      simp only [startsFrom, List.getElem?_cons_zero, Option.some.injEq] at hf hq
      obtain ⟨rfl, rfl⟩ := And.intro hf hq
      exact hlaid.1
    | succ k =>
      simp only [startsFrom, List.getElem?_cons_succ] at hf hq
      exact ih hlaid.2 hf hq

lemma length_startsFrom (p : ℕ) (files : List ElfFile) :
    (startsFrom p files).length = files.length := by
  induction files generalizing p with
  | nil => rfl
  | cons f files ih => simp [startsFrom, ih]

section Files

variable {b b' : Build}

/-- All files are added if and only if the image stays below `2 ^ 31` bytes. -/
lemma addFiles_isSome {files : List ElfFile} (ha : b.phyaddr % 512 = 0) (hb : b.phyaddr < 2 ^ 31) :
    (addFiles b files).isSome ↔ b.phyaddr + 512 * totalSectors files < 2 ^ 31 := by
  induction files generalizing b with
  | nil => simpa [addFiles, totalSectors] using hb
  | cons f files ih =>
    rw [totalSectors_cons]
    have hsome := addFile_isSome (f := f) ha hb
    cases h : addFile b f with
    | none =>
      rw [h, Option.isSome_none, Bool.false_eq_true, false_iff] at hsome
      simp only [addFiles, h, Option.bind_eq_bind, Option.bind_none, Option.isSome_none,
        Bool.false_eq_true, false_iff]
      omega
    | some c =>
      have hlt := hsome.1 (by rw [h]; rfl)
      have hpos := (addFile_added ha h).phyaddr
      simp only [addFiles, h, Option.bind_eq_bind, Option.bind_some]
      rw [ih (by omega) (by omega), hpos]
      omega

/-- What adding the tasks does. -/
structure AddedTasks (b b' : Build) (tasks : List ElfFile) : Prop where
  phyaddr : b'.phyaddr = b.phyaddr + 512 * totalSectors tasks
  before : ∀ x < b.phyaddr, b'.img x = b.img x
  laid : Laid b'.img b.phyaddr tasks
  kernelFilesz : b'.kernelFilesz = b.kernelFilesz
  starts : b'.starts = b.starts ++ startsFrom b.phyaddr tasks
  taskinfo : ∃ infos, b'.taskinfo = b.taskinfo ++ infos ∧
    infos.map (·.sectorsNum) = tasks.map (nbytes2sec ·.recordedSize) ∧
    infos.map (·.filesz) = tasks.map (·.recordedSize)

lemma addFiles_tasks {tasks : List ElfFile}
    (hnames : ∀ t ∈ tasks, t.name ≠ bootblockName ∧ t.name ≠ mainName) (ha : b.phyaddr % 512 = 0)
    {n : ℤ} (hn : b.kernelFilesz = toInt32 n) (hm : b.taskFileSz = toInt32 0)
    (h : addFiles b tasks = some b') : AddedTasks b b' tasks := by
  induction tasks generalizing b with
  | nil =>
    obtain rfl := Option.some.inj h
    exact ⟨rfl, fun _ _ => rfl, trivial, rfl, by simp [startsFrom], [], by simp, rfl, rfl⟩
  | cons t tasks ih =>
    simp only [addFiles, Option.bind_eq_bind, Option.bind_eq_some_iff] at h
    obtain ⟨c, hc, h⟩ := h
    have hadded := addFile_added ha hc
    obtain ⟨hk, hz, ⟨memsz, hinfo⟩, hstarts⟩ :=
      addFile_task (hnames t List.mem_cons_self) hn hm hc
    have hpos := hadded.phyaddr
    have hle := writtenSize_le t
    have hrest := ih (fun u hu => hnames u (List.mem_cons_of_mem _ hu)) (by omega) hk hz h
    obtain ⟨infos, hinfos, hsectors, hfilesz⟩ := hrest.taskinfo
    refine ⟨?_, fun x hx => ?_, ⟨?_, ?_⟩, ?_, ?_,
      ⟨t.name, nbytes2sec t.recordedSize, t.recordedSize, memsz⟩ :: infos, ?_, ?_, ?_⟩
    · rw [hrest.phyaddr, hpos, totalSectors_cons]
      omega
    · rw [hrest.before x (by omega), hadded.before x hx]
    · rw [← hadded.slice]
      exact Bytes.slice_congr fun i hi => hrest.before _ (by omega)
    · exact hpos ▸ hrest.laid
    · rw [hrest.kernelFilesz, hk, hn]
    · rw [hrest.starts, hstarts, hpos, startsFrom, List.append_assoc, List.singleton_append]
    · rw [hinfos, hinfo, List.append_assoc, List.singleton_append]
    · rw [List.map_cons, List.map_cons, hsectors]
    · rw [List.map_cons, List.map_cons, hfilesz]

end Files

/-! ## Reading the records back -/

lemma getInt_congr {b c : Bytes} {a a' : ℕ} (h : ∀ i < 4, b (a + i) = c (a' + i)) :
    getInt b a = getInt c a' := by
  rw [getInt, getInt, Bytes.get32, Bytes.getLE_congr h]

lemma getInt_putInt (b : Bytes) (a : ℕ) {v : ℤ} (h : -2 ^ 31 ≤ v ∧ v < 2 ^ 31) :
    getInt (putInt b a v) a = v := by
  have hpos : 0 ≤ v % 2 ^ 32 := Int.emod_nonneg _ (by decide)
  have hlt : v % 2 ^ 32 < 2 ^ 32 := Int.emod_lt_of_pos _ (by decide)
  have hmod : (v % 2 ^ 32).toNat % 256 ^ 4 = (v % 2 ^ 32).toNat := Nat.mod_eq_of_lt (by omega)
  have hbmod : toInt32 (v % 2 ^ 32) = toInt32 v := by
    rw [toInt32, toInt32]
    exact_mod_cast Int.emod_bmod v (2 ^ 32)
  rw [getInt, putInt, Bytes.get32, Bytes.getLE_setLE, hmod, Int.toNat_of_nonneg hpos, hbmod,
    toInt32_of_range h]

lemma getInt_putInt_of_disjoint {b : Bytes} {a c : ℕ} {v : ℤ} (h : c + 4 ≤ a ∨ a + 4 ≤ c) :
    getInt (putInt b a v) c = getInt b c := by
  rw [getInt, getInt, putInt, Bytes.get32, Bytes.getLE_setLE_of_disjoint h]

lemma nbytes2sec_range {v : ℤ} (h : -2 ^ 31 ≤ v ∧ v < 2 ^ 31) :
    -2 ^ 31 ≤ nbytes2sec v ∧ nbytes2sec v < 2 ^ 31 := by
  have heq : nbytes2sec v = v.tdiv 512 + if v.tmod 512 ≠ 0 then 1 else 0 := rfl
  have habs : (v.tdiv 512).natAbs = v.natAbs / 512 := Int.natAbs_tdiv v 512
  rw [heq]
  split <;> omega

/-- The counts of a task record are `int`s. -/
def TaskInfo.InRange (t : TaskInfo) : Prop :=
  (-2 ^ 31 ≤ t.sectorsNum ∧ t.sectorsNum < 2 ^ 31) ∧ (-2 ^ 31 ≤ t.filesz ∧ t.filesz < 2 ^ 31)

lemma putTaskInfo_of_notMem {img : Bytes} {a x : ℕ} {t : TaskInfo} (h : x < a ∨ a + 28 ≤ x) :
    putTaskInfo img a t x = img x := by
  simp only [putTaskInfo, putInt, putName, Bytes.set32]
  rw [Bytes.setLE_apply_of_notMem (by omega), Bytes.setLE_apply_of_notMem (by omega),
    Bytes.setLE_apply_of_notMem (by omega), Bytes.blit_apply_of_notMem (by omega)]

lemma getTaskInfo_putTaskInfo (img : Bytes) (a : ℕ) {t : TaskInfo} (ht : t.InRange) :
    (getTaskInfo (putTaskInfo img a t) a).sectorsNum = t.sectorsNum ∧
      (getTaskInfo (putTaskInfo img a t) a).filesz = t.filesz := by
  simp only [getTaskInfo, putTaskInfo]
  constructor
  · rw [getInt_putInt_of_disjoint (by omega), getInt_putInt_of_disjoint (by omega),
      getInt_putInt _ _ ht.1]
  · rw [getInt_putInt_of_disjoint (by omega), getInt_putInt _ _ ht.2]

lemma writeImgInfo_before {img : Bytes} {a x : ℕ} {infos : List TaskInfo} (h : x < a) :
    writeImgInfo img a infos x = img x := by
  induction infos generalizing img a with
  | nil => rfl
  | cons t infos ih =>
    rw [writeImgInfo, ih (by omega), putTaskInfo_of_notMem (.inl h)]

lemma getTaskInfo_congr {b c : Bytes} {a a' : ℕ} (h : ∀ i < 28, b (a + i) = c (a' + i)) :
    (getTaskInfo b a).sectorsNum = (getTaskInfo c a').sectorsNum ∧
      (getTaskInfo b a).filesz = (getTaskInfo c a').filesz := by
  simp only [getTaskInfo]
  constructor
  · refine getInt_congr fun i hi => ?_
    rw [Nat.add_assoc, Nat.add_assoc]
    exact h _ (by omega)
  · refine getInt_congr fun i hi => ?_
    rw [Nat.add_assoc, Nat.add_assoc]
    exact h _ (by omega)

/-- The records of the array at the end of the image. -/
lemma getTaskInfo_writeImgInfo {img : Bytes} {a k : ℕ} {t : TaskInfo} {infos : List TaskInfo}
    (hrange : ∀ t ∈ infos, t.InRange) (hk : infos[k]? = some t) :
    (getTaskInfo (writeImgInfo img a infos) (a + 28 * k)).sectorsNum = t.sectorsNum ∧
      (getTaskInfo (writeImgInfo img a infos) (a + 28 * k)).filesz = t.filesz := by
  induction infos generalizing img a k with
  | nil => simp at hk
  | cons u infos ih =>
    cases k with
    | zero =>
      simp only [List.getElem?_cons_zero, Option.some.injEq] at hk
      subst hk
      have hput := getTaskInfo_putTaskInfo img a (hrange u List.mem_cons_self)
      have hcongr := @getTaskInfo_congr (writeImgInfo img a (u :: infos)) (putTaskInfo img a u) a a
        fun i hi => writeImgInfo_before (Nat.add_lt_add_left hi a)
      rw [Nat.mul_zero, Nat.add_zero]
      exact ⟨hcongr.1.trans hput.1, hcongr.2.trans hput.2⟩
    | succ k =>
      rw [show a + 28 * (k + 1) = a + sizeofTaskInfo + 28 * k by
        simp only [sizeofTaskInfo]
        omega]
      exact ih (fun t ht => hrange t (List.mem_cons_of_mem _ ht)) hk

lemma writeAppInfo_of_notMem {b : Build} {n : ℤ} {x : ℕ} (h : x < 0x1f0 ∨ 0x200 ≤ x) :
    writeAppInfo b n x = b.img x := by
  simp only [writeAppInfo, putInt, Bytes.set32, Bytes.set16, appInfoOffset]
  rw [Function.update_of_ne (by omega), Function.update_of_ne (by omega),
    Bytes.setLE_apply_of_notMem (by omega), Bytes.setLE_apply_of_notMem (by omega),
    Bytes.setLE_apply_of_notMem (by omega), Bytes.setLE_apply_of_notMem (by omega)]

/-- The kernel size and the number of sectors of the record in the first sector. -/
lemma getInt_writeAppInfo {b : Build} {n : ℤ} (hk : -2 ^ 31 ≤ b.kernelFilesz ∧ b.kernelFilesz < 2 ^ 31)
    (hp : b.phyaddr < 2 ^ 31) :
    getInt (writeAppInfo b n) 0x1f0 = b.kernelFilesz ∧
      getInt (writeAppInfo b n) 0x1f8 = (b.phyaddr / 512 : ℕ) := by
  have hlast : ∀ c : Bytes, ∀ u v : UInt8, ∀ a, a + 4 ≤ 0x1fe →
      getInt (Function.update (Function.update c 0x1fe u) 0x1ff v) a = getInt c a := by
    intro c u v a ha
    refine getInt_congr fun i hi => ?_
    rw [Function.update_of_ne (by omega), Function.update_of_ne (by omega)]
  have hshort : ∀ c : Bytes, ∀ v a, a + 4 ≤ 0x1fc → getInt (Bytes.set16 c 0x1fc v) a = getInt c a := by
    intro c v a ha
    rw [getInt, getInt, Bytes.get32, Bytes.getLE_setLE_of_disjoint (by omega)]
  simp only [writeAppInfo, appInfoOffset, sectorSize]
  constructor
  · rw [hlast _ _ _ _ (by decide), hshort _ _ _ (by decide), getInt_putInt_of_disjoint (by decide),
      getInt_putInt_of_disjoint (by decide), getInt_putInt _ _ hk]
  · rw [hlast _ _ _ _ (by decide), hshort _ _ _ (by decide)]
    exact getInt_putInt _ _ ⟨by omega, by omega⟩

/-! ## Writer and loader -/

/-- The input files of `create_image`: a bootblock that takes up one sector, the
kernel, and at most 16 tasks. -/
structure Inputs where
  bootblock : ElfFile
  main : ElfFile
  tasks : List ElfFile
  bootblock_name : bootblock.name = bootblockName
  main_name : main.name = mainName
  task_name : ∀ t ∈ tasks, (t.name ≠ bootblockName ∧ t.name ≠ mainName) ∧ t.name.length < 16
  tasks_le : tasks.length ≤ taskMaxnum
  bootblock_fits : 1 ≤ bootblock.writtenSize ∧ bootblock.writtenSize ≤ sectorSize

def Inputs.files (inputs : Inputs) : List ElfFile := inputs.bootblock :: inputs.main :: inputs.tasks

/-- The writer makes an image, and the loader reads every task from the sector at
which it was written and finds the bytes of its segments there. -/
def Inputs.Agrees (inputs : Inputs) : Prop :=
  ∃ img starts, createImage inputs.files = some (img, starts) ∧ starts.length = inputs.tasks.length ∧
    ∀ (k : ℕ) (t : ElfFile) (p : ℕ), inputs.tasks[k]? = some t → starts[k]? = some p →
      512 * (initTaskInfo img).taskStart k = p ∧
      (∀ b, loadTaskImg (initTaskInfo img) t.name = some (k, b) → 512 * b = p) ∧
      ((initTaskInfo img).tasks k).filesz = t.loadBytes.length ∧
      img.slice p ((initTaskInfo img).tasks k).filesz.toNat = t.loadBytes

/-- The image has less than `2 ^ 31` bytes, the sizes of the headers of the
kernel add up to as many sectors as are written, and those of a task to as many
bytes. -/
structure Inputs.Consistent (inputs : Inputs) : Prop where
  fits : 512 * totalSectors inputs.files < 2 ^ 31
  kernel : inputs.tasks ≠ [] →
    nbytes2sec inputs.main.recordedSize = nbytes2sec inputs.main.writtenSize
  tasks : ∀ t ∈ inputs.tasks, t.skippedSize % 2 ^ 32 = 0

section Agree

variable {inputs : Inputs} {img : Bytes} {starts : List ℕ}

lemma Inputs.sectors_bootblock (inputs : Inputs) : inputs.bootblock.sectors = 1 := by
  have h := inputs.bootblock_fits
  rw [sectorSize] at h
  rw [sectors]
  omega

/-- Where the first task begins. -/
def Inputs.firstTask (inputs : Inputs) : ℕ := 512 + 512 * inputs.main.sectors

lemma Inputs.totalSectors_files (inputs : Inputs) :
    totalSectors inputs.files = 1 + inputs.main.sectors + totalSectors inputs.tasks := by
  rw [files, totalSectors_cons, totalSectors_cons, inputs.sectors_bootblock, Nat.add_assoc]

lemma createImage_isSome (inputs : Inputs) :
    (createImage inputs.files).isSome ↔ 512 * totalSectors inputs.files < 2 ^ 31 := by
  have h := @addFiles_isSome emptyBuild inputs.files rfl (by decide)
  rw [show emptyBuild.phyaddr = 0 from rfl, Nat.zero_add] at h
  rw [← h, createImage]
  cases addFiles emptyBuild inputs.files <;> simp

/-- The image and what the loader reads from it. -/
structure ReadBack (inputs : Inputs) (img : Bytes) (starts : List ℕ) : Prop where
  starts_eq : starts = startsFrom inputs.firstTask inputs.tasks
  laid : Laid img inputs.firstTask inputs.tasks
  kernel : (initTaskInfo img).kernelSectorsNum = nbytes2sec inputs.main.recordedSize
  sectors : ∀ (k : ℕ) (t : ElfFile), inputs.tasks[k]? = some t →
    ((initTaskInfo img).tasks k).sectorsNum = nbytes2sec t.recordedSize
  filesz : ∀ (k : ℕ) (t : ElfFile), inputs.tasks[k]? = some t →
    ((initTaskInfo img).tasks k).filesz = t.recordedSize

lemma readBack (h : createImage inputs.files = some (img, starts)) : ReadBack inputs img starts := by
  have hfits := (createImage_isSome inputs).1 (by rw [h]; rfl)
  rw [inputs.totalSectors_files] at hfits
  simp only [createImage, Inputs.files, addFiles, Option.bind_eq_bind, Option.bind_eq_some_iff,
    Option.some.injEq, Prod.mk.injEq] at h
  obtain ⟨b, ⟨c, hc, d, hd, hb⟩, himg, hstarts⟩ := h
  generalize ((inputs.bootblock :: inputs.main :: inputs.tasks).length : ℤ) - 2 = n at himg
  -- the bootblock, the kernel, the tasks
  obtain ⟨hck, hcm, hci, hcs⟩ := addFile_bootblock inputs.bootblock_name rfl rfl hc
  have hcpos : c.phyaddr = 512 := by
    rw [(addFile_added rfl hc).phyaddr, inputs.sectors_bootblock]
    rfl
  obtain ⟨hdk, hdm, hdi, hds⟩ := addFile_main inputs.main_name hck hcm hd
  have hdpos : d.phyaddr = inputs.firstTask := by
    rw [(addFile_added (by rw [hcpos]) hd).phyaddr, hcpos, Inputs.firstTask]
  have htasks := addFiles_tasks (fun t ht => (inputs.task_name t ht).1)
    (by rw [hdpos, Inputs.firstTask]; omega) hdk hdm hb
  obtain ⟨infos, hinfos, hsec, hfile⟩ := htasks.taskinfo
  have hpos := htasks.phyaddr
  rw [hdpos] at hpos
  have hinfo : b.taskinfo = infos := by rw [hinfos, hdi, hci]; rfl
  have hend : max b.phyaddr (appInfoOffset + 16) = b.phyaddr := by
    rw [appInfoOffset]
    simp only [Inputs.firstTask] at hpos
    omega
  rw [hend, hinfo] at himg
  have hrange : ∀ u ∈ infos, u.InRange := by
    intro u hu
    have h1 : u.sectorsNum ∈ infos.map (·.sectorsNum) := List.mem_map_of_mem hu
    have h2 : u.filesz ∈ infos.map (·.filesz) := List.mem_map_of_mem hu
    rw [hsec] at h1
    rw [hfile] at h2
    obtain ⟨t, -, ht⟩ := List.mem_map.1 h1
    obtain ⟨t', -, ht'⟩ := List.mem_map.1 h2
    exact ⟨ht ▸ nbytes2sec_range (toInt32_range _), ht' ▸ toInt32_range _⟩
  have hlow : ∀ a, a + 4 ≤ 512 → getInt img a = getInt (writeAppInfo b n) a := by
    intro a ha
    refine getInt_congr fun i hi => ?_
    rw [← himg]
    simp only [Inputs.firstTask] at hpos
    exact writeImgInfo_before (by omega)
  have hk : b.kernelFilesz = inputs.main.recordedSize := htasks.kernelFilesz.trans hdk
  have happ := getInt_writeAppInfo (b := b) (n := n)
    (hk ▸ toInt32_range _) (by simp only [Inputs.firstTask] at hpos; omega)
  -- the record of task `k` is in the sector that is read
  have hrecord : ∀ (k : ℕ) (t : ElfFile), inputs.tasks[k]? = some t →
      ((initTaskInfo img).tasks k).sectorsNum = nbytes2sec t.recordedSize ∧
        ((initTaskInfo img).tasks k).filesz = t.recordedSize := by
    intro k t ht
    have hklt : k < 16 := by
      have := (List.getElem?_eq_some_iff.1 ht).1
      have := inputs.tasks_le
      rw [taskMaxnum] at this
      omega
    obtain ⟨u, hu, hus, huf⟩ : ∃ u, infos[k]? = some u ∧ u.sectorsNum = nbytes2sec t.recordedSize ∧
        u.filesz = t.recordedSize := by
      have h1 := congrArg (·[k]?) hsec
      have h2 := congrArg (·[k]?) hfile
      simp only [List.getElem?_map, ht, Option.map_some] at h1 h2
      obtain ⟨u, hu, h1⟩ := Option.map_eq_some_iff.1 h1
      rw [hu, Option.map_some, Option.some.injEq] at h2
      exact ⟨u, hu, h1, h2⟩
    have htotal : sectorSize * (getInt img (appInfoOffset + 8)).toNat = b.phyaddr := by
      rw [hlow _ (by decide), show appInfoOffset + 8 = 0x1f8 from rfl, happ.2, sectorSize]
      simp only [Inputs.firstTask] at hpos
      omega
    have hread := @getTaskInfo_writeImgInfo (writeAppInfo b n) b.phyaddr k u infos
      hrange hu
    have hcongr := @getTaskInfo_congr (Bytes.blit Bytes.zero 0 img b.phyaddr sectorSize) img (28 * k)
      (b.phyaddr + 28 * k) fun i hi => by
        rw [Bytes.blit_apply_of_mem (by rw [sectorSize]; omega)]
        exact congrArg img (by omega)
    simp only [initTaskInfo, htotal, sizeofTaskInfo]
    rw [himg] at hread
    exact ⟨hcongr.1.trans (hread.1.trans hus), hcongr.2.trans (hread.2.trans huf)⟩
  refine ⟨?_, ?_, ?_, fun k t ht => (hrecord k t ht).1, fun k t ht => (hrecord k t ht).2⟩
  · rw [← hstarts, htasks.starts, hds, hcs, hdpos]
    rfl
  · rw [← hdpos, ← himg]
    refine laid_congr (fun x hx hx' => ?_) htasks.laid
    rw [writeImgInfo_before (by rw [htasks.phyaddr]; exact hx'), writeAppInfo_of_notMem]
    simp only [hdpos, Inputs.firstTask] at hx
    omega
  · show nbytes2sec (getInt img 0x1f0) = _
    rw [hlow _ (by decide), happ.1, hk]

/-! ### The two directions -/

/-- The header sizes of a file are those of the bytes written if and only if the
headers that are not written add up to nothing. -/
lemma recordedSize_eq_iff {f : ElfFile} (hlt : f.writtenSize < 2 ^ 31) :
    f.recordedSize = f.writtenSize ↔ f.skippedSize % 2 ^ 32 = 0 := by
  have hsum : (countedOf f.phdrs : ℤ) = f.writtenSize + f.skippedSize := by
    rw [countedOf_eq hlt]
    push_cast
    rfl
  have hrange := toInt32_range (countedOf f.phdrs)
  have hmod : (toInt32 (countedOf f.phdrs) - countedOf f.phdrs) % 2 ^ 32 = 0 :=
    Int.emod_eq_zero_of_dvd Int.dvd_bmod_sub_self
  rw [recordedSize]
  omega

lemma writtenSize_lt {files : List ElfFile} (h : 512 * totalSectors files < 2 ^ 31) {f : ElfFile}
    (hf : f ∈ files) : f.writtenSize < 2 ^ 31 := by
  have h1 := writtenSize_le f
  have h2 : f.sectors ≤ totalSectors files := List.single_le_sum (by simp) _ (List.mem_map_of_mem hf)
  omega

lemma startsFrom_eq {p q k : ℕ} {files : List ElfFile} (h : (startsFrom p files)[k]? = some q) :
    q = p + 512 * totalSectors (files.take k) := by
  induction files generalizing p k with
  | nil => simp [startsFrom] at h
  | cons f files ih =>
    cases k with
    | zero =>
      simp only [startsFrom, List.getElem?_cons_zero, Option.some.injEq] at h
      simp [h, totalSectors]
    | succ k =>
      simp only [startsFrom, List.getElem?_cons_succ] at h
      rw [ih h, List.take_succ_cons, totalSectors_cons]
      omega

/-- With consistent headers the start of a task counts the sectors that were
written before it. -/
lemma ReadBack.taskStart_eq (h : ReadBack inputs img starts) (hc : inputs.Consistent) {k : ℕ}
    (hk : k < inputs.tasks.length) : (initTaskInfo img).taskStart k =
      (1 + inputs.main.sectors + totalSectors (inputs.tasks.take k) : ℕ) := by
  induction k with
  | zero =>
    have hkernel := hc.kernel (List.ne_nil_of_length_pos hk)
    rw [AppInfo.taskStart, h.kernel, hkernel, nbytes2sec_natCast]
    simp only [List.range_zero, List.map_nil, List.sum_nil, List.take_zero, totalSectors,
      ElfFile.sectors]
    push_cast
    ring
  | succ k ih =>
    obtain ⟨t, ht⟩ : ∃ t, inputs.tasks[k]? = some t := ⟨_, List.getElem?_eq_getElem (by omega)⟩
    have hmem : t ∈ inputs.tasks := List.mem_of_getElem? ht
    have hlt : t.writtenSize < 2 ^ 31 :=
      writtenSize_lt hc.fits (List.mem_cons_of_mem _ (List.mem_cons_of_mem _ hmem))
    have hsectors : ((initTaskInfo img).tasks k).sectorsNum = (t.sectors : ℕ) := by
      rw [h.sectors k t ht, (recordedSize_eq_iff hlt).2 (hc.tasks t hmem), nbytes2sec_natCast]
      rfl
    have htake : totalSectors (inputs.tasks.take (k + 1)) =
        totalSectors (inputs.tasks.take k) + t.sectors := by
      rw [List.take_add_one, ht]
      simp [totalSectors]
    rw [AppInfo.taskStart_succ, ih (by omega), hsectors, htake]
    push_cast
    ring

lemma Inputs.Consistent.agrees (hc : inputs.Consistent) : inputs.Agrees := by
  obtain ⟨⟨img, starts⟩, himg⟩ := Option.isSome_iff_exists.1 ((createImage_isSome inputs).2 hc.fits)
  have h := readBack himg
  refine ⟨img, starts, himg, h.starts_eq ▸ length_startsFrom _ _, fun k t p ht hp => ?_⟩
  have hmem : t ∈ inputs.tasks := List.mem_of_getElem? ht
  have hlt : t.writtenSize < 2 ^ 31 :=
    writtenSize_lt hc.fits (List.mem_cons_of_mem _ (List.mem_cons_of_mem _ hmem))
  have hstart : 512 * (initTaskInfo img).taskStart k = p := by
    rw [h.starts_eq] at hp
    rw [h.taskStart_eq hc (List.getElem?_eq_some_iff.1 ht).1, startsFrom_eq hp, Inputs.firstTask]
    push_cast
    ring
  have hfilesz : ((initTaskInfo img).tasks k).filesz = t.writtenSize := by
    rw [h.filesz k t ht, (recordedSize_eq_iff hlt).2 (hc.tasks t hmem)]
  refine ⟨hstart, fun b hb => loadTaskImg_start hb ▸ hstart, ?_, ?_⟩
  · rw [hfilesz, length_loadBytes]
  · rw [hfilesz, Int.toNat_natCast]
    exact laid_getElem h.laid ht (h.starts_eq ▸ hp)

end Agree

end Image
end UcasKernel
