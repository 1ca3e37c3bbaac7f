/-
Loading the image of a task.

`load_task_img` looks a task up by its name, adding up the sectors of the tasks before it,
and maps its memory page by page.  The sectors of the file are read to the pages that begin
in it, and what is behind the file is cleared: the rest of its last page and all pages after
that.
-/
import UcasKernel.Image.CreateImage
import UcasKernel.Mm.Faults
import UcasKernel.Mm.Reclaim
import UcasKernel.Mm.UserBytes

namespace UcasKernel
namespace Exec

open Mm Memory
open Image (AppInfo TaskInfo nbytes2sec sectorSize)

def USER_VA_START : ℕ := 0x10000

/-- More than the rounds for which `sz` fits an `int`. -/
def LOAD_ROUNDS : ℕ := 0x80001

/-- `ROUNDDOWN`. -/
def roundDown (a n : ℕ) : ℕ := a &&& (2 ^ 64 - n)

/-- `bios_sdread` of `n` sectors to a page. -/
def biosSdread (s : State) (page n block : ℕ) : State :=
  { s with mem := Function.update s.mem page fun i =>
      if i / 64 < n then s.sd (block + i / 64) (Fin.ofNat 64 i) else s.mem page i }

/-- The search for the task with a name, from number `taskIdx` on: where it ends, and the
`block_id` there. -/
def findTask (info : AppInfo) (name : List UInt8) (taskIdx : ℕ) (blockId : ℤ) :
    ℕ → Option (ℕ × ℤ)
  | 0 => some (taskIdx, blockId)
  | n + 1 =>
    if (info.tasks taskIdx).name = name then some (taskIdx, blockId)
    else do
      let blockId ← addInt blockId (info.tasks taskIdx).sectorsNum
      findTask info name (taskIdx + 1) blockId n

/-- The sectors of the file that begin in the page at `sz` are read to it. -/
def readPage (filesz sz : ℤ) (kva : ℕ) (s : State) (blockId : ℤ) : Option (State × ℤ) :=
  let pa := kva2pa kva
  if sz < filesz then do
    let bytesLeft := filesz - sz
    let blocksRead := if nbytes2sec bytesLeft > SECTORS_PER_PAGE then (SECTORS_PER_PAGE : ℤ)
      else nbytes2sec bytesLeft
    let s := biosSdread s (pa2kva pa) blocksRead.toNat blockId.toNat
    some (s, ← addInt blockId blocksRead)
  else some (s, blockId)

/-- What is behind the file in the page at `sz` is cleared. -/
def expandBss (filesz sz : ℤ) (kva : ℕ) (s : State) : Option State := do
  if (← addInt sz PAGE_SIZE) > filesz then
    let bssEnd := kva + PAGE_SIZE
    let bssStart := if roundDown (filesz % 2 ^ 64).toNat PAGE_SIZE = sz then
      (kva + filesz.tmod PAGE_SIZE).toNat else kva
    some { s with toMemory := s.memset bssStart 0 (bssEnd - bssStart) }
  else some s

/-- The loop over `sz`. -/
def loadPages (task : TaskInfo) (pgdir : ℕ) : ℕ → ℤ → State → ℤ → Option State
  | 0, _, _, _ => none
  | fuel + 1, sz, s, blockId =>
    if sz < task.memsz then do
      let uva ← addInt USER_VA_START sz
      let (kva, s) ← s.allocPageHelper MAX_PRESENT_PFN uva.toNat pgdir
      let (s, blockId) ← readPage task.filesz sz kva s blockId
      let s ← expandBss task.filesz sz kva s
      loadPages task pgdir fuel (← addInt sz PAGE_SIZE) s blockId
    else some s

/-- `load_task_img`. -/
def loadTaskImg (s : State) (info : AppInfo) (name : List UInt8) (pgdir : ℕ) :
    Option (ℕ × State) := do
  let blockId ← addInt info.kernelSectorsNum 1
  let (taskIdx, blockId) ← findTask info name 0 blockId info.tasksNum.toNat
  if taskIdx = info.tasksNum then some (0, s)
  else do
    let s ← loadPages (info.tasks taskIdx) pgdir LOAD_ROUNDS 0 s blockId
    some (1, s)

/-! ## The card -/

/-- A byte of the card. -/
def sdByte (sd : ℕ → Fin 64 → ℕ) (n : ℕ) : ℕ :=
  byteOf (sd (n / sectorSize) (Fin.ofNat 64 (n / 8))) (n % 8)

section Card

variable {s : State} {page n block x kva : ℕ} {filesz sz blockId start : ℤ}

lemma byte_biosSdread (hp : page % PAGE_SIZE = 0) (hx : x < PAGE_SIZE) :
    (biosSdread s page n block).byte (page + x) =
      if x < n * sectorSize then sdByte s.sd (block * sectorSize + x) else s.byte (page + x) := by
  have hpage := pageOf_add hp hx
  have hword := wordOf_val (page + x)
  simp only [PAGE_SIZE, sectorSize] at hp hx hword ⊢
  have hi : (wordOf (page + x)).val / 64 = x / 512 := by omega
  have hmod : (page + x) % 8 = (block * 512 + x) % 8 := by omega
  simp only [byte, biosSdread, hpage, Function.update_self, hi]
  by_cases hlt : x < n * 512
  · have hfin : Fin.ofNat 64 (wordOf (page + x)).val = Fin.ofNat 64 ((block * 512 + x) / 8) := by
      refine Fin.ext ?_
      simp only [Fin.val_ofNat]
      omega
    have hdiv : (block * 512 + x) / 512 = block + x / 512 := by omega
    rw [if_pos hlt, if_pos (by omega), sdByte, sectorSize, hfin, hdiv, hmod]
  · rw [if_neg hlt, if_neg (by omega)]

lemma roundDown_eq (h : 0 ≤ filesz) (hlt : filesz < 2 ^ 31) :
    (roundDown (filesz % 2 ^ 64).toNat PAGE_SIZE : ℤ) = filesz / 4096 * 4096 := by
  have hlt' : (filesz % 2 ^ 64).toNat < 2 ^ 64 := by omega
  have : roundDown (filesz % 2 ^ 64).toNat PAGE_SIZE = (filesz % 2 ^ 64).toNat / 4096 * 4096 :=
    and_pageMask hlt'
  omega

lemma readPage_spec (hkva : kva % PAGE_SIZE = 0) (hpa : pa2kva (kva2pa kva) = kva) (hsz : 0 ≤ sz)
    (halign : sz % 4096 = 0) (hfile : 0 ≤ filesz) (hstart : 0 ≤ start)
    (hfit : start + nbytes2sec filesz < 2 ^ 31) :
    ∃ m', readPage filesz sz kva s (start + min (sz / 512) (nbytes2sec filesz)) =
        some ({ s with toMemory := m' }, start + min ((sz + 4096) / 512) (nbytes2sec filesz)) ∧
      m'.freememList = s.freememList ∧ (∀ g, g ≠ kva → m'.mem g = s.mem g) ∧
      ∀ x < PAGE_SIZE, sz + x < filesz →
        m'.byte (kva + x) = sdByte s.sd (start.toNat * sectorSize + (sz.toNat + x)) := by
  have hsec := Image.nbytes2sec_of_nonneg hfile
  by_cases hlt : sz < filesz
  · have hleft := Image.nbytes2sec_of_nonneg (show 0 ≤ filesz - sz by omega)
    obtain ⟨n, hn, hblocks⟩ : ∃ n : ℕ, (n : ℤ) = min 8 (nbytes2sec (filesz - sz)) ∧
        (if nbytes2sec (filesz - sz) > SECTORS_PER_PAGE then (SECTORS_PER_PAGE : ℤ)
          else nbytes2sec (filesz - sz)) = n := by
      refine ⟨(min 8 (nbytes2sec (filesz - sz))).toNat, by omega, ?_⟩
      simp only [SECTORS_PER_PAGE, Nat.cast_ofNat]
      split_ifs <;> omega
    have hadd : addInt (start + min (sz / 512) (nbytes2sec filesz)) n =
        some (start + min ((sz + 4096) / 512) (nbytes2sec filesz)) := by
      have heq : start + min (sz / 512) (nbytes2sec filesz) + n =
          start + min ((sz + 4096) / 512) (nbytes2sec filesz) := by omega
      rw [addInt, heq, if_pos (by omega)]
    have hblock : (start + min (sz / 512) (nbytes2sec filesz)).toNat * sectorSize =
        start.toNat * sectorSize + sz.toNat := by
      simp only [sectorSize]
      omega
    refine ⟨(biosSdread s kva n (start + min (sz / 512) (nbytes2sec filesz)).toNat).toMemory, ?_, rfl,
      fun g hg => Function.update_of_ne hg _ _, fun x hx hxf => ?_⟩
    · simp only [readPage, if_pos hlt, hblocks, hadd, hpa, Int.toNat_natCast, Option.bind_eq_bind,
        Option.bind_some]
      rfl
    · have hxn : x < n * sectorSize := by
        simp only [PAGE_SIZE, sectorSize] at hx ⊢
        omega
      rw [byte_biosSdread hkva hx, if_pos hxn, hblock, Nat.add_assoc]
  · refine ⟨s.toMemory, ?_, rfl, fun _ _ => rfl, fun x _ hxf => by omega⟩
    have h₁ : min (sz / 512) (nbytes2sec filesz) = nbytes2sec filesz := by omega
    have h₂ : min ((sz + 4096) / 512) (nbytes2sec filesz) = nbytes2sec filesz := by omega
    rw [readPage, if_neg hlt, h₁, h₂]

lemma expandBss_spec (hkva : kva % PAGE_SIZE = 0) (hsz : 0 ≤ sz) (halign : sz % 4096 = 0)
    (hint : sz + 4096 < 2 ^ 31) (hfile : 0 ≤ filesz) (hfile' : filesz < 2 ^ 31) :
    ∃ m', expandBss filesz sz kva s = some { s with toMemory := m' } ∧
      m'.freememList = s.freememList ∧ (∀ g, g ≠ kva → m'.mem g = s.mem g) ∧
      ∀ x < PAGE_SIZE, m'.byte (kva + x) = if sz + x < filesz then s.byte (kva + x) else 0 := by
  have hnext : addInt sz PAGE_SIZE = some (sz + 4096) := if_pos ⟨by omega, hint⟩
  have hround := roundDown_eq hfile hfile'
  have hmod : filesz.tmod PAGE_SIZE = filesz % 4096 := Int.tmod_eq_emod_of_nonneg hfile
  by_cases hlt : sz + 4096 > filesz
  · -- the part of the page that the file reaches
    obtain ⟨r, hr, hstart⟩ : ∃ r : ℕ, (r : ℤ) = max 0 (filesz - sz) ∧
        (if (roundDown (filesz % 2 ^ 64).toNat PAGE_SIZE : ℤ) = sz then
          (kva + filesz.tmod PAGE_SIZE).toNat else kva) = kva + r := by
      refine ⟨(max 0 (filesz - sz)).toNat, by omega, ?_⟩
      rw [hround, hmod]
      split_ifs <;> omega
    have hr' : r ≤ 4096 := by omega
    have hlen : kva + PAGE_SIZE - (kva + r) = 4096 - r := by simp only [PAGE_SIZE]; omega
    refine ⟨s.memset (kva + r) 0 (4096 - r), ?_, memset_freememList, fun g hg => ?_, fun x hx => ?_⟩
    · simp only [expandBss, hnext, Option.bind_eq_bind, Option.bind_some, if_pos hlt, hstart, hlen]
    · exact memset_mem hkva (by simp only [PAGE_SIZE]; omega) hg
    · rw [byte_memset]
      simp only [PAGE_SIZE] at hx
      by_cases hxf : sz + x < filesz
      · rw [if_neg (by omega), if_pos hxf]
      · rw [if_pos (by omega), if_neg hxf]
  · refine ⟨s.toMemory, ?_, rfl, fun _ _ => rfl, fun x hx => ?_⟩
    · simp only [expandBss, hnext, Option.bind_eq_bind, Option.bind_some, if_neg hlt]
    · simp only [PAGE_SIZE] at hx
      rw [if_pos (by omega)]

end Card

/-! ## The pages -/

/-- After `j` rounds: the pages below are mapped and hold the bytes `want`. -/
structure Loading (A : Prop) (spaces : Finset ℕ) (pgdir : ℕ) (s₀ : State) (want : ℕ → ℕ) (j : ℕ)
    (s : State) (role : ℕ → Role) (e : ℕ) (q : Queue → List Pfn) : Prop where
  spaces : Spaces A s.toMemory spaces role e
  book : s.Book q
  swapped : q .swappedPagesQueue = []
  sd : s.sd = s₀.sd
  num : s.presentPagesNum = s₀.presentPagesNum + j
  num_nonneg : 0 ≤ s₀.presentPagesNum
  pageId : s.pageId = s₀.pageId + j
  pages : ∀ i < j, ∃ f, role f = .page ∧
    s.leaf pgdir (vpns (USER_VA_START + i * PAGE_SIZE)) = entry f PAGE_ALL ∧
    ∀ x < PAGE_SIZE, s.byte (f + x) = want (i * PAGE_SIZE + x)

section Pages

variable {A : Prop} {spaces : Finset ℕ} {pgdir e j kva : ℕ} {s₀ s u : State} {want : ℕ → ℕ}
  {role : ℕ → Role} {q : Queue → List Pfn}

lemma Loading.lt (h : Loading A spaces pgdir s₀ want j s role e q) : j ≤ MAX_PRESENT_PFN := by
  have hnum := h.book.num_le
  have := h.num
  have := h.num_nonneg
  omega

/-- The pages of the image are in the user half. -/
lemma uva_lt (hj : j ≤ MAX_PRESENT_PFN) : USER_VA_START + j * PAGE_SIZE < 2 ^ 38 := by
  simp only [MAX_PRESENT_PFN, USER_VA_START, PAGE_SIZE] at hj ⊢
  omega

/-- Two pages of the image have different entries. -/
lemma vpns_page_ne {i : ℕ} (hi : i < j) (hj : j ≤ MAX_PRESENT_PFN) :
    vpns (USER_VA_START + i * PAGE_SIZE) ≠ vpns (USER_VA_START + j * PAGE_SIZE) := by
  rw [ne_eq, vpns_eq_iff (uva_lt hj) (uva_lt (hi.le.trans hj))]
  simp only [USER_VA_START, PAGE_SIZE]
  omega

/-- One more page. -/
lemma Loading.step {m' : Memory} (h : Loading A spaces pgdir s₀ want j s role e q)
    (hd : pgdir ∈ spaces)
    (hs : s.allocPageHelper MAX_PRESENT_PFN (USER_VA_START + j * PAGE_SIZE) pgdir = some (kva, u))
    (hlist : m'.freememList = u.freememList) (hmem : ∀ g, g ≠ kva → m'.mem g = u.mem g)
    (hbytes : ∀ x < PAGE_SIZE, m'.byte (kva + x) = want (j * PAGE_SIZE + x)) :
    ∃ role' e' q', Loading A spaces pgdir s₀ want (j + 1) { u with toMemory := m' } role' e' q' ∧
      e' ≤ e + 3 * PAGE_SIZE := by
  have hj := h.lt
  have hown : ∀ k ≤ j, Own (vpn2 (USER_VA_START + k * PAGE_SIZE)) := fun k hk =>
    own_vpn2 (uva_lt (hk.trans hj))
  have ho := hown j le_rfl
  obtain ⟨⟨q', hb, hq⟩, -, hfree, role', e', hspaces, hkeep, hpage, hleaf, hsame, hle⟩ :=
    h.spaces.allocPageHelper h.book h.swapped hd ho hs
  obtain ⟨-, hother⟩ := h.spaces.allocPageHelper_mem h.book hd ho hs
  obtain ⟨m, m₁, r, L, -, -, rfl, -⟩ := h.book.allocPageHelper_spec hs
  obtain ⟨hspaces', hleaves⟩ := hspaces.write (Or.inl hpage) hlist hmem
  refine ⟨role', e', q', ⟨hspaces', hb.congr (fun _ => rfl) rfl rfl rfl, hq, h.sd, ?_, h.num_nonneg,
    ?_, fun i hi => ?_⟩, hle⟩
  · show s.presentPagesNum + 1 = _
    have := h.num
    push_cast
    omega
  · show s.pageId + 1 = _
    have := h.pageId
    push_cast
    omega
  rcases Nat.lt_succ_iff_lt_or_eq.1 hi with hlt | rfl
  · -- an earlier page keeps its entry and its bytes
    obtain ⟨f, hf, hfleaf, hfbytes⟩ := h.pages i hlt
    have hfpage : role' f = .page := by rw [hkeep f (by simp [hf]), hf]
    have hfkva : f ≠ kva := by
      rintro rfl
      rw [hfree] at hf
      cases hf
    refine ⟨f, hfpage, ?_, fun x hx => ?_⟩
    · show m'.leaf pgdir _ = _
      rw [hleaves pgdir hd _ (hown i hlt.le), ← hfleaf]
      exact hsame pgdir hd _ (hown i hlt.le) fun heq =>
        vpns_page_ne hlt hj (Prod.ext_iff.1 heq).2
    · rw [← hfbytes x hx]
      have hframe : f % PAGE_SIZE = 0 := (hspaces.isFrame (Or.inl hfpage)).1.1
      refine byte_congr ?_
      rw [pageOf_add hframe hx]
      exact (hmem f hfkva).trans (hother f hf)
  · refine ⟨kva, hpage, ?_, hbytes⟩
    show m'.leaf pgdir _ = _
    rw [hleaves pgdir hd _ (ho)]
    exact hleaf

/-- The pages of an image. -/
def pagesOf (memsz : ℤ) : ℕ := ((memsz + 4095) / 4096).toNat

/-- The bytes of a task's memory: those of its file on the card, from sector `start` on, and
zeros. -/
def imageByte (sd : ℕ → Fin 64 → ℕ) (start filesz : ℤ) (x : ℕ) : ℕ :=
  if x < filesz then sdByte sd (start.toNat * sectorSize + x) else 0

/-- One round of the loop. -/
lemma Loading.round {task : TaskInfo} {start : ℤ}
    (h : Loading A spaces pgdir s₀ (imageByte s₀.sd start task.filesz) j s role e q)
    (hd : pgdir ∈ spaces) (hfile : 0 ≤ task.filesz) (hfile' : task.filesz < 2 ^ 31)
    (hstart : 0 ≤ start) (hfit : start + nbytes2sec task.filesz < 2 ^ 31)
    (hs : s.allocPageHelper MAX_PRESENT_PFN (USER_VA_START + j * PAGE_SIZE) pgdir = some (kva, u)) :
    ∃ v t role' e' q', readPage task.filesz (j * PAGE_SIZE : ℕ) kva u
        (start + min (8 * (j : ℤ)) (nbytes2sec task.filesz)) =
          some (v, start + min (8 * ((j : ℤ) + 1)) (nbytes2sec task.filesz)) ∧
      expandBss task.filesz (j * PAGE_SIZE : ℕ) kva v = some t ∧ j + 1 ≤ MAX_PRESENT_PFN ∧
      Loading A spaces pgdir s₀ (imageByte s₀.sd start task.filesz) (j + 1) t role' e' q' ∧
      e' ≤ e + 3 * PAGE_SIZE := by
  have ho : Own (vpn2 (USER_VA_START + j * PAGE_SIZE)) := own_vpn2 (uva_lt h.lt)
  obtain ⟨-, -, -, role₁, e₁, hspaces, -, hpage, -⟩ :=
    h.spaces.allocPageHelper h.book h.swapped hd ho hs
  obtain ⟨m₀, m₁, r, L, -, -, hu, hbook⟩ := h.book.allocPageHelper_spec hs
  have hframe := (hspaces.isFrame (Or.inl hpage)).1
  have hkva : kva % PAGE_SIZE = 0 := hframe.1
  have hpa : pa2kva (kva2pa kva) = kva := by
    obtain ⟨n, -, hn, hn'⟩ := hframe.kva2pa_eq
    rw [hn, hn']
  have hj : j + 1 ≤ MAX_PRESENT_PFN := by
    have hnum := hbook.num_le
    have := h.num
    have := h.num_nonneg
    rw [hu] at hnum
    simp only at hnum
    omega
  have hsd : u.sd = s₀.sd := by
    rw [hu]
    exact h.sd
  have hint : (j * PAGE_SIZE : ℕ) + (4096 : ℤ) < 2 ^ 31 := by
    simp only [MAX_PRESENT_PFN, PAGE_SIZE] at hj ⊢
    omega
  have halign : ((j * PAGE_SIZE : ℕ) : ℤ) % 4096 = 0 := by
    simp only [PAGE_SIZE]
    omega
  obtain ⟨m, hread, hlist, hmem, hbytes⟩ := readPage_spec (s := u) hkva hpa (Int.natCast_nonneg _)
    halign hfile hstart hfit
  obtain ⟨m', hbss, hlist', hmem', hbytes'⟩ := expandBss_spec (s := { u with toMemory := m }) hkva
    (Int.natCast_nonneg _) halign hint hfile hfile'
  have hfill : ∀ x < PAGE_SIZE, m'.byte (kva + x) =
      imageByte s₀.sd start task.filesz (j * PAGE_SIZE + x) := by
    intro x hx
    rw [hbytes' x hx, imageByte]
    push_cast
    split_ifs with hlt
    · rw [← hsd, ← Int.toNat_natCast (j * PAGE_SIZE)]
      exact hbytes x hx (by push_cast; exact hlt)
    · rfl
  obtain ⟨role', e', q', h', hle⟩ := h.step hd hs (hlist'.trans hlist)
    (fun g hg => (hmem' g hg).trans (hmem g hg)) hfill
  refine ⟨_, _, role', e', q', ?_, hbss, hj, h', hle⟩
  have h₁ : ((j * PAGE_SIZE : ℕ) : ℤ) / 512 = 8 * (j : ℤ) := by simp only [PAGE_SIZE]; omega
  have h₂ : (((j * PAGE_SIZE : ℕ) : ℤ) + 4096) / 512 = 8 * ((j : ℤ) + 1) := by
    simp only [PAGE_SIZE]
    omega
  rw [h₁, h₂] at hread
  exact hread

/-- A round that gets through. -/
lemma loadPages_succ {task : TaskInfo} {fuel : ℕ} {sz uva next blockId blockId' : ℤ} {v t : State}
    (hlt : sz < task.memsz) (huva : addInt USER_VA_START sz = some uva)
    (halloc : s.allocPageHelper MAX_PRESENT_PFN uva.toNat pgdir = some (kva, u))
    (hread : readPage task.filesz sz kva u blockId = some (v, blockId'))
    (hbss : expandBss task.filesz sz kva v = some t) (hnext : addInt sz PAGE_SIZE = some next) :
    loadPages task pgdir (fuel + 1) sz s blockId = loadPages task pgdir fuel next t blockId' := by
  simp only [loadPages, if_pos hlt, huva, halloc, hread, hbss, hnext, Option.bind_eq_bind,
    Option.bind_some]

/-- A round without memory for its page. -/
lemma loadPages_eq_none {task : TaskInfo} {fuel : ℕ} {sz uva blockId : ℤ}
    (hlt : sz < task.memsz) (huva : addInt USER_VA_START sz = some uva)
    (halloc : s.allocPageHelper MAX_PRESENT_PFN uva.toNat pgdir = none) :
    loadPages task pgdir (fuel + 1) sz s blockId = none := by
  simp only [loadPages, if_pos hlt, huva, halloc, Option.bind_eq_bind, Option.bind_some,
    Option.bind_none]

/-- The loop maps the pages that are left, if there is memory for them. -/
lemma loadPages_spec {task : TaskInfo} {start : ℤ} {fuel : ℕ}
    (h : Loading A spaces pgdir s₀ (imageByte s₀.sd start task.filesz) j s role e q)
    (hd : pgdir ∈ spaces) (hfile : 0 ≤ task.filesz) (hfile' : task.filesz < 2 ^ 31)
    (hstart : 0 ≤ start) (hfit : start + nbytes2sec task.filesz < 2 ^ 31)
    (hj : j ≤ pagesOf task.memsz) (hfuel : pagesOf task.memsz < j + fuel) :
    (∀ t, loadPages task pgdir fuel (j * PAGE_SIZE : ℕ) s
        (start + min (8 * (j : ℤ)) (nbytes2sec task.filesz)) = some t →
      ∃ role' e' q', Loading A spaces pgdir s₀ (imageByte s₀.sd start task.filesz)
        (pagesOf task.memsz) t role' e' q') ∧
    (e + (pagesOf task.memsz - j) * (3 * PAGE_SIZE) < FREEMEM_KERNEL_STOP →
      s₀.presentPagesNum + pagesOf task.memsz ≤ MAX_PRESENT_PFN →
      s₀.pageId + pagesOf task.memsz < 2 ^ 31 →
      ∃ t, loadPages task pgdir fuel (j * PAGE_SIZE : ℕ) s
        (start + min (8 * (j : ℤ)) (nbytes2sec task.filesz)) = some t) := by
  induction fuel generalizing j s role e q with
  | zero => omega
  | succ fuel ih =>
    have hlt : ((j * PAGE_SIZE : ℕ) : ℤ) < task.memsz ↔ j < pagesOf task.memsz := by
      simp only [pagesOf, PAGE_SIZE]
      omega
    rcases hj.lt_or_eq with hlt' | rfl
    · -- one more page
      have hbound := h.lt
      have huva : addInt USER_VA_START (j * PAGE_SIZE : ℕ) =
          some ((USER_VA_START + j * PAGE_SIZE : ℕ) : ℤ) := by
        simp only [MAX_PRESENT_PFN] at hbound
        rw [addInt, if_pos (by simp only [USER_VA_START, PAGE_SIZE]; omega), ← Nat.cast_add]
      have hnext : addInt (j * PAGE_SIZE : ℕ) PAGE_SIZE = some (((j + 1) * PAGE_SIZE : ℕ) : ℤ) := by
        simp only [MAX_PRESENT_PFN] at hbound
        rw [addInt, if_pos (by simp only [PAGE_SIZE]; omega), ← Nat.cast_add, Nat.add_mul,
          Nat.one_mul]
      cases halloc : s.allocPageHelper MAX_PRESENT_PFN (USER_VA_START + j * PAGE_SIZE) pgdir with
      | none =>
        rw [loadPages_eq_none (hlt.2 hlt') huva halloc]
        refine ⟨fun t ht => absurd ht (by simp), fun hroom hnum hid => ?_⟩
        have ho : Own (vpn2 (USER_VA_START + j * PAGE_SIZE)) := own_vpn2 (uva_lt h.lt)
        have hn := h.num
        have hi := h.pageId
        obtain ⟨k, hk⟩ : ∃ k, pagesOf task.memsz - j = k + 1 := ⟨pagesOf task.memsz - j - 1, by omega⟩
        rw [hk, Nat.add_mul, Nat.one_mul] at hroom
        obtain ⟨kva, t, ht⟩ := h.spaces.allocPageHelper_isSome h.book h.swapped hd ho (by omega)
          (by omega) (by omega)
        rw [ht] at halloc
        cases halloc
      | some r =>
        obtain ⟨kva, u⟩ := r
        obtain ⟨v, t, role', e', q', hread, hbss, -, h', hle⟩ :=
          h.round hd hfile hfile' hstart hfit halloc
        rw [loadPages_succ (hlt.2 hlt') huva halloc hread hbss hnext]
        have hcast : start + min (8 * ((j : ℤ) + 1)) (nbytes2sec task.filesz) =
            start + min (8 * ((j + 1 : ℕ) : ℤ)) (nbytes2sec task.filesz) := by
          rw [Nat.cast_add, Nat.cast_one]
        rw [hcast]
        obtain ⟨hspec, hroom'⟩ := ih h' hlt' (by omega)
        refine ⟨hspec, fun hroom => hroom' ?_⟩
        obtain ⟨k, hk⟩ : ∃ k, pagesOf task.memsz - j = k + 1 := ⟨pagesOf task.memsz - j - 1, by omega⟩
        rw [hk, Nat.add_mul, Nat.one_mul] at hroom
        have hk' : pagesOf task.memsz - (j + 1) = k := by omega
        rw [hk']
        omega
    · -- all pages are mapped
      rw [loadPages, if_neg (mt hlt.1 (lt_irrefl _))]
      refine ⟨fun t ht => ?_, fun _ _ _ => ⟨s, rfl⟩⟩
      rw [Option.some.injEq] at ht
      exact ht ▸ ⟨role, e, q, h⟩

end Pages

/-! ## The search -/

/-- The card is laid out as the table of the tasks says: task `k` has the bytes `image k`. -/
structure LaidOut (info : AppInfo) (sd : ℕ → Fin 64 → ℕ) (image : ℕ → ℕ → ℕ) : Prop where
  kernel : 0 ≤ info.kernelSectorsNum
  tasks : 0 ≤ info.tasksNum
  filesz : ∀ k : ℕ, k < info.tasksNum →
    0 ≤ (info.tasks k).filesz ∧ (info.tasks k).sectorsNum = nbytes2sec (info.tasks k).filesz
  /-- The sizes and the numbers of the sectors are `int`s. -/
  memsz : ∀ k : ℕ, k < info.tasksNum → (info.tasks k).memsz < 2 ^ 31
  fits : info.taskStart info.tasksNum.toNat < 2 ^ 31
  bytes : ∀ k : ℕ, k < info.tasksNum → ∀ x : ℕ, x < (info.tasks k).filesz →
    sdByte sd ((info.taskStart k).toNat * sectorSize + x) = image k x

/-- Task `k` is the first with its name. -/
def Listed (info : AppInfo) (k : ℕ) : Prop :=
  k < info.tasksNum ∧ ∀ j < k, (info.tasks j).name ≠ (info.tasks k).name

section Search

variable {info : AppInfo} {sd : ℕ → Fin 64 → ℕ} {image : ℕ → ℕ → ℕ} {i k n : ℕ}

lemma LaidOut.sectors_nonneg (h : LaidOut info sd image) (hk : k < info.tasksNum) :
    0 ≤ (info.tasks k).sectorsNum := by
  obtain ⟨hfile, hsec⟩ := h.filesz k hk
  rw [hsec, Image.nbytes2sec_of_nonneg hfile]
  omega

/-- The tasks lie one behind the other. -/
lemma LaidOut.taskStart_le (h : LaidOut info sd image) (hik : i ≤ k) (hk : k ≤ info.tasksNum) :
    info.taskStart i ≤ info.taskStart k := by
  induction k, hik using Nat.le_induction with
  | base => exact le_rfl
  | succ k hik ih =>
    have := ih (by omega)
    have := h.sectors_nonneg (k := k) (by omega)
    rw [AppInfo.taskStart_succ]
    omega

lemma LaidOut.taskStart_nonneg (h : LaidOut info sd image) (hk : k ≤ info.tasksNum) :
    0 ≤ info.taskStart k := by
  have hzero : info.taskStart 0 = info.kernelSectorsNum + 1 := by simp [AppInfo.taskStart]
  have := h.taskStart_le (Nat.zero_le k) hk
  have := h.kernel
  omega

lemma LaidOut.taskStart_lt (h : LaidOut info sd image) (hk : k ≤ info.tasksNum) :
    info.taskStart k < 2 ^ 31 := by
  have := h.taskStart_le (i := k) (k := info.tasksNum.toNat) (by omega) (by omega)
  have := h.fits
  omega

/-- The search ends at the first task with the name, or behind the last task. -/
lemma LaidOut.findTask_spec (h : LaidOut info sd image) (name : List UInt8)
    (hi : (i + n : ℕ) = info.tasksNum) :
    ∃ r, findTask info name i (info.taskStart i) n = some (r, info.taskStart r) ∧ i ≤ r ∧
      r ≤ info.tasksNum ∧ (∀ j, i ≤ j → j < r → (info.tasks j).name ≠ name) ∧
      (r < info.tasksNum → (info.tasks r).name = name) := by
  induction n generalizing i with
  | zero => exact ⟨i, rfl, le_rfl, by omega, fun j _ _ => by omega, fun hlt => by omega⟩
  | succ n ih =>
    rw [findTask]
    by_cases hname : (info.tasks i).name = name
    · rw [if_pos hname]
      exact ⟨i, rfl, le_rfl, by omega, fun j _ _ => by omega, fun _ => hname⟩
    · have hadd : addInt (info.taskStart i) (info.tasks i).sectorsNum =
          some (info.taskStart (i + 1)) := by
        have := h.taskStart_nonneg (k := i + 1) (by omega)
        have := h.taskStart_lt (k := i + 1) (by omega)
        rw [addInt, ← AppInfo.taskStart_succ, if_pos (by omega)]
      obtain ⟨r, hr, hle, hr', hbefore, hat⟩ := ih (i := i + 1) (by omega)
      refine ⟨r, ?_, by omega, hr', fun j hj hjr => ?_, hat⟩
      · simp only [if_neg hname, hadd, Option.bind_eq_bind, Option.bind_some]
        exact hr
      · rcases hj.eq_or_lt with rfl | hlt
        · exact hname
        · exact hbefore j hlt hjr

/-- The search from the start. -/
lemma LaidOut.findTask_start (h : LaidOut info sd image) (name : List UInt8) :
    ∃ r : ℕ, ((addInt info.kernelSectorsNum 1).bind fun blockId =>
        findTask info name 0 blockId info.tasksNum.toNat) = some (r, info.taskStart r) ∧
      r ≤ info.tasksNum ∧ (∀ j < r, (info.tasks j).name ≠ name) ∧
      (r < info.tasksNum → (info.tasks r).name = name) := by
  have hzero : info.taskStart 0 = info.kernelSectorsNum + 1 := by simp [AppInfo.taskStart]
  have hadd : addInt info.kernelSectorsNum 1 = some (info.taskStart 0) := by
    have := h.kernel
    have := h.tasks
    have := h.taskStart_lt (k := 0) (by omega)
    rw [addInt, ← hzero, if_pos (by omega)]
  obtain ⟨r, hr, -, hle, hbefore, hat⟩ := h.findTask_spec name (i := 0)
    (n := info.tasksNum.toNat) (by have := h.tasks; omega)
  exact ⟨r, by rw [hadd, Option.bind_some, hr], hle, fun j => hbefore j (Nat.zero_le j), hat⟩

end Search

/-! ## The law -/

/-- There are `n` pages left, with their tables, and records for them. -/
def Room (s : State) (n : ℕ) : Prop :=
  (∃ l e, s.FreeList l e ∧ e + n * (3 * PAGE_SIZE) < FREEMEM_KERNEL_STOP) ∧
    s.presentPagesNum + n ≤ MAX_PRESENT_PFN ∧ s.pageId + n < 2 ^ 31

/-- What `load_task_img` does with a page directory. -/
structure LoadLaw (s : State) (info : AppInfo) (image : ℕ → ℕ → ℕ) (pgdir : ℕ) : Prop where
  /-- The memory of a task that is listed holds its file and zeros behind it. -/
  loads : ∀ k, Listed info k → (info.tasks k).filesz ≤ (info.tasks k).memsz →
    ∀ r t, loadTaskImg s info (info.tasks k).name pgdir = some (r, t) →
      r = 1 ∧ ∀ x < pagesOf (info.tasks k).memsz * PAGE_SIZE,
        t.userByte (USER_VA_START + x) pgdir =
          some (if x < (info.tasks k).filesz then image k x else 0)
  /-- It returns while there is memory. -/
  returns : ∀ k, Listed info k → (info.tasks k).filesz ≤ (info.tasks k).memsz →
    Room s (pagesOf (info.tasks k).memsz) →
    ∃ t, loadTaskImg s info (info.tasks k).name pgdir = some (1, t)
  unlisted : ∀ name, (∀ k : ℕ, k < info.tasksNum → (info.tasks k).name ≠ name) →
    loadTaskImg s info name pgdir = some (0, s)

section Law

variable {A : Prop} {x : Sharing} {info : AppInfo} {image : ℕ → ℕ → ℕ} {m : Memory}
  {role : ℕ → Role} {e pgdir uva f k : ℕ} {q : Queue → List Pfn}

/-- What the loop is left with, at the start. -/
lemma loadTaskImg_eq {name : List UInt8} {r : ℕ} {s : State}
    (h : ((addInt info.kernelSectorsNum 1).bind fun blockId =>
      findTask info name 0 blockId info.tasksNum.toNat) = some (r, info.taskStart r)) :
    loadTaskImg s info name pgdir = if r = info.tasksNum then some (0, s) else
      (loadPages (info.tasks r) pgdir LOAD_ROUNDS 0 s (info.taskStart r)).map fun t => (1, t) := by
  simp only [loadTaskImg, Option.bind_eq_bind, ← Option.bind_assoc, h, Option.bind_some,
    Option.map_eq_bind]
  rfl

lemma loading_zero (h : x.Inv A role e q) (want : ℕ → ℕ) :
    Loading A x.spaces pgdir x.state want 0 x.state role e q where
  spaces := h.spaces
  book := h.book
  swapped := h.swapped
  sd := rfl
  num := (add_zero _).symm
  num_nonneg := by rw [h.book.num]; exact Int.natCast_nonneg _
  pageId := (add_zero _).symm
  pages := fun i hi => absurd hi (Nat.not_lt_zero i)

/-- The bytes that the process finds in its pages. -/
lemma Loading.userByte {spaces : Finset ℕ} {s₀ t : State} {want : ℕ → ℕ} {n y : ℕ}
    (h : Loading A spaces pgdir s₀ want n t role e q) (hy : y < n * PAGE_SIZE) :
    t.userByte (USER_VA_START + y) pgdir = some (want y) := by
  have hi : y / PAGE_SIZE < n := Nat.div_lt_of_lt_mul (by rwa [Nat.mul_comm])
  have hpos : 0 < PAGE_SIZE := by decide
  obtain ⟨f, hf, hleaf, hbytes⟩ := h.pages (y / PAGE_SIZE) hi
  obtain ⟨hframe, hne⟩ := h.spaces.isFrame (Or.inl hf)
  have hn := h.lt
  have hvpns : vpns (USER_VA_START + y) = vpns (USER_VA_START + y / PAGE_SIZE * PAGE_SIZE) := by
    rw [vpns_eq_iff (uva_lt (hi.le.trans hn))]
    · simp only [USER_VA_START, PAGE_SIZE]
      omega
    · simp only [MAX_PRESENT_PFN, USER_VA_START, PAGE_SIZE] at hn hy ⊢
      omega
  have hoffset : (USER_VA_START + y) % PAGE_SIZE = y % PAGE_SIZE := by
    simp only [USER_VA_START, PAGE_SIZE]
    omega
  rw [← hvpns] at hleaf
  rw [userByte_of_leaf hleaf hframe hne (by decide) (by decide) (by decide) (by decide), hoffset,
    hbytes _ (Nat.mod_lt y hpos), Nat.div_add_mod']

lemma loadLaw (h : x.Inv A role e q) (hd : pgdir ∈ x.spaces)
    (hl : LaidOut info x.state.sd image) : LoadLaw x.state info image pgdir := by
  -- the loop for a task that is listed
  have hloop : ∀ k, Listed info k → (info.tasks k).filesz ≤ (info.tasks k).memsz →
      loadTaskImg x.state info (info.tasks k).name pgdir =
          (loadPages (info.tasks k) pgdir LOAD_ROUNDS 0 x.state (info.taskStart k)).map
            (fun t => (1, t)) ∧
        (∀ t, loadPages (info.tasks k) pgdir LOAD_ROUNDS 0 x.state (info.taskStart k) = some t →
          ∃ role' e' q', Loading A x.spaces pgdir x.state
            (imageByte x.state.sd (info.taskStart k) (info.tasks k).filesz)
            (pagesOf (info.tasks k).memsz) t role' e' q') ∧
        (Room x.state (pagesOf (info.tasks k).memsz) →
          ∃ t, loadPages (info.tasks k) pgdir LOAD_ROUNDS 0 x.state (info.taskStart k) = some t) := by
    rintro k ⟨hk, hfirst⟩ hsize
    obtain ⟨r, hr, hle, hbefore, hat⟩ := hl.findTask_start (info.tasks k).name
    obtain rfl : r = k := by
      rcases lt_trichotomy r k with hlt | heq | hlt
      · exact absurd (hat (by omega)) (hfirst r hlt)
      · exact heq
      · exact absurd rfl (hbefore k hlt)
    obtain ⟨hfile, hsec⟩ := hl.filesz r hk
    have hmemsz := hl.memsz r hk
    have hfit : info.taskStart r + nbytes2sec (info.tasks r).filesz < 2 ^ 31 := by
      rw [← hsec, ← AppInfo.taskStart_succ]
      exact hl.taskStart_lt (by omega)
    have hrounds : pagesOf (info.tasks r).memsz < 0 + LOAD_ROUNDS := by
      simp only [pagesOf, LOAD_ROUNDS]
      omega
    have hzero : Loading A x.spaces pgdir x.state
        (imageByte x.state.sd (info.taskStart r) (info.tasks r).filesz) 0 x.state role e q :=
      loading_zero h _
    obtain ⟨hspec, hroom⟩ := loadPages_spec hzero hd hfile (by omega)
      (hl.taskStart_nonneg (by omega)) hfit (Nat.zero_le _) hrounds
    have hstart : info.taskStart r + min (8 * ((0 : ℕ) : ℤ)) (nbytes2sec (info.tasks r).filesz) =
        info.taskStart r := by
      have := Image.nbytes2sec_of_nonneg hfile
      omega
    rw [hstart, Nat.zero_mul, Nat.cast_zero] at hspec hroom
    refine ⟨?_, hspec, ?_⟩
    · rw [loadTaskImg_eq hr, if_neg (by omega)]
    · rintro ⟨⟨l, e₁, hlist, hpages⟩, hnum, hid⟩
      obtain ⟨l', hlist', -⟩ := h.spaces.tables.list
      obtain ⟨-, rfl⟩ := hlist.chain.unique hlist'.chain
      exact hroom hpages hnum hid
  refine ⟨fun k hk hsize r t hload => ?_, fun k hk hsize hroom => ?_, fun name hname => ?_⟩
  · obtain ⟨heq, hspec, -⟩ := hloop k hk hsize
    rw [heq] at hload
    obtain ⟨t', ht', hrt⟩ := Option.map_eq_some_iff.1 hload
    rw [Prod.mk.injEq] at hrt
    obtain ⟨rfl, rfl⟩ := hrt
    obtain ⟨role', e', q', h'⟩ := hspec t' ht'
    refine ⟨rfl, fun y hy => ?_⟩
    rw [h'.userByte hy, imageByte]
    split_ifs with hlt
    · rw [hl.bytes k hk.1 y hlt]
    · rfl
  · obtain ⟨heq, -, hret⟩ := hloop k hk hsize
    obtain ⟨t, ht⟩ := hret hroom
    exact ⟨t, by rw [heq, ht, Option.map_some]⟩
  · obtain ⟨r, hr, hle, -, hat⟩ := hl.findTask_start name
    have hend : (r : ℤ) = info.tasksNum := by
      by_contra hne
      have hlt : (r : ℤ) < info.tasksNum := lt_of_le_of_ne hle hne
      exact hname r hlt (hat hlt)
    rw [loadTaskImg_eq hr, if_pos hend]

end Law

/-- In every run in which no process passes or touches an address of the kernel or of a
device, the images of the tasks load exactly, for every layout of the card. -/
theorem loadTaskImg_loads (m : Memory) (kernel io : ℕ) (sd : ℕ → Fin 64 → ℕ) (startid : ℤ)
    (es : List ShareEvent) (hes : ∀ ev ∈ es, ev.UserAddress) :
    Trace.Always Sharing.step (fun x => ∀ pgdir ∈ x.spaces, ∀ info image,
      LaidOut info x.state.sd image → LoadLaw x.state info image pgdir)
      (Sharing.boot m kernel io sd startid) es :=
  (Sharing.always_inv True m kernel io sd startid fun ev hev => ⟨hes ev hev, Or.inl trivial⟩).mono
    fun _ ⟨_, _, _, h⟩ _ hd _ _ hl => loadLaw h hd hl

/-- A card with one task, whose file has five bytes. -/
def oneTask : AppInfo := ⟨1, 1, 3, fun _ => ⟨[115, 104], 1, 5, 4000⟩⟩

/-- The first process of a kernel with one task. -/
theorem loadTaskImg_loads_one : ∃ x t,
    Trace.run Sharing.step (Sharing.boot ⟨fun _ _ => 0, 0⟩ 1 1
      (fun block i => if block = 2 ∧ i = 0 then 0x0504030201 else 0) 100) [.newPgdir] = some x ∧
    loadTaskImg x.state oneTask [115, 104] FREEMEM_KERNEL = some (1, t) ∧
    t.userByte (USER_VA_START + 3) FREEMEM_KERNEL = some 4 ∧
    t.userByte (USER_VA_START + 5) FREEMEM_KERNEL = some 0 := by
  have hrun : (Trace.run Sharing.step (Sharing.boot ⟨fun _ _ => 0, 0⟩ 1 1
      (fun block i => if block = 2 ∧ i = 0 then 0x0504030201 else 0) 100) [.newPgdir]).map
      (fun x => (decide (FREEMEM_KERNEL ∈ x.spaces), x.state.sd 2 0,
        (loadTaskImg x.state oneTask [115, 104] FREEMEM_KERNEL).isSome)) =
        some (true, 0x0504030201, true) := by
    decide +kernel
  obtain ⟨x, hx, hval⟩ := Option.map_eq_some_iff.1 hrun
  simp only [Prod.mk.injEq, decide_eq_true_eq] at hval
  obtain ⟨hd, hsd, hret⟩ := hval
  obtain ⟨⟨r, t⟩, ht⟩ := Option.isSome_iff_exists.1 hret
  have hlaid : LaidOut oneTask x.state.sd fun _ y => y + 1 := by
    refine ⟨by decide, by decide, fun k _ => ?_, fun k _ => ?_, by decide, fun k hk y hy => ?_⟩
    · show (0 : ℤ) ≤ 5 ∧ (1 : ℤ) = nbytes2sec 5
      decide
    · show (4000 : ℤ) < 2 ^ 31
      decide
    obtain rfl : k = 0 := by
      change (k : ℤ) < 1 at hk
      omega
    change (y : ℤ) < 5 at hy
    have hword : sdByte x.state.sd (2 * sectorSize + y) = byteOf (x.state.sd 2 0) y := by
      have hdiv : (2 * sectorSize + y) / sectorSize = 2 := by simp only [sectorSize]; omega
      have hmod : (2 * sectorSize + y) % 8 = y := by simp only [sectorSize]; omega
      have hfin : Fin.ofNat 64 ((2 * sectorSize + y) / 8) = 0 := by
        refine Fin.ext ?_
        simp only [sectorSize, Fin.val_ofNat, Fin.val_zero]
        omega
      rw [sdByte, hdiv, hmod, hfin]
    have hbyte : ∀ y < 5, byteOf 0x0504030201 y = y + 1 := by decide
    exact hword.trans (hsd ▸ hbyte y (by omega))
  have hlaw := (loadTaskImg_loads ⟨fun _ _ => 0, 0⟩ 1 1
    (fun block i => if block = 2 ∧ i = 0 then 0x0504030201 else 0) 100 [.newPgdir] fun ev hev => by
      rw [List.mem_singleton.1 hev]
      trivial).last hx
  have hlisted : Listed oneTask 0 := ⟨by decide, fun j hj => absurd hj (Nat.not_lt_zero j)⟩
  obtain ⟨rfl, hbytes⟩ :=
    (hlaw FREEMEM_KERNEL hd oneTask _ hlaid).loads 0 hlisted (by decide) r t ht
  exact ⟨x, t, hx, ht, hbytes 3 (by decide), hbytes 5 (by decide)⟩

end Exec
end UcasKernel
