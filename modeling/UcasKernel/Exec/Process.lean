/-
What `create_pcb` leaves of a new process.

Loading an image keeps the tables and the records of the memory manager, whatever the table
of the tasks says.  Then the page of the user stack is mapped below `USER_VA_SP` without
the attribute `EXEC`, and the kernel stack is a page of its own.
-/
import UcasKernel.Exec.System

namespace UcasKernel
namespace Exec

open Mm Memory
open Image (AppInfo TaskInfo)
open Sched (Kernel Pcb Slot)

/-- The memory manager with the page directories `spaces`; no page is swapped out. -/
structure Managed (A : Prop) (spaces : Finset ℕ) (s : State) (role : ℕ → Role) (e : ℕ)
    (q : Queue → List Pfn) : Prop where
  spaces : Spaces A s.toMemory spaces role e
  book : s.Book q
  swapped : q .swappedPagesQueue = []

/-- What was in use stays what it is, and so do the slots of the shared pages. -/
structure Extends (s t : State) (role role' : ℕ → Role) : Prop where
  keep : ∀ g, role g ≠ .free → role' g = role g
  slots : t.sharePages = s.sharePages

section Managed

variable {A : Prop} {spaces : Finset ℕ} {pgdir uva kva e f : ℕ} {s t u : State} {m : Memory}
  {role role' role'' : ℕ → Role} {q : Queue → List Pfn}

lemma Extends.refl (s : State) (role : ℕ → Role) : Extends s s role role := ⟨fun _ _ => rfl, rfl⟩

lemma Extends.trans (h : Extends s t role role') (h' : Extends t u role' role'') :
    Extends s u role role'' where
  keep := fun g hg => by rw [h'.keep g (by rwa [h.keep g hg]), h.keep g hg]
  slots := h'.slots.trans h.slots

/-- A page that is free afterwards was free before. -/
lemma Extends.free (h : Extends s t role role') (hf : role' f = .free) : role f = .free := by
  by_contra hne
  exact hne (h.keep f hne ▸ hf)

/-- `alloc_page_helper` maps a new page. -/
lemma Managed.allocPageHelper (h : Managed A spaces s role e q) (hd : pgdir ∈ spaces)
    (ho : Own (vpn2 uva)) (hs : s.allocPageHelper MAX_PRESENT_PFN uva pgdir = some (kva, t)) :
    t.presentPagesNum = s.presentPagesNum + 1 ∧ ∃ role' e' q', Managed A spaces t role' e' q' ∧
      Extends s t role role' ∧ role' kva = .page ∧
      t.leaf pgdir (vpns uva) = entry kva PAGE_ALL := by
  obtain ⟨⟨q', hb, hq⟩, hslots, -, role', e', hspaces, hkeep, hpage, hleaf, -⟩ :=
    h.spaces.allocPageHelper h.book h.swapped hd ho hs
  obtain ⟨m, m', r, L, -, -, ht, -⟩ := h.book.allocPageHelper_spec hs
  exact ⟨by rw [ht], role', e', q', ⟨hspaces, hb, hq⟩, ⟨hkeep, hslots⟩, hpage, hleaf⟩

/-- The records do not depend on the memory. -/
lemma Managed.setMemory {spaces' : Finset ℕ} {role' : ℕ → Role} {e' : ℕ}
    (h : Managed A spaces s role e q) (hm : Spaces A m spaces' role' e') :
    Managed A spaces' { s with toMemory := m } role' e' q :=
  ⟨hm, h.book.congr (fun _ => rfl) rfl rfl rfl, h.swapped⟩

/-- What the kernel writes to a page of a process, or to one of its own. -/
lemma Managed.write (h : Managed A spaces s role e q)
    (hf : role f = .page ∨ role f = .kernel ∧ f ≠ PGDIR_VA)
    (hlist : m.freememList = s.freememList) (hmem : ∀ g, g ≠ f → m.mem g = s.mem g) :
    Managed A spaces { s with toMemory := m } role e q ∧ SameLeaves spaces s.toMemory m := by
  obtain ⟨hspaces, hleaf⟩ := h.spaces.write hf hlist hmem
  exact ⟨h.setMemory hspaces, hleaf⟩

end Managed

/-! ## Loading -/

section Loading

variable {A : Prop} {spaces : Finset ℕ} {pgdir kva e fuel : ℕ} {s t : State} {role : ℕ → Role}
  {q : Queue → List Pfn} {filesz sz blockId blockId' : ℤ} {task : TaskInfo} {info : AppInfo}

/-- What a step of the loader may change: the words of one page. -/
def ChangesPage (kva : ℕ) (s t : State) : Prop :=
  ∃ m : Memory, t = { s with toMemory := m } ∧ m.freememList = s.freememList ∧
    ∀ g, g ≠ kva → m.mem g = s.mem g

lemma readPage_changes (hpa : pa2kva (kva2pa kva) = kva)
    (h : readPage filesz sz kva s blockId = some (t, blockId')) : ChangesPage kva s t := by
  by_cases hlt : sz < filesz
  · simp only [readPage, if_pos hlt, Option.bind_eq_bind, Option.bind_eq_some_iff,
      Option.some.injEq, Prod.mk.injEq, hpa] at h
    obtain ⟨b, -, rfl, -⟩ := h
    exact ⟨(biosSdread s kva _ blockId.toNat).toMemory, rfl, rfl,
      fun g hg => Function.update_of_ne hg _ _⟩
  · rw [readPage, if_neg hlt, Option.some.injEq, Prod.mk.injEq] at h
    exact ⟨s.toMemory, h.1.symm, rfl, fun _ _ => rfl⟩

/-- The start of the bss is in the page, also when the size of the file is negative. -/
lemma expandBss_changes (hkva : kva % PAGE_SIZE = 0) (hsz : 0 ≤ sz) (hfile : -2 ^ 31 ≤ filesz)
    (h : expandBss filesz sz kva s = some t) : ChangesPage kva s t := by
  simp only [expandBss, Option.bind_eq_bind, Option.bind_eq_some_iff] at h
  obtain ⟨next, hnext, h⟩ := h
  obtain ⟨hlt', rfl⟩ : sz + PAGE_SIZE < 2 ^ 31 ∧ sz + PAGE_SIZE = next := by
    rw [addInt, Option.ite_none_right_eq_some, Option.some.injEq] at hnext
    exact ⟨hnext.1.2, hnext.2⟩
  simp only [PAGE_SIZE, Nat.cast_ofNat] at hlt'
  by_cases hlt : sz + PAGE_SIZE > filesz
  · rw [if_pos hlt, Option.some.injEq] at h
    subst h
    obtain ⟨r, hr, hstart⟩ : ∃ r ≤ 4096, (if (roundDown (filesz % 2 ^ 64).toNat PAGE_SIZE : ℤ) = sz
        then (kva + filesz.tmod PAGE_SIZE).toNat else kva) = kva + r := by
      split_ifs with hround
      · have hnonneg : 0 ≤ filesz := by
          by_contra hneg
          have hbig : (filesz % 2 ^ 64).toNat < 2 ^ 64 := by omega
          have : roundDown (filesz % 2 ^ 64).toNat PAGE_SIZE =
              (filesz % 2 ^ 64).toNat / 4096 * 4096 := and_pageMask hbig
          omega
        have hmod : filesz.tmod PAGE_SIZE = filesz % 4096 := Int.tmod_eq_emod_of_nonneg hnonneg
        exact ⟨(filesz % 4096).toNat, by omega, by rw [hmod]; omega⟩
      · exact ⟨0, Nat.zero_le _, rfl⟩
    rw [hstart]
    refine ⟨_, rfl, memset_freememList, fun g hg => memset_mem hkva ?_ hg⟩
    simp only [PAGE_SIZE]
    omega
  · rw [if_neg hlt, Option.some.injEq] at h
    exact ⟨s.toMemory, h.symm, rfl, fun _ _ => rfl⟩

lemma Managed.changesPage (h : Managed A spaces s role e q) (hkva : role kva = .page)
    (hc : ChangesPage kva s t) :
    Managed A spaces t role e q ∧ Extends s t role role ∧
      t.presentPagesNum = s.presentPagesNum := by
  obtain ⟨m, rfl, hlist, hmem⟩ := hc
  exact ⟨(h.write (Or.inl hkva) hlist hmem).1, ⟨fun _ _ => rfl, rfl⟩, rfl⟩

/-- As many pages are present as rounds are done, so the loop stays in the user half. -/
lemma Managed.loadPages {j : ℕ} (h : Managed A spaces s role e q) (hd : pgdir ∈ spaces)
    (hj : (j : ℤ) ≤ s.presentPagesNum) (hfile : -2 ^ 31 ≤ task.filesz)
    (hload : loadPages task pgdir fuel (j * PAGE_SIZE : ℕ) s blockId = some t) :
    ∃ role' e' q', Managed A spaces t role' e' q' ∧ Extends s t role role' := by
  induction fuel generalizing j s role e q blockId with
  | zero => cases hload
  | succ fuel ih =>
    rw [Exec.loadPages] at hload
    split_ifs at hload with hlt
    · simp only [Option.bind_eq_bind, Option.bind_eq_some_iff] at hload
      obtain ⟨uva, huva, ⟨kva, u⟩, halloc, ⟨v, b⟩, hread, w, hbss, next, hnext, hload⟩ := hload
      have hnum := h.book.num_le
      obtain rfl := State.addInt_eq_some huva
      obtain rfl := State.addInt_eq_some hnext
      have hnat : ((USER_VA_START : ℤ) + (j * PAGE_SIZE : ℕ)).toNat =
          USER_VA_START + j * PAGE_SIZE := by omega
      rw [hnat] at halloc
      obtain ⟨hu, role₁, e₁, q₁, h₁, hext₁, hpage, -⟩ :=
        h.allocPageHelper hd (own_vpn2 (uva_lt (by omega))) halloc
      obtain ⟨hframe, -⟩ := h₁.spaces.isFrame (Or.inl hpage)
      obtain ⟨n, -, hn, hn'⟩ := hframe.kva2pa_eq
      obtain ⟨h₂, hext₂, hv⟩ := h₁.changesPage hpage (readPage_changes (by rw [hn, hn']) hread)
      obtain ⟨h₃, hext₃, hw⟩ := h₂.changesPage hpage
        (expandBss_changes hframe.1 (Int.natCast_nonneg _) hfile hbss)
      have hcast : ((j * PAGE_SIZE : ℕ) + PAGE_SIZE : ℤ) = ((j + 1) * PAGE_SIZE : ℕ) := by
        push_cast
        ring
      rw [hcast] at hload
      obtain ⟨role', e', q', h', hext⟩ := ih h₃ (by push_cast; omega) hload
      exact ⟨role', e', q', h', ((hext₁.trans hext₂).trans hext₃).trans hext⟩
    · rw [Option.some.injEq] at hload
      subst hload
      exact ⟨role, e, q, h, Extends.refl s role⟩

lemma Managed.loadTaskImg {name : List UInt8} {r : ℕ} (h : Managed A spaces s role e q)
    (hd : pgdir ∈ spaces) (hfile : ∀ k, -2 ^ 31 ≤ (info.tasks k).filesz)
    (hload : loadTaskImg s info name pgdir = some (r, t)) :
    ∃ role' e' q', Managed A spaces t role' e' q' ∧ Extends s t role role' := by
  simp only [Exec.loadTaskImg, Option.bind_eq_bind, Option.bind_eq_some_iff] at hload
  obtain ⟨b, -, ⟨idx, b'⟩, -, hload⟩ := hload
  split_ifs at hload with hend
  · rw [Option.some.injEq, Prod.mk.injEq] at hload
    obtain ⟨-, rfl⟩ := hload
    exact ⟨role, e, q, h, Extends.refl s role⟩
  · obtain ⟨u, hpages, hu⟩ := Option.bind_eq_some_iff.1 hload
    rw [Option.some.injEq, Prod.mk.injEq] at hu
    obtain ⟨-, rfl⟩ := hu
    have hnum : ((0 : ℕ) : ℤ) ≤ s.presentPagesNum := by
      rw [h.book.num]
      exact Int.natCast_nonneg _
    have hzero : Exec.loadPages (info.tasks idx) pgdir LOAD_ROUNDS (0 * PAGE_SIZE : ℕ) s b' =
        some u := by
      rwa [Nat.zero_mul]
    exact h.loadPages hd hnum (hfile idx) hzero

end Loading

/-! ## The contexts -/

section Contexts

variable {m : Memory} {g k pcb retFromKernel sp arg startRoutine : ℕ}

/-- The contexts are in the page of the kernel stack. -/
lemma storeContexts_mem (hk : k % PAGE_SIZE = 0) (hg : g ≠ k) :
    (storeContexts m (k + 3808) (k + 3696) pcb retFromKernel).mem g = m.mem g := by
  simp only [storeContexts, regAddr, sstatusAddr, sepcAddr, Nat.add_assoc]
  rw [storeWord_mem hk (by decide) hg, storeWord_mem hk (by decide) hg,
    storeWord_mem hk (by decide) hg, storeWord_mem hk (by decide) hg,
    storeWord_mem hk (by decide) hg, storeWord_mem hk (by decide) hg,
    storeWord_mem hk (by decide) hg, storeWord_mem hk (by decide) hg]

lemma storeThreadContexts_mem (hk : k % PAGE_SIZE = 0) (hg : g ≠ k) :
    (storeThreadContexts m (k + 3808) (k + 3696) sp pcb arg startRoutine retFromKernel).mem g =
      m.mem g := by
  simp only [storeThreadContexts, regAddr, sstatusAddr, sepcAddr, Nat.add_assoc]
  rw [storeWord_mem hk (by decide) hg, storeWord_mem hk (by decide) hg,
    storeWord_mem hk (by decide) hg, storeWord_mem hk (by decide) hg,
    storeWord_mem hk (by decide) hg, storeWord_mem hk (by decide) hg,
    storeWord_mem hk (by decide) hg, storeWord_mem hk (by decide) hg,
    storeWord_mem hk (by decide) hg]

/-- Where the contexts are in the page of the kernel stack. -/
lemma contexts_eq : k + PAGE_SIZE - sizeofRegsContext = k + 3808 ∧
    k + 3808 - sizeofSwitchtoContext = k + 3696 := by
  simp only [PAGE_SIZE, sizeofRegsContext, sizeofSwitchtoContext]
  omega

end Contexts

/-! ## The new process -/

/-- The attributes of the page of the stack. -/
def STACK_ATTRIBUTES : ℕ := PAGE_ALL &&& (2 ^ 64 - 1 - PAGE_EXEC)

/-- The process `p` has the frame `f` for its stack and the page `k` for its kernel stack. -/
structure HasStacks (A : Prop) (spaces : Finset ℕ) (t : System) (p : Pcb) (role : ℕ → Role)
    (e : ℕ) (q : Queue → List Pfn) (f k : ℕ) : Prop where
  managed : Managed A spaces t.mm role e q
  pgdir : t.kernel.pgdir p ∈ spaces
  leaf : t.mm.leaf (t.kernel.pgdir p) (vpns USER_VA_SP_BASE) = entry f STACK_ATTRIBUTES
  page : role f = .page
  kernel : role k = .kernel
  isPage : IsPage k
  userSp : t.userSp p = f + PAGE_SIZE
  kernelSp : t.kernelSp p = k + 3808

section HasStacks

variable {A : Prop} {spaces : Finset ℕ} {t : System} {p : Pcb} {role : ℕ → Role} {e f k : ℕ}
  {q : Queue → List Pfn} (h : HasStacks A spaces t p role e q f k)
include h

lemma HasStacks.frame : IsFrame f := (h.managed.spaces.isFrame (Or.inl h.page)).1

lemma HasStacks.ne : f ≠ k := by
  rintro rfl
  have := h.page
  rw [h.kernel] at this
  cases this

lemma HasStacks.le : FREEMEM_KERNEL ≤ f :=
  (h.managed.spaces.tables.isPage f (by simp [h.page])).2

lemma HasStacks.lt_stop : f < FREEMEM_KERNEL_STOP :=
  h.managed.spaces.tables.lt_stop (h.managed.spaces.tables.isPage f (by simp [h.page]))
    (by simp [h.page])

lemma HasStacks.frame_lt : f + PAGE_SIZE < 2 ^ 64 := by
  have := h.lt_stop
  simp only [FREEMEM_KERNEL_STOP, PAGE_SIZE] at this ⊢
  omega

end HasStacks

/-- A page `k` for the kernel stack and a page `f` for the user stack, which loses the attribute
`EXEC`; the contexts are written to the first. -/
lemma Managed.newStacks {A : Prop} {spaces : Finset ℕ} {s u : State} {m₁ m₂ m₃ : Memory}
    {role : ℕ → Role} {e k f uva pgdir : ℕ} {q : Queue → List Pfn}
    (h : Managed A spaces s role e q) (hd : pgdir ∈ spaces) (ho : Own (vpn2 uva))
    (hk : s.kalloc = some (k, m₁))
    (hf : State.allocPageHelper { s with toMemory := m₁ } MAX_PRESENT_PFN uva pgdir = some (f, u))
    (hm : u.modifyPte uva pgdir (fun pte => unsetAttribute pte PAGE_EXEC) = some m₂)
    (hmem : ∀ g, g ≠ k → m₃.mem g = m₂.mem g) (hlist : m₃.freememList = m₂.freememList) :
    ∃ role' e' q', Managed A spaces { u with toMemory := m₃ } role' e' q' ∧
      Extends s { u with toMemory := m₃ } role role' ∧ role k = .free ∧ role' k = .kernel ∧
      role' f = .page ∧ m₃.leaf pgdir (vpns uva) = entry f STACK_ATTRIBUTES := by
  -- the page of the kernel stack
  obtain ⟨e₁, hspaces₁, hfree, hkeep₁, -, -⟩ :=
    h.spaces.kalloc (r := .kernel) (by simp) (by simp) hk
  have h₁ := h.setMemory hspaces₁
  -- the page of the user stack
  obtain ⟨-, role₂, e₂, q₂, h₂, hext, hpage, hleaf⟩ := h₁.allocPageHelper hd ho hf
  have hkernel : role₂ k = .kernel := by
    rw [hext.keep k (by simp), Function.update_self]
  obtain ⟨hframe, hne⟩ := h₂.spaces.isFrame (Or.inl hpage)
  have hentry : unsetAttribute (u.leaf pgdir (vpns uva)) PAGE_EXEC = entry f STACK_ATTRIBUTES := by
    rw [hleaf, unsetAttribute_entry hframe (by decide)]
    rfl
  obtain ⟨-, hspaces₃, hself, -⟩ := h₂.spaces.modifyPte hd ho
    (Or.inr ⟨f, STACK_ATTRIBUTES, hentry, by decide, Or.inl hpage⟩) hm
  have h₃ := h₂.setMemory hspaces₃
  have hkpage : IsPage k := h.spaces.tables.isPage k (by simp [hfree])
  have hnot : k ≠ PGDIR_VA := by
    rintro rfl
    exact absurd hkpage.2 (by decide)
  obtain ⟨h₄, hsame⟩ := h₃.write (f := k) (m := m₃) (Or.inr ⟨hkernel, hnot⟩) hlist hmem
  refine ⟨role₂, e₂, q₂, h₄, ⟨fun g hg => ?_, hext.slots⟩, hfree, hkernel, hpage, ?_⟩
  · rw [hext.keep g (by rwa [hkeep₁ g hg]), hkeep₁ g hg]
  · exact (hsame _ hd _ ho).trans (hself.trans hentry)

namespace System

variable {A : Prop} {spaces : Finset ℕ} {s t : System} {role : ℕ → Role} {e task : ℕ}
  {q : Queue → List Pfn} {p : Pcb} {i : Slot} {name : List UInt8}

lemma initPcbContext_hasStacks (h : Managed A spaces s.mm role e q) (hd : s.kernel.pgdir p ∈ spaces)
    (hs : s.initPcbContext p = some t) :
    t.kernel = s.kernel ∧ ∃ role' e' q' f k, HasStacks A spaces t p role' e' q' f k ∧
      Extends s.mm t.mm role role' ∧ role k = .free := by
  simp only [initPcbContext, Option.bind_eq_bind, Option.bind_eq_some_iff] at hs
  obtain ⟨⟨k, m₁⟩, hk, ⟨f, mm₂⟩, hf, m₃, hm₃, hs⟩ := hs
  rw [Option.some.injEq] at hs
  subst hs
  obtain ⟨e₁, -, hfree, -⟩ := h.spaces.kalloc (r := .kernel) (by simp) (by simp) hk
  have hkpage : IsPage k := h.spaces.tables.isPage k (by simp [hfree])
  obtain ⟨hregs, hswitch⟩ := contexts_eq (k := k)
  rw [hregs, hswitch]
  have hmem : ∀ g, g ≠ k → (storeContexts m₃ (k + 3808) (k + 3696) (s.pcbAddr p)
      s.retFromKernel).mem g = m₃.mem g := fun g hg => storeContexts_mem hkpage.1 hg
  obtain ⟨role', e', q', h', hext, -, hkernel, hpage, hleaf⟩ :=
    h.newStacks hd (own_vpn2 (by decide)) hk hf hm₃ hmem rfl
  refine ⟨rfl, role', e', q', f, k, ⟨h', hd, hleaf, hpage, hkernel, hkpage, ?_, ?_⟩, hext, hfree⟩
  · exact Function.update_self ..
  · exact Function.update_self ..

/-- A new PCB has the page directory, and the next number of a thread. -/
lemma initPcb_eq {k k' : Kernel} {pid : ℤ} {pgdir : ℕ} (h : k.initPcb i pid pgdir = some k') :
    k'.pgdir (.slot i) = pgdir ∧ k'.tid (.slot i) = k.threads pid + 1 := by
  simp only [Kernel.initPcb, Option.bind_eq_bind, Option.bind_eq_some_iff, Option.some.injEq] at h
  obtain ⟨k₁, hk₁, rfl⟩ := h
  simp only [Kernel.listAddTail, Option.map_eq_some_iff] at hk₁
  obtain ⟨l, -, rfl⟩ := hk₁
  simp only [Kernel.setStatus, Function.update_self, and_self]

/-- The user stacks of the threads are in the user half. -/
lemma own_userStackUva {tid : ℤ} (h : 0 < tid) (hle : tid ≤ NUM_MAX_TASK) :
    Own (vpn2 (userStackUva tid)) := by
  refine own_vpn2 ?_
  simp only [NUM_MAX_TASK, userStackUva, USER_VA_SP_BASE, PAGE_SIZE] at hle ⊢
  omega

/-- A new thread takes two pages, and its tables. -/
lemma doThreadCreate_managed {tid : ℤ} {startRoutine arg : ℕ} (h : Managed A spaces s.mm role e q)
    (hd : s.kernel.pgdir p ∈ spaces) (hpos : 0 ≤ s.kernel.threads (s.kernel.pid p))
    (hlt : s.kernel.threads (s.kernel.pid p) < NUM_MAX_TASK)
    (hs : s.doThreadCreate p startRoutine arg = some (tid, t)) :
    ∃ role' e' q', Managed A spaces t.mm role' e' q' ∧ Extends s.mm t.mm role role' := by
  simp only [doThreadCreate] at hs
  cases hi : s.kernel.findUnusedPcb with
  | none =>
    simp only [hi, Option.some.injEq, Prod.mk.injEq] at hs
    obtain ⟨-, rfl⟩ := hs
    exact ⟨role, e, q, h, Extends.refl s.mm role⟩
  | some i =>
    simp only [hi, Option.bind_eq_bind, Option.bind_eq_some_iff, Option.some.injEq,
      Prod.mk.injEq] at hs
    obtain ⟨kernel, hkernel, ⟨k, m₁⟩, hk, ⟨f, mm₂⟩, hf, m₃, hm₃, -, rfl⟩ := hs
    obtain ⟨hpgdir, htid⟩ := initPcb_eq hkernel
    rw [hpgdir] at hf hm₃
    obtain ⟨e₁, -, hfree, -⟩ := h.spaces.kalloc (r := .kernel) (by simp) (by simp) hk
    have hkpage : IsPage k := h.spaces.tables.isPage k (by simp [hfree])
    obtain ⟨hregs, hswitch⟩ := contexts_eq (k := k)
    rw [hregs, hswitch]
    have hmem : ∀ g, g ≠ k → (storeThreadContexts m₃ (k + 3808) (k + 3696)
        (userStackUva (kernel.tid (.slot i))) (s.pcbAddr (.slot i)) arg startRoutine
        s.retFromKernel).mem g = m₃.mem g := fun g hg => storeThreadContexts_mem hkpage.1 hg
    obtain ⟨role', e', q', h', hext, -⟩ :=
      h.newStacks hd (own_userStackUva (by omega) (by omega)) hk hf hm₃ hmem rfl
    exact ⟨role', e', q', h', hext⟩

/-- A new process has a page directory that was free, and the stacks. -/
lemma initProcess_hasStacks (h : Managed A spaces s.mm role e q)
    (hfile : ∀ k, -2 ^ 31 ≤ (s.info.tasks k).filesz) (hs : s.initProcess i task name = some t) :
    role (t.kernel.pgdir (.slot i)) = .free ∧ ∃ role' e' q' f k,
      HasStacks A (insert (t.kernel.pgdir (.slot i)) spaces) t (.slot i) role' e' q' f k ∧
      Extends s.mm t.mm role role' ∧ role k = .free := by
  simp only [initProcess, Option.bind_eq_bind, Option.bind_eq_some_iff] at hs
  obtain ⟨⟨pgdir, m⟩, hk, id, -, kernel, hkernel, ⟨r, mm⟩, hload, hs⟩ := hs
  obtain ⟨e₁, hspaces₁, hnew, hkeep, -, -⟩ := h.spaces.newPgdir hk
  have h₁ := h.setMemory hspaces₁
  have hd : pgdir ∈ insert pgdir spaces := Finset.mem_insert_self pgdir spaces
  have hpgdir : kernel.pgdir (.slot i) = pgdir := (initPcb_eq hkernel).1
  obtain ⟨role₂, e₂, q₂, h₂, hext₂⟩ := h₁.loadTaskImg hd hfile hload
  have h₃ := h₂.setMemory (h₂.spaces.sharePgtable hd).1
  replace hs := (Option.ite_none_left_eq_some.1 hs).2
  generalize hu : setMm _ _ = u at hs
  have hmm : u.mm = { mm with toMemory := mm.sharePgtable pgdir PGDIR_VA } := by
    rw [← hu, setMm]
  have hdir : u.kernel.pgdir (.slot i) ∈ insert pgdir spaces := by
    rw [← hu, setMm, hpgdir]
    exact hd
  have huk : u.kernel.pgdir (.slot i) = pgdir := by
    rw [← hu, setMm, hpgdir]
  obtain ⟨hkernel', role', e', q', f, k, hstacks, hext₃, hfree⟩ :=
    initPcbContext_hasStacks (hmm ▸ h₃) hdir hs
  have hext : Extends s.mm t.mm role role' := by
    refine ⟨fun g hg => ?_, (hext₃.slots.trans (by rw [hmm])).trans hext₂.slots⟩
    rw [hext₃.keep g, hext₂.keep g, hkeep g hg]
    · rwa [hkeep g hg]
    · rwa [hext₂.keep g (by rwa [hkeep g hg]), hkeep g hg]
  rw [hkernel', huk]
  refine ⟨hnew, role', e', q', f, k, hstacks, hext, ?_⟩
  by_contra hne
  refine absurd hfree ?_
  rwa [hext₂.keep k (by rwa [hkeep k hne]), hkeep k hne]

/-- A call of `create_pcb` that returns a PCB gives it its stacks. -/
lemma createPcb_hasStacks (h : Managed A spaces s.mm role e q)
    (hfile : ∀ k, -2 ^ 31 ≤ (s.info.tasks k).filesz) (hs : s.createPcb name = some (some i, t)) :
    s.kernel.findUnusedPcb = some i ∧ role (t.kernel.pgdir (.slot i)) = .free ∧
      ∃ role' e' q' f k,
        HasStacks A (insert (t.kernel.pgdir (.slot i)) spaces) t (.slot i) role' e' q' f k ∧
        Extends s.mm t.mm role role' ∧ role k = .free := by
  simp only [createPcb] at hs
  cases hi : s.kernel.findUnusedPcb with
  | none => simp [hi] at hs
  | some j =>
    cases htask : s.findName name with
    | none => simp [hi, htask] at hs
    | some task =>
      simp only [hi, htask, Option.map_eq_some_iff, Prod.mk.injEq, Option.some.injEq] at hs
      obtain ⟨u, hu, rfl, rfl⟩ := hs
      exact ⟨rfl, initProcess_hasStacks h hfile hu⟩

/-- A call of `create_pcb` that returns `NULL` changes nothing. -/
lemma createPcb_eq_null (hs : s.createPcb name = some (none, t)) :
    t = s ∧ (s.kernel.findUnusedPcb = none ∨ s.findName name = none) := by
  simp only [createPcb] at hs
  cases hi : s.kernel.findUnusedPcb with
  | none =>
    simp only [hi, Option.some.injEq, Prod.mk.injEq, true_and] at hs
    exact ⟨hs.symm, Or.inl rfl⟩
  | some j =>
    cases htask : s.findName name with
    | none =>
      simp only [hi, htask, Option.some.injEq, Prod.mk.injEq, true_and] at hs
      exact ⟨hs.symm, Or.inr rfl⟩
    | some task => simp [hi, htask] at hs

end System

end Exec
end UcasKernel
