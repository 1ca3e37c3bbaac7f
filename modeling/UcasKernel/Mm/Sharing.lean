/-
Runs of the memory manager, and what the keys of the shared pages name.

A run is any sequence of what the kernel and the processes do to the page tables: new
address spaces and their ends, allocations, page faults, stores, and the two calls on
shared pages.  The gets are recorded with the frame that they mapped.
-/
import UcasKernel.Mm.PageRuns
import UcasKernel.Mm.Release

namespace UcasKernel
namespace Mm

/-- A call of `shm_page_get` that returned an address, and the frame that it mapped. -/
structure Got where
  key : ℤ
  pgdir : ℕ
  uva : ℕ
  frame : ℕ
deriving DecidableEq

/-- The get is of the page of an address. -/
def Got.At (a : Got) (uva pgdir : ℕ) : Prop := a.pgdir = pgdir ∧ vpns a.uva = vpns uva

instance (a : Got) (uva pgdir : ℕ) : Decidable (a.At uva pgdir) :=
  inferInstanceAs (Decidable (_ ∧ _))

/-- The memory manager with the page directories of the processes.  `gets` are all the
gets, `inUse` those whose key has been in use ever since, and `held` those whose address
has not been given up or mapped anew since. -/
structure Sharing where
  state : State
  spaces : Finset ℕ
  gets : List Got
  inUse : List Got
  held : List Got

inductive ShareEvent
  /-- The page directory of `create_pcb`. -/
  | newPgdir
  | sharePgtable (pgdir : ℕ)
  /-- A kernel stack. -/
  | kalloc
  | allocPageHelper (uva pgdir : ℕ)
  /-- A stack page loses `_PAGE_EXEC`. -/
  | unsetExec (uva pgdir : ℕ)
  | handlePageFault (stval pgdir : ℕ) (store : Bool)
  | swapInAllPages (pgdir : ℕ)
  | freePageWithKva (kva : ℕ)
  /-- `free_pagetable` and `free_pgdir` of `do_exit` and `do_kill`. -/
  | exit (pgdir : ℕ)
  | shmPageGet (key : ℤ) (pgdir : ℕ)
  | shmPageDt (addr pgdir : ℕ)
  /-- A process stores a word. -/
  | store (uva pgdir v : ℕ)

namespace State

/-- A slot has the key. -/
def Uses (s : State) (key : ℤ) : Prop := ∃ i, (s.sharePages i).key = key ∧ 0 < (s.sharePages i).ref

instance (s : State) (key : ℤ) : Decidable (s.Uses key) := inferInstanceAs (Decidable (∃ _, _))

/-- No slot has the key, and none is free. -/
def NoSlot (s : State) (key : ℤ) : Prop :=
  ∀ i, (s.sharePages i).key ≠ key ∧ (s.sharePages i).key ≠ 0

instance (s : State) (key : ℤ) : Decidable (s.NoSlot key) := inferInstanceAs (Decidable (∀ _, _))

/-- A store of a process to the memory: through the entries of the kernel it faults, and
through those of the devices it does not reach the memory. -/
def storeUser (s : State) (uva pgdir v : ℕ) : Option State := do
  let (pte, i) ← s.getPteOfUva uva pgdir
  let entry := s.mem pte i
  if Own (vpn2 uva) ∧ Present entry ∧ entry &&& PAGE_WRITE ≠ 0 ∧ entry &&& PAGE_USER ≠ 0 then
    some { s with toMemory := s.store (frameOf entry) (Fin.ofNat 512 (uva / 8)) v }
  else none

/-- A store goes through a present entry of the process's own. -/
lemma storeUser_eq_some {s t : State} {uva pgdir v : ℕ} (hs : s.storeUser uva pgdir v = some t) :
    s.leaf pgdir (vpns uva) ≠ 0 ∧ Own (vpn2 uva) ∧ Present (s.leaf pgdir (vpns uva)) ∧
      t = { s with
        toMemory := s.store (frameOf (s.leaf pgdir (vpns uva))) (Fin.ofNat 512 (uva / 8)) v } := by
  simp only [storeUser, Option.bind_eq_bind, Option.bind_eq_some_iff] at hs
  obtain ⟨⟨pte, i⟩, hpte, hs⟩ := hs
  split_ifs at hs with hok
  rw [Option.some.injEq] at hs
  rw [Memory.getPteOfUva_eq] at hpte
  split_ifs at hpte with hne
  simp only [Option.some.injEq, Prod.mk.injEq] at hpte
  obtain ⟨rfl, rfl⟩ := hpte
  have hleaf := Memory.leaf_eq hne
  rw [vpns_fst, vpns_snd_fst, vpns_snd_snd] at hleaf
  rw [← hleaf] at hok hs
  exact ⟨hne, hok.1, hok.2.1, hs.symm⟩

end State

namespace ShareEvent

/-- The page directory of the process that the event is about. -/
def pgdir : ShareEvent → Option ℕ
  | sharePgtable pgdir => some pgdir
  | allocPageHelper _ pgdir => some pgdir
  | unsetExec _ pgdir => some pgdir
  | handlePageFault _ pgdir _ => some pgdir
  | exit pgdir => some pgdir
  | shmPageGet _ pgdir => some pgdir
  | shmPageDt _ pgdir => some pgdir
  | store _ pgdir _ => some pgdir
  | _ => none

/-- The address is none of the kernel or of a device. -/
def UserAddress : ShareEvent → Prop
  | allocPageHelper uva _ => Own (vpn2 uva)
  | unsetExec uva _ => Own (vpn2 uva)
  | handlePageFault stval _ _ => Own (vpn2 stval)
  | shmPageDt addr _ => Own (vpn2 addr)
  | _ => True

/-- The key is not that of the free slots. -/
def KeyNonzero : ShareEvent → Prop
  | shmPageGet key _ => key ≠ 0
  | _ => True

def Proper (ev : ShareEvent) : Prop := ev.UserAddress ∧ ev.KeyNonzero

end ShareEvent

namespace Sharing

/-- The gets whose key is in use no more are not counted on. -/
def next (x : Sharing) (s : State) : Sharing :=
  { x with state := s, inUse := x.inUse.filter fun a => s.Uses a.key }

/-- An address is mapped anew, or not at all. -/
def letGo (x : Sharing) (uva pgdir : ℕ) : Sharing :=
  { x with held := x.held.filter fun a => ¬ a.At uva pgdir }

/-- Record a get, unless it failed. -/
def record (x : Sharing) (key : ℤ) (pgdir uva : ℕ) : Sharing :=
  if uva = 0 then x
  else
    let a : Got := ⟨key, pgdir, uva, x.state.getKvaOfUva uva pgdir⟩
    { x with gets := a :: x.gets, inUse := a :: x.inUse, held := a :: x.held }

def call (x : Sharing) : ShareEvent → Option Sharing
  | .newPgdir => x.state.kalloc.map fun (p, m) =>
    { x.next { x.state with toMemory := m } with spaces := insert p x.spaces }
  | .sharePgtable pgdir =>
    some (x.next { x.state with toMemory := x.state.sharePgtable pgdir PGDIR_VA })
  | .kalloc => x.state.kalloc.map fun (_, m) => x.next { x.state with toMemory := m }
  | .allocPageHelper uva pgdir =>
    (x.state.allocPageHelper MAX_PRESENT_PFN uva pgdir).map fun (_, s) => (x.next s).letGo uva pgdir
  | .unsetExec uva pgdir =>
    (x.state.modifyPte uva pgdir fun pte => unsetAttribute pte PAGE_EXEC).map fun m =>
      x.next { x.state with toMemory := m }
  | .handlePageFault stval pgdir store =>
    (x.state.handlePageFault MAX_PRESENT_PFN stval pgdir store).map x.next
  | .swapInAllPages pgdir => (x.state.swapInAllPages MAX_PRESENT_PFN pgdir).map x.next
  | .freePageWithKva kva => (x.state.freePageWithKva kva).map x.next
  | .exit pgdir => (x.state.freePagetable pgdir).map fun s =>
    { x.next { s with toMemory := s.freePgdir pgdir } with
      spaces := x.spaces.erase pgdir
      held := x.held.filter fun a => a.pgdir ≠ pgdir }
  | .shmPageGet key pgdir =>
    (x.state.shmPageGet key pgdir).map fun (uva, s) => (x.next s).record key pgdir uva
  | .shmPageDt addr pgdir => (x.state.shmPageDt addr pgdir).map fun s => (x.next s).letGo addr pgdir
  | .store uva pgdir v => (x.state.storeUser uva pgdir v).map x.next

/-- An event of the run; the page directory is that of a process. -/
def step (x : Sharing) (e : ShareEvent) : Option Sharing :=
  if ∀ pgdir ∈ e.pgdir, pgdir ∈ x.spaces then x.call e else none

/-- The page directory that all others copy.  `setup_vm` and `ioremap` fill the entries of
the kernel and of the devices, and `unmap_boot_page` has cleared the one of the boot
mapping. -/
def kernelPgdir (m : Memory) (kernel io : ℕ) : Memory :=
  ((m.clear PGDIR_VA).store PGDIR_VA KERNEL_VA_VPN2 kernel).store PGDIR_VA IO_REMAP_VA_VPN2 io

/-- The memory manager after boot, before the first process. -/
def boot (m : Memory) (kernel io : ℕ) (sd : ℕ → Fin 64 → ℕ) (startid : ℤ) : Sharing where
  state := State.boot (kernelPgdir m kernel io).initKernelFreemem sd startid
  spaces := ∅
  gets := []
  inUse := []
  held := []

end Sharing

/-! ## The law -/

/-- What a call of `shm_page_get` does, in a state. -/
structure GetLaw (s : State) (key : ℤ) (pgdir : ℕ) : Prop where
  /-- Without a slot it returns 0 and changes nothing. -/
  noSlot : s.NoSlot key → s.shmPageGet key pgdir = some (0, s)
  /-- Otherwise it returns the address of a page that was not mapped, and maps it to a page
  that the allocator handed out. -/
  mapped : ¬ s.NoSlot key → ∀ uva t, s.shmPageGet key pgdir = some (uva, t) →
    uva ≠ 0 ∧ uva % PAGE_SIZE = 0 ∧ uva < 2 ^ 38 ∧ s.getPteOfUva uva pgdir = none ∧
      t.Allocated (t.getKvaOfUva uva pgdir) ∧ ∃ pte i, t.getPteOfUva uva pgdir = some (pte, i) ∧
        t.mem pte i = entry (t.getKvaOfUva uva pgdir) PAGE_ALL

/-- The keys name frames. -/
structure ShareLaw (x : Sharing) : Prop where
  get : ∀ key, key ≠ 0 → ∀ pgdir ∈ x.spaces, GetLaw x.state key pgdir
  /-- Two gets of a key that was in use in between mapped the same frame. -/
  same : ∀ a ∈ x.inUse, ∀ b ∈ x.inUse, a.key = b.key → a.frame = b.frame
  /-- Gets of different keys, held at the same time or not, mapped different frames. -/
  different : ∀ a ∈ x.gets, ∀ b ∈ x.gets, a.key ≠ b.key → a.frame ≠ b.frame
  /-- What is held is mapped. -/
  held : ∀ a ∈ x.held, a.pgdir ∈ x.spaces ∧ x.state.getKvaOfUva a.uva a.pgdir = a.frame

/-! ## The invariant -/

/-- A slot in use has the page of a process; a free one has nothing. -/
def SlotOk (role : ℕ → Role) (v : SharePage) : Prop :=
  v.key ≠ 0 ∧ 0 < v.ref ∧ role v.kva = .page ∨ v.key = 0 ∧ v.ref = 0 ∧ v.kva = 0

/-- No two slots have a key or a page in common. -/
structure Slots (role : ℕ → Role) (p : Fin 16 → SharePage) : Prop where
  ok : ∀ i, SlotOk role (p i)
  keys : ∀ i j, (p i).key ≠ 0 → (p i).key = (p j).key → i = j
  kvas : ∀ i j, (p i).key ≠ 0 → (p i).kva = (p j).kva → i = j

/-- The keys that are in use are those of slots, which have what was got for them. -/
def KeysInUse (p : Fin 16 → SharePage) (inUse : List Got) : Prop :=
  ∀ a ∈ inUse, a.key ≠ 0 ∧ ∃ i, (p i).key = a.key ∧ (p i).kva = a.frame

/-- What was got for a key was a page that no other key has had. -/
structure Named (role : ℕ → Role) (p : Fin 16 → SharePage) (gets inUse : List Got) : Prop where
  page : ∀ a ∈ gets, role a.frame = .page
  different : ∀ a ∈ gets, ∀ b ∈ gets, a.frame = b.frame → a.key = b.key
  slots : ∀ a ∈ gets, ∀ i, (p i).kva = a.frame → (p i).key = a.key
  inUse : ∀ a ∈ inUse, a.key ≠ 0 ∧ ∃ i, (p i).key = a.key ∧ (p i).kva = a.frame

/-- What the keys name, and what is mapped since it was got. -/
structure Sharing.Keyed (x : Sharing) (role : ℕ → Role) : Prop where
  slots : Slots role x.state.sharePages
  named : Named role x.state.sharePages x.gets x.inUse
  held : ∀ a ∈ x.held, a.pgdir ∈ x.spaces ∧ Own (vpn2 a.uva) ∧ a.uva % PAGE_SIZE = 0 ∧
    x.state.leaf a.pgdir (vpns a.uva) ≠ 0 ∧ frameOf (x.state.leaf a.pgdir (vpns a.uva)) = a.frame

/-- The invariant of the runs; `A` allows gets of key 0, after which the keys name no
frames. -/
structure Sharing.Inv (A : Prop) (x : Sharing) (role : ℕ → Role) (e : ℕ) (q : Queue → List Pfn) :
    Prop where
  spaces : Spaces A x.state.toMemory x.spaces role e
  book : x.state.Book q
  swapped : q .swappedPagesQueue = []
  kvas : ∀ i, (x.state.sharePages i).kva = 0 ∨ role (x.state.sharePages i).kva = .page
  keyed : ¬ A → x.Keyed role

/-- The invariant holds, and what was handed out has not been taken back. -/
def Sharing.Keeps (A : Prop) (role : ℕ → Role) (y : Sharing) : Prop :=
  ∃ role' e' q', y.Inv A role' e' q' ∧ Stays role role'

section Slots

variable {role role' : ℕ → Role} {p p' : Fin 16 → SharePage} {gets inUse inUse' : List Got}

lemma Slots.mono (h : Slots role p)
    (hpage : ∀ i, 0 < (p i).ref → role (p i).kva = .page → role' (p i).kva = .page) :
    Slots role' p where
  ok := fun i => (h.ok i).imp_left fun ⟨hkey, href, hkva⟩ => ⟨hkey, href, hpage i href hkva⟩
  keys := h.keys
  kvas := h.kvas

lemma Named.mono (h : Named role p gets inUse) (hpage : ∀ f, role f = .page → role' f = .page)
    (hin : ∀ a ∈ inUse', a ∈ inUse) : Named role' p gets inUse' where
  page := fun a ha => hpage _ (h.page a ha)
  different := h.different
  slots := h.slots
  inUse := fun a ha => h.inUse a (hin a ha)

/-- A slot with a page has a key. -/
lemma Slots.key_ne (h : Slots role p) (h₀ : role 0 ≠ .page) {i : Fin 16}
    (hi : role (p i).kva = .page) : (p i).key ≠ 0 := by
  rcases h.ok i with hused | ⟨-, -, hzero⟩
  · exact hused.1
  · exact absurd (hzero ▸ hi) h₀

/-- Slots that have a key have it from before. -/
lemma Slots.of_le (h : Slots role p) (h₀ : role 0 ≠ .page) (hok : ∀ i, SlotOk role (p' i))
    (hle : ∀ i, (p' i).key ≠ 0 → (p' i).key = (p i).key ∧ (p' i).kva = (p i).kva) :
    Slots role p' where
  ok := hok
  keys := by
    intro i j hi hij
    have hj : (p' j).key ≠ 0 := hij ▸ hi
    obtain ⟨hki, -⟩ := hle i hi
    obtain ⟨hkj, -⟩ := hle j hj
    exact h.keys i j (hki ▸ hi) (by rw [← hki, hij, hkj])
  kvas := by
    intro i j hi hij
    obtain ⟨hki, hvi⟩ := hle i hi
    have hpage : role (p' i).kva = .page := ((hok i).resolve_right fun hfree => hi hfree.1).2.2
    have hj : (p' j).key ≠ 0 := by
      rcases hok j with hused | ⟨-, -, hzero⟩
      · exact hused.1
      · exact absurd (by rw [← hzero, ← hij, hpage]) h₀
    exact h.kvas i j (hki ▸ hi) (by rw [← hvi, hij, (hle j hj).2])

/-- A slot that is in use loses a reference, or becomes free. -/
lemma Slots.change {i : Fin 16} {v : SharePage} (h : Slots role p) (h₀ : role 0 ≠ .page)
    (hi : (p i).key ≠ 0)
    (hv : v = ⟨0, 0, 0⟩ ∨ ∃ ref, 0 < ref ∧ v = ⟨(p i).kva, ref, (p i).key⟩) :
    Slots role (Function.update p i v) ∧ ∀ j, (Function.update p i v j).key ≠ 0 →
      (Function.update p i v j).key = (p j).key ∧ (Function.update p i v j).kva = (p j).kva := by
  have hle : ∀ j, (Function.update p i v j).key ≠ 0 →
      (Function.update p i v j).key = (p j).key ∧ (Function.update p i v j).kva = (p j).kva := by
    intro j hj
    rcases eq_or_ne j i with rfl | hji
    · rw [Function.update_self] at hj ⊢
      rcases hv with rfl | ⟨ref, -, rfl⟩
      · exact absurd rfl hj
      · exact ⟨rfl, rfl⟩
    · rw [Function.update_of_ne hji]
      exact ⟨rfl, rfl⟩
  refine ⟨h.of_le h₀ (fun j => ?_) hle, hle⟩
  rcases eq_or_ne j i with rfl | hji
  · rw [Function.update_self]
    rcases hv with rfl | ⟨ref, href, rfl⟩
    · exact Or.inr ⟨rfl, rfl, rfl⟩
    · obtain ⟨hne, -, hkva⟩ := (h.ok j).resolve_right fun hfree => hi hfree.1
      exact Or.inl ⟨hne, href, hkva⟩
  · rw [Function.update_of_ne hji]
    exact h.ok j

/-- The slot that has a key in use has had it all along. -/
lemma KeysInUse.of_le (h : KeysInUse p inUse) (hs : Slots role p)
    (hle : ∀ i, (p' i).key ≠ 0 → (p' i).key = (p i).key ∧ (p' i).kva = (p i).kva)
    (hin : ∀ a ∈ inUse', a ∈ inUse ∧ ∃ i, (p' i).key = a.key) : KeysInUse p' inUse' := by
  intro a ha
  obtain ⟨ha, i, hi⟩ := hin a ha
  obtain ⟨hne, j, hj, hf⟩ := h a ha
  obtain ⟨hk, hv⟩ := hle i (hi ▸ hne)
  obtain rfl := hs.keys j i (hj ▸ hne) (by rw [hj, ← hi, hk])
  exact ⟨hne, j, hi, hv.trans hf⟩

lemma Named.of_le (h : Named role p gets inUse) (hs : Slots role p) (hs' : Slots role p')
    (h₀ : role 0 ≠ .page)
    (hle : ∀ i, (p' i).key ≠ 0 → (p' i).key = (p i).key ∧ (p' i).kva = (p i).kva)
    (hin : ∀ a ∈ inUse', a ∈ inUse ∧ ∃ i, (p' i).key = a.key) : Named role p' gets inUse' where
  page := h.page
  different := h.different
  slots := by
    intro a ha i hi
    have hne := hs'.key_ne h₀ (i := i) (by rw [hi]; exact h.page a ha)
    obtain ⟨hk, hv⟩ := hle i hne
    rw [hk]
    exact h.slots a ha i (by rw [← hv, hi])
  inUse := KeysInUse.of_le h.inUse hs hle hin

/-- A slot gets a key and a page that no other slot has. -/
lemma Slots.set {i : Fin 16} {kva : ℕ} {key ref : ℤ} (h : Slots role p) (hkey : key ≠ 0)
    (href : 0 < ref) (hkva : role kva = .page) (hkeys : ∀ j, j ≠ i → (p j).key ≠ key)
    (hkvas : ∀ j, j ≠ i → (p j).kva ≠ kva) : Slots role (Function.update p i ⟨kva, ref, key⟩) where
  ok := by
    intro j
    rcases eq_or_ne j i with rfl | hji
    · rw [Function.update_self]
      exact Or.inl ⟨hkey, href, hkva⟩
    · rw [Function.update_of_ne hji]
      exact h.ok j
  keys := by
    intro j k
    rcases eq_or_ne i j with rfl | hij <;> rcases eq_or_ne i k with rfl | hik
    · exact fun _ _ => rfl
    · rw [Function.update_self, Function.update_of_ne hik.symm]
      exact fun _ heq => absurd heq.symm (hkeys k hik.symm)
    · rw [Function.update_self, Function.update_of_ne hij.symm]
      exact fun _ heq => absurd heq (hkeys j hij.symm)
    · rw [Function.update_of_ne hij.symm, Function.update_of_ne hik.symm]
      exact h.keys j k
  kvas := by
    intro j k
    rcases eq_or_ne i j with rfl | hij <;> rcases eq_or_ne i k with rfl | hik
    · exact fun _ _ => rfl
    · rw [Function.update_self, Function.update_of_ne hik.symm]
      exact fun _ heq => absurd heq.symm (hkvas k hik.symm)
    · rw [Function.update_self, Function.update_of_ne hij.symm]
      exact fun _ heq => absurd heq (hkvas j hij.symm)
    · rw [Function.update_of_ne hij.symm, Function.update_of_ne hik.symm]
      exact h.kvas j k

/-- The slot `i` has the key and the frame of a get, or was free. -/
lemma KeysInUse.set {i : Fin 16} {ref : ℤ} {a : Got} (h : KeysInUse p inUse) (hkey : a.key ≠ 0)
    (hold : (p i).key = a.key ∧ (p i).kva = a.frame ∨ (p i).key = 0) :
    KeysInUse (Function.update p i ⟨a.frame, ref, a.key⟩) (a :: inUse) := by
  rintro b (_ | ⟨_, hb⟩)
  · exact ⟨hkey, i, by rw [Function.update_self], by rw [Function.update_self]⟩
  · obtain ⟨hbk, j, hj, hjf⟩ := h b hb
    refine ⟨hbk, j, ?_⟩
    rcases eq_or_ne j i with rfl | hji
    · rcases hold with ⟨hk, hkva⟩ | hk
      · rw [Function.update_self]
        exact ⟨hk.symm.trans hj, hkva.symm.trans hjf⟩
      · exact absurd (hj.symm.trans hk) hbk
    · rw [Function.update_of_ne hji]
      exact ⟨hj, hjf⟩

/-- A get of the page of the slot `i`, which no other key has had. -/
lemma Named.set {i : Fin 16} {ref : ℤ} {a : Got} (h : Named role p gets inUse) (hkey : a.key ≠ 0)
    (hpage : role a.frame = .page) (hnew : ∀ b ∈ gets, a.frame = b.frame → a.key = b.key)
    (hkvas : ∀ j, j ≠ i → (p j).kva ≠ a.frame)
    (hold : (p i).key = a.key ∧ (p i).kva = a.frame ∨ (p i).key = 0) :
    Named role (Function.update p i ⟨a.frame, ref, a.key⟩) (a :: gets) (a :: inUse) where
  page := by
    rintro b (_ | ⟨_, hb⟩)
    · exact hpage
    · exact h.page b hb
  different := by
    rintro b (_ | ⟨_, hb⟩) c (_ | ⟨_, hc⟩) hbc
    · rfl
    · exact hnew c hc hbc
    · exact (hnew b hb hbc.symm).symm
    · exact h.different b hb c hc hbc
  slots := by
    rintro b (_ | ⟨_, hb⟩) j hj <;> rcases eq_or_ne j i with rfl | hji
    · rw [Function.update_self]
    · rw [Function.update_of_ne hji] at hj
      exact absurd hj (hkvas j hji)
    · rw [Function.update_self] at hj ⊢
      exact hnew b hb hj
    · rw [Function.update_of_ne hji] at hj ⊢
      exact h.slots b hb j hj
  inUse := KeysInUse.set h.inUse hkey hold

end Slots

namespace Sharing

open Memory

variable {A : Prop} {x y : Sharing} {role role' : ℕ → Role} {e e' : ℕ} {q q' : Queue → List Pfn}
  {s t : State} {uva pgdir : ℕ} {key : ℤ}

/-- What leaves the slots alone. -/
lemma Inv.of_sharePages {spaces : Finset ℕ} {inUse held : List Got} (h : x.Inv A role e q)
    (hs : Spaces A s.toMemory spaces role' e') (hb : s.Book q') (hq : q' .swappedPagesQueue = [])
    (hshare : s.sharePages = x.state.sharePages) (hstays : Stays role role')
    (hin : ∀ a ∈ inUse, a ∈ x.inUse)
    (hheld : ¬ A → ∀ a ∈ held, a ∈ x.held ∧ a.pgdir ∈ spaces ∧ s.leaf a.pgdir (vpns a.uva) ≠ 0 ∧
      frameOf (s.leaf a.pgdir (vpns a.uva)) = frameOf (x.state.leaf a.pgdir (vpns a.uva))) :
    Inv A ⟨s, spaces, x.gets, inUse, held⟩ role' e' q' := by
  refine ⟨hs, hb, hq, fun i => ?_, fun hA => ⟨?_, ?_, fun a ha => ?_⟩⟩
  · show (s.sharePages i).kva = 0 ∨ role' (s.sharePages i).kva = .page
    rw [hshare]
    exact (h.kvas i).imp_right hstays.page
  · exact hshare ▸ (h.keyed hA).slots.mono fun _ _ => hstays.page
  · exact hshare ▸ (h.keyed hA).named.mono (fun f => hstays.page) hin
  · obtain ⟨hx, hmem, hne, hframe⟩ := hheld hA a ha
    obtain ⟨-, hown, halign, -, hold⟩ := (h.keyed hA).held a hx
    exact ⟨hmem, hown, halign, hne, hframe.trans hold⟩

/-- What leaves the slots and all that is mapped alone. -/
lemma Inv.of_sameFrames {spaces : Finset ℕ} (h : x.Inv A role e q)
    (hs : Spaces A s.toMemory spaces role' e') (hb : s.Book q') (hq : q' .swappedPagesQueue = [])
    (hshare : s.sharePages = x.state.sharePages) (hstays : Stays role role')
    (hframes : ¬ A → SameFrames x.spaces x.state.toMemory s.toMemory) (hsub : x.spaces ⊆ spaces) :
    Inv A { x.next s with spaces := spaces } role' e' q' := by
  refine h.of_sharePages hs hb hq hshare hstays (fun a => List.mem_of_mem_filter) fun hA a ha => ?_
  obtain ⟨hmem, hown, -, hne, -⟩ := (h.keyed hA).held a ha
  exact ⟨ha, hsub hmem, hframes hA a.pgdir hmem (vpns a.uva) hown hne⟩

/-- An address is mapped anew, or not at all. -/
lemma Inv.of_sameBut {l : List Got} (h : x.Inv A role e q)
    (hs : Spaces A s.toMemory x.spaces role' e') (hb : s.Book q') (hq : q' .swappedPagesQueue = [])
    (hshare : s.sharePages = x.state.sharePages) (hstays : Stays role role')
    (hin : ∀ a ∈ l, a ∈ x.inUse)
    (hsame : SameBut x.spaces pgdir (vpns uva) x.state.toMemory s.toMemory) :
    Inv A ⟨s, x.spaces, x.gets, l, (x.letGo uva pgdir).held⟩ role' e' q' := by
  refine h.of_sharePages hs hb hq hshare hstays hin fun hA a ha => ?_
  obtain ⟨ha, hat⟩ := List.mem_filter.1 ha
  obtain ⟨hmem, hown, -, hne, -⟩ := (h.keyed hA).held a ha
  rw [hsame a.pgdir hmem (vpns a.uva) hown fun heq => of_decide_eq_true hat (Prod.ext_iff.1 heq)]
  exact ⟨ha, hmem, hne, rfl⟩

/-- Only the tables and the free list change. -/
lemma Inv.of_memory {spaces : Finset ℕ} {m : Memory} (h : x.Inv A role e q)
    (hs : Spaces A m spaces role' e') (hkeep : ∀ f, role f ≠ .free → role' f = role f)
    (hframes : SameFrames x.spaces x.state.toMemory m) (hsub : x.spaces ⊆ spaces) :
    Inv A { x.next { x.state with toMemory := m } with spaces := spaces } role' e' q :=
  h.of_sameFrames (s := { x.state with toMemory := m }) hs (h.book.memory _)
    h.swapped rfl (Stays.of_keep hkeep) (fun _ => hframes) hsub

/-! ## What is not about shared pages -/

lemma Inv.newPgdir (h : x.Inv A role e q) (hc : x.call .newPgdir = some y) : Keeps A role y := by
  obtain ⟨⟨p, m⟩, hk, rfl⟩ := Option.map_eq_some_iff.1 hc
  obtain ⟨e', hs, -, hkeep, hleaf, -⟩ := h.spaces.newPgdir hk
  exact ⟨_, e', q, h.of_memory hs hkeep hleaf.sameFrames (Finset.subset_insert _ _),
    Stays.of_keep hkeep⟩

/-- A kernel stack becomes the kernel's. -/
lemma Inv.kalloc_spec {p : ℕ} {m : Memory} (h : x.Inv A role e q)
    (hk : x.state.kalloc = some (p, m)) :
    ∃ role' e', Inv A (x.next { x.state with toMemory := m }) role' e' q ∧ Stays role role' ∧
      role' p = .kernel := by
  obtain ⟨e', hs, -, hkeep, hleaf, -⟩ := h.spaces.kalloc (r := .kernel) (by simp) (by simp) hk
  exact ⟨_, e', h.of_memory hs hkeep hleaf.sameFrames subset_rfl, Stays.of_keep hkeep,
    Function.update_self ..⟩

lemma Inv.kalloc (h : x.Inv A role e q) (hc : x.call .kalloc = some y) : Keeps A role y := by
  obtain ⟨⟨p, m⟩, hk, rfl⟩ := Option.map_eq_some_iff.1 hc
  obtain ⟨role', e', h', hstays, -⟩ := h.kalloc_spec hk
  exact ⟨role', e', q, h', hstays⟩

lemma Inv.sharePgtable (h : x.Inv A role e q) (hd : pgdir ∈ x.spaces)
    (hc : x.call (.sharePgtable pgdir) = some y) : Keeps A role y := by
  rw [call, Option.some.injEq] at hc
  subst hc
  obtain ⟨hs, hleaf⟩ := h.spaces.sharePgtable hd
  generalize x.state.sharePgtable pgdir PGDIR_VA = m at hs hleaf ⊢
  exact ⟨role, e, q, h.of_memory hs (fun _ _ => rfl) hleaf.sameFrames subset_rfl, Stays.refl role⟩

/-- A page becomes the process's. -/
lemma Inv.allocPageHelper_spec {kva : ℕ} (h : x.Inv A role e q) (hd : pgdir ∈ x.spaces)
    (ho : Own (vpn2 uva)) (hs : x.state.allocPageHelper MAX_PRESENT_PFN uva pgdir = some (kva, s)) :
    ∃ role' e' q', Inv A ((x.next s).letGo uva pgdir) role' e' q' ∧ Stays role role' ∧
      role' kva = .page := by
  obtain ⟨⟨q', hb, hq⟩, hshare, -, role', e', hspaces, hkeep, hpage, -, hsame, -⟩ :=
    h.spaces.allocPageHelper h.book h.swapped hd ho hs
  exact ⟨role', e', q', h.of_sameBut hspaces hb hq hshare (Stays.of_keep hkeep)
    (fun a => List.mem_of_mem_filter) hsame, Stays.of_keep hkeep, hpage⟩

lemma Inv.allocPageHelper (h : x.Inv A role e q) (hd : pgdir ∈ x.spaces) (ho : Own (vpn2 uva))
    (hc : x.call (.allocPageHelper uva pgdir) = some y) : Keeps A role y := by
  obtain ⟨⟨kva, s⟩, hs, rfl⟩ := Option.map_eq_some_iff.1 hc
  obtain ⟨role', e', q', h', hstays, -⟩ := h.allocPageHelper_spec hd ho hs
  exact ⟨role', e', q', h', hstays⟩

lemma Inv.unsetExec (h : x.Inv A role e q) (hd : pgdir ∈ x.spaces) (ho : Own (vpn2 uva))
    (hc : x.call (.unsetExec uva pgdir) = some y) : Keeps A role y := by
  obtain ⟨m, hm, rfl⟩ := Option.map_eq_some_iff.1 hc
  have hexec : PAGE_EXEC < 2 ^ 10 := by decide
  obtain ⟨hs, hframes, -⟩ :=
    h.spaces.modifyAttributes hd ho (fun _ _ => exists_unsetAttribute hexec) hm
  exact ⟨role, e, q, h.of_memory hs (fun _ _ => rfl) hframes subset_rfl, Stays.refl role⟩

/-- A page fault maps a new page, and then the attributes of entries change. -/
lemma Inv.handlePageFault_spec {store : Bool} (h : x.Inv A role e q) (hd : pgdir ∈ x.spaces)
    (ho : Own (vpn2 (uva &&& PAGE_MASK)))
    (hs : x.state.handlePageFault MAX_PRESENT_PFN uva pgdir store = some s) :
    x.state.getKvaOfUva (uva &&& PAGE_MASK) pgdir = 0 ∧ ∃ kva u m,
      x.state.allocPageHelper MAX_PRESENT_PFN (uva &&& PAGE_MASK) pgdir = some (kva, u) ∧
      s = { u with toMemory := m } ∧ ∀ role' e', Spaces A u.toMemory x.spaces role' e' →
        Spaces A m x.spaces role' e' ∧ SameFrames x.spaces u.toMemory m ∧
          NoneNew x.spaces u.toMemory m := by
  simp only [State.handlePageFault, Option.bind_eq_bind, Option.bind_eq_some_iff] at hs
  obtain ⟨u, hu, m, hm, hs⟩ := hs
  obtain ⟨hkva, kva, halloc⟩ := h.book.bringIn_spec h.swapped hu
  have haccessed : PAGE_ACCESSED < 2 ^ 10 := by decide
  have hdirty : PAGE_DIRTY < 2 ^ 10 := by decide
  refine ⟨hkva, kva, u, ?_⟩
  split_ifs at hs with hstore
  · simp only [Option.bind_eq_some_iff, Option.some.injEq] at hs
    obtain ⟨m', hm', rfl⟩ := hs
    refine ⟨m', halloc, rfl, fun role' e' hspaces => ?_⟩
    obtain ⟨hspaces₁, hframes₁, hnone₁⟩ := hspaces.modifyAttributes hd ho
      (fun _ _ _ => exists_setAttribute haccessed) hm
    obtain ⟨hspaces₂, hframes₂, hnone₂⟩ := hspaces₁.modifyAttributes hd ho
      (fun _ _ _ => exists_setAttribute hdirty) hm'
    exact ⟨hspaces₂, hframes₁.trans hframes₂, hnone₁.trans hnone₂⟩
  · rw [Option.some.injEq] at hs
    exact ⟨m, halloc, hs.symm, fun role' e' hspaces => hspaces.modifyAttributes hd ho
      (fun _ _ _ => exists_setAttribute haccessed) hm⟩

/-- A page fault maps a page where there was none. -/
lemma Inv.handlePageFault {store : Bool} (h : x.Inv A role e q) (hd : pgdir ∈ x.spaces)
    (ho : Own (vpn2 uva)) (hc : x.call (.handlePageFault uva pgdir store) = some y) :
    Keeps A role y := by
  obtain ⟨s, hs, rfl⟩ := Option.map_eq_some_iff.1 hc
  have hown : Own (vpn2 (uva &&& PAGE_MASK)) := by rwa [vpn2_and_pageMask]
  obtain ⟨hkva, kva, u, m, halloc, rfl, hattr⟩ := h.handlePageFault_spec hd hown hs
  have hz : ¬ A → x.state.leaf pgdir (vpns (uva &&& PAGE_MASK)) = 0 := by
    intro hA
    by_contra hne
    obtain ⟨f, bits, hleaf, hbits, hf⟩ := (h.spaces.leaf pgdir hd _ hown).resolve_left hne
    obtain ⟨hframe, hlt⟩ := h.spaces.isFrame hf
    rw [getKvaOfUva_of_leaf hleaf hframe hlt hbits] at hkva
    exact h.spaces.ne_zero (hf.resolve_right fun hzero => hA hzero.1)
      (Nat.eq_zero_of_add_eq_zero_right hkva)
  obtain ⟨⟨q', hb, hq⟩, hshare, -, role', e', hspaces, hkeep, -, -, hsame, -⟩ :=
    h.spaces.allocPageHelper h.book h.swapped hd hown halloc
  obtain ⟨hspaces', hframes, -⟩ := hattr role' e' hspaces
  exact ⟨role', e', q', h.of_sameFrames (s := { u with toMemory := m }) hspaces'
    (hb.memory _) hq hshare (Stays.of_keep hkeep)
    (fun hA => (hsame.sameFrames (hz hA)).trans hframes) subset_rfl, Stays.of_keep hkeep⟩

lemma Inv.swapInAllPages (h : x.Inv A role e q) (hc : x.call (.swapInAllPages pgdir) = some y) :
    Keeps A role y := by
  obtain ⟨s, hs, rfl⟩ := Option.map_eq_some_iff.1 hc
  obtain rfl := h.book.swapInAllPages_eq h.swapped hs
  exact ⟨role, e, q, h.of_memory h.spaces (fun _ _ => rfl) (SameLeaves.sameFrames fun _ _ _ _ => rfl)
    subset_rfl, Stays.refl role⟩

lemma Inv.freePageWithKva {kva : ℕ} (h : x.Inv A role e q)
    (hc : x.call (.freePageWithKva kva) = some y) : Keeps A role y := by
  obtain ⟨s, hs, rfl⟩ := Option.map_eq_some_iff.1 hc
  obtain ⟨q', hdrops, hmem, hshare, -⟩ := h.book.freePageWith_drops (fun _ => h.book.find _) hs
  have hspaces : Spaces A s.toMemory x.spaces role e := hmem ▸ h.spaces
  exact ⟨role, e, q', h.of_sameFrames hspaces hdrops.book (hdrops.eq_nil h.swapped) hshare
    (Stays.refl role)
    (fun _ => SameLeaves.sameFrames fun _ _ _ _ => by rw [hmem]) subset_rfl, Stays.refl role⟩

/-- What the other processes hold stays mapped. -/
lemma Inv.exit (h : x.Inv A role e q) (hd : pgdir ∈ x.spaces) (hc : x.call (.exit pgdir) = some y) :
    Keeps A role y := by
  simp only [call, Option.map_eq_some_iff] at hc
  obtain ⟨s, hs, rfl⟩ := hc
  obtain ⟨-, role', ht, hfree, hfrees⟩ :=
    State.freePgdir_tables h.book h.spaces.tables (h.spaces.role_dir hd) hs
  obtain ⟨hspaces, hstays, hleaf⟩ := h.spaces.of_frees hd ht hfree hfrees
  obtain ⟨⟨q', hdrops⟩, hshare⟩ := h.book.freePagetable_drops hs
  refine ⟨role', e, q', h.of_sharePages (s := { s with toMemory := s.freePgdir pgdir }) hspaces
    (hdrops.book.memory _) (hdrops.eq_nil h.swapped) hshare hstays
    (fun a => List.mem_of_mem_filter) fun hA a ha => ?_, hstays⟩
  obtain ⟨ha, hne⟩ := List.mem_filter.1 ha
  obtain ⟨hmem, hown, -, hne', -⟩ := (h.keyed hA).held a ha
  have hmem' : a.pgdir ∈ x.spaces.erase pgdir := Finset.mem_erase.2 ⟨of_decide_eq_true hne, hmem⟩
  show _ ∧ _ ∧ (s.freePgdir pgdir).leaf a.pgdir (vpns a.uva) ≠ 0 ∧ _ =
    frameOf (x.state.leaf a.pgdir (vpns a.uva))
  rw [hleaf a.pgdir hmem' (vpns a.uva) hown]
  exact ⟨ha, hmem', hne', rfl⟩

/-- A process stores to what its tables map. -/
lemma Inv.store_spec {v : ℕ} (h : x.Inv A role e q) (hd : pgdir ∈ x.spaces)
    (hs : x.state.storeUser uva pgdir v = some s) :
    ∃ m, s = { x.state with toMemory := m } ∧ Spaces A m x.spaces role e ∧
      SameLeaves x.spaces x.state.toMemory m := by
  obtain ⟨hne, ho, -, ht⟩ := State.storeUser_eq_some hs
  obtain ⟨bits, -, -, hf⟩ := h.spaces.frame hd ho hne
  obtain ⟨hspaces, hsame⟩ := h.spaces.store hf (Fin.ofNat 512 (uva / 8)) v
  exact ⟨_, ht, hspaces, hsame⟩

lemma Inv.store {v : ℕ} (h : x.Inv A role e q) (hd : pgdir ∈ x.spaces)
    (hc : x.call (.store uva pgdir v) = some y) : Keeps A role y := by
  obtain ⟨s, hs, rfl⟩ := Option.map_eq_some_iff.1 hc
  obtain ⟨m, rfl, hspaces, hsame⟩ := h.store_spec hd hs
  exact ⟨role, e, q, h.of_memory hspaces (fun _ _ => rfl) hsame.sameFrames subset_rfl,
    Stays.refl role⟩

end Sharing

end Mm
end UcasKernel
