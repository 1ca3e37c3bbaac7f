/-
The page tables of the kernel, from `arch/riscv/kernel/boot.c`.

`setup_vm` maps the physical memory with pages of 2 MB.  The tables are taken from
`pg_base`, which counts up from the page directory.  As long as paging is off the code uses
physical addresses; pages are named by their kernel virtual addresses all the same.  What
the tables mean is said by the walk of the hardware.
-/
import UcasKernel.Mm.Entries

namespace UcasKernel
namespace Mm

def PGDIR_PA : ℕ := 0x51000000
def IO_ADDR_START : ℕ := 0xffffffe000000000

/-- The entry of a physical page. -/
def ptEntry (pa bits : ℕ) : ℕ := setAttribute (setPfn (pa >>> 12)) bits

/-! ## The walk -/

/-- An entry that ends the walk: it can be read, written or executed. -/
def Leaf (pte : ℕ) : Prop := pte &&& (PAGE_READ ||| PAGE_WRITE ||| PAGE_EXEC) ≠ 0

instance (pte : ℕ) : Decidable (Leaf pte) := inferInstanceAs (Decidable (_ ≠ _))

/-- The index of a level. -/
def vpn (level va : ℕ) : Fin 512 := Fin.ofNat 512 ((va &&& VA_MASK) >>> (12 + 9 * level))

/-- The size of what an entry of a level maps. -/
def mapSize (level : ℕ) : ℕ := 2 ^ (12 + 9 * level)

/-- The bits above the 39th are those of bit 38. -/
def Canonical (va : ℕ) : Prop := va < 2 ^ 38 ∨ 2 ^ 64 - 2 ^ 38 ≤ va ∧ va < 2 ^ 64

instance (va : ℕ) : Decidable (Canonical va) := inferInstanceAs (Decidable (_ ∨ _))

namespace Memory

/-- What a leaf maps; it has to be aligned. -/
def leafAddress (level va pte : ℕ) : Option ℕ :=
  if getPa pte % mapSize level = 0 then some (getPa pte + va % mapSize level) else none

/-- The walk of the hardware from a table of a level on. -/
def walk (m : Memory) (va : ℕ) : ℕ → ℕ → Option ℕ
  | 0, table =>
    let pte := m.mem table (vpn 0 va)
    if ¬ Present pte then none else if Leaf pte then leafAddress 0 va pte else none
  | level + 1, table =>
    let pte := m.mem table (vpn (level + 1) va)
    if ¬ Present pte then none
    else if Leaf pte then leafAddress (level + 1) va pte
    else m.walk va level (pa2kva (getPa pte))

/-- The physical address that the kernel's tables give for a virtual one. -/
def translate (m : Memory) (va : ℕ) : Option ℕ :=
  if Canonical va then m.walk va 2 PGDIR_VA else none

end Memory

/-! ## Entries -/

section Entries

variable {pa bits va : ℕ}

lemma ptEntry_eq (hbits : bits < 2 ^ 10) :
    ptEntry pa bits = pa / 2 ^ 12 % 2 ^ 54 * 2 ^ 10 + bits := by
  have hpfn : setPfn (pa >>> 12) = (pa / 2 ^ 12 % 2 ^ 54) <<< 10 := by
    rw [setPfn, Nat.shiftRight_eq_div_pow, Nat.shiftLeft_eq, Nat.shiftLeft_eq]
    omega
  rw [ptEntry, setAttribute, hpfn, ← Nat.shiftLeft_add_eq_or_of_lt hbits, Nat.shiftLeft_eq]

lemma getPa_eq (pte : ℕ) : getPa pte = pte % 2 ^ 54 / 2 ^ 10 * 2 ^ 12 := by
  rw [getPa, PTE_PPN_AND_ATTR_MASK, Nat.and_two_pow_sub_one_eq_mod, Nat.shiftRight_eq_div_pow,
    Nat.shiftLeft_eq]

/-- A physical address has 56 bits. -/
lemma getPa_ptEntry (hpa : pa % PAGE_SIZE = 0) (hbits : bits < 2 ^ 10) :
    getPa (ptEntry pa bits) = pa % 2 ^ 56 := by
  rw [PAGE_SIZE] at hpa
  rw [getPa_eq, ptEntry_eq hbits]
  omega

lemma present_ptEntry (hbits : bits < 2 ^ 10) : Present (ptEntry pa bits) ↔ bits % 2 = 1 := by
  rw [Present, PAGE_PRESENT, Nat.and_one_is_mod, ptEntry_eq hbits]
  omega

lemma leaf_iff (pte : ℕ) : Leaf pte ↔ pte / 2 % 8 ≠ 0 := by
  have hmask : pte &&& 14 = pte / 2 % 8 * 2 := by
    have h14 : (14 : ℕ) = 7 <<< 1 := rfl
    have hshift : (pte / 2 % 8) <<< 1 = pte &&& 7 <<< 1 := by
      rw [show pte / 2 % 8 = pte >>> 1 &&& 7 from (Nat.and_two_pow_sub_one_eq_mod _ 3).symm]
      refine Nat.eq_of_testBit_eq fun i => ?_
      simp only [Nat.testBit_shiftLeft, Nat.testBit_and, Nat.testBit_shiftRight]
      by_cases hi : 1 ≤ i
      · rw [Nat.add_sub_cancel' hi]
        simp [hi]
      · simp [hi]
    rw [h14, ← hshift, Nat.shiftLeft_eq]
  have hbits : PAGE_READ ||| PAGE_WRITE ||| PAGE_EXEC = 14 := by decide
  rw [Leaf, hbits, hmask]
  omega

lemma leaf_ptEntry (hbits : bits < 2 ^ 10) : Leaf (ptEntry pa bits) ↔ bits / 2 % 8 ≠ 0 := by
  rw [leaf_iff, ptEntry_eq hbits]
  omega

/-- The entry of a table does not end the walk. -/
lemma present_table (pa : ℕ) : Present (ptEntry pa PAGE_PRESENT) :=
  (present_ptEntry (by decide)).2 rfl

lemma not_leaf_table (pa : ℕ) : ¬ Leaf (ptEntry pa PAGE_PRESENT) := by
  rw [leaf_ptEntry (by decide), not_not]
  rfl

lemma ptEntry_ne_zero (hbits : bits < 2 ^ 10) (hodd : bits % 2 = 1) : ptEntry pa bits ≠ 0 := by
  rw [ptEntry_eq hbits]
  omega

lemma pa2kva_of_lt (hpa : pa < 2 ^ 38) : pa2kva pa = pa + KERNEL_VM_OFFSET := by
  rw [pa2kva, KERNEL_VM_OFFSET]
  omega

end Entries

section Walk

variable {m m' : Memory} {va level table : ℕ}

lemma Memory.walk_absent (h : m.mem table (vpn level va) = 0) : m.walk va level table = none := by
  have habsent : ¬ Present (m.mem table (vpn level va)) := by
    rw [h]
    decide
  cases level with
  | zero => exact if_pos habsent
  | succ level => exact if_pos habsent

lemma Memory.walk_leaf {pte : ℕ} (h : m.mem table (vpn level va) = pte) (hpresent : Present pte)
    (hleaf : Leaf pte) : m.walk va level table = leafAddress level va pte := by
  subst h
  cases level with
  | zero => rw [Memory.walk, if_neg (not_not.2 hpresent), if_pos hleaf]
  | succ level => rw [Memory.walk, if_neg (not_not.2 hpresent), if_pos hleaf]

lemma Memory.walk_next {pte : ℕ} (h : m.mem table (vpn (level + 1) va) = pte)
    (hpresent : Present pte) (hleaf : ¬ Leaf pte) :
    m.walk va (level + 1) table = m.walk va level (pa2kva (getPa pte)) := by
  rw [Memory.walk, h, if_neg (not_not.2 hpresent), if_neg hleaf]

/-- A table whose entries end the walk, or are absent, decides it alone. -/
lemma Memory.walk_congr (h : m'.mem table = m.mem table)
    (hend : ∀ i, m.mem table i = 0 ∨ Leaf (m.mem table i)) :
    m'.walk va level table = m.walk va level table := by
  by_cases hpresent : Present (m.mem table (vpn level va))
  · have hleaf := (hend (vpn level va)).resolve_left hpresent.ne_zero
    rw [Memory.walk_leaf rfl hpresent hleaf, Memory.walk_leaf (congrFun h _) hpresent hleaf]
  · cases level with
    | zero => simp only [Memory.walk, h, if_pos hpresent]
    | succ level => simp only [Memory.walk, h, if_pos hpresent]

lemma vpn_two (va : ℕ) : vpn 2 va = vpn2 va := rfl
lemma vpn_one (va : ℕ) : vpn 1 va = vpn1 va := rfl
lemma vpn_zero (va : ℕ) : vpn 0 va = vpn0 va := rfl

end Walk

/-! ## The tables -/

/-- The memory, `pg_base` and `io_base`. -/
structure KernelTables where
  m : Memory
  pgBase : ℕ
  ioBase : ℕ

namespace KernelTables

/-- `alloc_page` of the boot code, and `alloc_kernel_pgtable_page`. -/
def allocPage (s : KernelTables) : ℕ × KernelTables :=
  (s.pgBase + 0x1000, { s with pgBase := s.pgBase + 0x1000 })

/-- Put a new table behind an entry that is zero. -/
def newPage (s : KernelTables) (table : ℕ) (i : Fin 512) : KernelTables :=
  if s.m.mem table i = 0 then
    let (page, s) := s.allocPage
    let m := s.m.store table i (setAttribute (setPfn (page >>> 12)) PAGE_PRESENT)
    { s with m := m.clear (m.tableOf table i) }
  else s

/-- The index that `map_page` computes for the second level. -/
def mapPageVpn1 (va : ℕ) : ℕ := (vpn2 va).val <<< 9 ^^^ (va &&& VA_MASK) >>> 21

/-- `map_page`. -/
def mapPage (s : KernelTables) (va pa : ℕ) : KernelTables :=
  let s := s.newPage PGDIR_VA (vpn2 va)
  let pmd := s.m.tableOf PGDIR_VA (vpn2 va)
  { s with
    m := s.m.store pmd (Fin.ofNat 512 (mapPageVpn1 va)) (setAttribute (setPfn (pa >>> 12))
      (PAGE_PRESENT ||| PAGE_READ ||| PAGE_WRITE ||| PAGE_EXEC ||| PAGE_ACCESSED ||| PAGE_DIRTY)) }

/-- A loop over large pages. -/
def mapPages (s : KernelTables) (va pa n : ℕ) : KernelTables :=
  (List.range n).foldl (fun s k => s.mapPage (va + k * 0x200000) (pa + k * 0x200000)) s

/-- The loop that maps the boot address, from `0x50000000` to `0x51000000`. -/
def mapBootAddress (s : KernelTables) : KernelTables := s.mapPages 0x50000000 0x50000000 8

/-- `setup_vm`: the kernel addresses from `0xffffffc050000000` to `0xffffffc060000000`, and the
boot address. -/
def setupVm (s : KernelTables) : KernelTables :=
  let s := { s with m := s.m.clear PGDIR_VA }
  (s.mapPages 0xffffffc050000000 (kva2pa 0xffffffc050000000) 128).mapBootAddress

/-- `unmap_boot_page`. -/
def unmapBootPage (s : KernelTables) : KernelTables :=
  let pmd := s.m.tableOf PGDIR_VA 1
  { s with m := (s.m.clear pmd).store PGDIR_VA 1 0 }

/-- The tables in which `main` calls `ioremap`, when the other CPU has mapped the boot address
again, or not yet. -/
def atMain (m : Memory) (slave : Bool) : KernelTables :=
  let s := (setupVm ⟨m, PGDIR_PA, IO_ADDR_START⟩).unmapBootPage
  if slave then s.mapBootAddress else s

section Tables

variable {s : KernelTables} {va table : ℕ} {i : Fin 512}

/-- The index is that of the walk, and inside of the table. -/
lemma mapPageVpn1_eq (va : ℕ) : mapPageVpn1 va = (vpn1 va).val := by
  obtain ⟨h2, h1, -⟩ := vpns_val va
  have hmod : va &&& VA_MASK = va % 2 ^ 39 := Nat.and_two_pow_sub_one_eq_mod va 39
  have hsplit : (va &&& VA_MASK) >>> 21 = (vpn2 va).val <<< 9 ||| (vpn1 va).val := by
    rw [← Nat.shiftLeft_add_eq_or_of_lt (vpn1 va).isLt, h2, h1, hmod, Nat.shiftRight_eq_div_pow,
      Nat.shiftLeft_eq]
    omega
  rw [mapPageVpn1, hsplit]
  refine Nat.eq_of_testBit_eq fun j => ?_
  rw [Nat.testBit_xor, Nat.testBit_or, Nat.testBit_shiftLeft]
  by_cases hj : 9 ≤ j
  · have hle : 2 ^ 9 ≤ 2 ^ j := Nat.pow_le_pow_right Nat.two_pos hj
    rw [Nat.testBit_lt_two_pow ((vpn1 va).isLt.trans_le hle)]
    simp
  · simp [hj]

/-- The page behind `pg_base`, named by its kernel address. -/
def tablePage (s : KernelTables) (k : ℕ) : ℕ := pa2kva (s.pgBase + k * PAGE_SIZE)

/-- `pg_base` is one of the pages behind the page directory, with room behind it. -/
structure Room (s : KernelTables) : Prop where
  aligned : s.pgBase % PAGE_SIZE = 0
  above : PGDIR_PA ≤ s.pgBase
  below : s.pgBase < 0x52000000

lemma Room.tablePage_eq (h : s.Room) {k : ℕ} (hk : k < 2 ^ 16) :
    s.tablePage k = s.pgBase + k * PAGE_SIZE + KERNEL_VM_OFFSET := by
  have hbelow := h.below
  rw [tablePage, pa2kva_of_lt]
  rw [PAGE_SIZE]
  omega

lemma Room.tablePage_ne (h : s.Room) {k : ℕ} (hk : k < 2 ^ 16) (hpos : 0 < k) :
    s.tablePage k ≠ PGDIR_VA := by
  have habove := h.above
  rw [h.tablePage_eq hk, PGDIR_VA, KERNEL_VM_OFFSET, PAGE_SIZE]
  rw [PGDIR_PA] at habove
  omega

/-- Different pages behind `pg_base`. -/
lemma Room.tablePage_ne_tablePage (h : s.Room) {k k' : ℕ} (hk : k ≤ 513) (hk' : k' ≤ 513)
    (hne : k ≠ k') : s.tablePage k ≠ s.tablePage k' := by
  rw [h.tablePage_eq (by omega), h.tablePage_eq (by omega), PAGE_SIZE]
  omega

/-- The entry of the page behind `pg_base` leads to it. -/
lemma Room.tableOf_eq (h : s.Room) {m : Memory} {k : ℕ} (hk : k < 2 ^ 16)
    (hentry : m.mem table i = ptEntry (s.pgBase + k * PAGE_SIZE) PAGE_PRESENT) :
    m.tableOf table i = s.tablePage k := by
  have haligned := h.aligned
  have hbelow := h.below
  rw [Memory.tableOf, hentry, getPa_ptEntry, tablePage]
  · congr 1
    rw [PAGE_SIZE]
    omega
  · rw [PAGE_SIZE] at haligned ⊢
    omega
  · decide

lemma newPage_of_ne (h : s.m.mem table i ≠ 0) : s.newPage table i = s := if_neg h

lemma newPage_of_zero (h : s.Room) (hzero : s.m.mem table i = 0) :
    s.newPage table i =
      { s with
        m := (s.m.store table i (ptEntry (s.pgBase + 1 * PAGE_SIZE) PAGE_PRESENT)).clear
          (s.tablePage 1)
        pgBase := s.pgBase + 1 * PAGE_SIZE } := by
  have hentry : (s.m.store table i (ptEntry (s.pgBase + 1 * PAGE_SIZE) PAGE_PRESENT)).mem table i =
      ptEntry (s.pgBase + 1 * PAGE_SIZE) PAGE_PRESENT := by
    rw [Memory.store_self, Function.update_self]
  rw [newPage, if_pos hzero, ← h.tableOf_eq (by decide) hentry]
  rfl

end Tables

/-! ## Large pages -/

/-- The attributes of a large page. -/
def largeBits : ℕ :=
  PAGE_PRESENT ||| PAGE_READ ||| PAGE_WRITE ||| PAGE_EXEC ||| PAGE_ACCESSED ||| PAGE_DIRTY

/-- `t` comes from `s` by a new table behind the entry `v` of the page directory, with `n` large
pages from the index `a` on. -/
structure MapsLarge (s t : KernelTables) (v : Fin 512) (a n pa : ℕ) : Prop where
  pgBase : t.pgBase = s.pgBase + 1 * PAGE_SIZE
  ioBase : t.ioBase = s.ioBase
  root : t.m.mem PGDIR_VA =
    Function.update (s.m.mem PGDIR_VA) v (ptEntry (s.pgBase + 1 * PAGE_SIZE) PAGE_PRESENT)
  pmd : ∀ i : Fin 512, t.m.mem (s.tablePage 1) i =
    if a ≤ i.val ∧ i.val < a + n then ptEntry (pa + (i.val - a) * 0x200000) largeBits else 0
  other : ∀ page, page ≠ PGDIR_VA → page ≠ s.tablePage 1 → t.m.mem page = s.m.mem page

section Large

variable {s t : KernelTables} {v : Fin 512} {a n pa va : ℕ}

lemma MapsLarge.start (h : s.Room) (hzero : s.m.mem PGDIR_VA v = 0) :
    MapsLarge s (s.newPage PGDIR_VA v) v a 0 pa := by
  have hne : PGDIR_VA ≠ s.tablePage 1 := (h.tablePage_ne (by decide) Nat.one_pos).symm
  rw [newPage_of_zero h hzero]
  constructor
  case pgBase => rfl
  case ioBase => rfl
  case root =>
    change (Memory.clear _ _).mem PGDIR_VA = _
    rw [Memory.clear_of_ne hne, Memory.store_self]
  case pmd =>
    intro i
    change (Memory.clear _ _).mem (s.tablePage 1) i = _
    rw [Memory.clear_self, if_neg (by omega)]
  case other =>
    intro page hroot hpage
    change (Memory.clear _ _).mem page = _
    rw [Memory.clear_of_ne hpage, Memory.store_of_ne hroot]

lemma MapsLarge.step (hm : MapsLarge s t v a n pa) (h : s.Room) (hv2 : vpn2 va = v)
    (hv1 : (vpn1 va).val = a + n) :
    MapsLarge s (t.mapPage va (pa + n * 0x200000)) v a (n + 1) pa := by
  have hne : s.tablePage 1 ≠ PGDIR_VA := h.tablePage_ne (by decide) Nat.one_pos
  have hentry : t.m.mem PGDIR_VA v = ptEntry (s.pgBase + 1 * PAGE_SIZE) PAGE_PRESENT := by
    rw [hm.root, Function.update_self]
  have hnew : t.newPage PGDIR_VA v = t := by
    refine newPage_of_ne ?_
    rw [hentry]
    exact ptEntry_ne_zero (by decide) rfl
  have hpmd : t.m.tableOf PGDIR_VA v = s.tablePage 1 := h.tableOf_eq (by decide) hentry
  have hindex : Fin.ofNat 512 (mapPageVpn1 va) = vpn1 va := by
    rw [mapPageVpn1_eq]
    exact Fin.ext (Nat.mod_eq_of_lt (vpn1 va).isLt)
  have hmap : t.mapPage va (pa + n * 0x200000) = { t with
      m := t.m.store (s.tablePage 1) (vpn1 va) (ptEntry (pa + n * 0x200000) largeBits) } := by
    rw [mapPage, hv2, hnew, hpmd, hindex]
    rfl
  rw [hmap]
  constructor
  case pgBase => exact hm.pgBase
  case ioBase => exact hm.ioBase
  case root =>
    change (Memory.store _ _ _ _).mem PGDIR_VA = _
    rw [Memory.store_of_ne hne.symm]
    exact hm.root
  case pmd =>
    intro i
    change (Memory.store _ _ _ _).mem (s.tablePage 1) i = _
    rw [Memory.store_self]
    by_cases hi : i = vpn1 va
    · subst hi
      rw [Function.update_self, hv1, if_pos ⟨by omega, by omega⟩, Nat.add_sub_cancel_left]
    · have hval : i.val ≠ a + n := fun heq => hi (Fin.ext (heq.trans hv1.symm))
      rw [Function.update_of_ne hi, hm.pmd]
      refine if_congr ?_ rfl rfl
      omega
  case other =>
    intro page hroot hpage
    change (Memory.store _ _ _ _).mem page = _
    rw [Memory.store_of_ne hpage]
    exact hm.other page hroot hpage

/-- The loop of `map_page` over the pages behind one entry of the page directory. -/
lemma mapsLarge_mapPages (h : s.Room) (hzero : s.m.mem PGDIR_VA v = 0) (hpos : 0 < n)
    (hva : ∀ k < n, vpn2 (va + k * 0x200000) = v ∧ (vpn1 (va + k * 0x200000)).val = a + k) :
    MapsLarge s (s.mapPages va pa n) v a n pa := by
  -- the first round puts the table there, which the others find
  have hfirst : s.mapPages va pa n = (s.newPage PGDIR_VA v).mapPages va pa n := by
    obtain ⟨n, rfl⟩ := Nat.exists_eq_succ_of_ne_zero hpos.ne'
    have hstart : MapsLarge s (s.newPage PGDIR_VA v) v a 0 pa := .start h hzero
    have hnew : (s.newPage PGDIR_VA v).newPage PGDIR_VA v = s.newPage PGDIR_VA v := by
      refine newPage_of_ne ?_
      rw [hstart.root, Function.update_self]
      exact ptEntry_ne_zero (by decide) rfl
    have hround : s.mapPage (va + 0 * 0x200000) (pa + 0 * 0x200000) =
        (s.newPage PGDIR_VA v).mapPage (va + 0 * 0x200000) (pa + 0 * 0x200000) := by
      rw [mapPage, mapPage, (hva 0 hpos).1, hnew]
    rw [mapPages, mapPages, List.range_succ_eq_map, List.foldl_cons, List.foldl_cons, hround]
  have hloop : ∀ j ≤ n, MapsLarge s ((s.newPage PGDIR_VA v).mapPages va pa j) v a j pa := by
    intro j
    induction j with
    | zero => exact fun _ => .start h hzero
    | succ j ih =>
      intro hj
      rw [mapPages, List.range_succ, List.foldl_append]
      exact (ih (Nat.le_of_succ_le hj)).step h (hva j hj).1 (hva j hj).2
  rw [hfirst]
  exact hloop n le_rfl

end Large

/-! ## The tables at boot -/

/-- A table of the second level: it lies behind the page directory, and every walk ends there. -/
structure EndTable (s : KernelTables) (v : Fin 512) (p : ℕ) : Prop where
  entry : s.m.mem PGDIR_VA v = ptEntry p PAGE_PRESENT
  aligned : p % PAGE_SIZE = 0
  above : PGDIR_PA < p
  below : p ≤ s.pgBase
  ends : ∀ i, s.m.mem (pa2kva p) i = 0 ∨ Leaf (s.m.mem (pa2kva p) i)

/-- The tables before the first `ioremap`. -/
structure Plain (s : KernelTables) : Prop where
  room : s.Room
  ioBase : s.ioBase = IO_ADDR_START
  io : s.m.mem PGDIR_VA IO_REMAP_VA_VPN2 = 0
  table : ∀ v, s.m.mem PGDIR_VA v ≠ 0 → ∃ p, s.EndTable v p
  distinct : ∀ v v', s.m.mem PGDIR_VA v ≠ 0 → s.m.mem PGDIR_VA v = s.m.mem PGDIR_VA v' → v = v'

section Plain

variable {s t : KernelTables} {v v' : Fin 512} {p p' a n pa va : ℕ}

lemma EndTable.page_eq (he : s.EndTable v p) (h : s.Room) : pa2kva p = p + KERNEL_VM_OFFSET := by
  have hbelow := he.below.trans_lt h.below
  exact pa2kva_of_lt (hbelow.trans (by decide))

lemma EndTable.tableOf_eq (he : s.EndTable v p) (h : s.Room) {m : Memory}
    (hentry : m.mem PGDIR_VA v = s.m.mem PGDIR_VA v) : m.tableOf PGDIR_VA v = pa2kva p := by
  have hbelow := he.below.trans_lt h.below
  rw [Memory.tableOf, hentry, he.entry, getPa_ptEntry he.aligned (by decide),
    Nat.mod_eq_of_lt (hbelow.trans (by decide))]

lemma EndTable.ne_root (he : s.EndTable v p) (h : s.Room) : pa2kva p ≠ PGDIR_VA := by
  have habove := he.above
  rw [he.page_eq h, PGDIR_VA, KERNEL_VM_OFFSET]
  rw [PGDIR_PA] at habove
  omega

/-- The pages behind `pg_base` are none of the tables. -/
lemma EndTable.ne_tablePage (he : s.EndTable v p) (h : s.Room) {k : ℕ} (hk : k < 2 ^ 16)
    (hpos : 0 < k) : pa2kva p ≠ s.tablePage k := by
  have hbelow := he.below
  rw [he.page_eq h, h.tablePage_eq hk, PAGE_SIZE]
  omega

lemma EndTable.page_injective (he : s.EndTable v p) (he' : s.EndTable v' p') (h : s.Plain)
    (heq : pa2kva p = pa2kva p') : v = v' := by
  rw [he.page_eq h.room, he'.page_eq h.room, Nat.add_right_cancel_iff] at heq
  refine h.distinct v v' ?_ ?_
  · rw [he.entry]
    exact ptEntry_ne_zero (by decide) rfl
  · rw [he.entry, he'.entry, heq]

/-- The walk reads the entry of the page directory and one table. -/
lemma Plain.translate_congr (h : s.Plain)
    (hroot : t.m.mem PGDIR_VA (vpn2 va) = s.m.mem PGDIR_VA (vpn2 va))
    (htable : ∀ p, s.EndTable (vpn2 va) p → t.m.mem (pa2kva p) = s.m.mem (pa2kva p)) :
    t.m.translate va = s.m.translate va := by
  rw [Memory.translate, Memory.translate]
  refine if_congr Iff.rfl ?_ rfl
  by_cases hzero : s.m.mem PGDIR_VA (vpn 2 va) = 0
  · have hzero' : t.m.mem PGDIR_VA (vpn 2 va) = 0 := hroot.trans hzero
    rw [Memory.walk_absent hzero, Memory.walk_absent hzero']
  · obtain ⟨p, he⟩ := h.table _ hzero
    have hpage : pa2kva (getPa (ptEntry p PAGE_PRESENT)) = pa2kva p := by
      have htable := he.tableOf_eq h.room rfl
      rwa [Memory.tableOf, he.entry] at htable
    have hentry : t.m.mem PGDIR_VA (vpn 2 va) = ptEntry p PAGE_PRESENT := hroot.trans he.entry
    rw [Memory.walk_next hentry (present_table p) (not_leaf_table p),
      Memory.walk_next he.entry (present_table p) (not_leaf_table p), hpage]
    exact Memory.walk_congr (htable p he) he.ends

/-- A table that keeps its entry and its words is one still. -/
lemma EndTable.congr (he : s.EndTable v p) (hentry : t.m.mem PGDIR_VA v = s.m.mem PGDIR_VA v)
    (hpg : s.pgBase ≤ t.pgBase)
    (hpage : ∀ i, t.m.mem (pa2kva p) i = 0 ∨ t.m.mem (pa2kva p) i = s.m.mem (pa2kva p) i) :
    t.EndTable v p :=
  ⟨hentry.trans he.entry, he.aligned, he.above, he.below.trans hpg, fun i => by
    rcases hpage i with h0 | heq
    · exact .inl h0
    · rw [heq]
      exact he.ends i⟩

lemma leaf_large (pa : ℕ) : Leaf (ptEntry pa largeBits) :=
  (leaf_ptEntry (by decide)).2 (by decide)

lemma plain_start (m : Memory) : Plain ⟨m.clear PGDIR_VA, PGDIR_PA, IO_ADDR_START⟩ := by
  have hroot : ∀ v, (m.clear PGDIR_VA).mem PGDIR_VA v = 0 := fun v => by rw [Memory.clear_self]
  have hroom : Room ⟨m.clear PGDIR_VA, PGDIR_PA, IO_ADDR_START⟩ :=
    ⟨(by decide : PGDIR_PA % PAGE_SIZE = 0), le_rfl, (by decide : PGDIR_PA < 0x52000000)⟩
  exact ⟨hroom, rfl, hroot _, fun v hv => absurd (hroot v) hv,
    fun v _ hv => absurd (hroot v) hv⟩

/-- Large pages behind a new table keep the tables as they were. -/
lemma MapsLarge.plain (hm : MapsLarge s t v a n pa) (h : s.Plain)
    (hzero : s.m.mem PGDIR_VA v = 0) (hio : v ≠ IO_REMAP_VA_VPN2)
    (hroom : s.pgBase + 1 * PAGE_SIZE < 0x52000000) : t.Plain := by
  have hpg : s.pgBase ≤ t.pgBase := hm.pgBase ▸ Nat.le_add_right _ _
  have hother : ∀ v', v' ≠ v → t.m.mem PGDIR_VA v' = s.m.mem PGDIR_VA v' := by
    intro v' hv'
    rw [hm.root, Function.update_of_ne hv']
  have hself : t.m.mem PGDIR_VA v = ptEntry (s.pgBase + 1 * PAGE_SIZE) PAGE_PRESENT := by
    rw [hm.root, Function.update_self]
  have haligned := h.room.aligned
  have habove := h.room.above
  have hnew : t.EndTable v (s.pgBase + 1 * PAGE_SIZE) := by
    refine ⟨hself, ?_, ?_, hm.pgBase.ge, fun i => ?_⟩
    · rw [PAGE_SIZE] at haligned ⊢
      omega
    · rw [PAGE_SIZE]
      omega
    · have hpmd := hm.pmd i
      rw [tablePage] at hpmd
      rw [hpmd]
      split
      · exact .inr (leaf_large _)
      · exact .inl rfl
  have hold : ∀ v' p, s.EndTable v' p → v' ≠ v → t.EndTable v' p := fun v' p he hv' =>
    he.congr (hother v' hv') hpg fun i => .inr (congrFun (hm.other _ (he.ne_root h.room)
      (he.ne_tablePage h.room (by decide) Nat.one_pos)) i)
  -- the entry of the new table is that of none of the others
  have hfresh : ∀ v', v' ≠ v →
      s.m.mem PGDIR_VA v' ≠ ptEntry (s.pgBase + 1 * PAGE_SIZE) PAGE_PRESENT := by
    intro v' _ heq
    have hne : s.m.mem PGDIR_VA v' ≠ 0 := by
      rw [heq]
      exact ptEntry_ne_zero (by decide) rfl
    obtain ⟨p, he⟩ := h.table v' hne
    refine he.ne_tablePage h.room (k := 1) (by decide) Nat.one_pos ?_
    have htable := he.tableOf_eq h.room (m := s.m) rfl
    rw [← htable]
    exact h.room.tableOf_eq (by decide) heq
  constructor
  case room => exact ⟨by rw [hm.pgBase, PAGE_SIZE] at *; omega, habove.trans hpg, hm.pgBase ▸ hroom⟩
  case ioBase => exact hm.ioBase.trans h.ioBase
  case io => exact (hother _ (Ne.symm hio)).trans h.io
  case table =>
    intro v' hv'
    by_cases hv : v' = v
    · exact ⟨_, hv ▸ hnew⟩
    · rw [hother v' hv] at hv'
      obtain ⟨p, he⟩ := h.table v' hv'
      exact ⟨p, hold v' p he hv⟩
  case distinct =>
    intro v₁ v₂ hne heq
    by_cases h₁ : v₁ = v
    · subst h₁
      by_contra h₂
      rw [hself, hother v₂ (Ne.symm h₂)] at heq
      exact hfresh v₂ (Ne.symm h₂) heq.symm
    · rw [hother v₁ h₁] at hne heq
      by_cases h₂ : v₂ = v
      · subst h₂
        rw [hself] at heq
        exact absurd heq (hfresh v₁ h₁)
      · rw [hother v₂ h₂] at heq
        exact h.distinct v₁ v₂ hne heq

/-- What was translated before is translated as before. -/
lemma MapsLarge.translate (hm : MapsLarge s t v a n pa) (h : s.Plain)
    (hzero : s.m.mem PGDIR_VA v = 0) {pa' : ℕ} (hva : s.m.translate va = some pa') :
    t.m.translate va = some pa' := by
  by_cases hv : vpn2 va = v
  · have habsent : s.m.mem PGDIR_VA (vpn 2 va) = 0 := by rwa [vpn_two, hv]
    rw [Memory.translate, Memory.walk_absent habsent, ite_self] at hva
    cases hva
  · rw [← hva]
    refine h.translate_congr ?_ fun p he => ?_
    · rw [hm.root, Function.update_of_ne hv]
    · exact hm.other _ (he.ne_root h.room) (he.ne_tablePage h.room (by decide) Nat.one_pos)

/-- The large pages themselves. -/
lemma MapsLarge.translate_self (hm : MapsLarge s t v a n pa) (h : s.Room) (hcanon : Canonical va)
    (hv : vpn2 va = v) (hle : a ≤ (vpn1 va).val) (hlt : (vpn1 va).val < a + n)
    (halign : pa % 2 ^ 21 = 0) (hpa : pa + n * 0x200000 < 2 ^ 56) :
    t.m.translate va = some (pa + ((vpn1 va).val - a) * 0x200000 + va % 2 ^ 21) := by
  have hentry : t.m.mem PGDIR_VA (vpn 2 va) = ptEntry (s.pgBase + 1 * PAGE_SIZE) PAGE_PRESENT := by
    rw [vpn_two, hv, hm.root, Function.update_self]
  have hpage : pa2kva (getPa (ptEntry (s.pgBase + 1 * PAGE_SIZE) PAGE_PRESENT)) =
      s.tablePage 1 := by
    have htable := h.tableOf_eq (k := 1) (by decide) hentry
    rwa [Memory.tableOf, hentry] at htable
  have hlarge : t.m.mem (s.tablePage 1) (vpn 1 va) =
      ptEntry (pa + ((vpn1 va).val - a) * 0x200000) largeBits := by
    rw [vpn_one, hm.pmd, if_pos ⟨hle, hlt⟩]
  have hget : getPa (ptEntry (pa + ((vpn1 va).val - a) * 0x200000) largeBits) =
      pa + ((vpn1 va).val - a) * 0x200000 := by
    rw [getPa_ptEntry (by rw [PAGE_SIZE]; omega) (by decide)]
    omega
  rw [Memory.translate, if_pos hcanon, Memory.walk_next hentry (present_table _)
    (not_leaf_table _), hpage,
    Memory.walk_leaf hlarge ((present_ptEntry (by decide)).2 (by decide)) (leaf_large _),
    Memory.leafAddress, hget, if_pos]
  · rfl
  · rw [mapSize]
    omega

@[simp] lemma pgBase_unmapBootPage : s.unmapBootPage.pgBase = s.pgBase := rfl

/-- The page that `unmap_boot_page` clears is no table of another entry. -/
lemma Plain.bootTable_ne (h : s.Plain) : s.m.tableOf PGDIR_VA 1 ≠ PGDIR_VA ∧
    ∀ v p, s.EndTable v p → v ≠ 1 → pa2kva p ≠ s.m.tableOf PGDIR_VA 1 := by
  by_cases hzero : s.m.mem PGDIR_VA 1 = 0
  · have htable : s.m.tableOf PGDIR_VA 1 = KERNEL_VM_OFFSET := by
      rw [Memory.tableOf, hzero]
      rfl
    rw [htable]
    refine ⟨by decide, fun v p he _ heq => ?_⟩
    have habove := he.above
    rw [he.page_eq h.room] at heq
    omega
  · obtain ⟨p₁, he₁⟩ := h.table 1 hzero
    rw [he₁.tableOf_eq h.room rfl]
    exact ⟨he₁.ne_root h.room, fun v p he hv heq => hv (he.page_injective he₁ h heq)⟩

/-- Without the boot address the other entries of the page directory are as they were. -/
lemma unmapBootPage_spec (h : s.Plain) :
    s.unmapBootPage.Plain ∧ s.unmapBootPage.m.mem PGDIR_VA 1 = 0 ∧
      ∀ va, vpn2 va ≠ 1 → s.unmapBootPage.m.translate va = s.m.translate va := by
  obtain ⟨hroot, hboot⟩ := h.bootTable_ne
  have hself : s.unmapBootPage.m.mem PGDIR_VA 1 = 0 := by
    rw [unmapBootPage, Memory.store_self, Function.update_self]
  have hother : ∀ v, v ≠ 1 → s.unmapBootPage.m.mem PGDIR_VA v = s.m.mem PGDIR_VA v := by
    intro v hv
    rw [unmapBootPage, Memory.store_self, Function.update_of_ne hv, Memory.clear_of_ne hroot.symm]
  have hpage : ∀ v p, s.EndTable v p → v ≠ 1 →
      s.unmapBootPage.m.mem (pa2kva p) = s.m.mem (pa2kva p) := by
    intro v p he hv
    rw [unmapBootPage, Memory.store_of_ne (he.ne_root h.room), Memory.clear_of_ne (hboot v p he hv)]
  have hne : ∀ v, s.unmapBootPage.m.mem PGDIR_VA v ≠ 0 → v ≠ 1 := by
    rintro v hv rfl
    exact hv hself
  refine ⟨?_, hself, fun va hva => ?_⟩
  · constructor
    case room => exact ⟨h.room.aligned, h.room.above, h.room.below⟩
    case ioBase => exact h.ioBase
    case io => exact (hother _ (by decide)).trans h.io
    case table =>
      intro v hv
      have hv1 := hne v hv
      rw [hother v hv1] at hv
      obtain ⟨p, he⟩ := h.table v hv
      exact ⟨p, he.congr (hother v hv1) le_rfl fun i => .inr (congrFun (hpage v p he hv1) i)⟩
    case distinct =>
      intro v₁ v₂ hv₁ heq
      have h₁ := hne v₁ hv₁
      have h₂ := hne v₂ (heq ▸ hv₁)
      rw [hother v₁ h₁] at hv₁ heq
      rw [hother v₂ h₂] at heq
      exact h.distinct v₁ v₂ hv₁ heq
  · exact h.translate_congr (hother _ hva) fun p he => hpage _ p he hva

/-- The indices of the addresses of the two loops. -/
lemma vpns_kernel {k : ℕ} (hk : k < 128) :
    vpn2 (0xffffffc050000000 + k * 0x200000) = KERNEL_VA_VPN2 ∧
      (vpn1 (0xffffffc050000000 + k * 0x200000)).val = 128 + k := by
  obtain ⟨h2, h1, -⟩ := vpns_val (0xffffffc050000000 + k * 0x200000)
  have hvpn : (KERNEL_VA_VPN2 : ℕ) = 257 := rfl
  refine ⟨Fin.ext ?_, ?_⟩ <;> omega

lemma vpns_boot {k : ℕ} (hk : k < 8) : vpn2 (0x50000000 + k * 0x200000) = 1 ∧
    (vpn1 (0x50000000 + k * 0x200000)).val = 128 + k := by
  obtain ⟨h2, h1, -⟩ := vpns_val (0x50000000 + k * 0x200000)
  have hvpn : ((1 : Fin 512) : ℕ) = 1 := rfl
  refine ⟨Fin.ext ?_, ?_⟩ <;> omega

/-- Mapping the boot address. -/
lemma mapBootAddress_spec (h : s.Plain) (hzero : s.m.mem PGDIR_VA 1 = 0)
    (hroom : s.pgBase + 1 * PAGE_SIZE < 0x52000000) :
    s.mapBootAddress.Plain ∧ s.mapBootAddress.pgBase = s.pgBase + 1 * PAGE_SIZE ∧
      ∀ va pa, s.m.translate va = some pa → s.mapBootAddress.m.translate va = some pa := by
  have hm : MapsLarge s s.mapBootAddress 1 128 8 0x50000000 :=
    mapsLarge_mapPages h.room hzero (by decide) fun k hk => vpns_boot hk
  exact ⟨hm.plain h hzero (by decide) hroom, hm.pgBase, fun va pa hva => hm.translate h hzero hva⟩

/-- `main` finds plain tables, in which the kernel addresses are mapped. -/
theorem atMain_spec (m : Memory) (slave : Bool) :
    (atMain m slave).Plain ∧ (atMain m slave).pgBase ≤ PGDIR_PA + 3 * PAGE_SIZE ∧
      ∀ va, 0xffffffc050000000 ≤ va → va < 0xffffffc060000000 →
        (atMain m slave).m.translate va = some (kva2pa va) := by
  have hzero : ∀ v, (m.clear PGDIR_VA).mem PGDIR_VA v = 0 := fun v => by rw [Memory.clear_self]
  have hstart := plain_start m
  -- the kernel addresses
  obtain ⟨s₁, hs₁⟩ : ∃ s₁, s₁ = mapPages ⟨m.clear PGDIR_VA, PGDIR_PA, IO_ADDR_START⟩
      0xffffffc050000000 (kva2pa 0xffffffc050000000) 128 := ⟨_, rfl⟩
  have hm₁ : MapsLarge ⟨m.clear PGDIR_VA, PGDIR_PA, IO_ADDR_START⟩ s₁ KERNEL_VA_VPN2 128 128
      (kva2pa 0xffffffc050000000) :=
    hs₁ ▸ mapsLarge_mapPages hstart.room (hzero _) (by decide) fun k hk => vpns_kernel hk
  have hplain₁ : s₁.Plain := hm₁.plain hstart (hzero _) (by decide)
    (by decide : PGDIR_PA + 1 * PAGE_SIZE < 0x52000000)
  have hpg₁ : s₁.pgBase = PGDIR_PA + 1 * PAGE_SIZE := hm₁.pgBase
  have hkernel₁ : ∀ va, 0xffffffc050000000 ≤ va → va < 0xffffffc060000000 →
      s₁.m.translate va = some (kva2pa va) := by
    intro va hle hlt
    obtain ⟨h2, h1, -⟩ := vpns_val va
    have hvpn : (KERNEL_VA_VPN2 : ℕ) = 257 := rfl
    have hpa : kva2pa 0xffffffc050000000 = 0x50000000 := by decide
    have hpa' : kva2pa va = va - KERNEL_VM_OFFSET := by
      rw [kva2pa, KERNEL_VM_OFFSET]
      omega
    rw [hm₁.translate_self hstart.room (.inr ⟨by omega, by omega⟩) (Fin.ext (by omega)) (by omega)
      (by omega) (by rw [hpa]; decide) (by rw [hpa]; decide), hpa, hpa', KERNEL_VM_OFFSET]
    refine congrArg some ?_
    omega
  have hboot₁ : s₁.m.mem PGDIR_VA 1 = 0 := by
    rw [hm₁.root, Function.update_of_ne (by decide)]
    exact hzero 1
  -- the boot address, which is unmapped again
  obtain ⟨hplain₂, hpg₂, hmono₂⟩ := mapBootAddress_spec hplain₁ hboot₁ (by rw [hpg₁]; decide)
  obtain ⟨hplain₃, hboot₃, hmono₃⟩ := unmapBootPage_spec hplain₂
  have hpg₃ : s₁.mapBootAddress.unmapBootPage.pgBase = PGDIR_PA + 2 * PAGE_SIZE := by
    rw [pgBase_unmapBootPage]
    omega
  have hkernel₃ : ∀ va, 0xffffffc050000000 ≤ va → va < 0xffffffc060000000 →
      s₁.mapBootAddress.unmapBootPage.m.translate va = some (kva2pa va) := by
    intro va hle hlt
    obtain ⟨h2, -, -⟩ := vpns_val va
    have hva : vpn2 va ≠ 1 := fun heq => by
      have hval : (vpn2 va).val = 1 := congrArg Fin.val heq
      omega
    rw [hmono₃ va hva]
    exact hmono₂ va _ (hkernel₁ va hle hlt)
  have hmain : atMain m slave = if slave then s₁.mapBootAddress.unmapBootPage.mapBootAddress
      else s₁.mapBootAddress.unmapBootPage := by
    rw [hs₁]
    rfl
  rw [hmain]
  cases slave with
  | false => exact ⟨hplain₃, by rw [if_neg (by decide), hpg₃]; decide, hkernel₃⟩
  | true =>
    obtain ⟨hplain₄, hpg₄, hmono₄⟩ := mapBootAddress_spec hplain₃ hboot₃ (by rw [hpg₃]; decide)
    refine ⟨hplain₄, ?_, fun va hle hlt => hmono₄ va _ (hkernel₃ va hle hlt)⟩
    rw [if_pos rfl, hpg₄, hpg₃]
    decide

end Plain

end KernelTables

end Mm
end UcasKernel
