/-
Page-table entries and the three-level page tables.

An entry is a 64-bit word: the number of a frame from bit 10 on, and the
attributes below it.  A table is a page of 512 entries.  A virtual address selects
one entry of each of the three levels; a walk reads two of them to find the third.
-/
import UcasKernel.Mm.Memory

namespace UcasKernel
namespace Mm

def KERNEL_VM_OFFSET : ℕ := 0xffffffc000000000
def PGDIR_VA : ℕ := 0xffffffc051000000

def VA_MASK : ℕ := 2 ^ 39 - 1
def PTE_PPN_AND_ATTR_MASK : ℕ := 2 ^ 54 - 1

def PAGE_PRESENT : ℕ := 1
def PAGE_READ : ℕ := 2
def PAGE_WRITE : ℕ := 4
def PAGE_EXEC : ℕ := 8
def PAGE_USER : ℕ := 16
def PAGE_ACCESSED : ℕ := 64
def PAGE_DIRTY : ℕ := 128

def KERNEL_VA_VPN2 : Fin 512 := 0x101
def IO_REMAP_VA_VPN2 : Fin 512 := 0x180

def kva2pa (kva : ℕ) : ℕ := (kva + (2 ^ 64 - KERNEL_VM_OFFSET)) % 2 ^ 64

def pa2kva (pa : ℕ) : ℕ := (pa + KERNEL_VM_OFFSET) % 2 ^ 64

/-- `get_pa`. -/
def getPa (entry : ℕ) : ℕ := (entry &&& PTE_PPN_AND_ATTR_MASK) >>> 10 <<< 12

/-- The entry that `set_pfn` leaves. -/
def setPfn (pfn : ℕ) : ℕ := pfn <<< 10 % 2 ^ 64

/-- The entry that `set_attribute` leaves. -/
def setAttribute (entry bits : ℕ) : ℕ := entry ||| bits

/-- The entry that `unset_attribute` leaves. -/
def unsetAttribute (entry bits : ℕ) : ℕ := entry &&& (2 ^ 64 - 1 - bits)

def vpn2 (uva : ℕ) : Fin 512 := Fin.ofNat 512 ((uva &&& VA_MASK) >>> 30)
def vpn1 (uva : ℕ) : Fin 512 := Fin.ofNat 512 ((uva &&& VA_MASK) >>> 21)
def vpn0 (uva : ℕ) : Fin 512 := Fin.ofNat 512 ((uva &&& VA_MASK) >>> 12)

def getUvaFromVpns (vpn2 vpn1 vpn0 : Fin 512) : ℕ :=
  (vpn2.val <<< 18 ||| vpn1.val <<< 9 ||| vpn0.val) <<< 12

namespace Memory

/-- The table that an entry points to. -/
def tableOf (m : Memory) (table : ℕ) (i : Fin 512) : ℕ := pa2kva (getPa (m.mem table i))

/-- Put a new table behind an entry that is zero. -/
def newTable (m : Memory) (table : ℕ) (i : Fin 512) : Option Memory :=
  if m.mem table i = 0 then do
    let (page, m) ← m.kalloc
    let m := m.store table i (setAttribute (setPfn (kva2pa page >>> 12)) PAGE_PRESENT)
    some (m.clear (m.tableOf table i))
  else some m

/-- `map_uva_to_kva`. -/
def mapUvaToKva (m : Memory) (uva kva pgdir : ℕ) : Option Memory := do
  let m ← m.newTable pgdir (vpn2 uva)
  let pmd := m.tableOf pgdir (vpn2 uva)
  let m ← m.newTable pmd (vpn1 uva)
  let pte := m.tableOf pmd (vpn1 uva)
  some (m.store pte (vpn0 uva) (setAttribute (setPfn (kva2pa kva >>> 12))
    (PAGE_PRESENT ||| PAGE_READ ||| PAGE_WRITE ||| PAGE_EXEC ||| PAGE_USER)))

/-- `get_pte_of_uva`: the table of the third level and the index in it, or `NULL`. -/
def getPteOfUva (m : Memory) (uva pgdir : ℕ) : Option (ℕ × Fin 512) :=
  if m.mem pgdir (vpn2 uva) = 0 then none
  else
    let pmd := m.tableOf pgdir (vpn2 uva)
    if m.mem pmd (vpn1 uva) = 0 then none
    else
      let pte := m.tableOf pmd (vpn1 uva)
      if m.mem pte (vpn0 uva) = 0 then none else some (pte, vpn0 uva)

/-- `get_kva_of_uva`. -/
def getKvaOfUva (m : Memory) (uva pgdir : ℕ) : ℕ :=
  match m.getPteOfUva uva pgdir with
  | none => 0
  | some (pte, i) => pa2kva (getPa (m.mem pte i) ||| uva &&& 2 ^ 12 - 1)

/-- `*pte = f(*pte)` through a pointer that `get_pte_of_uva` returned; through `NULL` it
is undefined. -/
def modifyPte (m : Memory) (uva pgdir : ℕ) (f : ℕ → ℕ) : Option Memory :=
  (m.getPteOfUva uva pgdir).map fun (pte, i) => m.store pte i (f (m.mem pte i))

/-- `share_pgtable`. -/
def sharePgtable (m : Memory) (destPgdir srcPgdir : ℕ) : Memory :=
  (List.finRange 512).foldl (fun m i =>
    if m.mem srcPgdir i ≠ 0 then m.store destPgdir i (m.mem srcPgdir i) else m) m

/-- `free_pgdir`. -/
def freePgdir (m : Memory) (pgdir : ℕ) : Memory := (m.clear pgdir).kfree pgdir

end Memory

end Mm
end UcasKernel
