/-
The Sv39 address translation of RISC-V.

A walk begins at the root table and reads one entry of each level, until an entry is a leaf or
is not valid.  What an access may do is decided by the leaf alone, and the hardware sets its
bits `A` and `D`.  The physical memory is a function from addresses to words.
-/
import Mathlib.Data.Nat.Bitwise

namespace UcasKernel
namespace Sv39

/-! ## Entries -/

/-- What an instruction does with the memory. -/
inductive Access
  | fetch
  | load
  | store
deriving DecidableEq, Repr

/-- What the privilege of the processor lets it do. -/
structure Hart where
  user : Bool
  /-- The supervisor may read and write the pages of the user. -/
  sum : Bool
  /-- What can be executed can be read. -/
  mxr : Bool
deriving DecidableEq, Repr

/-- The processor in user mode. -/
def userMode : Hart := ⟨true, false, false⟩

def valid (pte : ℕ) : Bool := pte.testBit 0
def readable (pte : ℕ) : Bool := pte.testBit 1
def writable (pte : ℕ) : Bool := pte.testBit 2
def executable (pte : ℕ) : Bool := pte.testBit 3
def forUser (pte : ℕ) : Bool := pte.testBit 4

/-- An entry that the hardware takes: it is valid, it does not only write, and its reserved bits
are zero. -/
def wellFormed (pte : ℕ) : Bool :=
  valid pte && (readable pte || !writable pte) && pte < 2 ^ 54

/-- An entry that ends the walk. -/
def isLeaf (pte : ℕ) : Bool := readable pte || executable pte

/-- The address of the page that an entry points to. -/
def page (pte : ℕ) : ℕ := pte / 2 ^ 10 % 2 ^ 44 * 2 ^ 12

/-- The leaf lets the processor make the access. -/
def permits (h : Hart) (a : Access) (pte : ℕ) : Bool :=
  (match a with
    | .fetch => executable pte
    | .load => readable pte || h.mxr && executable pte
    | .store => writable pte) &&
  if h.user then forUser pte else !forUser pte || h.sum && a ≠ .fetch

/-- The leaf after an access: `A` is set, and after a store `D`. -/
def touch (a : Access) (pte : ℕ) : ℕ := pte ||| if a = .store then 2 ^ 6 ||| 2 ^ 7 else 2 ^ 6

/-! ## The walk -/

/-- The index of a level. -/
def vpn (level va : ℕ) : ℕ := va / 2 ^ (12 + 9 * level) % 2 ^ 9

/-- The bits above the 39th are those of bit 38. -/
def Canonical (va : ℕ) : Prop := va < 2 ^ 38 ∨ 2 ^ 64 - 2 ^ 38 ≤ va ∧ va < 2 ^ 64

instance instDecidableCanonical (va : ℕ) : Decidable (Canonical va) :=
  inferInstanceAs (Decidable (_ ∨ _))

/-- Where a walk ends: the level, the address of the leaf, and the leaf. -/
structure Leaf where
  level : ℕ
  entry : ℕ
  pte : ℕ
deriving DecidableEq, Repr

/-- The walk from a table of a level on. -/
def walk (read : ℕ → ℕ) (va : ℕ) : ℕ → ℕ → Option Leaf
  | 0, table =>
    let entry := table + vpn 0 va * 8
    if wellFormed (read entry) && isLeaf (read entry) then some ⟨0, entry, read entry⟩ else none
  | level + 1, table =>
    let entry := table + vpn (level + 1) va * 8
    if !wellFormed (read entry) then none
    else if isLeaf (read entry) then some ⟨level + 1, entry, read entry⟩
    else walk read va level (page (read entry))

/-- What a translation gives: the address of the leaf, the leaf as the hardware leaves it, and
the physical address. -/
structure Translation where
  entry : ℕ
  pte : ℕ
  pa : ℕ
deriving DecidableEq, Repr

/-- The translation of an address, with the table at `root`; `none` is a page fault. -/
def translate (read : ℕ → ℕ) (root : ℕ) (h : Hart) (a : Access) (va : ℕ) : Option Translation :=
  if Canonical va then do
    let leaf ← walk read va 2 root
    if permits h a leaf.pte && page leaf.pte % 2 ^ (12 + 9 * leaf.level) = 0 then
      some ⟨leaf.entry, touch a leaf.pte, page leaf.pte + va % 2 ^ (12 + 9 * leaf.level)⟩
    else none
  else none

variable {read : ℕ → ℕ} {root table level va pte : ℕ} {h : Hart} {a : Access}

/-! ## How a walk goes on -/

lemma not_wellFormed_zero : wellFormed 0 = false := rfl

/-- Where there is no entry, there is a page fault. -/
lemma walk_of_not_wellFormed (hread : read (table + vpn level va * 8) = pte)
    (hpte : wellFormed pte = false) : walk read va level table = none := by
  subst hread
  cases level with
  | zero => simp [walk, hpte]
  | succ level => simp [walk, hpte]

/-- An entry that points to a table. -/
lemma walk_of_table (hread : read (table + vpn (level + 1) va * 8) = pte)
    (hpte : wellFormed pte = true) (hleaf : isLeaf pte = false) :
    walk read va (level + 1) table = walk read va level (page pte) := by
  subst hread
  simp [walk, hpte, hleaf]

/-- The last level. -/
lemma walk_zero (hread : read (table + vpn 0 va * 8) = pte) :
    walk read va 0 table =
      if wellFormed pte && isLeaf pte then some ⟨0, table + vpn 0 va * 8, pte⟩ else none := by
  subst hread
  rfl

/-- A walk that comes to a leaf of the last level. -/
lemma translate_of_page (hva : Canonical va) {entry : ℕ}
    (hwalk : walk read va 2 root = some ⟨0, entry, pte⟩) :
    translate read root h a va = if permits h a pte then
      some ⟨entry, touch a pte, page pte + va % 2 ^ 12⟩ else none := by
  have haligned : page pte % 4096 = 0 := Nat.mul_mod_left _ _
  rw [translate, if_pos hva, hwalk, Option.bind_eq_bind, Option.bind_some]
  simp [haligned]

/-- A walk that ends early. -/
lemma translate_of_fault (hwalk : walk read va 2 root = none) :
    translate read root h a va = none := by
  rw [translate, hwalk]
  exact ite_self _

end Sv39
end UcasKernel
