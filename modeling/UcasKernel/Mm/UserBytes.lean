/-
The bytes of the memory.

A word holds eight bytes, the lowest first.  Stores of a byte and `memset` change one byte
of a word at a time; a process reads a byte through its page tables.
-/
import UcasKernel.Mm.Spaces

namespace UcasKernel
namespace Mm

/-- The byte `k` of a word. -/
def byteOf (w k : ℕ) : ℕ := w / 256 ^ k % 256

/-- A word with another byte `k`. -/
def setByte (w k b : ℕ) : ℕ := (w / 256 ^ (k + 1) * 256 + b % 256) * 256 ^ k + w % 256 ^ k

section Words

variable {w w' k j b : ℕ}

/-- A byte is read from what is below it. -/
lemma byteOf_congr (hj : j < k) (h : w % 256 ^ k = w' % 256 ^ k) : byteOf w j = byteOf w' j := by
  have hdvd : 256 ^ j * 256 ∣ 256 ^ k := by
    rw [← pow_succ]
    exact pow_dvd_pow 256 hj
  have hread : ∀ v, byteOf v j = v % 256 ^ k % (256 ^ j * 256) / 256 ^ j := by
    intro v
    rw [Nat.mod_mod_of_dvd _ hdvd, Nat.mod_mul_right_div_self, byteOf]
  rw [hread, hread, h]

lemma setByte_div : setByte w k b / 256 ^ k = w / 256 ^ (k + 1) * 256 + b % 256 := by
  have hpos : 0 < 256 ^ k := Nat.pow_pos (by decide)
  rw [setByte, Nat.add_comm, Nat.add_mul_div_right _ _ hpos, Nat.div_eq_of_lt (Nat.mod_lt _ hpos),
    Nat.zero_add]

lemma byteOf_setByte : byteOf (setByte w k b) j = if j = k then b % 256 else byteOf w j := by
  have hpos : 0 < 256 ^ k := Nat.pow_pos (by decide)
  have hb : b % 256 < 256 := Nat.mod_lt _ (by decide)
  rcases lt_trichotomy j k with hlt | rfl | hlt
  · rw [if_neg hlt.ne]
    refine byteOf_congr hlt ?_
    rw [setByte, Nat.mul_add_mod_self_right, Nat.mod_mod]
  · rw [if_pos rfl, byteOf, setByte_div]
    omega
  · -- the bytes above are those of the quotient
    rw [if_neg hlt.ne', byteOf, byteOf]
    obtain ⟨i, rfl⟩ : ∃ i, j = k + 1 + i := ⟨j - (k + 1), by omega⟩
    have hdiv : setByte w k b / 256 ^ (k + 1) = w / 256 ^ (k + 1) := by
      rw [pow_succ, ← Nat.div_div_eq_div_mul, setByte_div, pow_succ]
      omega
    rw [pow_add, ← Nat.div_div_eq_div_mul, ← Nat.div_div_eq_div_mul, hdiv]

end Words

namespace Memory

/-- The page of an address, and the word in it. -/
def pageOf (addr : ℕ) : ℕ := addr / PAGE_SIZE * PAGE_SIZE
def wordOf (addr : ℕ) : Fin 512 := Fin.ofNat 512 (addr / 8)

def byte (m : Memory) (addr : ℕ) : ℕ := byteOf (m.mem (pageOf addr) (wordOf addr)) (addr % 8)

/-- Store a byte. -/
def storeByte (m : Memory) (addr b : ℕ) : Memory :=
  m.store (pageOf addr) (wordOf addr) (setByte (m.mem (pageOf addr) (wordOf addr)) (addr % 8) b)

/-- Read and store a word at an aligned address. -/
def word (m : Memory) (addr : ℕ) : ℕ := m.mem (pageOf addr) (wordOf addr)

def storeWord (m : Memory) (addr v : ℕ) : Memory := m.store (pageOf addr) (wordOf addr) v

/-- `memset`. -/
def memset (m : Memory) (dest val len : ℕ) : Memory :=
  (List.range len).foldl (fun m i => m.storeByte (dest + i) val) m

/-- The byte that a process reads at an address, if it may. -/
def userByte (m : Memory) (uva pgdir : ℕ) : Option ℕ := do
  let (pte, i) ← m.getPteOfUva uva pgdir
  let entry := m.mem pte i
  if Present entry ∧ entry &&& PAGE_READ ≠ 0 ∧ entry &&& PAGE_USER ≠ 0 then
    some (m.byte (m.getKvaOfUva uva pgdir))
  else none

/-- The word that a process reads at an aligned address, if it may. -/
def userWord (m : Memory) (uva pgdir : ℕ) : Option ℕ := do
  let (pte, i) ← m.getPteOfUva uva pgdir
  let entry := m.mem pte i
  if Present entry ∧ entry &&& PAGE_READ ≠ 0 ∧ entry &&& PAGE_USER ≠ 0 then
    some (m.word (m.getKvaOfUva uva pgdir))
  else none

variable {m m' : Memory} {addr a b f v x : ℕ}

lemma pageOf_add (hf : f % PAGE_SIZE = 0) (hx : x < PAGE_SIZE) : pageOf (f + x) = f := by
  simp only [pageOf, PAGE_SIZE] at *
  omega

lemma wordOf_val (addr : ℕ) : (wordOf addr).val = addr % PAGE_SIZE / 8 := by
  simp only [wordOf, Fin.val_ofNat, PAGE_SIZE]
  omega

/-- An address is its page, its word and its place in the word. -/
lemma addr_ext (hp : pageOf a = pageOf b) (hw : wordOf a = wordOf b) (hm : a % 8 = b % 8) : a = b := by
  rw [Fin.ext_iff, wordOf_val, wordOf_val] at hw
  simp only [pageOf, PAGE_SIZE] at hp hw
  omega

/-- The cells of addresses in one word, and in different words. -/
lemma cell_congr (h : a / 8 = b / 8) : pageOf a = pageOf b ∧ wordOf a = wordOf b := by
  constructor
  · simp only [pageOf, PAGE_SIZE]
    omega
  · rw [wordOf, wordOf, h]

lemma cell_ne (h : a / 8 ≠ b / 8) : pageOf a = pageOf b → wordOf a ≠ wordOf b := by
  intro hp hw
  rw [Fin.ext_iff, wordOf_val, wordOf_val] at hw
  simp only [pageOf, PAGE_SIZE] at hp hw
  omega

lemma store_of_cell_ne (h : a / 8 ≠ b / 8) :
    (m.store (pageOf b) (wordOf b) v).mem (pageOf a) (wordOf a) = m.mem (pageOf a) (wordOf a) := by
  by_cases hp : pageOf a = pageOf b
  · have hw := cell_ne h hp
    rw [hp, store_self, Function.update_of_ne hw]
  · rw [store_of_ne hp]

lemma word_storeWord_self (h : a / 8 = addr / 8) : (m.storeWord addr v).word a = v := by
  obtain ⟨hp, hw⟩ := cell_congr h
  rw [word, storeWord, hp, hw, store_self, Function.update_self]

lemma word_storeWord_of_ne (h : a / 8 ≠ addr / 8) : (m.storeWord addr v).word a = m.word a :=
  store_of_cell_ne h

lemma word_storeByte_of_ne (h : a / 8 ≠ addr / 8) : (m.storeByte addr b).word a = m.word a :=
  store_of_cell_ne h

lemma byte_storeWord_of_ne (h : a / 8 ≠ addr / 8) : (m.storeWord addr v).byte a = m.byte a := by
  rw [byte, byte, storeWord, store_of_cell_ne h]

lemma word_congr (h : m'.mem (pageOf a) = m.mem (pageOf a)) : m'.word a = m.word a := by
  rw [word, word, h]

lemma byte_congr (h : m'.mem (pageOf a) = m.mem (pageOf a)) : m'.byte a = m.byte a := by
  rw [byte, byte, h]

lemma byte_storeByte : (m.storeByte addr b).byte a = if a = addr then b % 256 else m.byte a := by
  by_cases hp : pageOf a = pageOf addr
  · by_cases hw : wordOf a = wordOf addr
    · simp only [byte, storeByte, hp, hw, store_self, Function.update_self, byteOf_setByte]
      by_cases hm : a % 8 = addr % 8
      · rw [if_pos hm, if_pos (addr_ext hp hw hm)]
      · rw [if_neg hm, if_neg fun heq => hm (by rw [heq])]
    · rw [if_neg fun heq => hw (by rw [heq])]
      simp only [byte, storeByte, hp, store_self, Function.update_of_ne hw]
  · rw [if_neg fun heq => hp (by rw [heq])]
    exact byte_congr (store_of_ne hp)

/-- What a store does to the pages. -/
lemma storeByte_mem (hf : f ≠ pageOf addr) : (m.storeByte addr b).mem f = m.mem f := store_of_ne hf

lemma storeWord_mem {g : ℕ} (hf : f % PAGE_SIZE = 0) (hx : x < PAGE_SIZE) (hg : g ≠ f) :
    (m.storeWord (f + x) v).mem g = m.mem g :=
  store_of_ne fun heq => hg (heq.trans (pageOf_add hf hx))

variable {dest val len : ℕ}

lemma memset_succ : m.memset dest val (len + 1) =
    (m.memset dest val len).storeByte (dest + len) val := by
  rw [memset, List.range_succ, List.foldl_append]
  rfl

lemma byte_memset : (m.memset dest val len).byte a =
    if dest ≤ a ∧ a < dest + len then val % 256 else m.byte a := by
  induction len with
  | zero => rw [if_neg (by omega)]; rfl
  | succ len ih =>
    rw [memset_succ, byte_storeByte, ih]
    by_cases ha : a = dest + len
    · rw [if_pos ha, if_pos (by omega)]
    · rw [if_neg ha]
      by_cases hin : dest ≤ a ∧ a < dest + len
      · rw [if_pos hin, if_pos (by omega)]
      · rw [if_neg hin, if_neg (by omega)]

lemma memset_freememList : (m.memset dest val len).freememList = m.freememList := by
  induction len with
  | zero => rfl
  | succ len ih => rw [memset_succ]; exact ih

/-- `memset` within a page changes no other. -/
lemma memset_mem {g : ℕ} (hf : f % PAGE_SIZE = 0) (hle : x + len ≤ PAGE_SIZE) (hg : g ≠ f) :
    (m.memset (f + x) val len).mem g = m.mem g := by
  induction len with
  | zero => rfl
  | succ len ih =>
    rw [memset_succ, storeByte_mem, ih (by omega)]
    rwa [Nat.add_assoc, pageOf_add hf (by omega)]

/-! ## What a process reads -/

lemma entry_and {bits : ℕ} (hf : IsFrame f) (hbits : bits < 2 ^ 10) (hb : b < 2 ^ 10) :
    entry f bits &&& b = bits &&& b := by
  obtain ⟨n, -, -, -, he⟩ := entry_eq hf hbits
  have hmod : ∀ v, v &&& b = v % 2 ^ 10 &&& b := by
    intro v
    have hlt : v &&& b < 2 ^ 10 := Nat.and_le_right.trans_lt hb
    rw [← Nat.mod_eq_of_lt hlt, Nat.and_mod_two_pow, Nat.mod_eq_of_lt hb]
  rw [hmod, he, Nat.mul_add_mod_self_right, ← hmod]

/-- The entry and the frame that a walk ends at, for a page that a process may read. -/
lemma walk_of_leaf {bits uva pgdir : ℕ} (hleaf : m.leaf pgdir (vpns uva) = entry f bits)
    (hf : IsFrame f) (hne : f ≠ KERNEL_VM_OFFSET) (hbits : bits < 2 ^ 10)
    (hpresent : bits &&& PAGE_PRESENT ≠ 0) (hread : bits &&& PAGE_READ ≠ 0)
    (huser : bits &&& PAGE_USER ≠ 0) :
    m.getKvaOfUva uva pgdir = f + uva % PAGE_SIZE ∧
      ∃ pte i, m.getPteOfUva uva pgdir = some (pte, i) ∧ Present (m.mem pte i) ∧
        m.mem pte i &&& PAGE_READ ≠ 0 ∧ m.mem pte i &&& PAGE_USER ≠ 0 := by
  have hleafne : m.leaf pgdir (vpns uva) ≠ 0 := by
    rw [hleaf]
    exact entry_ne_zero hf hbits hne
  have hword := leaf_eq hleafne
  rw [hleaf] at hword
  refine ⟨getKvaOfUva_of_leaf hleaf hf hne hbits, _, _, by rw [getPteOfUva_eq, if_neg hleafne], ?_⟩
  rw [vpns_fst, vpns_snd_fst, vpns_snd_snd] at hword
  rw [← hword, Present, entry_and hf hbits (by decide), entry_and hf hbits (by decide),
    entry_and hf hbits (by decide)]
  exact ⟨hpresent, hread, huser⟩

section Reads

variable {bits uva pgdir : ℕ} (hleaf : m.leaf pgdir (vpns uva) = entry f bits)
  (hf : IsFrame f) (hne : f ≠ KERNEL_VM_OFFSET) (hbits : bits < 2 ^ 10)
  (hpresent : bits &&& PAGE_PRESENT ≠ 0) (hread : bits &&& PAGE_READ ≠ 0)
  (huser : bits &&& PAGE_USER ≠ 0)
include hleaf hf hne hbits hpresent hread huser

/-- The byte in a page that is mapped for the process to read. -/
lemma userByte_of_leaf : m.userByte uva pgdir = some (m.byte (f + uva % PAGE_SIZE)) := by
  obtain ⟨hkva, pte, i, hpte, hmay⟩ := walk_of_leaf hleaf hf hne hbits hpresent hread huser
  simp only [userByte, hpte, hkva, Option.bind_eq_bind, Option.bind_some, if_pos hmay]

/-- The word there. -/
lemma userWord_of_leaf : m.userWord uva pgdir = some (m.word (f + uva % PAGE_SIZE)) := by
  obtain ⟨hkva, pte, i, hpte, hmay⟩ := walk_of_leaf hleaf hf hne hbits hpresent hread huser
  simp only [userWord, hpte, hkva, Option.bind_eq_bind, Option.bind_some, if_pos hmay]

end Reads

end Memory

end Mm
end UcasKernel
