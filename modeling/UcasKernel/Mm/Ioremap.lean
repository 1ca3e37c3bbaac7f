/-
Mapping the devices, from `kernel/mm/ioremap.c`.

`ioremap` maps pages of 4 KB behind one entry of the kernel's page directory, from
`IO_ADDR_START` on.  The pages are mapped in the order of their addresses, so that the tables
they need are the pages behind `pg_base` in the same order: the table of the second level,
and then one table of the third level for every 512 pages.
-/
import UcasKernel.Mm.KernelTables

namespace UcasKernel
namespace Mm
namespace KernelTables

/-- The attributes of a page of a device. -/
def ioBits : ℕ := PAGE_PRESENT ||| PAGE_READ ||| PAGE_WRITE ||| PAGE_EXEC ||| PAGE_USER

/-- `map_va_to_io_pa`. -/
def mapVaToIoPa (s : KernelTables) (va pa : ℕ) : KernelTables :=
  let s := s.newPage PGDIR_VA (vpn2 va)
  let pmd := s.m.tableOf PGDIR_VA (vpn2 va)
  let s := s.newPage pmd (vpn1 va)
  let pte := s.m.tableOf pmd (vpn1 va)
  { s with m := s.m.store pte (vpn0 va) (setAttribute (setPfn (pa >>> 12)) ioBits) }

/-- `ioremap`, with the address that it returns. -/
def ioremap (s : KernelTables) (physAddr size : ℕ) : ℕ × KernelTables :=
  let t := (List.range ((size + 4095) / PAGE_SIZE)).foldl (fun t k =>
    t.mapVaToIoPa ((s.ioBase + k * PAGE_SIZE) % 2 ^ 64) ((physAddr + k * PAGE_SIZE) % 2 ^ 64)) s
  (s.ioBase, { t with ioBase := (s.ioBase + size) % 2 ^ 64 })

/-- `t` comes from `s` by mapping the pages `ps` of devices, with `c` new tables. -/
structure IoTables (s t : KernelTables) (c : ℕ) (ps : List ℕ) : Prop where
  count : c ≤ 513
  pgBase : t.pgBase = s.pgBase + c * PAGE_SIZE
  root : t.m.mem PGDIR_VA = Function.update (s.m.mem PGDIR_VA) IO_REMAP_VA_VPN2
    (if 0 < c then ptEntry (s.pgBase + 1 * PAGE_SIZE) PAGE_PRESENT else 0)
  pmd : 0 < c → ∀ j : Fin 512, t.m.mem (s.tablePage 1) j =
    if j.val + 2 ≤ c then ptEntry (s.pgBase + (j.val + 2) * PAGE_SIZE) PAGE_PRESENT else 0
  pte : ∀ j i : Fin 512, j.val + 2 ≤ c → t.m.mem (s.tablePage (j.val + 2)) i =
    ps[512 * j.val + i.val]?.elim 0 (ptEntry · ioBits)
  other : ∀ page, page ≠ PGDIR_VA → (∀ k, 0 < k → k ≤ 513 → page ≠ s.tablePage k) →
    t.m.mem page = s.m.mem page

/-- The tables before the first `ioremap`, with room for those of 1 GB. -/
structure Ready (s : KernelTables) : Prop extends Plain s where
  space : s.pgBase + 513 * PAGE_SIZE < 0x52000000

section IoTables

variable {s t : KernelTables} {c n va pa : ℕ} {ps : List ℕ} {j i : Fin 512}

lemma IoTables.start (h : s.Ready) : IoTables s s 0 [] := by
  constructor
  case count => exact Nat.zero_le _
  case pgBase => rw [Nat.zero_mul, Nat.add_zero]
  case root =>
    rw [if_neg (lt_irrefl 0), ← h.io, Function.update_eq_self]
  case pmd => exact fun h0 => absurd h0 (lt_irrefl 0)
  case pte => exact fun j i hj => absurd hj (by omega)
  case other => exact fun page _ _ => rfl

lemma IoTables.room (hm : IoTables s t c ps) (h : s.Ready) : t.Room := by
  have hle : c * PAGE_SIZE ≤ 513 * PAGE_SIZE := Nat.mul_le_mul_right _ hm.count
  constructor
  case aligned => rw [hm.pgBase, Nat.add_mul_mod_self_right, h.room.aligned]
  case above => exact (Nat.le_add_right_of_le h.room.above).trans hm.pgBase.ge
  case below => exact hm.pgBase.trans_lt ((Nat.add_le_add_left hle _).trans_lt h.space)

/-- The next page behind `pg_base`. -/
lemma IoTables.tablePage (hm : IoTables s t c ps) : t.tablePage 1 = s.tablePage (c + 1) := by
  rw [KernelTables.tablePage, KernelTables.tablePage, hm.pgBase, Nat.add_assoc, ← Nat.add_mul]

/-- The table of the second level is there after the first step. -/
lemma IoTables.newRoot (hm : IoTables s t c ps) (h : s.Ready) :
    IoTables s (t.newPage PGDIR_VA IO_REMAP_VA_VPN2) (max c 1) ps := by
  rcases Nat.eq_zero_or_pos c with rfl | hpos
  · have hzero : t.m.mem PGDIR_VA IO_REMAP_VA_VPN2 = 0 := by
      rw [hm.root, Function.update_self, if_neg (lt_irrefl 0)]
    have hne : PGDIR_VA ≠ s.tablePage 1 := (h.room.tablePage_ne (by decide) Nat.one_pos).symm
    have hpg : t.pgBase = s.pgBase := by rw [hm.pgBase, Nat.zero_mul, Nat.add_zero]
    rw [newPage_of_zero (hm.room h) hzero, hm.tablePage, hpg]
    constructor
    case count => decide
    case pgBase => rfl
    case root =>
      change (Memory.clear _ _).mem PGDIR_VA = _
      rw [Memory.clear_of_ne hne, Memory.store_self, hm.root, Function.update_idem]
      rfl
    case pmd =>
      intro _ j
      change (Memory.clear _ _).mem (s.tablePage 1) j = _
      rw [Memory.clear_self, if_neg (by omega)]
    case pte => exact fun j i hj => absurd hj (by omega)
    case other =>
      intro page hroot hpage
      change (Memory.clear _ _).mem page = _
      rw [Memory.clear_of_ne (hpage 1 Nat.one_pos (by decide)), Memory.store_of_ne hroot]
      exact hm.other page hroot hpage
  · have hne : t.m.mem PGDIR_VA IO_REMAP_VA_VPN2 ≠ 0 := by
      rw [hm.root, Function.update_self, if_pos hpos]
      exact ptEntry_ne_zero (by decide) rfl
    rw [newPage_of_ne hne, max_eq_left hpos]
    exact hm

/-- A table of the third level is there after the second step, and is new at the first page
behind it only. -/
lemma IoTables.newPmd (hm : IoTables s t c ps) (h : s.Ready) (hpos : 0 < c)
    (hj : j.val + 2 ≤ c + 1) (hnew : c < j.val + 2 → ps.length ≤ 512 * j.val) :
    IoTables s (t.newPage (s.tablePage 1) j) (max c (j.val + 2)) ps := by
  rcases Nat.lt_or_ge c (j.val + 2) with hlt | hge
  · obtain rfl : c = j.val + 1 := by omega
    have hzero : t.m.mem (s.tablePage 1) j = 0 := by
      rw [hm.pmd hpos, if_neg (by omega)]
    have hlen := hnew hlt
    have hj' := j.isLt
    have hroot : ∀ k, 0 < k → k ≤ 513 → PGDIR_VA ≠ s.tablePage k := fun k hk hk' =>
      (h.room.tablePage_ne (hk'.trans_lt (by decide)) hk).symm
    have hpg : t.pgBase + 1 * PAGE_SIZE = s.pgBase + (j.val + 2) * PAGE_SIZE := by
      rw [hm.pgBase, Nat.add_assoc, ← Nat.add_mul]
    rw [newPage_of_zero (hm.room h) hzero, hm.tablePage, hpg, max_eq_right hlt.le]
    constructor
    case count => omega
    case pgBase => rfl
    case root =>
      change (Memory.clear _ _).mem PGDIR_VA = _
      rw [Memory.clear_of_ne (hroot _ (by omega) (by omega)),
        Memory.store_of_ne (hroot 1 Nat.one_pos (by decide)), hm.root, if_pos hpos,
        if_pos (by omega)]
    case pmd =>
      intro _ i
      change (Memory.clear _ _).mem (s.tablePage 1) i = _
      rw [Memory.clear_of_ne (h.room.tablePage_ne_tablePage (by decide) (by omega) (by omega)),
        Memory.store_self]
      by_cases hi : i = j
      · subst hi
        rw [Function.update_self, if_pos le_rfl]
      · have hval : i.val ≠ j.val := fun heq => hi (Fin.ext heq)
        rw [Function.update_of_ne hi, hm.pmd hpos]
        exact if_congr (by omega) rfl rfl
    case pte =>
      intro j' i hj'
      change (Memory.clear _ _).mem (s.tablePage (j'.val + 2)) i = _
      by_cases heq : j' = j
      · subst heq
        rw [Memory.clear_self, List.getElem?_eq_none (by omega)]
        rfl
      · have hval : j'.val ≠ j.val := fun hval => heq (Fin.ext hval)
        have hj₂ : j'.val ≤ 511 := Nat.le_of_lt_succ j'.isLt
        rw [Memory.clear_of_ne (h.room.tablePage_ne_tablePage (by omega) (by omega) (by omega)),
          Memory.store_of_ne (h.room.tablePage_ne_tablePage (by omega) (by decide) (by omega))]
        exact hm.pte j' i (by omega)
    case other =>
      intro page hpgdir hpage
      change (Memory.clear _ _).mem page = _
      rw [Memory.clear_of_ne (hpage _ (by omega) (by omega)),
        Memory.store_of_ne (hpage 1 Nat.one_pos (by decide))]
      exact hm.other page hpgdir hpage
  · have hne : t.m.mem (s.tablePage 1) j ≠ 0 := by
      rw [hm.pmd hpos, if_pos hge]
      exact ptEntry_ne_zero (by decide) rfl
    rw [newPage_of_ne hne, max_eq_left hge]
    exact hm

/-- The entry of the next page is stored. -/
lemma IoTables.store (hm : IoTables s t c ps) (h : s.Ready) (hj : j.val + 2 ≤ c)
    (hlen : ps.length = 512 * j.val + i.val) (pa : ℕ) :
    IoTables s { t with m := t.m.store (s.tablePage (j.val + 2)) i (ptEntry pa ioBits) } c
      (ps ++ [pa]) := by
  have hcount := hm.count
  constructor
  case count => exact hm.count
  case pgBase => exact hm.pgBase
  case root =>
    change (Memory.store _ _ _ _).mem PGDIR_VA = _
    rw [Memory.store_of_ne (h.room.tablePage_ne (by omega) (by omega)).symm]
    exact hm.root
  case pmd =>
    intro hpos j'
    change (Memory.store _ _ _ _).mem (s.tablePage 1) j' = _
    rw [Memory.store_of_ne (h.room.tablePage_ne_tablePage (by decide) (by omega) (by omega))]
    exact hm.pmd hpos j'
  case pte =>
    intro j' i' hj'
    change (Memory.store _ _ _ _).mem (s.tablePage (j'.val + 2)) i' = _
    by_cases heq : j' = j
    · subst heq
      rw [Memory.store_self]
      by_cases hi : i' = i
      · subst hi
        rw [Function.update_self, ← hlen, List.getElem?_concat_length]
        rfl
      · have hval : i'.val ≠ i.val := fun hval => hi (Fin.ext hval)
        rw [Function.update_of_ne hi, hm.pte j' i' hj']
        rcases Nat.lt_or_ge (512 * j'.val + i'.val) ps.length with hlt | hge
        · rw [List.getElem?_append_left hlt]
        · rw [List.getElem?_eq_none hge, List.getElem?_eq_none]
          rw [List.length_append, List.length_singleton]
          omega
    · have hval : j'.val ≠ j.val := fun hval => heq (Fin.ext hval)
      rw [Memory.store_of_ne (h.room.tablePage_ne_tablePage (by omega) (by omega) (by omega)),
        hm.pte j' i' hj']
      have hi := i.isLt
      have hi' := i'.isLt
      rcases Nat.lt_or_ge (512 * j'.val + i'.val) ps.length with hlt | hge
      · rw [List.getElem?_append_left hlt]
      · rw [List.getElem?_eq_none hge, List.getElem?_eq_none]
        rw [List.length_append, List.length_singleton]
        omega
  case other =>
    intro page hpgdir hpage
    change (Memory.store _ _ _ _).mem page = _
    rw [Memory.store_of_ne (hpage _ (by omega) (by omega))]
    exact hm.other page hpgdir hpage

/-- The number of tables for a number of pages. -/
def tableCount (n : ℕ) : ℕ := if n = 0 then 0 else (n + 511) / 512 + 1

/-- `t` comes from `s` by mapping the pages `ps`. -/
def Mapped (s t : KernelTables) (ps : List ℕ) : Prop := IoTables s t (tableCount ps.length) ps

/-- The indices of the addresses from `IO_ADDR_START` on. -/
lemma vpns_io {x : ℕ} (hx : x < 2 ^ 30) : vpn2 (IO_ADDR_START + x) = IO_REMAP_VA_VPN2 ∧
    (vpn1 (IO_ADDR_START + x)).val = x / 2 ^ 21 ∧
      (vpn0 (IO_ADDR_START + x)).val = x / 2 ^ 12 % 512 := by
  obtain ⟨h2, h1, h0⟩ := vpns_val (IO_ADDR_START + x)
  have hvpn : (IO_REMAP_VA_VPN2 : ℕ) = 384 := rfl
  rw [IO_ADDR_START] at h2 h1 h0
  refine ⟨Fin.ext ?_, ?_, ?_⟩ <;> rw [IO_ADDR_START] <;> omega

/-- Mapping the next page. -/
lemma Mapped.mapVaToIoPa (hm : Mapped s t ps) (h : s.Ready) (hlen : ps.length < 2 ^ 18) (pa : ℕ) :
    Mapped s (t.mapVaToIoPa (IO_ADDR_START + ps.length * PAGE_SIZE) pa) (ps ++ [pa]) := by
  obtain ⟨h2, h1, h0⟩ := vpns_io (x := ps.length * PAGE_SIZE) (by rw [PAGE_SIZE]; omega)
  obtain ⟨va, hva⟩ : ∃ va, va = IO_ADDR_START + ps.length * PAGE_SIZE := ⟨_, rfl⟩
  rw [← hva] at h2 h1 h0 ⊢
  rw [PAGE_SIZE] at h1 h0
  have hcount : tableCount ps.length = if ps.length = 0 then 0 else (ps.length + 511) / 512 + 1 :=
    rfl
  have hroot : t.newPage PGDIR_VA IO_REMAP_VA_VPN2 = t.newPage PGDIR_VA (vpn2 va) := by rw [h2]
  -- the two tables
  have hm₁ := hroot ▸ IoTables.newRoot hm h
  have hentry : (t.newPage PGDIR_VA (vpn2 va)).m.mem PGDIR_VA (vpn2 va) =
      ptEntry (s.pgBase + 1 * PAGE_SIZE) PAGE_PRESENT := by
    rw [hm₁.root, h2, Function.update_self, if_pos (by omega)]
  have hpmd := h.room.tableOf_eq (by decide) hentry
  have hm₂ := hm₁.newPmd (j := vpn1 va) h (by omega) (by split_ifs at hcount <;> omega) (by
    split_ifs at hcount <;> omega)
  have hmax : max (max (tableCount ps.length) 1) ((vpn1 va).val + 2) =
      tableCount (ps ++ [pa]).length := by
    have hcount' : tableCount (ps ++ [pa]).length = (ps.length + 1 + 511) / 512 + 1 := by
      rw [tableCount, List.length_append, List.length_singleton, if_neg (Nat.succ_ne_zero _)]
    rw [hcount', hcount]
    split_ifs <;> omega
  rw [hmax] at hm₂
  have hentry₂ : ((t.newPage PGDIR_VA (vpn2 va)).newPage (s.tablePage 1) (vpn1 va)).m.mem
      (s.tablePage 1) (vpn1 va) =
        ptEntry (s.pgBase + ((vpn1 va).val + 2) * PAGE_SIZE) PAGE_PRESENT := by
    rw [hm₂.pmd (by omega), if_pos (by omega)]
  have hpte := h.room.tableOf_eq (by have := (vpn1 va).isLt; omega) hentry₂
  -- and the entry
  have hstore := hm₂.store h (j := vpn1 va) (i := vpn0 va) (by omega) (by omega) pa
  rw [KernelTables.mapVaToIoPa, hpmd, hpte]
  exact hstore

/-- The pages of a request. -/
def pagesOf (physAddr size : ℕ) : List ℕ :=
  (List.range (size / PAGE_SIZE)).map fun k => (physAddr + k * PAGE_SIZE) % 2 ^ 64

lemma length_pagesOf (physAddr size : ℕ) : (pagesOf physAddr size).length = size / PAGE_SIZE := by
  rw [pagesOf, List.length_map, List.length_range]

/-- `ioremap` returns the address behind the pages mapped so far, and maps its own behind them. -/
lemma Mapped.ioremap (hm : Mapped s t ps) (h : s.Ready)
    (hbase : t.ioBase = IO_ADDR_START + ps.length * PAGE_SIZE) (physAddr : ℕ) {size : ℕ}
    (hsize : size % PAGE_SIZE = 0) (hfit : ps.length * PAGE_SIZE + size ≤ 2 ^ 30) :
    (t.ioremap physAddr size).1 = IO_ADDR_START + ps.length * PAGE_SIZE ∧
      Mapped s (t.ioremap physAddr size).2 (ps ++ pagesOf physAddr size) ∧
      (t.ioremap physAddr size).2.ioBase =
        IO_ADDR_START + (ps ++ pagesOf physAddr size).length * PAGE_SIZE := by
  have hrounds : (size + 4095) / PAGE_SIZE = size / PAGE_SIZE := by
    rw [PAGE_SIZE] at hsize ⊢
    omega
  have hloop : ∀ n ≤ size / PAGE_SIZE, Mapped s ((List.range n).foldl (fun t' k =>
      t'.mapVaToIoPa ((t.ioBase + k * PAGE_SIZE) % 2 ^ 64) ((physAddr + k * PAGE_SIZE) % 2 ^ 64)) t)
        (ps ++ (List.range n).map fun k => (physAddr + k * PAGE_SIZE) % 2 ^ 64) := by
    intro n
    induction n with
    | zero =>
      intro _
      rw [List.range_zero, List.map_nil, List.append_nil]
      exact hm
    | succ n ih =>
      intro hn
      have hm' := ih (Nat.le_of_succ_le hn)
      have hlen : (ps ++ (List.range n).map fun k => (physAddr + k * PAGE_SIZE) % 2 ^ 64).length =
          ps.length + n := by
        rw [List.length_append, List.length_map, List.length_range]
      have hva : (t.ioBase + n * PAGE_SIZE) % 2 ^ 64 =
          IO_ADDR_START + (ps.length + n) * PAGE_SIZE := by
        rw [hbase, IO_ADDR_START]
        rw [PAGE_SIZE] at hfit hn ⊢
        omega
      rw [List.range_succ, List.foldl_append, List.map_append, ← List.append_assoc, List.foldl_cons,
        List.foldl_nil, hva, ← hlen]
      refine hm'.mapVaToIoPa h ?_ _
      rw [hlen]
      rw [PAGE_SIZE] at hfit hn
      omega
  have hlen : (ps ++ pagesOf physAddr size).length = ps.length + size / PAGE_SIZE := by
    rw [List.length_append, length_pagesOf]
  have hm' := hloop _ le_rfl
  refine ⟨hbase, ?_, ?_⟩
  · rw [KernelTables.ioremap, hrounds]
    exact ⟨hm'.count, hm'.pgBase, hm'.root, hm'.pmd, hm'.pte, hm'.other⟩
  · change (t.ioBase + size) % 2 ^ 64 = _
    rw [hlen, hbase, IO_ADDR_START]
    rw [PAGE_SIZE] at hfit hsize ⊢
    omega

/-! ## What the tables translate -/

/-- Behind the entry of the devices the pages are translated that are mapped, and no others. -/
lemma Mapped.translate_io (hm : Mapped s t ps) (h : s.Ready)
    (haligned : ∀ pa ∈ ps, pa % PAGE_SIZE = 0) {x : ℕ} (hx : x < 2 ^ 30) :
    t.m.translate (IO_ADDR_START + x) =
      ps[x / PAGE_SIZE]?.map fun pa => pa % 2 ^ 56 + x % PAGE_SIZE := by
  obtain ⟨h2, h1, h0⟩ := vpns_io hx
  obtain ⟨va, hva⟩ : ∃ va, va = IO_ADDR_START + x := ⟨_, rfl⟩
  have hcanon : Canonical va := by
    rw [hva, IO_ADDR_START]
    exact .inr ⟨by omega, by omega⟩
  have hoffset : va % 2 ^ 12 = x % PAGE_SIZE := by
    rw [hva, IO_ADDR_START, PAGE_SIZE]
    omega
  rw [← hva] at h2 h1 h0 ⊢
  have hindex : 512 * (vpn1 va).val + (vpn0 va).val = x / PAGE_SIZE := by
    rw [PAGE_SIZE]
    omega
  have hcount : tableCount ps.length = if ps.length = 0 then 0 else (ps.length + 511) / 512 + 1 :=
    rfl
  rw [Memory.translate, if_pos hcanon]
  by_cases hroot : 0 < tableCount ps.length
  · have hentry : t.m.mem PGDIR_VA (vpn 2 va) =
        ptEntry (s.pgBase + 1 * PAGE_SIZE) PAGE_PRESENT := by
      rw [vpn_two, hm.root, h2, Function.update_self, if_pos hroot]
    have hpage := h.room.tableOf_eq (by decide) hentry
    rw [Memory.tableOf, hentry] at hpage
    rw [Memory.walk_next hentry (present_table _) (not_leaf_table _), hpage]
    by_cases hpmd : (vpn1 va).val + 2 ≤ tableCount ps.length
    · have hentry₁ : t.m.mem (s.tablePage 1) (vpn 1 va) =
          ptEntry (s.pgBase + ((vpn1 va).val + 2) * PAGE_SIZE) PAGE_PRESENT := by
        rw [vpn_one, hm.pmd hroot, if_pos hpmd]
      have hpage₁ := h.room.tableOf_eq (by have := (vpn1 va).isLt; omega) hentry₁
      rw [Memory.tableOf, hentry₁] at hpage₁
      rw [Memory.walk_next hentry₁ (present_table _) (not_leaf_table _), hpage₁]
      have hentry₀ : t.m.mem (s.tablePage ((vpn1 va).val + 2)) (vpn 0 va) =
          ps[x / PAGE_SIZE]?.elim 0 (ptEntry · ioBits) := by
        rw [vpn_zero, hm.pte _ _ hpmd, hindex]
      cases hps : ps[x / PAGE_SIZE]? with
      | none =>
        rw [hps] at hentry₀
        exact Memory.walk_absent hentry₀
      | some pa =>
        rw [hps] at hentry₀
        have hpa : pa % PAGE_SIZE = 0 := haligned pa (List.mem_of_getElem? hps)
        rw [Memory.walk_leaf hentry₀ ((present_ptEntry (by decide)).2 (by decide))
          ((leaf_ptEntry (by decide)).2 (by decide)), Memory.leafAddress,
          Option.elim_some, getPa_ptEntry hpa (by decide), if_pos]
        · exact congrArg (fun o => some (pa % 2 ^ 56 + o)) hoffset
        · rw [mapSize]
          rw [PAGE_SIZE] at hpa
          omega
    · have hentry₁ : t.m.mem (s.tablePage 1) (vpn 1 va) = 0 := by
        rw [vpn_one, hm.pmd hroot, if_neg hpmd]
      rw [Memory.walk_absent hentry₁, List.getElem?_eq_none]
      · rfl
      · split_ifs at hcount <;> omega
  · have hentry : t.m.mem PGDIR_VA (vpn 2 va) = 0 := by
      rw [vpn_two, hm.root, h2, Function.update_self, if_neg hroot]
    rw [Memory.walk_absent hentry, List.getElem?_eq_none]
    · rfl
    · split_ifs at hcount <;> omega

/-- All other addresses are translated as before. -/
lemma Mapped.translate_other (hm : Mapped s t ps) (h : s.Ready) (hva : vpn2 va ≠ IO_REMAP_VA_VPN2) :
    t.m.translate va = s.m.translate va := by
  refine h.translate_congr ?_ fun p he => ?_
  · rw [hm.root, Function.update_of_ne hva]
  · exact hm.other _ (he.ne_root h.room) fun k hpos hk =>
      he.ne_tablePage h.room (hk.trans_lt (by decide)) hpos

/-- The addresses behind the entry of the devices. -/
lemma exists_io (hva : vpn2 va = IO_REMAP_VA_VPN2) (hcanon : Canonical va) :
    ∃ x, x < 2 ^ 30 ∧ va = IO_ADDR_START + x := by
  obtain ⟨h2, -, -⟩ := vpns_val va
  have hvpn : (IO_REMAP_VA_VPN2 : ℕ) = 384 := rfl
  rw [hva] at h2
  refine ⟨va - IO_ADDR_START, ?_, ?_⟩ <;> rw [IO_ADDR_START] <;>
    rcases hcanon with hlow | ⟨hle, hlt⟩ <;> omega

/-- Mapping more pages leaves what is translated. -/
lemma Mapped.translate_mono {t' : KernelTables} {qs : List ℕ} (hm : Mapped s t ps)
    (hm' : Mapped s t' (ps ++ qs)) (h : s.Ready)
    (haligned : ∀ pa ∈ ps ++ qs, pa % PAGE_SIZE = 0) (hva : t.m.translate va = some pa) :
    t'.m.translate va = some pa := by
  by_cases hio : vpn2 va = IO_REMAP_VA_VPN2
  · have hcanon : Canonical va := by
      by_contra hnot
      rw [Memory.translate, if_neg hnot] at hva
      cases hva
    obtain ⟨x, hx, rfl⟩ := exists_io hio hcanon
    rw [hm.translate_io h (fun pa hpa => haligned pa (List.mem_append_left _ hpa)) hx] at hva
    rw [hm'.translate_io h haligned hx]
    obtain ⟨p, hp, hval⟩ := Option.map_eq_some_iff.1 hva
    rw [List.getElem?_append_left (List.getElem?_eq_some_iff.1 hp).1, hp, Option.map_some, hval]
  · rw [hm'.translate_other h hio, ← hva, hm.translate_other h hio]

end IoTables

/-! ## Sequences of calls -/

/-- The arguments of a call. -/
structure Request where
  physAddr : ℕ
  size : ℕ

/-- Whole pages, as `main` asks for them. -/
def Request.Valid (r : Request) : Prop :=
  r.physAddr % PAGE_SIZE = 0 ∧ 0 < r.size ∧ r.size % PAGE_SIZE = 0

def Request.pages (r : Request) : List ℕ := pagesOf r.physAddr r.size

/-- The calls one after the other, with the addresses that they return. -/
def ioremapAll : KernelTables → List Request → List ℕ × KernelTables
  | s, [] => ([], s)
  | s, r :: rs =>
    let (va, s) := s.ioremap r.physAddr r.size
    let (vas, s) := ioremapAll s rs
    (va :: vas, s)

section Calls

variable {s t : KernelTables} {ps : List ℕ} {r : Request} {rs : List Request}

lemma Request.Valid.aligned (hr : r.Valid) : ∀ pa ∈ r.pages, pa % PAGE_SIZE = 0 := by
  intro pa hpa
  obtain ⟨k, -, rfl⟩ := List.mem_map.1 hpa
  have haligned := hr.1
  rw [PAGE_SIZE] at haligned ⊢
  omega

lemma Request.Valid.length_pages (hr : r.Valid) : r.pages.length * PAGE_SIZE = r.size := by
  have hsize := hr.2.2
  rw [Request.pages, length_pagesOf]
  rw [PAGE_SIZE] at hsize ⊢
  omega

lemma ioremapAll_cons : t.ioremapAll (r :: rs) =
    ((t.ioremap r.physAddr r.size).1 :: ((t.ioremap r.physAddr r.size).2.ioremapAll rs).1,
      ((t.ioremap r.physAddr r.size).2.ioremapAll rs).2) := rfl

/-- The calls map the pages of their requests in order. -/
lemma Mapped.ioremapAll (hm : Mapped s t ps) (h : s.Ready)
    (hbase : t.ioBase = IO_ADDR_START + ps.length * PAGE_SIZE) (hvalid : ∀ r ∈ rs, r.Valid)
    (hfit : ps.length * PAGE_SIZE + (rs.map Request.size).sum ≤ 2 ^ 30) :
    Mapped s (t.ioremapAll rs).2 (ps ++ rs.flatMap Request.pages) := by
  induction rs generalizing t ps with
  | nil =>
    rw [List.flatMap_nil, List.append_nil]
    exact hm
  | cons r rs ih =>
    have hr := hvalid r List.mem_cons_self
    rw [List.map_cons, List.sum_cons] at hfit
    obtain ⟨-, hm', hbase'⟩ := hm.ioremap h hbase r.physAddr hr.2.2 (by omega)
    rw [List.flatMap_cons, ← List.append_assoc]
    refine ih hm' hbase' (fun r' hr' => hvalid r' (List.mem_cons_of_mem _ hr')) ?_
    rw [List.length_append, Nat.add_mul, hr.length_pages]
    omega

/-- Each call returns the address of its first page, and the addresses increase. -/
lemma Mapped.addresses (hm : Mapped s t ps) (h : s.Ready)
    (hbase : t.ioBase = IO_ADDR_START + ps.length * PAGE_SIZE) (hvalid : ∀ r ∈ rs, r.Valid)
    (hfit : ps.length * PAGE_SIZE + (rs.map Request.size).sum ≤ 2 ^ 30) :
    (t.ioremapAll rs).1.length = rs.length ∧
      (∀ x ∈ rs.zip (t.ioremapAll rs).1, ∃ qs qs', rs.flatMap Request.pages =
          qs ++ (x.1.pages ++ qs') ∧ x.2 = IO_ADDR_START + (ps ++ qs).length * PAGE_SIZE) ∧
      (rs.zip (t.ioremapAll rs).1).Pairwise fun x y => x.2 + x.1.size ≤ y.2 := by
  induction rs generalizing t ps with
  | nil => exact ⟨rfl, fun x hx => absurd hx List.not_mem_nil, List.Pairwise.nil⟩
  | cons r rs ih =>
    have hr := hvalid r List.mem_cons_self
    have hpages : (pagesOf r.physAddr r.size).length * PAGE_SIZE = r.size := hr.length_pages
    rw [List.map_cons, List.sum_cons] at hfit
    obtain ⟨hva, hm', hbase'⟩ := hm.ioremap h hbase r.physAddr hr.2.2 (by omega)
    obtain ⟨hlen, hplace, hpair⟩ := ih hm' hbase'
      (fun r' hr' => hvalid r' (List.mem_cons_of_mem _ hr')) (by
        rw [List.length_append, Nat.add_mul, hpages]
        omega)
    rw [ioremapAll_cons]
    refine ⟨congrArg Nat.succ hlen, ?_, ?_⟩
    · intro x hx
      rcases List.mem_cons.1 hx with rfl | hx
      · exact ⟨[], rs.flatMap Request.pages, rfl, by rw [List.append_nil]; exact hva⟩
      · obtain ⟨qs, qs', hqs, hx2⟩ := hplace x hx
        refine ⟨r.pages ++ qs, qs', ?_, ?_⟩
        · rw [List.flatMap_cons, hqs, List.append_assoc]
        · rw [hx2, List.append_assoc]
          rfl
    · refine List.Pairwise.cons (fun y hy => ?_) hpair
      obtain ⟨qs, -, -, hy2⟩ := hplace y hy
      change (t.ioremap r.physAddr r.size).1 + r.size ≤ y.2
      rw [hva, hy2, List.length_append, List.length_append, Nat.add_mul, Nat.add_mul, hpages]
      omega

lemma length_pages (hvalid : ∀ r ∈ rs, r.Valid) :
    (rs.flatMap Request.pages).length * PAGE_SIZE = (rs.map Request.size).sum := by
  induction rs with
  | nil => exact Nat.zero_mul _
  | cons r rs ih =>
    rw [List.flatMap_cons, List.length_append, Nat.add_mul, List.map_cons, List.sum_cons,
      (hvalid r List.mem_cons_self).length_pages,
      ih fun r' hr' => hvalid r' (List.mem_cons_of_mem _ hr')]

/-- The page of a byte of a request, where the request's pages stand in the list. -/
lemma Request.Valid.page_of_byte (hr : r.Valid) (qs qs' : List ℕ) {o : ℕ} (ho : o < r.size) :
    (qs ++ (r.pages ++ qs'))[(qs.length * PAGE_SIZE + o) / PAGE_SIZE]? =
      some ((r.physAddr + o / PAGE_SIZE * PAGE_SIZE) % 2 ^ 64) := by
  have hindex : (qs.length * PAGE_SIZE + o) / PAGE_SIZE = qs.length + o / PAGE_SIZE := by
    rw [Nat.add_comm, Nat.add_mul_div_right _ _ (by decide), Nat.add_comm]
  have hlt : o / PAGE_SIZE < r.size / PAGE_SIZE := by
    have hsize := hr.2.2
    rw [PAGE_SIZE] at hsize ⊢
    omega
  have hpages : r.pages[o / PAGE_SIZE]? =
      some ((r.physAddr + o / PAGE_SIZE * PAGE_SIZE) % 2 ^ 64) := by
    rw [Request.pages, pagesOf, List.getElem?_map, List.getElem?_range hlt, Option.map_some]
  rw [hindex, List.getElem?_append_right (Nat.le_add_right _ _), Nat.add_sub_cancel_left,
    List.getElem?_append_left, hpages]
  rw [Request.pages, length_pagesOf]
  exact hlt

lemma ready_atMain (m : Memory) (slave : Bool) : (atMain m slave).Ready := by
  obtain ⟨hplain, hpg, -⟩ := atMain_spec m slave
  refine ⟨hplain, (Nat.add_le_add_right hpg _).trans_lt ?_⟩
  decide

end Calls

/-- Calls of `ioremap` for at most 1 GB return addresses at which their devices are mapped byte by
byte, in ranges that are disjoint, and what was translated before a call, by an earlier one or since
the boot, is translated after it as before. -/
theorem ioremap_maps (m : Memory) (slave : Bool) {rs : List Request} (hvalid : ∀ r ∈ rs, r.Valid)
    (hfit : (rs.map Request.size).sum ≤ 2 ^ 30) :
    let calls := (atMain m slave).ioremapAll rs
    calls.1.length = rs.length ∧
      (∀ x ∈ rs.zip calls.1, ∀ o < x.1.size,
        calls.2.m.translate (x.2 + o) = some ((x.1.physAddr + o) % 2 ^ 56)) ∧
      (rs.zip calls.1).Pairwise (fun x y => ∀ o < x.1.size, ∀ o' < y.1.size, x.2 + o ≠ y.2 + o') ∧
      ∀ pre post, rs = pre ++ post → ∀ va pa,
        ((atMain m slave).ioremapAll pre).2.m.translate va = some pa →
          calls.2.m.translate va = some pa := by
  intro calls
  have h := ready_atMain m slave
  have hstart : Mapped (atMain m slave) (atMain m slave) [] := IoTables.start h
  have hbase : (atMain m slave).ioBase = IO_ADDR_START + ([] : List ℕ).length * PAGE_SIZE := by
    rw [h.ioBase, List.length_nil, Nat.zero_mul, Nat.add_zero]
  have hfit' : ([] : List ℕ).length * PAGE_SIZE + (rs.map Request.size).sum ≤ 2 ^ 30 := by
    rwa [List.length_nil, Nat.zero_mul, Nat.zero_add]
  have hm := hstart.ioremapAll h hbase hvalid hfit'
  rw [List.nil_append] at hm
  have haligned : ∀ pa ∈ rs.flatMap Request.pages, pa % PAGE_SIZE = 0 := by
    intro pa hpa
    obtain ⟨r, hr, hpa⟩ := List.mem_flatMap.1 hpa
    exact (hvalid r hr).aligned pa hpa
  obtain ⟨hlen, hplace, hpair⟩ := hstart.addresses h hbase hvalid hfit'
  refine ⟨hlen, fun x hx o ho => ?_, hpair.imp fun {x y} hxy o ho o' _ heq => ?_, ?_⟩
  · obtain ⟨qs, qs', hqs, hx2⟩ := hplace x hx
    have hr := hvalid x.1 (List.of_mem_zip hx).1
    have hlt : qs.length * PAGE_SIZE + o < 2 ^ 30 := by
      have htotal := length_pages hvalid
      rw [hqs, List.length_append, List.length_append, Nat.add_mul, Nat.add_mul, hr.length_pages]
        at htotal
      omega
    have hpage := hr.page_of_byte qs qs' ho
    rw [← hqs] at hpage
    rw [hx2, List.nil_append, Nat.add_assoc, hm.translate_io h haligned hlt, hpage, Option.map_some]
    have hphys := hr.1
    rw [PAGE_SIZE] at hphys ⊢
    refine congrArg some ?_
    omega
  · omega
  · rintro pre post rfl va pa hva
    rw [List.flatMap_append] at hm haligned
    have hfit₁ : ([] : List ℕ).length * PAGE_SIZE + (pre.map Request.size).sum ≤ 2 ^ 30 := by
      rw [List.map_append, List.sum_append] at hfit'
      omega
    have hm₁ := hstart.ioremapAll h hbase (fun r hr => hvalid r (List.mem_append_left _ hr)) hfit₁
    exact hm₁.translate_mono hm h haligned hva

/-- Eight pages for the network card, and one more. -/
theorem ioremap_maps_card :
    let rs : List Request := [⟨0x10000000, 0x8000⟩, ⟨0x20000000, 0x1000⟩]
    let calls := (atMain ⟨fun _ _ => 0, 0⟩ true).ioremapAll rs
    ∀ x ∈ rs.zip calls.1, ∀ o < x.1.size,
      calls.2.m.translate (x.2 + o) = some ((x.1.physAddr + o) % 2 ^ 56) := by
  intro rs
  have hvalid : ∀ r ∈ rs, r.Valid := by simp [rs, Request.Valid, PAGE_SIZE]
  exact (ioremap_maps ⟨fun _ _ => 0, 0⟩ true hvalid (by decide)).2.1

end KernelTables
end Mm
end UcasKernel
