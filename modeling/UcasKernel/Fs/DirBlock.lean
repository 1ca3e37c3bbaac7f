/-
The block of a directory as a list of entries.

The entries of a directory are used in order; removing one only clears its
`valid`, so the unused ones, whose `inum` is 0, are those behind the list.  A
block holds 113 whole entries, and of a further one the fields and the first 20
bytes of the name.
-/
import UcasKernel.Fs.Card

namespace UcasKernel
namespace Fs

/-- A used directory entry. -/
structure Entry where
  valid : Bool
  inum : ℕ
  name : List UInt8
deriving DecidableEq, Repr, Inhabited

/-- The entry is valid and has the name. -/
def Entry.named (path : List UInt8) (e : Entry) : Bool := e.valid && decide (e.name = path)

/-- The first valid entry with a name. -/
def firstNamed (es : List Entry) (path : List UInt8) : Option ℕ := es.findIdx? (·.named path)

/-- The entries a block has room for. -/
def maxEntries : ℕ := 114

/-- A string of bytes other than 0 and its terminator. -/
structure CStr (buf : Bytes) (a : ℕ) (name : List UInt8) : Prop where
  bytes : ∀ i (hi : i < name.length), buf (a + i) = name[i]
  terminated : buf (a + name.length) = 0
  nonzero : 0 ∉ name

/-- Entry `j` of a block. -/
structure HoldsEntry (buf : Bytes) (j : ℕ) (e : Entry) : Prop where
  valid : buf (sizeofDentry * j) ≠ 0 ↔ e.valid = true
  inum : Bytes.get32 buf (sizeofDentry * j + 4) = e.inum
  inum_ne : e.inum ≠ 0
  name : CStr buf (sizeofDentry * j + 8) e.name
  length : e.name.length ≤ 27
  inside : sizeofDentry * j + 8 + e.name.length < nbytesPerBlock

/-- The block of a directory with the given entries. -/
structure IsDir (buf : Bytes) (es : List Entry) : Prop where
  length : es.length ≤ maxEntries
  entry : ∀ j (hj : j < es.length), HoldsEntry buf j es[j]
  unused : ∀ j, es.length ≤ j → j < maxEntries →
    buf (sizeofDentry * j) = 0 ∧ Bytes.get32 buf (sizeofDentry * j + 4) = 0

section Buffers

variable {buf buf' : Bytes} {es : List Entry} {e : Entry} {j : ℕ} {path : List UInt8}

lemma HoldsEntry.congr (hh : HoldsEntry buf j e)
    (heq : ∀ x, sizeofDentry * j ≤ x → x < sizeofDentry * (j + 1) → x < nbytesPerBlock →
      buf' x = buf x) : HoldsEntry buf' j e := by
  obtain ⟨hvalid, hinum, hne, ⟨hbytes, hterm, hnz⟩, hlen, hin⟩ := hh
  simp only [sizeofDentry, nbytesPerBlock] at *
  refine ⟨?_, ?_, hne, ⟨fun i hi => ?_, ?_, hnz⟩, hlen, hin⟩
  · simp only [sizeofDentry]
    rw [heq _ (by omega) (by omega) (by omega)]
    exact hvalid
  · refine Eq.trans (Bytes.getLE_congr fun i hi => ?_) hinum
    simp only [sizeofDentry]
    exact heq _ (by omega) (by omega) (by omega)
  · simp only [sizeofDentry]
    rw [heq _ (by omega) (by omega) (by omega)]
    exact hbytes i hi
  · simp only [sizeofDentry]
    rw [heq _ (by omega) (by omega) (by omega)]
    exact hterm

/-- Only the bytes inside of the block count. -/
lemma IsDir.congr (hd : IsDir buf es) (heq : ∀ x < nbytesPerBlock, buf' x = buf x) :
    IsDir buf' es := by
  refine ⟨hd.length, fun j hj => (hd.entry j hj).congr fun x _ _ hx => heq x hx, fun j hj hj' => ?_⟩
  obtain ⟨hvalid, hinum⟩ := hd.unused j hj hj'
  simp only [maxEntries, sizeofDentry, nbytesPerBlock] at *
  refine ⟨by rw [heq _ (by omega)]; exact hvalid, Eq.trans (Bytes.getLE_congr fun i hi => ?_) hinum⟩
  exact heq _ (by omega)

/-! ## Reading entries -/

lemma blockByte_eq {a : ℕ} (ha : a < nbytesPerBlock) : blockByte buf a = some (buf a) := if_pos ha

/-- `strcmp` compares strings. -/
lemma CStr.strcmpAt {a : ℕ} {name : List UInt8} (hs : CStr buf a name) (hpath : 0 ∉ path)
    (ha : a + name.length < nbytesPerBlock) :
    strcmpAt buf a path = some (decide (name = path)) := by
  induction path generalizing a name with
  | nil =>
    rw [Fs.strcmpAt, blockByte_eq (by omega), Option.map_some]
    cases name with
    | nil => simpa using hs.terminated
    | cons d ds =>
      have hd : buf a = d := hs.bytes 0 (by simp)
      have hne : d ≠ 0 := fun h0 => hs.nonzero (h0 ▸ List.mem_cons_self)
      simp [hd, hne]
  | cons c cs ih =>
    have hc : c ≠ 0 := fun h0 => hpath (h0 ▸ List.mem_cons_self)
    rw [Fs.strcmpAt, blockByte_eq (by omega)]
    simp only [Option.bind_eq_bind, Option.bind_some]
    cases name with
    | nil =>
      have h0 : buf a = 0 := hs.terminated
      rw [h0, if_neg hc.symm]
      simp
    | cons d ds =>
      have hd : buf a = d := hs.bytes 0 (by simp)
      rw [hd]
      by_cases hdc : d = c
      · have hrest : CStr buf (a + 1) ds := by
          refine ⟨fun i hi => ?_, ?_, fun hmem => hs.nonzero (List.mem_cons_of_mem _ hmem)⟩
          · have := hs.bytes (i + 1) (by simpa using hi)
            rwa [show a + (i + 1) = a + 1 + i by omega] at this
          · have := hs.terminated
            rwa [List.length_cons, show a + (ds.length + 1) = a + 1 + ds.length by omega] at this
        have hcs : 0 ∉ cs := fun hmem => hpath (List.mem_cons_of_mem _ hmem)
        rw [List.length_cons] at ha
        rw [if_pos hdc, ih hrest hcs (by omega)]
        simp [hdc]
      · rw [if_neg hdc]
        simp [hdc]

lemma HoldsEntry.dentryValid (hh : HoldsEntry buf j e) : dentryValid buf j = some e.valid := by
  have := hh.inside
  rw [Fs.dentryValid, blockByte_eq (by omega), Option.map_some, Option.some.injEq]
  cases hv : e.valid with
  | true => exact decide_eq_true (hh.valid.2 hv)
  | false =>
    refine decide_eq_false fun hne => ?_
    rw [hh.valid.1 hne] at hv
    cases hv

lemma HoldsEntry.dentryInum (hh : HoldsEntry buf j e) : dentryInum buf j = some e.inum := by
  have := hh.inside
  rw [Fs.dentryInum, if_pos (by omega), hh.inum]

lemma HoldsEntry.isNamed (hh : HoldsEntry buf j e) (hpath : 0 ∉ path) (i : ℕ) :
    isNamed path buf i j = some (e.named path) := by
  rw [Fs.isNamed, dentryMatches, hh.dentryValid]
  simp only [Option.bind_eq_bind, Option.bind_some, Entry.named]
  cases e.valid with
  | true => simpa using hh.name.strcmpAt hpath hh.inside
  | false => rfl

lemma HoldsEntry.isUnused (hh : HoldsEntry buf j e) (i : ℕ) : isUnused buf i j = some false := by
  rw [Fs.isUnused, hh.dentryInum]
  simp [hh.inum_ne]

/-- The entries behind those of the list are not valid. -/
lemma IsDir.dentryValid_unused (hd : IsDir buf es) (hj : es.length ≤ j) (hj' : j < maxEntries) :
    dentryValid buf j = some false := by
  have hb : sizeofDentry * j < nbytesPerBlock := by
    simp only [sizeofDentry, maxEntries, nbytesPerBlock] at *
    omega
  rw [Fs.dentryValid, blockByte_eq hb, (hd.unused j hj hj').1]
  rfl

lemma IsDir.isNamed_unused (hd : IsDir buf es) (hj : es.length ≤ j) (hj' : j < maxEntries) (i : ℕ) :
    isNamed path buf i j = some false := by
  rw [Fs.isNamed, dentryMatches, hd.dentryValid_unused hj hj']
  rfl

lemma IsDir.dentryInum_unused (hd : IsDir buf es) (hj : es.length ≤ j) (hj' : j < maxEntries) :
    dentryInum buf j = some 0 := by
  have hb : sizeofDentry * j + 8 ≤ nbytesPerBlock := by
    simp only [sizeofDentry, maxEntries, nbytesPerBlock] at *
    omega
  rw [Fs.dentryInum, if_pos hb, (hd.unused j hj hj').2]

lemma IsDir.isUnused_unused (hd : IsDir buf es) (hj : es.length ≤ j) (hj' : j < maxEntries) (i : ℕ) :
    isUnused buf i j = some true := by
  rw [Fs.isUnused, hd.dentryInum_unused hj hj']
  rfl

/-- Entry 114 begins behind the block. -/
lemma dentry_outside : dentryValid buf maxEntries = none ∧ dentryInum buf maxEntries = none :=
  ⟨rfl, rfl⟩

/-! ## The walks -/

/-- The entries that pass neither test are skipped. -/
lemma scanEntries_skip {hit stop : ℕ → Option Bool} {j m : ℕ} (n : ℕ)
    (hbefore : ∀ i < m, hit (j + i) = some false ∧ stop (j + i) = some false) :
    scanEntries hit stop j (m + n) = scanEntries hit stop (j + m) n := by
  induction m generalizing j with
  | zero => rw [Nat.zero_add, Nat.add_zero]
  | succ m ih =>
    obtain ⟨h0, h1⟩ := hbefore 0 (by omega)
    rw [Nat.add_zero] at h0 h1
    have hrest := ih (j := j + 1) fun i hi => by
      rw [show j + 1 + i = j + (i + 1) by omega]
      exact hbefore (i + 1) (by omega)
    rw [show m + 1 + n = m + n + 1 by omega, scanEntries, h0, h1]
    simp only [Option.bind_eq_bind, Option.bind_some, Bool.false_eq_true, if_false]
    rw [hrest, show j + 1 + m = j + (m + 1) by omega]

lemma firstNamed_eq_some {es : List Entry} :
    firstNamed es path = some j ↔ ∃ hj : j < es.length, es[j].named path = true ∧
      ∀ i (hi : i < j), es[i].named path = false := by
  rw [firstNamed, List.findIdx?_eq_some_iff_getElem]
  simp only [Bool.not_eq_true]

section Walks

variable (hd : IsDir buf es)
include hd

lemma IsDir.length_lt : es.length < ndentriesPerBlock := by
  have := hd.length
  simp only [maxEntries, ndentriesPerBlock] at *
  omega

/-- The walk up to entry `m` of a directory. -/
lemma IsDir.scan_skip (hit stop : ℕ → Option Bool) {m : ℕ} (hm : m ≤ es.length)
    (hbefore : ∀ i < m, hit i = some false ∧ stop i = some false) :
    scanEntries hit stop 0 ndentriesPerBlock =
      scanEntries hit stop m (ndentriesPerBlock - m - 1 + 1) := by
  have hlt := hd.length_lt
  have hskip := scanEntries_skip (j := 0) (m := m) (ndentriesPerBlock - m)
    fun i hi => by rw [Nat.zero_add]; exact hbefore i hi
  rw [Nat.zero_add] at hskip
  rw [show ndentriesPerBlock - m - 1 + 1 = ndentriesPerBlock - m by omega, ← hskip]
  congr 1
  omega

/-- A walk for a name that the directory has ends at its first entry. -/
lemma IsDir.scan_hit {stop : ℕ → Option Bool} (hpath : 0 ∉ path)
    (hfirst : firstNamed es path = some j) (hstop : ∀ i < j, stop i = some false) (i : ℕ) :
    scanEntries (isNamed path buf i) stop 0 ndentriesPerBlock = some (.hit j) := by
  obtain ⟨hj, hnamed, hbefore⟩ := firstNamed_eq_some.1 hfirst
  have hskip := hd.scan_skip (isNamed path buf i) stop hj.le fun k hk =>
    ⟨by rw [(hd.entry k (hk.trans hj)).isNamed hpath, hbefore k hk], hstop k hk⟩
  rw [hskip, scanEntries, (hd.entry j hj).isNamed hpath, hnamed]
  rfl

lemma IsDir.isNamed_miss (hpath : 0 ∉ path) (hnone : firstNamed es path = none) (i : ℕ) {k : ℕ}
    (hk : k < es.length) : isNamed path buf i k = some false := by
  have hno : es[k].named path = false := by
    simpa using List.findIdx?_eq_none_iff.1 hnone es[k] (List.getElem_mem hk)
  rw [(hd.entry k hk).isNamed hpath, hno]

/-- A walk for a name that the directory has not ends at the first unused entry. -/
lemma IsDir.scan_miss (hpath : 0 ∉ path) (hnone : firstNamed es path = none) (i : ℕ) :
    scanEntries (isNamed path buf i) (isUnused buf i) 0 ndentriesPerBlock =
      if es.length < maxEntries then some (.stop es.length) else none := by
  rw [hd.scan_skip (isNamed path buf i) (isUnused buf i) le_rfl fun k hk =>
    ⟨hd.isNamed_miss hpath hnone i hk, (hd.entry k hk).isUnused i⟩, scanEntries]
  split
  · rename_i hlt
    rw [hd.isNamed_unused le_rfl hlt, hd.isUnused_unused le_rfl hlt]
    rfl
  · rename_i hfull
    have heq : es.length = maxEntries := le_antisymm hd.length (not_lt.1 hfull)
    rw [heq, Fs.isNamed, dentryMatches, dentry_outside.1]
    rfl

/-- A walk for a name that the directory has not, with a test for the end that is made on
entry 0, leaves the block. -/
lemma IsDir.scan_endless (hpath : 0 ∉ path) (hnone : firstNamed es path = none) (i : ℕ) :
    scanEntries (isNamed path buf i) (fun _ => isUnused buf 0 0) 0 ndentriesPerBlock =
      if es = [] then some (.stop 0) else none := by
  split
  · rename_i hnil
    subst hnil
    have hunnamed : isNamed path buf i 0 = some false := hd.isNamed_unused le_rfl (by decide) i
    have hunused : isUnused buf 0 0 = some true := hd.isUnused_unused le_rfl (by decide) 0
    rw [ndentriesPerBlock, scanEntries, hunnamed, hunused]
    rfl
  · rename_i hne
    have hzero : isUnused buf 0 0 = some false :=
      (hd.entry 0 (List.length_pos_iff.2 hne)).isUnused 0
    have hmiss : ∀ k < maxEntries, isNamed path buf i k = some false := fun k hk => by
      by_cases hlt : k < es.length
      · exact hd.isNamed_miss hpath hnone i hlt
      · exact hd.isNamed_unused (not_lt.1 hlt) hk i
    have hskip : scanEntries (isNamed path buf i) (fun _ => isUnused buf 0 0) 0 (maxEntries + 14) =
        scanEntries (isNamed path buf i) (fun _ => isUnused buf 0 0) (0 + maxEntries) 14 :=
      scanEntries_skip 14 fun k hk => by
        rw [Nat.zero_add]
        exact ⟨hmiss k hk, hzero⟩
    rw [show ndentriesPerBlock = maxEntries + 14 from rfl, hskip, Nat.zero_add, scanEntries,
      Fs.isNamed, dentryMatches, dentry_outside.1]
    rfl

/-- The walk of `do_ln` for an unused entry. -/
lemma IsDir.scan_unused (i : ℕ) :
    scanEntries (never buf i) (isUnused buf i) 0 ndentriesPerBlock =
      if es.length < maxEntries then some (.stop es.length) else none := by
  rw [hd.scan_skip (never buf i) (isUnused buf i) le_rfl fun k hk => ⟨rfl, (hd.entry k hk).isUnused i⟩,
    scanEntries]
  split
  · rename_i hlt
    rw [hd.isUnused_unused le_rfl hlt]
    rfl
  · rename_i hfull
    have heq : es.length = maxEntries := le_antisymm hd.length (not_lt.1 hfull)
    rw [heq, Fs.isUnused, dentry_outside.2]
    rfl

/-- The loop that looks for the entry to fill. -/
lemma IsDir.firstUnused :
    firstUnused buf 0 ndentriesPerBlock =
      if es.length < maxEntries then some es.length else none := by
  have hskip : ∀ m n, m ≤ es.length →
      Fs.firstUnused buf (es.length - m) (m + n) = Fs.firstUnused buf es.length n := by
    intro m n hm
    induction m with
    | zero => rw [Nat.zero_add, Nat.sub_zero]
    | succ m ih =>
      have hentry := hd.entry (es.length - (m + 1)) (by omega)
      rw [show m + 1 + n = m + n + 1 by omega, Fs.firstUnused, hentry.dentryInum]
      simp only [Option.bind_eq_bind, Option.bind_some, if_neg hentry.inum_ne]
      rw [show es.length - (m + 1) + 1 = es.length - m by omega]
      exact ih (by omega)
  have hlt := hd.length_lt
  have hall := hskip es.length (ndentriesPerBlock - es.length - 1 + 1) le_rfl
  rw [Nat.sub_self, show es.length + (ndentriesPerBlock - es.length - 1 + 1) =
    ndentriesPerBlock by omega] at hall
  rw [hall, Fs.firstUnused]
  split
  · rename_i hlt'
    rw [hd.dentryInum_unused le_rfl hlt']
    rfl
  · rename_i hfull
    have heq : es.length = maxEntries := le_antisymm hd.length (not_lt.1 hfull)
    rw [heq, dentry_outside.2]
    rfl

end Walks

/-! ## Writing entries -/

lemma strcpyAt_of_notMem {a x : ℕ} {name : List UInt8} (hx : x < a ∨ a + name.length < x) :
    strcpyAt buf a name x = buf x := by
  induction name generalizing buf a with
  | nil =>
    simp only [List.length_nil, Nat.add_zero] at hx
    exact Function.update_of_ne (by omega) _ _
  | cons c cs ih =>
    simp only [List.length_cons] at hx
    rw [strcpyAt, ih (by omega)]
    exact Function.update_of_ne (by omega) _ _

/-- A copied string is there. -/
lemma cStr_strcpyAt {a : ℕ} {name : List UInt8} (hname : 0 ∉ name) :
    CStr (strcpyAt buf a name) a name := by
  induction name generalizing buf a with
  | nil => exact ⟨fun i hi => absurd hi (by simp), Function.update_self _ _ _, hname⟩
  | cons c cs ih =>
    have hcs : 0 ∉ cs := fun hmem => hname (List.mem_cons_of_mem _ hmem)
    have hrest : CStr (strcpyAt (Function.update buf a c) (a + 1) cs) (a + 1) cs := ih hcs
    obtain ⟨hbytes, hterm, -⟩ := hrest
    refine ⟨fun i hi => ?_, ?_, hname⟩
    · cases i with
      | zero =>
        rw [strcpyAt, Nat.add_zero, strcpyAt_of_notMem (by omega)]
        exact Function.update_self _ _ _
      | succ i =>
        have := hbytes i (by simpa using hi)
        rw [strcpyAt, show a + (i + 1) = a + 1 + i by omega, this]
        rfl
    · rw [strcpyAt, List.length_cons, show a + (cs.length + 1) = a + 1 + cs.length by omega]
      exact hterm

lemma setDentry_of_notMem {x : ℕ} {inum : ℤ} {name : List UInt8}
    (hx : x < sizeofDentry * j ∨ sizeofDentry * j + 8 + name.length < x) :
    setDentry buf j inum name x = buf x := by
  simp only [setDentry]
  rw [strcpyAt_of_notMem (by omega), Function.update_of_ne (by omega)]
  exact Bytes.setLE_apply_of_notMem (by omega)

lemma holdsEntry_setDentry {inum : ℕ} {name : List UInt8} (hne : inum ≠ 0) (hlt : inum < 2 ^ 32)
    (hname : 0 ∉ name) (hlen : name.length ≤ 27)
    (hin : sizeofDentry * j + 8 + name.length < nbytesPerBlock) :
    HoldsEntry (setDentry buf j inum name) j ⟨true, inum, name⟩ := by
  refine ⟨?_, ?_, hne, cStr_strcpyAt hname, hlen, hin⟩
  · have hbyte : setDentry buf j inum name (sizeofDentry * j) = 1 := by
      simp only [setDentry]
      rw [strcpyAt_of_notMem (by omega), Function.update_self]
    rw [hbyte]
    exact iff_of_true (by decide) rfl
  · have hsame : Bytes.get32 (setDentry buf j inum name) (sizeofDentry * j + 4) =
        Bytes.get32 (Bytes.set32 buf (sizeofDentry * j + 4) ((inum : ℤ) % 2 ^ 32).toNat)
          (sizeofDentry * j + 4) := by
      refine Bytes.getLE_congr fun i hi => ?_
      simp only [setDentry]
      rw [strcpyAt_of_notMem (by omega), Function.update_of_ne (by omega)]
    rw [hsame, Bytes.get32, Bytes.getLE_setLE]
    show ((inum : ℤ) % 2 ^ 32).toNat % 256 ^ 4 = inum
    omega

/-- Entry `j` with its `valid` cleared. -/
def Entry.cleared (e : Entry) : Entry := { e with valid := false }

/-- Filling the first unused entry. -/
lemma IsDir.append (hd : IsDir buf es) (hlt : es.length < maxEntries) {inum : ℕ}
    (name : List UInt8) (hne : inum ≠ 0) (hinum : inum < 2 ^ 32) (hname : 0 ∉ name)
    (hlen : name.length ≤ 27)
    (hin : sizeofDentry * es.length + 8 + name.length < nbytesPerBlock) :
    IsDir (setDentry buf es.length inum name) (es ++ [⟨true, inum, name⟩]) := by
  refine ⟨by simpa using Nat.succ_le_of_lt hlt, fun j hj => ?_, fun j hj hj' => ?_⟩
  · rw [List.length_append, List.length_singleton] at hj
    rcases Nat.lt_succ_iff_lt_or_eq.1 hj with hj | rfl
    · rw [List.getElem_append_left hj]
      refine (hd.entry j hj).congr fun x _ hx _ => setDentry_of_notMem (.inl ?_)
      simp only [sizeofDentry] at *
      omega
    · rw [List.getElem_append_right le_rfl]
      simpa using holdsEntry_setDentry hne hinum hname hlen hin
  · rw [List.length_append, List.length_singleton] at hj
    obtain ⟨hvalid, hinum'⟩ := hd.unused j (by omega) hj'
    have hbehind : ∀ x, sizeofDentry * j ≤ x →
        setDentry buf es.length inum name x = buf x := by
      intro x hx
      refine setDentry_of_notMem (.inr ?_)
      simp only [sizeofDentry] at *
      omega
    refine ⟨by rw [hbehind _ le_rfl]; exact hvalid, Eq.trans (Bytes.getLE_congr fun i hi => ?_) hinum'⟩
    exact hbehind _ (by omega)

/-- Clearing the `valid` of an entry. -/
lemma IsDir.clear (hd : IsDir buf es) (hj : j < es.length) :
    IsDir (Function.update buf (sizeofDentry * j) 0) (es.modify j Entry.cleared) := by
  have hbyte : ∀ x, x ≠ sizeofDentry * j → Function.update buf (sizeofDentry * j) 0 x = buf x :=
    fun x hx => Function.update_of_ne hx _ _
  refine ⟨by rw [List.length_modify]; exact hd.length, fun i hi => ?_, fun i hi hi' => ?_⟩
  · rw [List.length_modify] at hi
    rw [List.getElem_modify]
    split
    · rename_i heq
      subst heq
      obtain ⟨hvalid, hinum, hne, ⟨hbytes, hterm, hnz⟩, hlen, hin⟩ := hd.entry j hi
      refine ⟨?_, ?_, hne, ⟨fun k hk => ?_, ?_, hnz⟩, hlen, hin⟩
      · rw [Function.update_self]
        simp [Entry.cleared]
      · refine Eq.trans (Bytes.getLE_congr fun k hk => hbyte _ (by omega)) hinum
      · rw [hbyte _ (by omega)]
        exact hbytes k hk
      · rw [hbyte _ (by omega)]
        exact hterm
    · rename_i hne
      refine (hd.entry i hi).congr fun x hx hx' _ => hbyte x ?_
      simp only [sizeofDentry] at *
      omega
  · rw [List.length_modify] at hi
    obtain ⟨hvalid, hinum⟩ := hd.unused i hi hi'
    have hlt : sizeofDentry * j < sizeofDentry * i := by
      simp only [sizeofDentry]
      omega
    refine ⟨by rw [hbyte _ (by omega)]; exact hvalid,
      Eq.trans (Bytes.getLE_congr fun k hk => hbyte _ (by omega)) hinum⟩

/-- The entries `init_dir_inode` gives a new directory. -/
def freshEntries (inum parentInum : ℕ) : List Entry :=
  [⟨true, inum, [46]⟩, ⟨true, parentInum, [46, 46]⟩]

/-- The block `init_dir_inode` writes. -/
def freshBlock (inum parentInum : ℤ) : Bytes :=
  Bytes.blit Bytes.zero 0 (setDentry (setDentry Bytes.zero 0 inum [46]) 1 parentInum [46, 46]) 0
    (2 * sizeofDentry)

/-- A block of zeros is a directory without entries. -/
lemma isDir_zero : IsDir Bytes.zero [] :=
  ⟨by decide, fun j hj => absurd hj (by simp), fun j _ _ => ⟨rfl, Bytes.getLE_zero _ _⟩⟩

lemma isDir_freshBlock {inum parentInum : ℕ} (hinum : inum ≠ 0 ∧ inum < 2 ^ 32)
    (hparent : parentInum ≠ 0 ∧ parentInum < 2 ^ 32) :
    IsDir (freshBlock inum parentInum) (freshEntries inum parentInum) := by
  have hone := isDir_zero.append (by decide) [46] hinum.1 hinum.2 (by decide) (by decide)
    (by decide)
  have htwo := hone.append (show 1 < maxEntries by decide) [46, 46] hparent.1 hparent.2
    (by decide) (by decide) (show sizeofDentry * 1 + 8 + 2 < nbytesPerBlock by decide)
  refine htwo.congr fun x _ => ?_
  by_cases hx : x < 2 * sizeofDentry
  · rw [freshBlock, Bytes.blit_apply_of_mem (by omega), Nat.sub_zero, Nat.zero_add]
    rfl
  · simp only [sizeofDentry] at hx
    rw [freshBlock, Bytes.blit_apply_of_notMem (by simp only [sizeofDentry]; omega),
      setDentry_of_notMem, setDentry_of_notMem]
    · simp only [sizeofDentry, List.length_nil, List.length_cons]
      omega
    · simp only [sizeofDentry, List.length_cons, List.length_nil, List.nil_append]
      omega

end Buffers

end Fs
end UcasKernel
