/-
Paths with several components.

`parse_path` copies the path and cuts the copy at the first separator, but it
compares the entries of the directory with the path and not with the copy.  So a
path of one component is looked up; a path of several leads nowhere, unless some
entry has the whole path as its name, and then the rest of the path is resolved
from the inode of that entry.
-/
import UcasKernel.Fs.Names

namespace UcasKernel
namespace Fs

/-- A component of a path. -/
def Component : Type := { c : List UInt8 // c ≠ [] ∧ 0 ∉ c ∧ 47 ∉ c }

/-- The path `c1/c2/.../cn`. -/
def joinPath (cs : List Component) : List UInt8 := List.intercalate [47] (cs.map (·.1))

/-- The card holds a directory tree: `dirs` says which inodes are directories and
what their entries are. -/
structure DirTree (fs : Fs) (dirs : ℕ → Option (List Entry)) : Prop where
  directory : ∀ n es, dirs n = some es → ∃ x, fs.readInode n = some x ∧ x.type = typeDirectory ∧
    x.direct 0 ≠ 0 ∧ (∀ i, 1 ≤ i → i < ndirectBlocks → x.direct i = 0) ∧
    IsDir (fs.readBlock (x.direct 0)).blockBuf es
  slots : ∀ n es, dirs n = some es → es.length ≤ 112
  names : ∀ n es, dirs n = some es → DifferentNames es
  number : ∀ n es e, dirs n = some es → e ∈ es → e.valid = true → 1 ≤ e.inum ∧ e.inum ≤ ninodes
  file : ∀ n es e, dirs n = some es → e ∈ es → e.valid = true → dirs e.inum = none →
    ∃ x, fs.readInode e.inum = some x ∧ x.type = typeFile

section Paths

variable {c : Component} {cs : List Component}

lemma joinPath_nil : joinPath [] = [] := rfl

lemma joinPath_singleton (c : Component) : joinPath [c] = c.1 := by
  simp [joinPath]

lemma joinPath_cons (c : Component) (hcs : cs ≠ []) :
    joinPath (c :: cs) = c.1 ++ 47 :: joinPath cs := by
  have hmap : cs.map (·.1) ≠ [] := by simpa using hcs
  rw [joinPath, List.map_cons, List.intercalate_cons_of_ne_nil hmap]
  simp [joinPath]

lemma zero_notMem_joinPath : 0 ∉ joinPath cs := by
  induction cs with
  | nil => simp [joinPath_nil]
  | cons c cs ih =>
    by_cases hcs : cs = []
    · subst hcs
      rw [joinPath_singleton]
      exact c.2.2.1
    · rw [joinPath_cons c hcs, List.mem_append, List.mem_cons]
      rintro (h | h | h)
      · exact c.2.2.1 h
      · cases h
      · exact ih h

lemma joinPath_ne_nil : joinPath (c :: cs) ≠ [] := by
  by_cases hcs : cs = []
  · subst hcs
    rw [joinPath_singleton]
    exact c.2.1
  · rw [joinPath_cons c hcs]
    simp

lemma all_ne_slash (c : Component) : ∀ a ∈ c.1, decide (a ≠ 47) = true := by
  intro a ha
  rw [decide_eq_true_eq]
  rintro rfl
  exact c.2.2.2 ha

/-- The part of a path before its first separator, and the part behind it. -/
lemma takeWhile_joinPath (c : Component) (cs : List Component) :
    (joinPath (c :: cs)).takeWhile (· ≠ 47) = c.1 := by
  by_cases hcs : cs = []
  · subst hcs
    rw [joinPath_singleton]
    exact List.takeWhile_eq_self_iff.2 (all_ne_slash c)
  · rw [joinPath_cons c hcs, List.takeWhile_append_of_pos (all_ne_slash c)]
    simp

lemma drop_joinPath (c : Component) (cs : List Component) :
    (joinPath (c :: cs)).drop (c.1.length + 1) = joinPath cs := by
  by_cases hcs : cs = []
  · subst hcs
    rw [joinPath_singleton]
    exact List.drop_eq_nil_of_le (by omega)
  · rw [joinPath_cons c hcs, List.drop_append]
    simp

lemma length_joinPath (c : Component) (cs : List Component) :
    c.1.length ≤ (joinPath (c :: cs)).length := by
  rw [← takeWhile_joinPath c cs]
  exact (List.takeWhile_prefix _).length_le

end Paths

/-! ## Resolving -/

section Resolve

variable {fs : Fs} {dirs : ℕ → Option (List Entry)} {n d : ℕ} {es : List Entry} {c : Component}
  {cs : List Component} {path : List UInt8}

/-- The fuel of `parse_path` is the length of the path. -/
lemma parsePathLoop_fuel {fuel : ℕ} {m : ℤ} (hfuel : path.length < fuel) :
    parsePathLoop fuel fs path m = fs.parsePath path m := by
  have hall : ∀ k k' (fs : Fs) (path : List UInt8) (m : ℤ), path.length < k → path.length < k' →
      parsePathLoop k fs path m = parsePathLoop k' fs path m := by
    intro k
    induction k with
    | zero =>
      intro k' fs path m hk
      omega
    | succ k ih =>
      intro k' fs path m hk hk'
      obtain ⟨k', rfl⟩ : ∃ k₁, k' = k₁ + 1 := ⟨k' - 1, by omega⟩
      rw [parsePathLoop, parsePathLoop]
      split
      · rfl
      split
      · rfl
      rename_i hne _
      have hpos := List.length_pos_iff.2 hne
      have hdrop : ∀ next, (path.drop (next + 1)).length < path.length := fun next => by
        rw [List.length_drop]
        omega
      simp only [Option.bind_eq_bind]
      congr 1
      funext x
      congr 1
      funext r
      obtain ⟨scan, b, fs₁⟩ := r
      cases scan with
      | hit j =>
        simp only
        congr 1
        funext inum
        split
        · exact ih _ _ _ _ ((hdrop _).trans_le (by omega)) ((hdrop _).trans_le (by omega))
        · rfl
      | stop j | past => rfl
  exact hall _ _ _ _ _ hfuel (by omega)

/-- The walk over a directory does not look at the old content of the block
buffer. -/
lemma scanBlocks_blockBuf (fs : Fs) (buf : Bytes) (x : Inode) (hit stop : Bytes → ℕ → ℕ → Option Bool)
    (b i k : ℕ) :
    ({ fs with blockBuf := buf } : Fs).scanBlocks x hit stop b i k = fs.scanBlocks x hit stop b i k ∨
      ∃ b', ({ fs with blockBuf := buf } : Fs).scanBlocks x hit stop b i k =
          some (.past, b', { fs with blockBuf := buf }) ∧
        fs.scanBlocks x hit stop b i k = some (.past, b', fs) := by
  cases k with
  | zero => exact .inr ⟨b, rfl, rfl⟩
  | succ k =>
    by_cases hzero : x.direct i = 0
    · refine .inr ⟨0, ?_, ?_⟩
      · rw [scanBlocks, if_pos hzero]
      · rw [scanBlocks, if_pos hzero]
    · left
      rw [scanBlocks, scanBlocks, if_neg hzero, if_neg hzero]
      rfl

/-- Nor does `parse_path`. -/
lemma parsePath_blockBuf (fs : Fs) (buf : Bytes) (path : List UInt8) (m : ℤ) :
    (({ fs with blockBuf := buf } : Fs).parsePath path m).map (·.1) =
      (fs.parsePath path m).map (·.1) := by
  rw [Fs.parsePath, Fs.parsePath, parsePathLoop, parsePathLoop]
  split
  · rfl
  split
  · rfl
  rw [show ({ fs with blockBuf := buf } : Fs).readInode m = fs.readInode m from rfl]
  cases fs.readInode m with
  | none => rfl
  | some x =>
    simp only [Option.bind_eq_bind, Option.bind_some]
    rcases scanBlocks_blockBuf fs buf x (isNamed path) isUnused 0 0 ndirectBlocks with heq |
      ⟨b', hpast, hpast'⟩
    · rw [heq]
    · rw [hpast, hpast']
      rfl

/-- The entry that a component is looked up as is the first one with its name. -/
lemma DirTree.entry_eq (h : DirTree fs dirs) (hd : dirs d = some es) {e : Entry} (he : e ∈ es)
    (hvalid : e.valid = true) {j : ℕ} (hj : j < es.length) (hfirst : firstNamed es path = some j)
    (hname : e.name = path) : e = es[j] := by
  obtain ⟨i, hi, rfl⟩ := List.getElem_of_mem he
  obtain ⟨_, hnamed, -⟩ := firstNamed_eq_some.1 hfirst
  have hnamed' : es[i].named path = true := by
    rw [Entry.named, hvalid, hname, decide_eq_true rfl, Bool.and_self]
  obtain rfl := (h.names d es hd).eq_of_named hi hj hnamed' hnamed
  rfl

/-- One level of resolving a path in a directory tree. -/
lemma DirTree.parsePath (h : DirTree fs dirs) (hd : dirs d = some es)
    (hlen : (joinPath (c :: cs)).length ≤ 14) :
    (∀ j (hj : j < es.length), firstNamed es (joinPath (c :: cs)) = some j →
      1 ≤ es[j].inum ∧ (fs.parsePath (joinPath (c :: cs)) d).map (·.1) =
        (fs.parsePath (joinPath cs) (es[j].inum : ℕ)).map (·.1)) ∧
    (firstNamed es (joinPath (c :: cs)) = none →
      (fs.parsePath (joinPath (c :: cs)) d).map (·.1) = some 0) := by
  obtain ⟨x, hx, -, hb, -, hdir⟩ := h.directory d es hd
  have hslots := h.slots d es hd
  obtain ⟨hhit, hmiss⟩ := parsePathLoop_dir (joinPath (c :: cs)).length hx hb hdir
    zero_notMem_joinPath joinPath_ne_nil (show (joinPath (c :: cs)).length < 16 by omega)
  have hc := length_joinPath c cs
  have hpos : 0 < (joinPath (c :: cs)).length := List.length_pos_iff.2 joinPath_ne_nil
  refine ⟨fun j hj hfirst => ?_, fun hnone => ?_⟩
  · obtain ⟨_, hvalid, -⟩ := firstNamed_valid hfirst
    obtain ⟨h1, hmax⟩ := h.number d es _ hd (List.getElem_mem hj) hvalid
    simp only [ninodes] at hmax
    have hint : toInt32 (es[j].inum : ℤ) = (es[j].inum : ℤ) := by
      rw [toInt32]
      exact Int.bmod_eq_of_le (by omega) (by omega)
    have hrest : (joinPath cs).length < (joinPath (c :: cs)).length := by
      rw [← drop_joinPath c cs, List.length_drop]
      omega
    refine ⟨h1, ?_⟩
    rw [Fs.parsePath, hhit j hj hfirst, takeWhile_joinPath, if_pos (by omega), drop_joinPath, hint,
      parsePathLoop_fuel hrest]
    exact parsePath_blockBuf ..
  · rw [Fs.parsePath, hmiss hnone, if_pos (by simp only [maxEntries]; omega)]
    rfl

end Resolve

end Fs
end UcasKernel
