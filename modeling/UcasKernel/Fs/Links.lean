/-
Link counts.

In a tree that is left by `do_touch`, `do_mkdir`, `do_cd`, `do_ln` of files and
`do_rm`, every file is entered as often as its link count says, and every valid
entry leads to an inode in use.
-/
import UcasKernel.Fs.History

namespace UcasKernel
namespace Fs

/-! ## Counting entries -/

lemma countLinks_append (es es' : List Entry) (n : ℕ) :
    countLinks (es ++ es') n = countLinks es n + countLinks es' n := List.countP_append

lemma countLinks_single (m n : ℕ) (name : List UInt8) :
    countLinks [⟨true, m, name⟩] n = if m = n then 1 else 0 := by
  rw [countLinks, List.countP_singleton]
  by_cases hmn : m = n <;> simp [hmn]

lemma countLinks_freshEntries (m p n : ℕ) :
    countLinks (freshEntries m p) n = (if m = n then 1 else 0) + if p = n then 1 else 0 := by
  show countLinks ([⟨true, m, [46]⟩] ++ [⟨true, p, [46, 46]⟩]) n = _
  rw [countLinks_append, countLinks_single, countLinks_single]

/-- A cleared entry counts no more. -/
lemma countLinks_modify {es : List Entry} {j : ℕ} (hj : j < es.length) (hvalid : es[j].valid = true)
    (n : ℕ) : countLinks (es.modify j Entry.cleared) n + (if es[j].inum = n then 1 else 0) =
      countLinks es n := by
  have hsplit : es = es.take j ++ es[j] :: es.drop (j + 1) := by
    rw [← List.drop_eq_getElem_cons hj, List.take_append_drop]
  have hmod : es.modify j Entry.cleared = es.take j ++ es[j].cleared :: es.drop (j + 1) :=
    List.modify_eq_take_cons_drop hj
  have hhead : ∀ (e : Entry) (l : List Entry), countLinks (e :: l) n =
      (if (e.valid && decide (e.inum = n)) = true then 1 else 0) + countLinks l n := by
    intro e l
    rw [countLinks, List.countP_cons, Nat.add_comm]
    rfl
  have hcleared : ((es[j].cleared).valid && decide ((es[j].cleared).inum = n)) = false := rfl
  have hold : (if (es[j].valid && decide (es[j].inum = n)) = true then 1 else 0) =
      if es[j].inum = n then 1 else 0 := by
    rw [hvalid]
    simp
  rw [hmod]
  conv_rhs => rw [hsplit]
  rw [countLinks_append, countLinks_append, hhead, hhead, hcleared, hold]
  simp only [Bool.false_eq_true, if_false]
  omega

lemma countLinks_pos {es : List Entry} {e : Entry} (he : e ∈ es) (hvalid : e.valid = true) :
    1 ≤ countLinks es e.inum :=
  List.one_le_countP_iff.2 ⟨e, he, by simp [hvalid]⟩

lemma countLinks_eq_zero {es : List Entry} {n : ℕ} (h : ∀ e ∈ es, e.valid = true → e.inum ≠ n) :
    countLinks es n = 0 := by
  refine List.countP_eq_zero.2 fun e he => ?_
  rw [Bool.and_eq_true, decide_eq_true_eq]
  exact fun hand => h e he hand.1 hand.2

namespace Tree

variable {t : Tree} {n m d : ℕ} {es : List Entry}

/-! ## Entries of a changed tree -/

lemma entries_set_of_ne (nd : Option Node) (h : m ≠ n) : (t.set n nd).entries m = t.entries m := by
  rw [entries, node_set_of_ne t nd h, entries]

lemma entries_set_dir (t : Tree) (n : ℕ) (es : List Entry) :
    (t.set n (some (.dir es))).entries n = es := entries_of_node (node_set_self t n _)

lemma entries_set_file (t : Tree) (n ref : ℕ) : (t.set n (some (.file ref))).entries n = [] := by
  rw [entries, node_set_self]

lemma entries_set_none (t : Tree) (n : ℕ) : (t.set n none).entries n = [] := by
  rw [entries, node_set_self]

lemma entries_of_none (h : t.node n = none) : t.entries n = [] := by rw [entries, h]

lemma entries_of_file {ref : ℕ} (h : t.node n = some (.file ref)) : t.entries n = [] := by
  rw [entries, h]

/-- The links of a tree when the entries of one inode change. -/
lemma links_set (t : Tree) (nd : Option Node) (hd : d ≤ ninodes) (n : ℕ) :
    (t.set d nd).links n + countLinks (t.entries d) n =
      t.links n + countLinks ((t.set d nd).entries d) n := by
  have hmem : d ∈ Finset.range (ninodes + 1) := Finset.mem_range.2 (by omega)
  have hrest : ∑ k ∈ (Finset.range (ninodes + 1)).erase d, countLinks ((t.set d nd).entries k) n =
      ∑ k ∈ (Finset.range (ninodes + 1)).erase d, countLinks (t.entries k) n :=
    Finset.sum_congr rfl fun k hk => by rw [entries_set_of_ne nd (Finset.ne_of_mem_erase hk)]
  rw [links, links, ← Finset.sum_erase_add _ _ hmem, ← Finset.sum_erase_add _ _ hmem, hrest]
  omega

/-- A change that concerns no entries keeps the links. -/
lemma links_set_of_entries {nd : Option Node} (hd : d ≤ ninodes)
    (h : (t.set d nd).entries d = t.entries d) (n : ℕ) : (t.set d nd).links n = t.links n := by
  have hset := t.links_set nd hd n
  rw [h] at hset
  omega

lemma links_pos {e : Entry} (hd : d ≤ ninodes) (he : e ∈ t.entries d) (hvalid : e.valid = true) :
    1 ≤ t.links e.inum :=
  calc 1 ≤ countLinks (t.entries d) e.inum := countLinks_pos he hvalid
    _ ≤ t.links e.inum := Finset.single_le_sum (f := fun k => countLinks (t.entries k) e.inum)
        (fun _ _ => Nat.zero_le _) (Finset.mem_range.2 (by omega))

/-- Nothing leads to an inode that is not in use. -/
lemma links_eq_zero (hclosed : ∀ d, t.Closed (t.entries d)) (hn : t.node n = none) :
    t.links n = 0 :=
  Finset.sum_eq_zero fun d _ => countLinks_eq_zero fun e he hvalid heq =>
    hclosed d e he hvalid (heq ▸ hn)

section Cwd

variable (hc : t.node t.cwd = some (.dir es)) (hle : t.cwd ≤ ninodes)
include hc hle

lemma links_enter (name : List UInt8) (m n : ℕ) :
    (t.enter name m).links n = t.links n + if m = n then 1 else 0 := by
  have hset := t.links_set (some (.dir (es ++ [⟨true, m, name⟩]))) hle n
  rw [entries_set_dir, entries_of_node hc, countLinks_append, countLinks_single] at hset
  rw [enter, entries_of_node hc]
  omega

lemma links_unlink {j : ℕ} (hj : j < es.length) (hvalid : es[j].valid = true) (n : ℕ) :
    (t.unlink j).links n + (if es[j].inum = n then 1 else 0) = t.links n := by
  have hset := t.links_set (some (.dir (es.modify j Entry.cleared))) hle n
  rw [entries_set_dir, entries_of_node hc] at hset
  have hmod := countLinks_modify hj hvalid n
  rw [unlink, entries_of_node hc]
  omega

end Cwd

end Tree

/-! ## The invariant -/

/-- The link counts are exact. -/
structure Linked (t : Tree) : Prop where
  cwd : ∃ es, t.node t.cwd = some (.dir es)
  le : ∀ n, t.node n ≠ none → n ≤ ninodes
  closed : ∀ d, t.Closed (t.entries d)
  exact : ∀ n ref, t.node n = some (.file ref) → ref = t.links n ∧ 1 ≤ ref

section Linked

variable {t : Tree} {n m j ref : ℕ} {es : List Entry} {name : List UInt8}

lemma Linked.cwd_le (h : Linked t) : t.cwd ≤ ninodes := by
  obtain ⟨_, hc⟩ := h.cwd
  exact h.le _ (by rw [hc]; exact Option.some_ne_none _)

/-- The node of a file stays a file when the entries of another inode change. -/
lemma ne_cwd_of_file (hc : t.node t.cwd = some (.dir es)) (hm : t.node m = some (.file ref)) :
    m ≠ t.cwd := by
  rintro rfl
  rw [hc] at hm
  cases hm

/-- `do_cd`. -/
lemma Linked.cd (h : Linked t) (hm : t.node m = some (.dir es)) : Linked { t with cwd := m } :=
  ⟨⟨es, hm⟩, h.le, h.closed, h.exact⟩

/-- The entries of a tree with a further entry of the working directory. -/
lemma mem_entries_enter (hc : t.node t.cwd = some (.dir es)) {d : ℕ} {e : Entry}
    (he : e ∈ (t.enter name m).entries d) :
    e ∈ t.entries d ∨ e = ⟨true, m, name⟩ := by
  rw [Tree.enter, Tree.entries_of_node hc] at he
  by_cases hd : d = t.cwd
  · subst hd
    rw [Tree.entries_set_dir] at he
    rw [Tree.entries_of_node hc]
    simpa using he
  · rw [Tree.entries_set_of_ne _ hd] at he
    exact .inl he

lemma node_enter_eq_none (hc : t.node t.cwd = some (.dir es)) (k : ℕ) :
    (t.enter name m).node k = none ↔ t.node k = none := by
  by_cases hk : k = t.cwd
  · subst hk
    rw [Tree.enter, Tree.node_set_self, hc]
    exact iff_of_false (Option.some_ne_none _) (Option.some_ne_none _)
  · rw [Tree.enter, Tree.node_set_of_ne _ _ hk]

lemma node_enter_file {k r : ℕ} (hk : (t.enter name m).node k = some (.file r)) :
    t.node k = some (.file r) := by
  by_cases hkc : k = t.cwd
  · subst hkc
    rw [Tree.enter, Tree.node_set_self] at hk
    cases hk
  · rwa [Tree.enter, Tree.node_set_of_ne _ _ hkc] at hk

/-- A link count changes nothing but the node of a file. -/
lemma bump_cases (t : Tree) (m : ℕ) : t.bump m = t ∨
    ∃ ref, t.node m = some (.file ref) ∧ t.bump m = t.set m (some (.file (ref + 1))) := by
  rw [Tree.bump]
  split
  · rename_i ref href
    exact .inr ⟨ref, href, rfl⟩
  · exact .inl rfl

lemma node_bump_eq_none (t : Tree) (m k : ℕ) : (t.bump m).node k = none ↔ t.node k = none := by
  rcases bump_cases t m with heq | ⟨ref, href, heq⟩
  · rw [heq]
  · rw [heq]
    by_cases hkm : k = m
    · subst hkm
      rw [Tree.node_set_self, href]
      exact iff_of_false (Option.some_ne_none _) (Option.some_ne_none _)
    · rw [Tree.node_set_of_ne _ _ hkm]

lemma node_bump_dir (t : Tree) (m k : ℕ) (es : List Entry) :
    (t.bump m).node k = some (.dir es) ↔ t.node k = some (.dir es) := by
  rcases bump_cases t m with heq | ⟨ref, href, heq⟩
  · rw [heq]
  · rw [heq]
    by_cases hkm : k = m
    · subst hkm
      rw [Tree.node_set_self, href]
      exact iff_of_false (by simp) (by simp)
    · rw [Tree.node_set_of_ne _ _ hkm]

lemma entries_bump (t : Tree) (m d : ℕ) : (t.bump m).entries d = t.entries d := by
  rcases bump_cases t m with heq | ⟨ref, href, heq⟩
  · rw [heq]
  · rw [heq]
    by_cases hdm : d = m
    · subst hdm
      rw [Tree.entries_set_file, Tree.entries_of_file href]
    · exact Tree.entries_set_of_ne _ hdm

/-- `do_touch` and `do_mkdir`: a new inode, and an entry that leads to it. -/
lemma Linked.create {nd : Node} (h : Linked t) (hn : t.node n = none) (hle : n ≤ ninodes)
    (hfile : ∀ r, nd = .file r → r = 1)
    (hdir : ∀ es', nd = .dir es' → es' = freshEntries n t.cwd) :
    Linked ((t.set n (some nd)).enter name n) := by
  obtain ⟨es, hc⟩ := h.cwd
  have hcn : t.cwd ≠ n := by
    rintro rfl
    rw [hn] at hc
    cases hc
  have hc' : (t.set n (some nd)).node t.cwd = some (.dir es) := by
    rw [Tree.node_set_of_ne _ _ hcn]
    exact hc
  have hnone : ∀ k, ((t.set n (some nd)).enter name n).node k = none → t.node k = none := by
    intro k hk
    have hk' := (node_enter_eq_none hc' k).1 hk
    by_cases hkn : k = n
    · exact hkn ▸ hn
    · rwa [Tree.node_set_of_ne _ _ hkn] at hk'
  have hself : ((t.set n (some nd)).enter name n).node n ≠ none := by
    rw [ne_eq, node_enter_eq_none hc', Tree.node_set_self]
    exact Option.some_ne_none _
  have hcwd : ((t.set n (some nd)).enter name n).node t.cwd ≠ none := by
    rw [ne_eq, node_enter_eq_none hc', hc']
    exact Option.some_ne_none _
  refine ⟨⟨_, Tree.node_set_self _ _ _⟩, fun k hk => ?_, fun d e he hvalid => ?_,
    fun k r hk => ?_⟩
  · by_cases hkn : k = n
    · exact hkn ▸ hle
    · refine h.le k fun hk' => hk ((node_enter_eq_none hc' k).2 ?_)
      rwa [Tree.node_set_of_ne _ _ hkn]
  · rcases mem_entries_enter hc' he with he | rfl
    · by_cases hdn : d = n
      · subst hdn
        cases nd with
        | file r =>
          rw [Tree.entries_set_file] at he
          cases he
        | dir es' =>
          rw [Tree.entries_set_dir, hdir es' rfl] at he
          simp only [freshEntries, List.mem_cons, List.not_mem_nil, or_false] at he
          rcases he with rfl | rfl
          · exact hself
          · exact hcwd
      · rw [Tree.entries_set_of_ne _ hdn] at he
        exact fun hk => h.closed d e he hvalid (hnone _ hk)
    · exact hself
  · have hk' := node_enter_file hk
    have hlinks := (t.set n (some nd)).links_enter hc' h.cwd_le name n k
    by_cases hkn : k = n
    · subst hkn
      rw [Tree.node_set_self, Option.some.injEq] at hk'
      obtain rfl := hfile r hk'
      subst hk'
      rw [Tree.links_set_of_entries hle
        (by rw [Tree.entries_set_file, Tree.entries_of_none hn]) k, if_pos rfl,
        Tree.links_eq_zero h.closed hn] at hlinks
      exact ⟨hlinks.symm, le_rfl⟩
    · rw [Tree.node_set_of_ne _ _ hkn] at hk'
      obtain ⟨hr, hpos⟩ := h.exact k r hk'
      refine ⟨?_, hpos⟩
      rw [hlinks, if_neg (Ne.symm hkn), Nat.add_zero, hr]
      have hset := t.links_set (some nd) hle k
      rw [Tree.entries_of_none hn] at hset
      cases nd with
      | file r' =>
        rw [Tree.entries_set_file] at hset
        omega
      | dir es' =>
        have hkc := ne_cwd_of_file hc hk'
        have hes := hdir es' rfl
        subst hes
        rw [Tree.entries_set_dir, countLinks_freshEntries, if_neg (Ne.symm hkn),
          if_neg (Ne.symm hkc)] at hset
        simp only [countLinks, List.countP_nil] at hset
        omega

/-- `do_ln` of a file. -/
lemma Linked.ln (h : Linked t) (hm : t.node m = some (.file ref)) :
    Linked ((t.enter name m).bump m) := by
  obtain ⟨es, hc⟩ := h.cwd
  have hmc := ne_cwd_of_file hc hm
  have hm' : (t.enter name m).node m = some (.file ref) := by
    rw [Tree.enter, Tree.node_set_of_ne _ _ hmc]
    exact hm
  have hbump : (t.enter name m).bump m = (t.enter name m).set m (some (.file (ref + 1))) := by
    rw [Tree.bump, hm']
  have hmle : m ≤ ninodes := h.le m (by rw [hm]; exact Option.some_ne_none _)
  have hnone : ∀ k, ((t.enter name m).bump m).node k = none ↔ t.node k = none := fun k =>
    (node_bump_eq_none _ m k).trans (node_enter_eq_none hc k)
  refine ⟨?_, fun k hk => h.le k fun hk' => hk ((hnone k).2 hk'), fun d e he hvalid => ?_,
    fun k r hk => ?_⟩
  · rw [hbump]
    exact ⟨_, (Tree.node_set_of_ne _ _ hmc.symm).trans (Tree.node_set_self _ _ _)⟩
  · rw [ne_eq, hnone]
    rw [entries_bump] at he
    rcases mem_entries_enter hc he with he | rfl
    · exact h.closed d e he hvalid
    · rw [hm]
      exact Option.some_ne_none _
  · have hlinks := t.links_enter hc h.cwd_le name m k
    have hentries := entries_bump (t.enter name m) m m
    rw [hbump] at hk hentries ⊢
    rw [Tree.links_set_of_entries hmle hentries k, hlinks]
    by_cases hkm : k = m
    · subst hkm
      rw [Tree.node_set_self, Option.some.injEq, Node.file.injEq] at hk
      rw [if_pos rfl, ← (h.exact k ref hm).1]
      omega
    · rw [Tree.node_set_of_ne _ _ hkm] at hk
      obtain ⟨hr, hpos⟩ := h.exact k r (node_enter_file hk)
      rw [if_neg (Ne.symm hkm), Nat.add_zero]
      exact ⟨hr, hpos⟩

/-- The entries of a tree of which one was removed. -/
lemma mem_entries_unlink (hc : t.node t.cwd = some (.dir es)) {d : ℕ} {e : Entry}
    (he : e ∈ (t.unlink j).entries d) (hvalid : e.valid = true) : e ∈ t.entries d := by
  rw [Tree.unlink, Tree.entries_of_node hc] at he
  by_cases hd : d = t.cwd
  · subst hd
    rw [Tree.entries_set_dir] at he
    rw [Tree.entries_of_node hc]
    obtain ⟨i, hi, rfl⟩ := List.mem_iff_getElem.1 he
    rw [List.length_modify] at hi
    rw [List.getElem_modify] at hvalid ⊢
    split at hvalid
    · cases hvalid
    · rename_i hne
      rw [if_neg hne]
      exact List.getElem_mem hi
  · rwa [Tree.entries_set_of_ne _ hd] at he

lemma node_unlink_eq_none (hc : t.node t.cwd = some (.dir es)) (k : ℕ) :
    (t.unlink j).node k = none ↔ t.node k = none := by
  by_cases hk : k = t.cwd
  · subst hk
    rw [Tree.unlink, Tree.node_set_self, hc]
    exact iff_of_false (Option.some_ne_none _) (Option.some_ne_none _)
  · rw [Tree.unlink, Tree.node_set_of_ne _ _ hk]

/-- What `do_rm` does to a file: the entry counts no more, and the inode is freed
with its last entry. -/
lemma Linked.unlink_drop (h : Linked t) (hc : t.node t.cwd = some (.dir es)) (hj : j < es.length)
    (hvalid : es[j].valid = true) (hm : t.node es[j].inum = some (.file ref)) :
    (∀ d, ((t.unlink j).drop es[j].inum).entries d = (t.unlink j).entries d) ∧
    (∀ k, ((t.unlink j).drop es[j].inum).links k + (if es[j].inum = k then 1 else 0) = t.links k) ∧
    (∀ k, ((t.unlink j).drop es[j].inum).node k = none ↔
      t.node k = none ∨ k = es[j].inum ∧ ref = 1) ∧
    ∀ k r, ((t.unlink j).drop es[j].inum).node k = some (.file r) →
      k ≠ es[j].inum ∧ t.node k = some (.file r) ∨ k = es[j].inum ∧ r + 1 = ref ∧ 1 ≤ r := by
  generalize hmdef : es[j].inum = m at hm ⊢
  have hmc := ne_cwd_of_file hc hm
  have hm' : (t.unlink j).node m = some (.file ref) := by
    rw [Tree.unlink, Tree.node_set_of_ne _ _ hmc]
    exact hm
  have hpos := (h.exact m ref hm).2
  have hmle : m ≤ ninodes := h.le m (by rw [hm]; exact Option.some_ne_none _)
  have hdrop : (t.unlink j).drop m =
      (t.unlink j).set m (if ref ≤ 1 then none else some (.file (ref - 1))) := by
    rw [Tree.drop, hm']
  have hself : ((t.unlink j).set m (if ref ≤ 1 then none else some (.file (ref - 1)))).entries m =
      (t.unlink j).entries m := by
    rw [Tree.entries_of_file hm']
    split
    · exact Tree.entries_set_none _ _
    · exact Tree.entries_set_file _ _ _
  rw [hdrop]
  refine ⟨fun d => ?_, fun k => ?_, fun k => ?_, fun k r hk => ?_⟩
  · by_cases hd : d = m
    · exact hd ▸ hself
    · exact Tree.entries_set_of_ne _ hd
  · have hlinks := t.links_unlink hc h.cwd_le hj hvalid k
    rw [hmdef] at hlinks
    rw [Tree.links_set_of_entries hmle hself, hlinks]
  · by_cases hk : k = m
    · subst hk
      rw [Tree.node_set_self, hm]
      by_cases hone : ref = 1
      · rw [if_pos (by omega)]
        exact iff_of_true rfl (.inr ⟨rfl, hone⟩)
      · rw [if_neg (by omega)]
        refine iff_of_false (Option.some_ne_none _) ?_
        rintro (hnone | ⟨-, hone'⟩)
        · cases hnone
        · exact hone hone'
    · rw [Tree.node_set_of_ne _ _ hk, node_unlink_eq_none hc]
      exact ⟨.inl, fun hor => hor.resolve_right fun hand => hk hand.1⟩
  · by_cases hkm : k = m
    · subst hkm
      rw [Tree.node_set_self] at hk
      split at hk
      · cases hk
      · rw [Option.some.injEq, Node.file.injEq] at hk
        exact .inr ⟨rfl, by omega, by omega⟩
    · rw [Tree.node_set_of_ne _ _ hkm] at hk
      refine .inl ⟨hkm, ?_⟩
      by_cases hkc : k = t.cwd
      · subst hkc
        rw [Tree.unlink, Tree.node_set_self] at hk
        cases hk
      · rwa [Tree.unlink, Tree.node_set_of_ne _ _ hkc] at hk

/-- `do_rm`. -/
lemma Linked.rm (h : Linked t) (hc : t.node t.cwd = some (.dir es)) (hj : j < es.length)
    (hvalid : es[j].valid = true) (hm : t.node es[j].inum = some (.file ref)) :
    Linked ((t.unlink j).drop es[j].inum) := by
  obtain ⟨hentries, hlinks, hnone, hfile⟩ := h.unlink_drop hc hj hvalid hm
  have hmc := ne_cwd_of_file hc hm
  have hexact := h.exact _ ref hm
  have hcwd : ((t.unlink j).drop es[j].inum).cwd = t.cwd ∧
      ((t.unlink j).drop es[j].inum).node t.cwd = some (.dir (es.modify j Entry.cleared)) := by
    have hm' : (t.unlink j).node es[j].inum = some (.file ref) := by
      rw [Tree.unlink, Tree.node_set_of_ne _ _ hmc]
      exact hm
    rw [Tree.drop, hm']
    refine ⟨rfl, (Tree.node_set_of_ne _ _ hmc.symm).trans ?_⟩
    rw [Tree.unlink, Tree.node_set_self, Tree.entries_of_node hc]
  refine ⟨⟨_, by rw [hcwd.1]; exact hcwd.2⟩, fun k hk => h.le k fun hk' => hk ((hnone k).2 (.inl hk')),
    fun d e he hvalid' => ?_, fun k r hk => ?_⟩
  · rw [hentries] at he
    have he' := mem_entries_unlink hc he hvalid'
    rw [ne_eq, hnone]
    rintro (hk | ⟨heq, hone⟩)
    · exact h.closed d e he' hvalid' hk
    · -- the last entry is gone
      have hlast := hlinks es[j].inum
      rw [if_pos rfl, ← hexact.1, hone] at hlast
      have hd : d ≤ ninodes := by
        by_contra hlt
        have hdnone : t.node d = none := by
          by_contra hne
          exact hlt (h.le d hne)
        rw [Tree.entries_of_none hdnone] at he'
        cases he'
      have hpos := Tree.links_pos hd ((hentries d).symm ▸ he) hvalid'
      rw [heq] at hpos
      omega
  · have hlink := hlinks k
    rcases hfile k r hk with ⟨hkm, hk'⟩ | ⟨rfl, hr, hpos⟩
    · rw [if_neg (Ne.symm hkm), Nat.add_zero] at hlink
      rw [hlink]
      exact h.exact k r hk'
    · rw [if_pos rfl] at hlink
      exact ⟨by omega, hpos⟩

end Linked

end Fs
end UcasKernel
