/-
Reading a line and taking it apart: when the shell does it safely, and with which
arguments it calls the kernel.

`kept` is what a line editor shows after some keys, and `words` takes a line apart at its
spaces, where a run of spaces separates once or as often as it has spaces.  A line is read
safely as long as no key is pressed behind the end of the buffer.  It is parsed safely when
it has between one and sixteen spaces and the command finds the arguments it reads.
-/
import UcasKernel.User.Shell

namespace UcasKernel
namespace User

/-! ## Lines -/

/-- The line behind one answer of `sys_getchar`. -/
def edit (line : List UInt8) : Option UInt8 → List UInt8
  | none => line
  | some ch => if isBackspace ch then line.dropLast else line ++ [ch]

/-- The characters that are left of some keys. -/
def kept (keys : List (Option UInt8)) : List UInt8 := keys.foldl edit []

/-- Whenever a key other than backspace is pressed, Enter included, the line is shorter
than the buffer. -/
def Fits (keys : List (Option UInt8)) : Prop :=
  ∀ pre ch post, keys ++ [some enter] = pre ++ some ch :: post → isBackspace ch = false →
    (kept pre).length < inputBufSize

/-- The line as a string. -/
def content (keys : List (Option UInt8)) : List UInt8 := (kept keys).takeWhile (· ≠ 0)

/-- How often a run of spaces separates. -/
inductive Spacing
  | single
  | runs
deriving DecidableEq, Repr

/-- The command and its arguments. -/
def Spacing.words (line : List UInt8) : Spacing → List (List UInt8)
  | .single => line.splitOn 32
  | .runs => (line.splitOn 32).filter (· ≠ [])

/-- The last argument begins with the background marker. -/
def Marked (args : List (List UInt8)) : Prop :=
  ∃ t, args.getLast? = some t ∧ t.head? = some '&'.toUInt8

instance (args : List (List UInt8)) : Decidable (Marked args) :=
  match h : args.getLast? with
  | none => isFalse fun ⟨t, ht, _⟩ => by simp [h] at ht
  | some t => decidable_of_iff (t.head? = some '&'.toUInt8) (by simp [Marked, h])

/-- The arguments without the background marker. -/
def unmarked (args : List (List UInt8)) : List (List UInt8) :=
  if Marked args then args.dropLast else args

/-- The argument of `ls` that is an option: the first, or else the second one. -/
def lsOption (args : List (List UInt8)) : Option (List UInt8) :=
  (args.take 2).find? fun t => t.head? = some '-'.toUInt8

/-- The arguments that the command reads. -/
def Cmd.Needs (args : List (List UInt8)) : Cmd → Prop
  | .exec => args ≠ []
  | .kill => ∃ t, args[0]? = some t ∧ ∀ c ∈ t.head?, isspace c = false
  | .ls => (lsOption args).isSome
  | _ => True

/-- The system call that a command is for. -/
def Cmd.Calls (args : List (List UInt8)) : Cmd → Call → Prop
  | .clear, call => call = .clear
  | .ps, call => call = .ps
  | .exec, call => call = .exec args[0]? args.length ((List.range maxArg).map (args[·]?))
  | .kill, call => ∃ t v, args[0]? = some t ∧ Result t v ∧ call = .kill (v.setWidth 32).toInt
  | .mkfs, call => call = .mkfs
  | .statfs, call => call = .statfs
  | .mkdir, call => call = .mkdir args[0]?
  | .ls, call => ∃ t o, args[0]? = some t ∧ lsOption args = some o ∧
      call = .ls (some (if t.head? = some '-'.toUInt8 then ['.'.toUInt8] else t))
        (if o[1]? = some 'a'.toUInt8 then 1 else if o[1]? = some 'l'.toUInt8 then 2 else 0)
  | .cd, call => call = .cd args[0]?
  | .rmdir, call => call = .rmdir args[0]?
  | .touch, call => call = .touch args[0]?
  | .cat, call => call = .cat args[0]?
  | .ln, call => call = .ln args[0]? args[1]?
  | .rm, call => call = .rm args[0]?

/-- What is promised of a line of keys that Enter ends: nothing goes wrong in reading and
parsing it; and if it is a command with up to sixteen arguments, the last of which is not
the background marker, then `argc` and `argv` are these arguments, and the first call is
the one that the command is for. -/
def TokenisingOk (spacing : Spacing) (replies : Replies) (buf : Bytes)
    (keys : List (Option UInt8)) : Prop :=
  ∃ line r, readKeyboard (clearBuf buf inputBufSize) (keys ++ [some enter]) = .ok (some line) ∧
    parseInput replies line.buf = .ok r ∧
    ∀ c args, spacing.words (content keys) = Cmd.name c :: args → args.length ≤ maxArg →
      args.getLast? ≠ some ['&'.toUInt8] →
      r.args.argc = args.length ∧
        (∀ i < maxArg, string r.args.buf (r.args.argv i) = args[i]?) ∧
        ∃ call rest, r.calls = call :: rest ∧ c.Calls args call

/-- The condition. -/
structure Tokenisable (spacing : Spacing) (keys : List (Option UInt8)) : Prop where
  fits : Fits keys
  spaces : 0 < (content keys).count 32 ∧ (content keys).count 32 ≤ maxArg
  needs : ∀ c args, (content keys).splitOn 32 = Cmd.name c :: args → c.Needs (unmarked args)
  words : ∀ c args, spacing.words (content keys) = Cmd.name c :: args →
    args.getLast? ≠ some ['&'.toUInt8] →
    (content keys).splitOn 32 = c.name :: args ∧ ¬ Marked args

variable {keys : List (Option UInt8)} {line l : List UInt8} {buf : Bytes} {s : Line}

/-! ## The keyboard -/

/-- The buffer holds the line, and zeros behind it. -/
structure Line.Shows (s : Line) (line : List UInt8) : Prop where
  i : s.i = line.length
  le : line.length ≤ inputBufSize
  buf : ∀ x < inputBufSize, s.buf x = Bytes.ofList line x

lemma ofList_snoc (line : List UInt8) (ch : UInt8) :
    Bytes.ofList (line ++ [ch]) = Function.update (Bytes.ofList line) line.length ch := by
  funext x
  rcases eq_or_ne x line.length with rfl | hx
  · simp [Bytes.ofList]
  · rw [Function.update_of_ne hx]
    rcases Nat.lt_or_gt_of_ne hx with hx | hx
    · simp [Bytes.ofList, List.getD_eq_getElem?_getD, List.getElem?_append_left hx]
    · have hend : (line ++ [ch])[x]? = none :=
        List.getElem?_eq_none (by rw [List.length_append]; exact hx)
      simp [Bytes.ofList, List.getD_eq_getElem?_getD, hx.le, hend]

lemma ofList_dropLast (line : List UInt8) :
    Bytes.ofList line.dropLast = Function.update (Bytes.ofList line) (line.length - 1) 0 := by
  rcases List.eq_nil_or_concat line with rfl | ⟨t, ch, rfl⟩
  · funext x
    simp [Bytes.ofList, Function.update_apply]
  · rw [List.concat_eq_append, ofList_snoc, List.dropLast_concat, List.length_append,
      List.length_singleton, Nat.add_sub_cancel, Function.update_idem]
    refine (Function.update_eq_self_iff.2 ?_).symm
    simp [Bytes.ofList]

lemma setBuf_of_lt {i : ℕ} (hi : i < inputBufSize) (c : UInt8) :
    setBuf buf i c = .ok (Function.update buf i c) := if_pos hi

lemma setBuf_of_le {i : ℕ} (hi : inputBufSize ≤ i) (c : UInt8) :
    setBuf buf i c = .error (.bufWrite i) := if_neg (Nat.not_lt.2 hi)

/-- A change of one byte on both sides. -/
lemma update_congr {b b' : Bytes} (h : ∀ x < inputBufSize, b x = b' x) (i : ℕ) (c : UInt8) :
    ∀ x < inputBufSize, Function.update b i c x = Function.update b' i c x := by
  intro x hx
  rcases eq_or_ne x i with rfl | hne
  · simp
  · simpa [hne] using h x hx

/-- Backspace is always safe. -/
lemma Line.Shows.backspace {ch : UInt8} (h : s.Shows line) (hch : isBackspace ch = true) :
    ∃ t, s.press ch = .ok t ∧ t.Shows (edit line (some ch)) := by
  have hne : ch ≠ enter := by
    rintro rfl
    exact absurd hch (by decide)
  simp only [Line.press, if_neg hne, edit, if_pos hch, h.i]
  rcases Nat.eq_zero_or_pos line.length with hzero | hpos
  · rw [if_neg (by omega)]
    refine ⟨_, rfl, by simp [hzero], by simp [hzero], ?_⟩
    rw [List.length_eq_zero_iff.1 hzero] at h ⊢
    exact h.buf
  · have hle := h.le
    rw [if_pos hpos, setBuf_of_lt (by omega)]
    refine ⟨_, rfl, by simp, by simp; omega, ?_⟩
    rw [ofList_dropLast]
    exact update_congr h.buf _ _

/-- Another key is safe as long as the line is shorter than the buffer. -/
lemma Line.Shows.press {ch : UInt8} (h : s.Shows line) (hne : ch ≠ enter)
    (hch : isBackspace ch = false) (hlt : line.length < inputBufSize) :
    ∃ t, s.press ch = .ok t ∧ t.Shows (edit line (some ch)) := by
  have hback : ¬ isBackspace ch = true := by simp [hch]
  simp only [Line.press, if_neg hne, edit, if_neg hback, h.i, setBuf_of_lt hlt]
  refine ⟨_, rfl, by simp, by rw [List.length_append]; exact hlt, ?_⟩
  rw [ofList_snoc]
  exact update_congr h.buf _ _

lemma Line.Shows.enter (h : s.Shows line) (hlt : line.length < inputBufSize) :
    ∃ t, s.press enter = .ok t ∧ t.Shows line := by
  simp only [Line.press, if_true, h.i, setBuf_of_lt hlt]
  refine ⟨_, rfl, rfl, h.le, fun x hx => ?_⟩
  rcases eq_or_ne x line.length with rfl | hne
  · simp [Bytes.ofList]
  · simpa [hne] using h.buf x hx

/-- Behind the end of the buffer every key but backspace writes. -/
lemma Line.Shows.press_full {ch : UInt8} (h : s.Shows line) (hch : isBackspace ch = false)
    (hle : inputBufSize ≤ line.length) : s.press ch = .error (.bufWrite line.length) := by
  have hback : ¬ isBackspace ch = true := by simp [hch]
  simp only [Line.press, if_neg hback, h.i, setBuf_of_le hle]
  split <;> rfl

/-- The condition on the keys, from a line on. -/
def FitsFrom (line : List UInt8) (keys : List (Option UInt8)) : Prop :=
  ∀ pre ch post, keys ++ [some enter] = pre ++ some ch :: post → isBackspace ch = false →
    (pre.foldl edit line).length < inputBufSize

lemma fitsFrom_nil : FitsFrom line [] ↔ line.length < inputBufSize := by
  refine ⟨fun h => h [] enter [] rfl (by decide), fun h pre ch post heq _ => ?_⟩
  cases pre with
  | nil => exact h
  | cons k pre => simp at heq

lemma fitsFrom_cons {k : Option UInt8} :
    FitsFrom line (k :: keys) ↔
      (∀ ch, k = some ch → isBackspace ch = false → line.length < inputBufSize) ∧
        FitsFrom (edit line k) keys := by
  constructor
  · intro h
    refine ⟨fun ch hk hch => h [] ch (keys ++ [some User.enter]) (by rw [hk]; rfl) hch, ?_⟩
    intro pre ch post heq hch
    exact h (k :: pre) ch post (congrArg (k :: ·) heq) hch
  · rintro ⟨hk, hrest⟩ pre ch post heq hch
    cases pre with
    | nil => exact hk ch (List.cons.inj heq).1 hch
    | cons k' pre =>
      obtain ⟨rfl, heq'⟩ := List.cons.inj heq
      exact hrest pre ch post heq' hch

/-- The loop returns when the keys fit, and then the buffer holds what is left of them. -/
lemma readKeyboard_iff (h : s.Shows line) (hkeys : some enter ∉ keys) :
    (FitsFrom line keys → ∃ t, Line.readKeyboard (keys ++ [some enter]) s = .ok (some t) ∧
      t.Shows (keys.foldl edit line) ∧ (keys.foldl edit line).length < inputBufSize) ∧
    (¬ FitsFrom line keys → ∃ f, Line.readKeyboard (keys ++ [some enter]) s = .error f) := by
  induction keys generalizing line s with
  | nil =>
    rw [fitsFrom_nil]
    refine ⟨fun hlt => ?_, fun hle => ?_⟩
    · obtain ⟨t, ht, hshows⟩ := h.enter hlt
      exact ⟨t, by simp only [List.nil_append, Line.readKeyboard, ht]; rfl, hshows, hlt⟩
    · have hfull := h.press_full (show isBackspace enter = false by decide) (Nat.not_lt.1 hle)
      exact ⟨_, by simp only [List.nil_append, Line.readKeyboard, hfull]; rfl⟩
  | cons k keys ih =>
    have hkeys' : some enter ∉ keys := fun hmem => hkeys (List.mem_cons_of_mem _ hmem)
    rw [fitsFrom_cons]
    cases k with
    | none =>
      obtain ⟨hyes, hno⟩ := ih h hkeys'
      refine ⟨fun hfits => hyes hfits.2, fun hfits => hno fun hrest => ?_⟩
      exact hfits ⟨fun ch hk => by simp at hk, hrest⟩
    | some ch =>
      have hne : ch ≠ enter := by
        rintro rfl
        exact hkeys List.mem_cons_self
      -- one round that is safe
      have hround : (isBackspace ch = false → line.length < inputBufSize) →
          ∃ t, s.press ch = .ok t ∧ t.Shows (edit line (some ch)) := by
        intro hlt
        cases hch : isBackspace ch with
        | true => exact h.backspace hch
        | false => exact h.press hne hch (hlt hch)
      have hstep : ∀ t, s.press ch = .ok t →
          Line.readKeyboard (some ch :: keys ++ [some enter]) s =
            Line.readKeyboard (keys ++ [some enter]) t := by
        intro t ht
        simp only [List.cons_append, Line.readKeyboard, ht]
        exact if_neg hne
      by_cases hlt : isBackspace ch = false → line.length < inputBufSize
      · obtain ⟨t, ht, hshows⟩ := hround hlt
        rw [hstep t ht]
        obtain ⟨hyes, hno⟩ := ih hshows hkeys'
        refine ⟨fun hfits => hyes hfits.2, fun hfits => hno fun hrest => hfits ⟨?_, hrest⟩⟩
        rintro ch' hk hch
        obtain rfl := Option.some.inj hk
        exact hlt hch
      · refine ⟨fun hfits => absurd (hfits.1 ch rfl) hlt, fun _ => ?_⟩
        push Not at hlt
        have hfull := h.press_full hlt.1 hlt.2
        exact ⟨_, by simp only [List.cons_append, Line.readKeyboard, hfull]; rfl⟩

/-! ## Taking the line apart -/

section Split

variable {ptr left : ℕ} {s t : Args} {args : List (List UInt8)}

/-- The offsets behind the spaces of a string at `ptr`. -/
def starts : ℕ → List UInt8 → List ℕ
  | _, [] => []
  | ptr, c :: l => if c = 32 then (ptr + 1) :: starts (ptr + 1) l else starts (ptr + 1) l

/-- The spaces among `n` bytes from `ptr` on become zeros. -/
def cut (buf : Bytes) (ptr n : ℕ) : Bytes := fun x =>
  if ptr ≤ x ∧ x < ptr + n ∧ buf x = 32 then 0 else buf x

lemma cut_zero (buf : Bytes) (ptr : ℕ) : cut buf ptr 0 = buf := by
  funext x
  exact if_neg (by omega)

lemma cut_space (buf : Bytes) (ptr n : ℕ) (h : buf ptr = 32) :
    cut (Function.update buf ptr 0) (ptr + 1) n = cut buf ptr (n + 1) := by
  funext x
  rcases eq_or_ne x ptr with rfl | hx
  · simp [cut, h]
  · simp only [cut, Function.update_of_ne hx]
    congr 1
    refine propext ⟨fun ⟨h1, h2, h3⟩ => ⟨by omega, by omega, h3⟩, fun ⟨h1, h2, h3⟩ =>
      ⟨by omega, by omega, h3⟩⟩

lemma cut_other (buf : Bytes) (ptr n : ℕ) (h : buf ptr ≠ 32) :
    cut buf (ptr + 1) n = cut buf ptr (n + 1) := by
  funext x
  rcases eq_or_ne x ptr with rfl | hx
  · simp [cut, h]
  · simp only [cut]
    congr 1
    refine propext ⟨fun ⟨h1, h2, h3⟩ => ⟨by omega, by omega, h3⟩, fun ⟨h1, h2, h3⟩ =>
      ⟨by omega, by omega, h3⟩⟩

/-- The loop sets an entry for each space, behind the entries it has, and gives up when
there is no room for one. -/
lemma splitLoop_spec (h : s.buf.StringAt ptr l) (hleft : l.length < left)
    (hargv : ∀ i, s.argc ≤ i → s.argv i = none) :
    (s.argc + l.count 32 ≤ maxArg → ∃ t, splitLoop left ptr s = .ok t ∧
      t.argc = s.argc + l.count 32 ∧ t.buf = cut s.buf ptr l.length ∧
      ∀ i, t.argv i = if i < s.argc then s.argv i else (starts ptr l)[i - s.argc]?) ∧
    (maxArg < s.argc + l.count 32 → s.argc ≤ maxArg → ∃ f, splitLoop left ptr s = .error f) := by
  induction l generalizing left ptr s with
  | nil =>
    obtain ⟨left, rfl⟩ : ∃ m, left = m + 1 := ⟨left - 1, by rw [List.length_nil] at hleft; omega⟩
    rw [splitLoop, if_pos (show s.buf ptr = 0 from h)]
    refine ⟨fun _ => ⟨s, rfl, rfl, (cut_zero s.buf ptr).symm, fun i => ?_⟩, fun hlt hle => ?_⟩
    · split_ifs with hi
      · rfl
      · exact hargv i (Nat.not_lt.1 hi)
    · rw [List.count_nil] at hlt
      omega
  | cons c l ih =>
    obtain ⟨left, rfl⟩ : ∃ m, left = m + 1 := ⟨left - 1, by rw [List.length_cons] at hleft; omega⟩
    have hleft : l.length < left := by rw [List.length_cons] at hleft; omega
    obtain ⟨hc, hne, hrest⟩ := h
    rw [splitLoop, hc, if_neg hne]
    by_cases hspace : c = 32
    · rw [if_pos hspace, List.count_cons, if_pos (by simp [hspace])]
      by_cases hroom : s.argc < maxArg
      · rw [if_pos hroom]
        have hrest' : Bytes.StringAt (Function.update s.buf ptr 0) (ptr + 1) l :=
          hrest.congr fun i _ => Function.update_of_ne (show ptr + 1 + i ≠ ptr by omega) ..
        obtain ⟨hyes, hno⟩ := @ih (ptr + 1) left
          ⟨Function.update s.buf ptr 0, s.argc + 1, Function.update s.argv s.argc (some (ptr + 1))⟩
          hrest' hleft fun i hi =>
            (Function.update_of_ne (show i ≠ s.argc by dsimp only at hi; omega) ..).trans
              (hargv i (by dsimp only at hi; omega))
        refine ⟨fun hle => ?_, fun hlt _ => hno (by dsimp only; omega) hroom⟩
        obtain ⟨t, ht, hargc, hbuf, hentries⟩ := hyes (by dsimp only; omega)
        refine ⟨t, ht, by rw [hargc]; dsimp only; omega, ?_, fun i => ?_⟩
        · rw [hbuf, cut_space s.buf ptr l.length (hc.trans hspace), List.length_cons]
        · rw [hentries, starts, if_pos hspace]
          dsimp only
          rcases Nat.lt_trichotomy i s.argc with hi | rfl | hi
          · rw [if_pos (by omega), if_pos hi, Function.update_of_ne (by omega)]
          · rw [if_pos (by omega), if_neg (by omega), Function.update_self, Nat.sub_self]
            rfl
          · rw [if_neg (by omega), if_neg (by omega),
              show i - s.argc = i - (s.argc + 1) + 1 by omega, List.getElem?_cons_succ]
      · rw [if_neg hroom]
        exact ⟨fun hle => by omega, fun _ _ => ⟨_, rfl⟩⟩
    · rw [if_neg hspace, List.count_cons_of_ne hspace, starts, if_neg hspace]
      have hbuf : cut s.buf (ptr + 1) l.length = cut s.buf ptr (c :: l).length :=
        cut_other s.buf ptr l.length (fun heq => hspace (hc.symm.trans heq))
      rw [← hbuf]
      exact ih hrest hleft hargv

/-- The strings of the buffer that was cut are the fields of the line. -/
lemma fields_of_cut {b b' : Bytes} (h : b.StringAt ptr l)
    (hcut : ∀ x, ptr ≤ x → x < ptr + l.length → b' x = if b x = 32 then 0 else b x)
    (hend : b' (ptr + l.length) = 0) :
    ∃ f fs, l.splitOn 32 = f :: fs ∧ b'.StringAt ptr f ∧ ptr + f.length ≤ ptr + l.length ∧
      List.Forall₂ (fun a t => b'.StringAt a t ∧ a + t.length ≤ ptr + l.length)
        (starts ptr l) fs := by
  induction l generalizing ptr with
  | nil => exact ⟨[], [], rfl, hend, le_rfl, .nil⟩
  | cons c l ih =>
    obtain ⟨hc, hne, hrest⟩ := h
    have hlen : ptr + 1 + l.length = ptr + (c :: l).length := by
      rw [List.length_cons]
      omega
    obtain ⟨f, fs, hsplit, hf, hfle, hfs⟩ := ih hrest
      (fun x hx hx' => hcut x (by omega) (by omega)) (by rw [hlen]; exact hend)
    rw [hlen] at hfle hfs
    have hhead := hcut ptr le_rfl (by rw [List.length_cons]; omega)
    rw [hc] at hhead
    rw [starts]
    by_cases hspace : c = 32
    · rw [if_pos hspace] at hhead ⊢
      refine ⟨[], f :: fs, ?_, hhead, Nat.le_add_right _ _, .cons ⟨hf, hfle⟩ hfs⟩
      rw [List.splitOn, List.splitOnP_cons_eq_if_modifyHead, if_pos (by simp [hspace]),
        ← List.splitOn, hsplit]
    · rw [if_neg hspace] at hhead ⊢
      refine ⟨c :: f, fs, ?_, ⟨hhead, hne, hf⟩, by rw [List.length_cons]; omega, hfs⟩
      rw [List.splitOn, List.splitOnP_cons_eq_if_modifyHead, if_neg (by simp [hspace]),
        ← List.splitOn, hsplit]
      rfl

end Split

/-- `argc` and `argv` are the arguments, which stand in the buffer. -/
structure Args.Represents (s : Args) (args : List (List UInt8)) : Prop where
  argc : s.argc = args.length
  entry : ∀ i t, args[i]? = some t →
    ∃ a, s.argv i = some a ∧ s.buf.StringAt a t ∧ a + t.length < inputBufSize
  rest : ∀ i, args.length ≤ i → s.argv i = none

section Represents

variable {s : Args} {args : List (List UInt8)} {t : List UInt8} {a i : ℕ}

lemma string_eq (h : buf.StringAt a t) (ha : a + t.length < inputBufSize) :
    string buf (some a) = some t :=
  congrArg some (h.takeWhile_slice (by omega))

namespace Args.Represents

lemma argv_of_none (h : s.Represents args) (hi : args[i]? = none) : s.argv i = none :=
  h.rest i (List.getElem?_eq_none_iff.1 hi)

lemma string (h : s.Represents args) (i : ℕ) : string s.buf (s.argv i) = args[i]? := by
  cases hi : args[i]? with
  | none => rw [h.argv_of_none hi]; rfl
  | some t =>
    obtain ⟨a, ha, hstring, hlt⟩ := h.entry i t hi
    rw [ha, string_eq hstring hlt]

lemma text (h : s.Represents args) (hi : args[i]? = some t) :
    text s.buf (s.argv i) = .ok t := by
  rw [User.text, h.string i, hi]

lemma text_none (h : s.Represents args) (hi : args[i]? = none) :
    User.text s.buf (s.argv i) = .error .null := by
  rw [User.text, h.string i, hi]

/-- The first byte of an argument, which is zero when the argument is empty. -/
lemma deref (h : s.Represents args) (hi : args[i]? = some t) :
    deref s.buf (s.argv i) 0 = .ok (t.headD 0) := by
  obtain ⟨a, ha, hstring, hlt⟩ := h.entry i t hi
  simp only [User.deref, ha]
  rw [if_pos (by omega), Nat.add_zero, hstring.head]

lemma deref_none (h : s.Represents args) (hi : args[i]? = none) (j : ℕ) :
    User.deref s.buf (s.argv i) j = .error .null := by
  simp only [User.deref, h.argv_of_none hi]

/-- The second byte of an argument that is not empty. -/
lemma deref_second (h : s.Represents args) (hi : args[i]? = some t) (hne : t ≠ []) :
    User.deref s.buf (s.argv i) 1 = .ok (t.tail.headD 0) := by
  obtain ⟨a, ha, hstring, hlt⟩ := h.entry i t hi
  have hpos := List.length_pos_of_ne_nil hne
  simp only [User.deref, ha]
  rw [if_pos (by omega), hstring.second hne]

end Args.Represents

lemma headD_eq_iff {c : UInt8} (hc : c ≠ 0) : t.headD 0 = c ↔ t.head? = some c := by
  cases t with
  | nil => simpa using hc.symm
  | cons d t => simp

/-- Without an argument the marker is looked for in front of `argv`. -/
lemma stripMarker_nil (h : s.Represents []) : s.stripMarker = .error (.argvIndex (-1)) := by
  rw [Args.stripMarker, Args.entry, show s.argc = 0 from h.argc]
  rfl

lemma not_marked_nil : ¬ Marked [] := fun ⟨t, ht, _⟩ => by simp at ht

/-- With one to sixteen arguments the marker is taken off. -/
lemma stripMarker_spec (h : s.Represents args) (hne : args ≠ []) (hle : args.length ≤ maxArg) :
    ∃ wait s', s.stripMarker = .ok (wait, s') ∧ s'.Represents (unmarked args) ∧
      s'.buf = s.buf := by
  obtain ⟨t, ht⟩ : ∃ t, args.getLast? = some t := ⟨_, List.getLast?_eq_some_getLast hne⟩
  have hpos := List.length_pos_of_ne_nil hne
  have hlast : args[args.length - 1]? = some t := by
    rw [← List.getLast?_eq_getElem?, ht]
  have hmarked : Marked args ↔ t.headD 0 = '&'.toUInt8 := by
    rw [headD_eq_iff (by decide), Marked]
    simp [ht]
  have hentry : s.entry (s.argc - 1) = .ok (s.argv (args.length - 1)) := by
    rw [Args.entry, h.argc, if_pos ⟨by omega, by omega⟩]
    congr 2
    omega
  have hstrip : s.stripMarker = if t.headD 0 = '&'.toUInt8 then
      .ok (false, { s with
        argc := s.argc - 1
        argv := Function.update s.argv (s.argc - 1) none })
      else .ok (true, s) := by
    simp only [Args.stripMarker, hentry, bind, Except.bind, h.deref hlast]
  rw [hstrip, unmarked]
  by_cases hm : Marked args
  · rw [if_pos (hmarked.1 hm), if_pos hm]
    refine ⟨_, _, rfl, ⟨by simp [h.argc], fun i u hi => ?_, fun i hi => ?_⟩, rfl⟩
    · rw [List.getElem?_dropLast] at hi
      split_ifs at hi with hlt
      obtain ⟨a, ha, hstring⟩ := h.entry i u hi
      refine ⟨a, ?_, hstring⟩
      rw [← ha]
      exact Function.update_of_ne (by rw [h.argc]; omega) ..
    · rw [List.length_dropLast] at hi
      rcases eq_or_ne i (args.length - 1) with rfl | hne'
      · rw [h.argc]
        exact Function.update_self ..
      · rw [h.argc]
        exact (Function.update_of_ne hne' ..).trans (h.rest i (by omega))
  · rw [if_neg fun hc => hm (hmarked.2 hc), if_neg hm]
    exact ⟨_, _, rfl, h, rfl⟩

end Represents

/-! ## The commands -/

section Dispatch

variable {s : Args} {args : List (List UInt8)} {name t : List UInt8} {c : Cmd} {replies : Replies}
  {wait : Bool}

lemma lookup_name (c : Cmd) : Cmd.lookup c.name = some c := by
  cases c <;> decide

lemma name_injective : Function.Injective Cmd.name := by
  intro c c' h
  have hc := lookup_name c
  rw [h, lookup_name] at hc
  exact (Option.some.inj hc).symm

lemma lookup_unknown (h : ∀ c : Cmd, name ≠ c.name) : Cmd.lookup name = none := by
  refine List.find?_eq_none.2 fun c _ => ?_
  simpa using (h c).symm

lemma caseExec_spec (h : s.Represents args) (hne : args ≠ []) :
    ∃ call rest, caseExec replies s wait = .ok (call :: rest) ∧ Cmd.exec.Calls args call := by
  obtain ⟨t, hi⟩ : ∃ t, args[0]? = some t := by
    obtain ⟨t, l, rfl⟩ := List.exists_cons_of_ne_nil hne
    exact ⟨t, rfl⟩
  simp only [caseExec, h.text hi, bind, Except.bind, h.string, h.argc, List.cons_append]
  exact ⟨_, _, rfl, rfl⟩

lemma caseExec_nil (h : s.Represents []) : caseExec replies s wait = .error .null := by
  simp only [caseExec, h.text_none (i := 0) rfl, bind, Except.bind]

lemma caseKill_spec (h : s.Represents args) (hneeds : Cmd.kill.Needs args) :
    ∃ call rest, caseKill replies s = .ok (call :: rest) ∧ Cmd.kill.Calls args call := by
  obtain ⟨t, hi, hspace⟩ := hneeds
  obtain ⟨a, ha, hstring, hlt⟩ := h.entry 0 t hi
  obtain ⟨v, hv, hresult⟩ :=
    atol_result hstring hspace (show t.length < inputBufSize + 1 by omega)
  have hatoi : atoi s.buf (s.argv 0) (inputBufSize + 1) = some (v.setWidth 32).toInt := by
    rw [atoi, ha, hv, Option.map_some]
  simp only [caseKill, hatoi, h.text hi, bind, Except.bind]
  exact ⟨_, _, rfl, t, v, hi, hresult, rfl⟩

/-- Without an argument, and with one that begins with white space, `kill` goes wrong. -/
lemma caseKill_error (h : s.Represents args) (hneeds : ¬ Cmd.kill.Needs args) :
    ∃ f, caseKill replies s = .error f := by
  cases hi : args[0]? with
  | none =>
    have hatoi : atoi s.buf (s.argv 0) (inputBufSize + 1) = some 0 := by
      rw [h.argv_of_none hi]
      rfl
    simp only [caseKill, hatoi, h.text_none hi]
    exact ⟨_, rfl⟩
  | some t =>
    obtain ⟨a, ha, hstring, hlt⟩ := h.entry 0 t hi
    have hspace : isspace (s.buf a) = true := by
      by_contra hno
      refine hneeds ⟨t, hi, fun c hc => ?_⟩
      rw [hstring.head, List.headD_eq_head?_getD, Option.mem_def.1 hc] at hno
      simpa using hno
    simp only [caseKill, atoi, ha, atol_of_space hspace, Option.map_none]
    exact ⟨_, rfl⟩

lemma lsOption_cons : lsOption (t :: args) =
    if t.head? = some '-'.toUInt8 then some t else
      args.head?.bind fun u => if u.head? = some '-'.toUInt8 then some u else none := by
  rw [lsOption, List.take_succ_cons, List.find?_cons]
  by_cases ht : t.head? = some '-'.toUInt8
  · simp [ht]
  · cases args with
    | nil => simp [ht]
    | cons u args =>
      by_cases hu : u.head? = some '-'.toUInt8 <;> simp [ht, hu]

lemma caseLs_spec (h : s.Represents args) (hneeds : Cmd.ls.Needs args) :
    ∃ call rest, caseLs s = .ok (call :: rest) ∧ Cmd.ls.Calls args call := by
  obtain ⟨o, ho⟩ := Option.isSome_iff_exists.1 hneeds
  cases args with
  | nil => simp [lsOption] at ho
  | cons t args =>
    have hi : (t :: args)[0]? = some t := rfl
    have hpath : lsPath s =
        .ok (some (if t.head? = some '-'.toUInt8 then ['.'.toUInt8] else t)) := by
      have hnone : s.argv 0 ≠ none := by
        obtain ⟨a, ha, -⟩ := h.entry 0 t hi
        simp [ha]
      simp only [lsPath, if_neg hnone, h.deref hi, bind, Except.bind, h.string 0, hi,
        headD_eq_iff (show '-'.toUInt8 ≠ 0 by decide)]
      split_ifs <;> rfl
    -- the entry of the option
    obtain ⟨i, hio, hoption⟩ : ∃ i, (t :: args)[i]? = some o ∧ lsOptionStr s = .ok (s.argv i) := by
      rw [lsOption_cons] at ho
      split_ifs at ho with ht
      · obtain rfl := Option.some.inj ho
        refine ⟨0, rfl, ?_⟩
        simp only [lsOptionStr, h.deref hi, bind, Except.bind]
        rw [if_pos ((headD_eq_iff (by decide)).2 ht)]
      · obtain ⟨u, hu, ho⟩ := Option.bind_eq_some_iff.1 ho
        split_ifs at ho with hu'
        obtain rfl := Option.some.inj ho
        have hi1 : (t :: args)[1]? = some u := by
          rw [List.getElem?_cons_succ, ← List.head?_eq_getElem?, hu]
        refine ⟨1, hi1, ?_⟩
        simp only [lsOptionStr, h.deref hi, h.deref hi1, bind, Except.bind]
        rw [if_neg fun hc => ht ((headD_eq_iff (by decide)).1 hc),
          if_pos ((headD_eq_iff (by decide)).2 hu')]
    have hdash : o.head? = some '-'.toUInt8 := by
      have := List.find?_some ho
      simpa using this
    have hsecond : deref s.buf (s.argv i) 1 = .ok (o.tail.headD 0) := by
      refine h.deref_second hio ?_
      rintro rfl
      simp at hdash
    have hletter : ∀ x : UInt8, x ≠ 0 → (o.tail.headD 0 = x ↔ o[1]? = some x) := by
      intro x hx
      rw [headD_eq_iff hx, List.head?_tail]
    refine ⟨_, [], ?_, t, o, rfl, ho, rfl⟩
    simp only [caseLs, hpath, hoption, hsecond, bind, Except.bind,
      hletter 'a'.toUInt8 (by decide), hletter 'l'.toUInt8 (by decide)]

lemma caseLs_error (h : s.Represents args) (hneeds : ¬ Cmd.ls.Needs args) :
    ∃ f, caseLs s = .error f := by
  have hno : lsOption args = none := by
    simpa [Cmd.Needs] using hneeds
  cases args with
  | nil =>
    have hpath : lsPath s = .ok (some ['.'.toUInt8]) := if_pos (h.argv_of_none rfl)
    simp only [caseLs, hpath, lsOptionStr, h.deref_none (i := 0) rfl, bind, Except.bind]
    exact ⟨_, rfl⟩
  | cons t args =>
    have hi : (t :: args)[0]? = some t := rfl
    rw [lsOption_cons] at hno
    split_ifs at hno with ht
    have hfirst : ¬ t.headD 0 = '-'.toUInt8 := fun hc => ht ((headD_eq_iff (by decide)).1 hc)
    obtain ⟨path, hpath⟩ : ∃ path, lsPath s = .ok path := by
      have hnone : s.argv 0 ≠ none := by
        obtain ⟨a, ha, -⟩ := h.entry 0 t hi
        simp [ha]
      simp only [lsPath, if_neg hnone, h.deref hi, bind, Except.bind]
      exact ⟨_, rfl⟩
    simp only [caseLs, hpath, lsOptionStr, h.deref hi, bind, Except.bind, if_neg hfirst]
    cases hi1 : (t :: args)[1]? with
    | none =>
      rw [h.deref_none hi1]
      exact ⟨_, rfl⟩
    | some u =>
      have hu : args.head? = some u := by rwa [List.head?_eq_getElem?]
      have hsecond : ¬ u.headD 0 = '-'.toUInt8 := by
        rw [headD_eq_iff (by decide)]
        intro hc
        simp [hu, hc] at hno
      -- no option: its second character is read through a null pointer
      rw [h.deref hi1]
      simp only [if_neg hsecond]
      exact ⟨_, rfl⟩

/-- The `switch`: the command makes its call when it has the arguments it reads, and goes
wrong when it has not. -/
lemma dispatch_spec (h : s.Represents args) (hname : s.buf.StringAt 0 c.name) :
    (c.Needs args → ∃ call rest, dispatch replies s wait = .ok (call :: rest) ∧
      c.Calls args call) ∧
    (¬ c.Needs args → ∃ f, dispatch replies s wait = .error f) := by
  have hlookup : Cmd.lookup ((string s.buf (some 0)).getD []) = some c := by
    rw [string_eq hname (by cases c <;> decide), Option.getD_some, lookup_name]
  rw [dispatch, hlookup]
  cases c with
  | exec =>
    refine ⟨caseExec_spec h, fun hno => ?_⟩
    obtain rfl : args = [] := not_not.1 hno
    exact ⟨_, caseExec_nil h⟩
  | kill => exact ⟨caseKill_spec h, caseKill_error h⟩
  | ls => exact ⟨caseLs_spec h, caseLs_error h⟩
  | clear | ps | mkfs | statfs =>
    exact ⟨fun _ => ⟨_, _, rfl, rfl⟩, fun hno => absurd trivial hno⟩
  | mkdir | cd | rmdir | touch | cat | rm =>
    exact ⟨fun _ => ⟨_, _, rfl, by rw [Cmd.Calls, h.string]⟩, fun hno => absurd trivial hno⟩
  | ln =>
    exact ⟨fun _ => ⟨_, _, rfl, by rw [Cmd.Calls, h.string, h.string]⟩,
      fun hno => absurd trivial hno⟩

/-- An unknown command only prints. -/
lemma dispatch_unknown (hname : s.buf.StringAt 0 name) (hlt : name.length < inputBufSize)
    (hno : ∀ c : Cmd, name ≠ c.name) :
    ∃ fmt xs, dispatch replies s wait = .ok [.printf fmt xs] := by
  have hlookup : Cmd.lookup ((string s.buf (some 0)).getD []) = none := by
    rw [string_eq hname (by omega), Option.getD_some, lookup_unknown hno]
  rw [dispatch, hlookup]
  exact ⟨_, _, rfl⟩

/-- No command is for a call of `printf`. -/
lemma not_calls_printf {fmt : String} {xs : List Arg} (c : Cmd) :
    ¬ c.Calls args (.printf fmt xs) := by
  cases c <;> simp [Cmd.Calls]

end Dispatch

/-! ## The whole -/

section Parse

variable {k f : List UInt8} {fs : List (List UInt8)} {replies : Replies} {r : Parsed}

lemma length_starts (ptr : ℕ) (l : List UInt8) : (starts ptr l).length = l.count 32 := by
  induction l generalizing ptr with
  | nil => rfl
  | cons c l ih =>
    rw [starts]
    by_cases hc : c = 32
    · rw [if_pos hc, List.length_cons, ih, List.count_cons, if_pos (by simp [hc])]
    · rw [if_neg hc, ih, List.count_cons_of_ne hc]

/-- One space less than there are fields. -/
lemma length_fields (hsplit : k.splitOn 32 = f :: fs) :
    fs.length = k.count 32 := by
  induction k generalizing f fs with
  | nil =>
    obtain ⟨-, rfl⟩ := List.cons.inj hsplit
    rfl
  | cons c k ih =>
    obtain ⟨g, gs, hk⟩ := List.exists_cons_of_ne_nil
      (show k.splitOn 32 ≠ [] from List.splitOnP_ne_nil _ _)
    rw [List.splitOn, List.splitOnP_cons_eq_if_modifyHead, ← List.splitOn, hk] at hsplit
    by_cases hc : c = 32
    · rw [if_pos (by simp [hc])] at hsplit
      obtain ⟨-, rfl⟩ := List.cons.inj hsplit
      rw [List.length_cons, ih hk, List.count_cons, if_pos (by simp [hc])]
    · rw [if_neg (by simp [hc]), List.modifyHead_cons] at hsplit
      obtain ⟨-, rfl⟩ := List.cons.inj hsplit
      rw [ih hk, List.count_cons_of_ne hc]

/-- The loop on a line with up to sixteen spaces. -/
lemma splitLoop_represents (h : buf.StringAt 0 k) (hlt : k.length < inputBufSize)
    (hcount : k.count 32 ≤ maxArg) :
    ∃ t f fs, splitLoop inputBufSize 0 ⟨buf, 0, fun _ => none⟩ = .ok t ∧
      k.splitOn 32 = f :: fs ∧ t.Represents fs ∧
      t.buf.StringAt 0 f ∧ f.length < inputBufSize := by
  have hstart : (⟨buf, 0, fun _ => none⟩ : Args).buf.StringAt 0 k := h
  obtain ⟨t, ht, hargc, hbuf, hargv⟩ := (splitLoop_spec hstart hlt fun _ _ => rfl).1 (by
    dsimp only
    omega)
  have hcut : ∀ x, 0 ≤ x → x < 0 + k.length → t.buf x = if buf x = 32 then 0 else buf x := by
    intro x hx hx'
    rw [hbuf]
    by_cases hspace : buf x = 32
    · simp [cut, hspace, (Nat.zero_add k.length) ▸ hx']
    · simp [cut, hspace]
  have hend : t.buf (0 + k.length) = 0 := by
    rw [hbuf, cut, if_neg (by omega)]
    exact h.terminator
  obtain ⟨f, fs, hsplit, hf, hfle, hfs⟩ := fields_of_cut h hcut hend
  have hget := (List.forall₂_iff_get.1 hfs).2
  have hlen := length_fields hsplit
  refine ⟨t, f, fs, ht, hsplit, ⟨?_, fun i u hi => ?_, fun i hi => ?_⟩, hf, by omega⟩
  · rw [hargc, hlen]
    exact Nat.zero_add _
  · obtain ⟨hi', rfl⟩ := List.getElem?_eq_some_iff.1 hi
    have hi'' : i < (starts 0 k).length := by rw [length_starts]; omega
    obtain ⟨hstring, hle⟩ := hget i hi'' hi'
    refine ⟨(starts 0 k)[i], ?_, hstring, ?_⟩
    · rw [hargv, if_neg (by simp), Nat.sub_zero]
      exact List.getElem?_eq_getElem hi''
    · have hle : (starts 0 k)[i] + fs[i].length ≤ 0 + k.length := hle
      omega
  · rw [hargv, if_neg (by simp), Nat.sub_zero]
    exact List.getElem?_eq_none (by rw [length_starts]; omega)

/-- What `parse_input` computes when it does not go wrong. -/
structure Parsed.Of (r : Parsed) (f : List UInt8) (args : List (List UInt8)) : Prop where
  represents : r.args.Represents args
  known : ∀ c : Cmd, f = c.name → ∃ call rest, r.calls = call :: rest ∧ c.Calls args call
  unknown : (∀ c : Cmd, f ≠ c.name) → ∃ fmt xs, r.calls = [.printf fmt xs]

/-- `parse_input` goes wrong unless there are one to sixteen spaces and the command finds
its arguments. -/
lemma parseInput_spec (h : buf.StringAt 0 k) (hlt : k.length < inputBufSize)
    (hsplit : k.splitOn 32 = f :: fs) :
    ((0 < k.count 32 ∧ k.count 32 ≤ maxArg) ∧ (∀ c : Cmd, f = c.name → c.Needs (unmarked fs)) →
      ∃ r, parseInput replies buf = .ok r ∧ r.Of f (unmarked fs)) ∧
    (¬ ((0 < k.count 32 ∧ k.count 32 ≤ maxArg) ∧
      ∀ c : Cmd, f = c.name → c.Needs (unmarked fs)) →
      ∃ e, parseInput replies buf = .error e) := by
  by_cases hle : k.count 32 ≤ maxArg
  · obtain ⟨t, f', fs', ht, hsplit', hr, hf, hflt⟩ := splitLoop_represents h hlt hle
    have hlen := length_fields hsplit'
    obtain ⟨rfl, rfl⟩ := List.cons.inj (hsplit'.symm.trans hsplit)
    by_cases hpos : 0 < k.count 32
    · have hne : fs' ≠ [] := by
        rintro rfl
        rw [List.length_nil] at hlen
        omega
      obtain ⟨wait, s, hs, hr', hbuf⟩ := stripMarker_spec hr hne (hlen ▸ hle)
      rw [← hbuf] at hf
      have hparse : parseInput replies buf =
          (dispatch replies s wait).map fun calls => ⟨s, calls⟩ := by
        simp only [parseInput, ht, hs, bind, Except.bind, Except.map]
      rw [hparse]
      by_cases hknown : ∃ c : Cmd, f' = c.name
      · obtain ⟨c, rfl⟩ := hknown
        obtain ⟨hyes, hno⟩ := @dispatch_spec s (unmarked fs') c replies wait hr' hf
        refine ⟨fun ⟨_, hneeds⟩ => ?_, fun hneeds => ?_⟩
        · obtain ⟨call, rest, hcalls, hcall⟩ := hyes (hneeds c rfl)
          refine ⟨⟨s, call :: rest⟩, by rw [hcalls]; rfl, hr', fun c' hc' => ?_, fun hc' => ?_⟩
          · exact ⟨call, rest, rfl, name_injective hc' ▸ hcall⟩
          · exact absurd rfl (hc' c)
        · have hneeds' : ¬ c.Needs (unmarked fs') := by
            refine fun hn => hneeds ⟨⟨hpos, hle⟩, fun c' hc' => ?_⟩
            exact name_injective hc' ▸ hn
          obtain ⟨e, he⟩ := hno hneeds'
          exact ⟨e, by rw [he]; rfl⟩
      · push Not at hknown
        obtain ⟨fmt, xs, hcalls⟩ := @dispatch_unknown s f' replies wait hf hflt hknown
        refine ⟨fun _ => ⟨⟨s, _⟩, by rw [hcalls]; rfl, hr', fun c hc => absurd hc (hknown c),
          fun _ => ⟨fmt, xs, rfl⟩⟩, fun hneeds => ?_⟩
        exact absurd ⟨⟨hpos, hle⟩, fun c hc => absurd hc (hknown c)⟩ hneeds
    · -- no space: the marker is looked for in front of `argv`
      obtain rfl : fs' = [] := List.length_eq_zero_iff.1 (by omega)
      refine ⟨fun hc => absurd hc.1.1 hpos, fun _ => ⟨.argvIndex (-1), ?_⟩⟩
      simp only [parseInput, ht, stripMarker_nil hr, bind, Except.bind]
  · have hstart : (⟨buf, 0, fun _ => none⟩ : Args).buf.StringAt 0 k := h
    obtain ⟨e, he⟩ := (splitLoop_spec hstart hlt fun _ _ => rfl).2 (by
      dsimp only
      omega) (Nat.zero_le _)
    refine ⟨fun hc => absurd hc.1.2 hle, fun _ => ⟨e, ?_⟩⟩
    simp only [parseInput, he, bind, Except.bind]

end Parse

section Law

variable {args fs : List (List UInt8)} {spacing : Spacing}

/-- The cleared buffer shows the empty line. -/
lemma shows_clearBuf (buf : Bytes) : (⟨clearBuf buf inputBufSize, 0, []⟩ : Line).Shows [] where
  i := rfl
  le := by decide
  buf := fun x hx => if_pos hx

/-- The line stands in the buffer as a string. -/
lemma Line.Shows.stringAt (h : s.Shows line) (hlt : line.length < inputBufSize) :
    s.buf.StringAt 0 (line.takeWhile (· ≠ 0)) := by
  have hlist := Bytes.stringAt_ofList line 0
  rw [List.drop_zero] at hlist
  refine hlist.congr fun i hi => h.buf _ ?_
  have hle := (List.takeWhile_sublist (p := (· ≠ (0 : UInt8))) (l := line)).length_le
  omega

lemma length_content_le (keys : List (Option UInt8)) :
    (content keys).length ≤ (kept keys).length :=
  (List.takeWhile_sublist (p := (· ≠ (0 : UInt8))) (l := kept keys)).length_le

/-- A line has no more arguments than spaces. -/
lemma length_args_le {k f : List UInt8} {c : Cmd} (hsplit : k.splitOn 32 = f :: fs)
    (hwords : spacing.words k = c.name :: args) : args.length ≤ k.count 32 := by
  have hlen := length_fields hsplit
  cases spacing with
  | single =>
    obtain ⟨-, rfl⟩ := List.cons.inj (hsplit.symm.trans hwords)
    exact hlen.le
  | runs =>
    have hle := (List.filter_sublist (p := (· ≠ ([] : List UInt8))) (l := k.splitOn 32)).length_le
    rw [show (k.splitOn 32).filter (· ≠ []) = _ from hwords, hsplit, List.length_cons,
      List.length_cons] at hle
    omega

lemma unmarked_of_not (h : ¬ Marked args) : unmarked args = args := if_neg h

lemma not_marked_of_unmarked (h : unmarked args = args) : ¬ Marked args := by
  intro hm
  rw [unmarked, if_pos hm] at h
  have hlen := congrArg List.length h
  rw [List.length_dropLast] at hlen
  obtain rfl : args = [] := List.length_eq_zero_iff.1 (by omega)
  exact not_marked_nil hm

/-- Taking the marker off is no way to get rid of empty arguments. -/
lemma unmarked_eq_filter (h : unmarked fs = fs.filter (· ≠ [])) : fs.filter (· ≠ []) = fs := by
  by_cases hm : Marked fs
  · exfalso
    obtain ⟨t, ht, hhead⟩ := hm
    have hne : t ≠ [] := by
      rintro rfl
      simp at hhead
    rw [unmarked, if_pos ⟨t, ht, hhead⟩] at h
    obtain ⟨l, rfl⟩ : ∃ l, fs = l ++ [t] := ⟨_, (List.dropLast_append_getLast? t ht).symm⟩
    rw [List.dropLast_concat, List.filter_append, List.filter_cons_of_pos (by simpa using hne),
      List.filter_nil] at h
    have hle := (List.filter_sublist (p := (· ≠ ([] : List UInt8))) (l := l)).length_le
    have hall : ∀ u ∈ l, (decide (u ≠ []) : Bool) = true := by
      intro u hu
      rw [h, List.mem_append, List.mem_singleton, List.mem_filter] at hu
      rcases hu with ⟨-, hu⟩ | rfl
      · exact hu
      · simpa using hne
    rw [List.filter_eq_self.2 hall] at h
    simpa using congrArg List.length h
  · rw [unmarked_of_not hm] at h
    exact h.symm

/-- Reading and parsing a line of keys is safe and faithful if and only if no key but
backspace is pressed when the line fills the buffer, the line has one to sixteen spaces, the
command finds the arguments it reads, and, for a command with arguments, no argument but the
marker begins with `&` and (where a run of spaces is one separator) no two spaces meet. -/
theorem tokenising_iff (spacing : Spacing) (replies : Replies) (buf : Bytes)
    (hkeys : some enter ∉ keys) :
    TokenisingOk spacing replies buf keys ↔ Tokenisable spacing keys := by
  obtain ⟨hfitsOk, hfitsError⟩ := readKeyboard_iff (shows_clearBuf buf) hkeys
  obtain ⟨f, fs, hsplit⟩ := List.exists_cons_of_ne_nil
    (show (content keys).splitOn 32 ≠ [] from List.splitOnP_ne_nil _ _)
  constructor
  · rintro ⟨line, r, hline, hparse, hfun⟩
    have hfits : Fits keys := by
      by_contra hno
      obtain ⟨e, he⟩ := hfitsError hno
      exact absurd (hline.symm.trans he) (by simp)
    obtain ⟨line', hline', hshows, hlt⟩ := hfitsOk hfits
    obtain rfl : line = line' := Option.some.inj (Except.ok.inj (hline.symm.trans hline'))
    have hstring := hshows.stringAt hlt
    obtain ⟨hok, herror⟩ := @parseInput_spec line.buf _ f fs replies hstring
      ((length_content_le keys).trans_lt hlt) hsplit
    have hcond : (0 < (content keys).count 32 ∧ (content keys).count 32 ≤ maxArg) ∧
        ∀ c : Cmd, f = c.name → c.Needs (unmarked fs) := by
      by_contra hno
      obtain ⟨e, he⟩ := herror hno
      exact absurd (hparse.symm.trans he) (by simp)
    obtain ⟨r', hr', hof⟩ := hok hcond
    obtain rfl : r = r' := Except.ok.inj (hparse.symm.trans hr')
    refine ⟨hfits, hcond.1, fun c args hargs => ?_, fun c args hwords hmark => ?_⟩
    · rw [hsplit] at hargs
      obtain ⟨rfl, rfl⟩ := List.cons.inj hargs
      exact hcond.2 c rfl
    · -- `argc` and `argv` give the arguments back
      have hle := (length_args_le hsplit hwords).trans hcond.1.2
      obtain ⟨hargc, hargv, call, rest, hcalls, hcall⟩ := hfun c args hwords hle hmark
      have hunmarked : unmarked fs = args := by
        refine List.ext_getElem? fun i => ?_
        have hlen : (unmarked fs).length = args.length := hof.represents.argc.symm.trans hargc
        rcases Nat.lt_or_ge i maxArg with hi | hi
        · rw [← hof.represents.string i, hargv i hi]
        · rw [List.getElem?_eq_none (by omega), List.getElem?_eq_none (by omega)]
      cases spacing with
      | single =>
        obtain ⟨rfl, rfl⟩ := List.cons.inj (hsplit.symm.trans hwords)
        exact ⟨hsplit, not_marked_of_unmarked hunmarked⟩
      | runs =>
        have hne : f ≠ [] := by
          rintro rfl
          obtain ⟨fmt, xs, hprintf⟩ := hof.unknown fun c' hc' => by
            cases c' <;> exact absurd hc' (by decide)
          rw [hprintf] at hcalls
          obtain ⟨rfl, -⟩ := List.cons.inj hcalls
          exact not_calls_printf c hcall
        have hfilter : (f :: fs).filter (· ≠ []) = c.name :: args := by
          rw [← hsplit]
          exact hwords
        rw [List.filter_cons_of_pos (by simpa using hne)] at hfilter
        obtain ⟨rfl, hargs⟩ := List.cons.inj hfilter
        have hfs := unmarked_eq_filter (hunmarked.trans hargs.symm)
        obtain rfl : fs = args := hfs.symm.trans hargs
        exact ⟨hsplit, not_marked_of_unmarked hunmarked⟩
  · intro h
    obtain ⟨line, hline, hshows, hlt⟩ := hfitsOk h.fits
    have hstring := hshows.stringAt hlt
    obtain ⟨hok, -⟩ := @parseInput_spec line.buf _ f fs replies hstring
      ((length_content_le keys).trans_lt hlt) hsplit
    obtain ⟨r, hr, hof⟩ := hok ⟨h.spaces, fun c hc => h.needs c fs (by rw [hsplit, hc])⟩
    refine ⟨line, r, hline, hr, fun c args hwords hle hmark => ?_⟩
    obtain ⟨hargs, hnot⟩ := h.words c args hwords hmark
    obtain ⟨rfl, rfl⟩ := List.cons.inj (hsplit.symm.trans hargs)
    have hrep := hof.represents
    rw [unmarked_of_not hnot] at hrep
    refine ⟨hrep.argc, fun i _ => hrep.string i, ?_⟩
    have hknown := hof.known c rfl
    rwa [unmarked_of_not hnot] at hknown


/-- Keys for a text. -/
def keysOf (text : List Char) : List (Option UInt8) := text.map fun c => some c.toUInt8

lemma length_foldl_edit (keys : List (Option UInt8)) (line : List UInt8) :
    (keys.foldl edit line).length ≤ line.length + keys.length := by
  induction keys generalizing line with
  | nil => exact le_rfl
  | cons k keys ih =>
    have hedit : (edit line k).length ≤ line.length + 1 := by
      cases k with
      | none => exact Nat.le_succ _
      | some ch =>
        rw [edit]
        split
        · rw [List.length_dropLast]
          omega
        · rw [List.length_append, List.length_singleton]
    rw [List.foldl_cons, List.length_cons]
    exact (ih (edit line k)).trans (by omega)

/-- Fewer keys than the buffer has bytes always fit. -/
lemma fits_of_length (h : keys.length < inputBufSize) : Fits keys := by
  intro pre ch post heq _
  have hlen := congrArg List.length heq
  simp only [List.length_append, List.length_cons, List.length_nil] at hlen
  have hpre : (kept pre).length ≤ 0 + pre.length := length_foldl_edit pre []
  omega

/-- `exec a  b` where the second space is deleted again. -/
def execKeys : List (Option UInt8) :=
  keysOf ['e', 'x', 'e', 'c', ' ', 'a', ' ', ' '] ++ [none, some 127] ++ keysOf ['b']

theorem tokenising_iff_execKeys : TokenisingOk .runs ⟨2, 0⟩ .zero execKeys := by
  have hwords : Spacing.runs.words (content execKeys) = [Cmd.exec.name, [97], [98]] := by decide
  have hfields : (content execKeys).splitOn 32 = [Cmd.exec.name, [97], [98]] := by decide
  refine (tokenising_iff .runs ⟨2, 0⟩ .zero (by decide)).2 ⟨fits_of_length (by decide),
    by decide, fun c args hargs => ?_, fun c args hargs _ => ?_⟩
  · obtain ⟨hc, rfl⟩ := List.cons.inj (hfields.symm.trans hargs)
    obtain rfl := name_injective hc
    exact (by decide : unmarked [[97], [98]] ≠ [])
  · obtain ⟨hc, rfl⟩ := List.cons.inj (hwords.symm.trans hargs)
    obtain rfl := name_injective hc
    exact ⟨hfields, by decide⟩

/-- How reading and parsing a line goes wrong, if it does. -/
def fault (replies : Replies) (buf : Bytes) (keys : List (Option UInt8)) : Option Fault :=
  match readKeyboard (clearBuf buf inputBufSize) (keys ++ [some enter]) with
  | .error f => some f
  | .ok none => none
  | .ok (some line) =>
    match parseInput replies line.buf with
    | .error f => some f
    | .ok _ => none

lemma TokenisingOk.fault {replies : Replies} (h : TokenisingOk spacing replies buf keys) :
    fault replies buf keys = none := by
  obtain ⟨line, r, hline, hparse, -⟩ := h
  simp only [User.fault, hline, hparse]

/-- `ps` has no argument: `parse_input` reads `argv[-1]`.  The option of `ls a` is looked for
through a null pointer, and 128 characters leave no room for the zero byte. -/
theorem tokenising_fails :
    fault ⟨0, 0⟩ .zero (keysOf ['p', 's']) = some (.argvIndex (-1)) ∧
      fault ⟨0, 0⟩ .zero (keysOf ['l', 's', ' ', 'a']) = some .null ∧
      fault ⟨0, 0⟩ .zero (keysOf (List.replicate 128 'a')) = some (.bufWrite 128) ∧
      ∀ spacing, ¬ TokenisingOk spacing ⟨0, 0⟩ .zero (keysOf ['p', 's']) := by
  have hps : fault ⟨0, 0⟩ .zero (keysOf ['p', 's']) = some (.argvIndex (-1)) := by decide
  refine ⟨hps, by decide, by decide +kernel, fun spacing hok => ?_⟩
  rw [hok.fault] at hps
  cases hps

end Law

end User
end UcasKernel
