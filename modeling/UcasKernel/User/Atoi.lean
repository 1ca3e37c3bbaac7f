/-
Reading numbers: `atol` and `atoi` of `tiny_libc/atoi.c`, with the character classes of
`tiny_libc/include/ctype.h`.

The loops take a number of rounds that they may run, and `none` is a call that has not
returned within it.  A `long` is a word of 64 bits, so that the value is computed modulo
`2 ^ 64`.

The loop over the blanks has an empty body: on a string that begins with white space it
never ends.  On all other strings `atol` returns what its grammar says.
-/
import Mathlib.Data.Nat.Digits.Defs
import UcasKernel.Lib.CString

namespace UcasKernel
namespace User

/-! ## `ctype.h` -/

def isdigit (ch : UInt8) : Bool := '0'.toUInt8 ≤ ch && ch ≤ '9'.toUInt8

def isxdigit (ch : UInt8) : Bool :=
  isdigit ch || ('a'.toUInt8 ≤ ch && ch ≤ 'f'.toUInt8) || ('A'.toUInt8 ≤ ch && ch ≤ 'F'.toUInt8)

/-- A blank, tab, line feed, vertical tab, form feed or carriage return. -/
def isspace (ch : UInt8) : Bool :=
  ch = 32 || ch = 9 || ch = 10 || ch = 11 || ch = 12 || ch = 13

/-! ## The functions -/

/-- `while (isspace( *str))`, whose body is empty. -/
def skipBlanks (mem : Bytes) (str : ℕ) : ℕ → Option ℕ
  | 0 => none
  | fuel + 1 => if isspace (mem str) then skipBlanks mem str fuel else some str

/-- The loop behind "Start converting"; `none` as a result is its `return 0`. -/
def convert (mem : Bytes) (base : ℕ) : ℕ → ℕ → BitVec 64 → Option (Option (BitVec 64))
  | 0, _, _ => none
  | fuel + 1, str, ret =>
    let ch := mem str
    if ch = 0 then some (some ret)
    else if isdigit ch then
      convert mem base fuel (str + 1) (ret * .ofNat 64 base + .ofNat 64 (ch.toNat - '0'.toNat))
    else if base = 16 then
      if 'a'.toUInt8 ≤ ch ∧ ch ≤ 'f'.toUInt8 then
        convert mem base fuel (str + 1)
          (ret * .ofNat 64 base + .ofNat 64 (ch.toNat - 'a'.toNat + 10))
      else if 'A'.toUInt8 ≤ ch ∧ ch ≤ 'F'.toUInt8 then
        convert mem base fuel (str + 1)
          (ret * .ofNat 64 base + .ofNat 64 (ch.toNat - 'A'.toNat + 10))
      else some none
    else some none

/-- `atol` behind the sign: the prefix, the digits and the result. -/
def atolFrom (mem : Bytes) (negative : Bool) (str fuel : ℕ) : Option (BitVec 64) :=
  let (base, str) :=
    if (mem str = '0'.toUInt8 ∧ mem (str + 1) = 'x'.toUInt8) ∨
        (mem str = '0'.toUInt8 ∧ mem (str + 1) = 'X'.toUInt8) then (16, str + 1 + 1)
    else (10, str)
  match convert mem base fuel str 0 with
  | none => none
  | some none => some 0
  | some (some ret) => some (if negative then -ret else ret)

/-- `atol`. -/
def atol (mem : Bytes) (str : Option ℕ) (fuel : ℕ) : Option (BitVec 64) :=
  match str with
  | none => some 0
  | some str => do
    let str ← skipBlanks mem str fuel
    if mem str = '+'.toUInt8 then atolFrom mem false (str + 1) fuel
    else if mem str = '-'.toUInt8 then atolFrom mem true (str + 1) fuel
    else if isdigit (mem str) then atolFrom mem false str fuel
    else some 0

/-- `atoi`. -/
def atoi (mem : Bytes) (str : Option ℕ) (fuel : ℕ) : Option ℤ :=
  (atol mem str fuel).map fun v => (v.setWidth 32).toInt

/-! ## The grammar -/

/-- The value of a digit. -/
def digitValue (ch : UInt8) : ℕ :=
  if isdigit ch then ch.toNat - '0'.toNat
  else if 'a'.toUInt8 ≤ ch then ch.toNat - 'a'.toNat + 10
  else ch.toNat - 'A'.toNat + 10

/-- A sign, and whether it is a minus. -/
inductive Sign : List UInt8 → Bool → Prop
  | absent : Sign [] false
  | plus : Sign ['+'.toUInt8] false
  | minus : Sign ['-'.toUInt8] true

/-- Decimal digits, or `0x` and hexadecimal digits, with their value. -/
inductive Numeral : List UInt8 → ℕ → Prop
  | decimal {ds : List UInt8} (hne : ds ≠ []) (hds : ∀ d ∈ ds, isdigit d = true) :
    Numeral ds (Nat.ofDigits 10 (ds.map digitValue).reverse)
  | hexadecimal {x : UInt8} {ds : List UInt8} (hx : x = 'x'.toUInt8 ∨ x = 'X'.toUInt8)
      (hds : ∀ d ∈ ds, isxdigit d = true) :
    Numeral ('0'.toUInt8 :: x :: ds) (Nat.ofDigits 16 (ds.map digitValue).reverse)

/-- White space, a sign and a numeral, with the value of the whole. -/
inductive Number : List UInt8 → ℤ → Prop
  | mk {blanks sign numeral : List UInt8} {negative : Bool} {n : ℕ}
      (hblanks : ∀ c ∈ blanks, isspace c = true) (hsign : Sign sign negative)
      (hnumeral : Numeral numeral n) :
    Number (blanks ++ (sign ++ numeral)) (if negative then -n else n)

/-- The call of `atol` on the string at `a` returns `v`. -/
def Returns (mem : Bytes) (a : ℕ) (v : BitVec 64) : Prop := ∃ fuel, atol mem (some a) fuel = some v

/-- What is promised of the call on the string `s` at `a`: it returns, on a number with the
number modulo `2 ^ 64`, and on every other string with 0. -/
structure AtolExact (mem : Bytes) (a : ℕ) (s : List UInt8) : Prop where
  returns : ∃ v, Returns mem a v
  number : ∀ z, Number s z → Returns mem a (.ofInt 64 z)
  other : (∀ z, ¬ Number s z) → Returns mem a 0

variable {mem : Bytes} {a : ℕ} {s : List UInt8} {c : UInt8} {base fuel : ℕ} {ret : BitVec 64}

/-! ## The loop over the blanks -/

lemma skipBlanks_of_space (h : isspace (mem a) = true) (fuel : ℕ) :
    skipBlanks mem a fuel = none := by
  induction fuel with
  | zero => rfl
  | succ fuel ih => rw [skipBlanks, if_pos h, ih]

lemma skipBlanks_of_not_space (h : isspace (mem a) = false) (fuel : ℕ) :
    skipBlanks mem a (fuel + 1) = some a := by
  rw [skipBlanks, h]
  exact if_neg Bool.false_ne_true

/-- On a string that begins with white space the call does not return. -/
lemma atol_of_space (h : isspace (mem a) = true) (fuel : ℕ) : atol mem (some a) fuel = none := by
  simp only [atol, skipBlanks_of_space h, Option.bind_eq_bind, Option.bind_none]

/-! ## The loop over the digits -/

/-- The digits of the base that `atol` chooses. -/
def isDigitOf (base : ℕ) (ch : UInt8) : Bool := if base = 16 then isxdigit ch else isdigit ch

lemma isxdigit_of_isdigit (h : isdigit c = true) : isxdigit c = true := by simp [isxdigit, h]

lemma isDigitOf_of_isdigit (h : isdigit c = true) : isDigitOf base c = true := by
  rw [isDigitOf, isxdigit_of_isdigit h, h, ite_self]

/-- One round on a digit. -/
lemma convert_digit (hc : mem a = c) (hne : c ≠ 0) (hd : isDigitOf base c = true) :
    convert mem base (fuel + 1) a ret =
      convert mem base fuel (a + 1) (ret * .ofNat 64 base + .ofNat 64 (digitValue c)) := by
  rw [convert, hc]
  simp only [if_neg hne]
  by_cases hdigit : isdigit c = true
  · rw [if_pos hdigit, digitValue, if_pos hdigit]
  · rw [if_neg hdigit, digitValue, if_neg hdigit]
    rw [isDigitOf] at hd
    by_cases hbase : base = 16
    · rw [if_pos hbase, isxdigit] at hd
      rw [if_pos hbase]
      by_cases hlow : 'a'.toUInt8 ≤ c ∧ c ≤ 'f'.toUInt8
      · rw [if_pos hlow, if_pos hlow.1]
      · have hup : 'A'.toUInt8 ≤ c ∧ c ≤ 'F'.toUInt8 := by
          simpa [hdigit, hlow] using hd
        have hnot : ¬ 'a'.toUInt8 ≤ c := fun hle => by
          have h1 := UInt8.le_iff_toNat_le.1 hle
          have h2 := UInt8.le_iff_toNat_le.1 hup.2
          exact absurd (h1.trans h2) (by decide)
        rw [if_neg hlow, if_pos hup, if_neg hnot]
    · rw [if_neg hbase] at hd
      exact absurd hd hdigit

/-- A round on another character. -/
lemma convert_other (hc : mem a = c) (hne : c ≠ 0) (hd : isDigitOf base c = false) :
    convert mem base (fuel + 1) a ret = some none := by
  have hdigit : isdigit c = false :=
    Bool.eq_false_iff.2 fun h => Bool.false_ne_true (hd.symm.trans (isDigitOf_of_isdigit h))
  rw [convert, hc]
  simp only [if_neg hne, hdigit]
  rw [isDigitOf] at hd
  by_cases hbase : base = 16
  · rw [if_pos hbase] at hd
    simp only [isxdigit, hdigit, Bool.false_or, Bool.or_eq_false_iff, Bool.and_eq_false_iff,
      decide_eq_false_iff_not] at hd
    rw [if_neg Bool.false_ne_true, if_pos hbase, if_neg (by tauto), if_neg (by tauto)]
  · rw [if_neg Bool.false_ne_true, if_neg hbase]

/-- On digits only, the loop computes the value in the base. -/
lemma convert_digits (base : ℕ) (h : mem.StringAt a s) (hfuel : s.length < fuel)
    (hds : ∀ d ∈ s, isDigitOf base d = true) (n : ℕ) :
    convert mem base fuel a (.ofNat 64 n) =
      some (some (.ofNat 64 (s.foldl (fun v d => v * base + digitValue d) n))) := by
  induction s generalizing a fuel n with
  | nil =>
    obtain ⟨fuel, rfl⟩ : ∃ m, fuel = m + 1 := ⟨fuel - 1, by simp at hfuel; omega⟩
    rw [convert, show mem a = 0 from h]
    rfl
  | cons c s ih =>
    obtain ⟨fuel, rfl⟩ : ∃ m, fuel = m + 1 := ⟨fuel - 1, by simp at hfuel; omega⟩
    rw [convert_digit h.1 h.2.1 (hds c List.mem_cons_self), ← BitVec.ofNat_mul, ← BitVec.ofNat_add]
    exact ih h.2.2 (by simpa using hfuel) (fun d hd => hds d (List.mem_cons_of_mem _ hd)) _

/-- On any other string the loop gives up. -/
lemma convert_of_other (h : mem.StringAt a s) (hfuel : s.length < fuel)
    (hother : ∃ d ∈ s, isDigitOf base d = false) (ret : BitVec 64) :
    convert mem base fuel a ret = some none := by
  induction s generalizing a fuel ret with
  | nil =>
    obtain ⟨d, hd, -⟩ := hother
    cases hd
  | cons c s ih =>
    obtain ⟨fuel, rfl⟩ : ∃ m, fuel = m + 1 := ⟨fuel - 1, by simp at hfuel; omega⟩
    cases hc : isDigitOf base c with
    | false => exact convert_other h.1 h.2.1 hc
    | true =>
      rw [convert_digit h.1 h.2.1 hc]
      refine ih h.2.2 (by simpa using hfuel) ?_ _
      obtain ⟨d, hd, hdf⟩ := hother
      rcases List.mem_cons.1 hd with rfl | hd
      · exact absurd (hc.symm.trans hdf) (by simp)
      · exact ⟨d, hd, hdf⟩

lemma foldl_eq_ofDigits (base : ℕ) (ds : List UInt8) :
    ds.foldl (fun v d => v * base + digitValue d) 0 =
      Nat.ofDigits base (ds.map digitValue).reverse := by
  rw [Nat.ofDigits_eq_foldr, List.foldr_reverse, List.foldl_map]
  congr 1
  funext v d
  simp [Nat.add_comm, Nat.mul_comm]

/-! ## Behind the sign -/

lemma isdigit_ne_x (h : isdigit c = true) : c ≠ 'x'.toUInt8 ∧ c ≠ 'X'.toUInt8 := by
  refine ⟨?_, ?_⟩ <;>
  · rintro rfl
    exact absurd h (by decide)

lemma Numeral.cons {n : ℕ} (h : Numeral s n) : ∃ c t, s = c :: t ∧ isdigit c = true := by
  cases h with
  | decimal hne hds =>
    obtain ⟨c, t, rfl⟩ := List.exists_cons_of_ne_nil hne
    exact ⟨c, t, rfl, hds c List.mem_cons_self⟩
  | hexadecimal hx hds => exact ⟨_, _, rfl, by decide⟩

/-- Decimal digits do not begin with the prefix. -/
lemma second_ne_x (h : mem.StringAt a s) (hds : ∀ d ∈ s, isdigit d = true) :
    mem (a + 1) ≠ 'x'.toUInt8 ∧ mem (a + 1) ≠ 'X'.toUInt8 ∨ s = [] := by
  rcases eq_or_ne s [] with rfl | hne
  · exact .inr rfl
  · left
    rw [h.second hne]
    obtain ⟨c, t, rfl⟩ := List.exists_cons_of_ne_nil hne
    cases t with
    | nil => exact ⟨show (0 : UInt8) ≠ _ by decide, show (0 : UInt8) ≠ _ by decide⟩
    | cons d t => exact isdigit_ne_x (hds d (by simp))

/-- The prefix. -/
lemma exists_of_prefix {x : UInt8} (h : mem.StringAt a s) (h0 : mem a = '0'.toUInt8)
    (hx : mem (a + 1) = x) (hne : x ≠ 0) :
    ∃ ds, s = '0'.toUInt8 :: x :: ds ∧ mem.StringAt (a + 1 + 1) ds := by
  cases s with
  | nil => exact absurd (h0.symm.trans h) (by decide)
  | cons c s =>
    obtain ⟨hc, -, h⟩ := h
    cases s with
    | nil => exact absurd (hx.symm.trans h) hne
    | cons d s => exact ⟨s, by rw [← hc, h0, ← h.1, hx], h.2.2⟩

/-- The result for a string of digits behind the sign. -/
lemma result_eq (negative : Bool) (n : ℕ) :
    (if negative then -BitVec.ofNat 64 n else BitVec.ofNat 64 n) =
      BitVec.ofInt 64 (if negative then -(n : ℤ) else n) := by
  cases negative with
  | false => rfl
  | true => simp [BitVec.ofInt_neg]

lemma atolFrom_numeral {n : ℕ} (h : mem.StringAt a s) (hn : Numeral s n) (hfuel : s.length < fuel)
    (negative : Bool) :
    atolFrom mem negative a fuel = some (.ofInt 64 (if negative then -(n : ℤ) else n)) := by
  cases hn with
  | decimal hne hds =>
    have hx := (second_ne_x h hds).resolve_right hne
    have hloop := convert_digits 10 h hfuel hds 0
    rw [foldl_eq_ofDigits] at hloop
    rw [atolFrom, if_neg (by tauto)]
    dsimp only
    rw [show (0 : BitVec 64) = .ofNat 64 0 from rfl, hloop]
    exact congrArg some (result_eq negative _)
  | @hexadecimal x ds hx hds =>
    have hdigits : mem.StringAt (a + 1 + 1) ds := h.2.2.2.2
    have hxmem : mem (a + 1) = x := h.2.2.1
    have hfuel : ds.length < fuel := by
      rw [List.length_cons, List.length_cons] at hfuel
      omega
    have hloop := convert_digits 16 hdigits hfuel hds 0
    rw [foldl_eq_ofDigits] at hloop
    rw [atolFrom, if_pos (by rw [hxmem]; exact hx.imp (⟨h.1, ·⟩) (⟨h.1, ·⟩))]
    dsimp only
    rw [show (0 : BitVec 64) = .ofNat 64 0 from rfl, hloop]
    exact congrArg some (result_eq negative _)

lemma atolFrom_other (h : mem.StringAt a s) (hn : ∀ n, ¬ Numeral s n) (hfuel : s.length < fuel)
    (negative : Bool) : atolFrom mem negative a fuel = some 0 := by
  by_cases hpre : (mem a = '0'.toUInt8 ∧ mem (a + 1) = 'x'.toUInt8) ∨
      (mem a = '0'.toUInt8 ∧ mem (a + 1) = 'X'.toUInt8)
  · rw [atolFrom, if_pos hpre]
    dsimp only
    obtain ⟨x, hx, hmem, h0, hne⟩ : ∃ x, (x = 'x'.toUInt8 ∨ x = 'X'.toUInt8) ∧
        mem (a + 1) = x ∧ mem a = '0'.toUInt8 ∧ x ≠ 0 := by
      rcases hpre with ⟨h0, hx⟩ | ⟨h0, hx⟩
      · exact ⟨_, .inl rfl, hx, h0, by decide⟩
      · exact ⟨_, .inr rfl, hx, h0, by decide⟩
    obtain ⟨ds, rfl, hdigits⟩ := exists_of_prefix h h0 hmem hne
    have hother : ∃ d ∈ ds, isDigitOf 16 d = false := by
      by_contra hall
      push Not at hall
      exact hn _ (.hexadecimal hx fun d hd => by simpa [isDigitOf] using hall d hd)
    rw [convert_of_other hdigits (by simp at hfuel; omega) hother]
  · rw [atolFrom, if_neg hpre]
    dsimp only
    rcases eq_or_ne s [] with rfl | hne
    · -- no digit at all: the loop ends at once with its first value
      have hloop := convert_digits 10 h hfuel (by simp) 0
      rw [show (0 : BitVec 64) = .ofNat 64 0 from rfl, hloop]
      cases negative <;> rfl
    · have hother : ∃ d ∈ s, isDigitOf 10 d = false := by
        by_contra hall
        push Not at hall
        exact hn _ (.decimal hne fun d hd => by simpa [isDigitOf] using hall d hd)
      rw [convert_of_other h hfuel hother]

/-! ## The whole -/

/-- A number that does not begin with white space has no white space. -/
lemma Number.of_not_space {z : ℤ} (h : Number (c :: s) z) (hc : isspace c = false) :
    ∃ sign numeral negative, ∃ n : ℕ, c :: s = sign ++ numeral ∧ Sign sign negative ∧
      Numeral numeral n ∧ z = if negative then -(n : ℤ) else n := by
  obtain ⟨t, ht⟩ : ∃ t, t = c :: s := ⟨_, rfl⟩
  rw [← ht] at h ⊢
  cases h with
  | @mk blanks sign numeral negative n hblanks hsign hnumeral =>
    cases blanks with
    | nil => exact ⟨sign, numeral, negative, n, rfl, hsign, hnumeral, rfl⟩
    | cons d blanks =>
      rw [List.cons_append, List.cons.injEq] at ht
      have hd := hblanks d List.mem_cons_self
      rw [ht.1, hc] at hd
      exact absurd hd Bool.false_ne_true

lemma Number.of_sign {sign numeral : List UInt8} {negative : Bool} {n : ℕ}
    (hsign : Sign sign negative) (hnumeral : Numeral numeral n) :
    Number (sign ++ numeral) (if negative then -(n : ℤ) else n) :=
  @Number.mk [] sign numeral negative n (by simp) hsign hnumeral

/-- The result for the string `s`. -/
structure Result (s : List UInt8) (v : BitVec 64) : Prop where
  number : ∀ z, Number s z → v = .ofInt 64 z
  other : (∀ z, ¬ Number s z) → v = 0

lemma Result.zero (h : ∀ z, ¬ Number s z) : Result s 0 :=
  ⟨fun z hz => absurd hz (h z), fun _ => rfl⟩

/-- A part behind the sign that decides the whole. -/
lemma result_of_part {t : List UInt8} {b : ℕ} (negative : Bool) (ht : mem.StringAt b t)
    (hfuel : t.length < fuel)
    (hnumber : ∀ z, Number s z ↔ ∃ n : ℕ, Numeral t n ∧ z = if negative then -(n : ℤ) else n) :
    ∃ v, atolFrom mem negative b fuel = some v ∧ Result s v := by
  have hexact : ∀ z, Number s z → atolFrom mem negative b fuel = some (.ofInt 64 z) := by
    intro z hz
    obtain ⟨n, hn, rfl⟩ := (hnumber z).1 hz
    exact atolFrom_numeral ht hn hfuel negative
  by_cases hn : ∃ n, Numeral t n
  · obtain ⟨n, hn⟩ := hn
    have hz := (hnumber _).2 ⟨n, hn, rfl⟩
    refine ⟨_, hexact _ hz, fun z hz' => ?_, fun hno => absurd hz (hno _)⟩
    exact Option.some.inj ((hexact _ hz).symm.trans (hexact z hz'))
  · push Not at hn
    refine ⟨0, atolFrom_other ht hn hfuel negative, .zero fun z hz => ?_⟩
    obtain ⟨n, hn', -⟩ := (hnumber z).1 hz
    exact hn n hn'

/-- The call on a string that does not begin with white space needs no more rounds than
the string is long. -/
theorem atol_result (h : mem.StringAt a s) (hs : ∀ c ∈ s.head?, isspace c = false)
    (hfuel : s.length < fuel) : ∃ v, atol mem (some a) fuel = some v ∧ Result s v := by
  obtain ⟨fuel, rfl⟩ : ∃ m, fuel = m + 1 := ⟨fuel - 1, by omega⟩
  have hskip : skipBlanks mem a (fuel + 1) = some a := by
    refine skipBlanks_of_not_space ?_ fuel
    cases s with
    | nil =>
      rw [show mem a = 0 from h]
      decide
    | cons c s =>
      rw [h.1]
      exact hs c rfl
  cases s with
  | nil =>
    refine ⟨0, ?_, .zero fun z hz => ?_⟩
    · simp only [atol, hskip, show mem a = 0 from h, Option.bind_eq_bind, Option.bind_some]
      rfl
    · -- an empty string is no number
      obtain ⟨t, ht⟩ : ∃ t : List UInt8, t = [] := ⟨_, rfl⟩
      rw [← ht] at hz
      cases hz with
      | mk hblanks hsign hnumeral =>
        obtain ⟨d, u, rfl, -⟩ := hnumeral.cons
        simp at ht
  | cons c s =>
    have hc : isspace c = false := hs c rfl
    have hlen : s.length < fuel + 1 := by
      rw [List.length_cons] at hfuel
      omega
    have hatol : atol mem (some a) (fuel + 1) =
        if c = '+'.toUInt8 then atolFrom mem false (a + 1) (fuel + 1)
        else if c = '-'.toUInt8 then atolFrom mem true (a + 1) (fuel + 1)
        else if isdigit c then atolFrom mem false a (fuel + 1) else some 0 := by
      simp only [atol, hskip, h.1, Option.bind_eq_bind, Option.bind_some]
    have hinv : ∀ z, Number (c :: s) z → ∃ sign numeral negative, ∃ n : ℕ,
        c :: s = sign ++ numeral ∧ Sign sign negative ∧ Numeral numeral n ∧
          z = if negative then -(n : ℤ) else n := fun z hz => hz.of_not_space hc
    by_cases hplus : c = '+'.toUInt8
    · rw [hatol, if_pos hplus]
      refine result_of_part false h.2.2 hlen fun z => ⟨fun hz => ?_, ?_⟩
      · obtain ⟨sign, numeral, negative, n, heq, hsign, hnumeral, rfl⟩ := hinv z hz
        cases hsign with
        | absent =>
          obtain ⟨d, t, rfl, hd⟩ := hnumeral.cons
          rw [← (List.cons.inj heq).1, hplus] at hd
          exact absurd hd (by decide)
        | plus => exact ⟨n, (List.cons.inj heq).2 ▸ hnumeral, rfl⟩
        | minus => exact absurd (hplus.symm.trans (List.cons.inj heq).1) (by decide)
      · rintro ⟨n, hn, rfl⟩
        exact hplus ▸ Number.of_sign .plus hn
    · by_cases hminus : c = '-'.toUInt8
      · rw [hatol, if_neg hplus, if_pos hminus]
        refine result_of_part true h.2.2 hlen fun z => ⟨fun hz => ?_, ?_⟩
        · obtain ⟨sign, numeral, negative, n, heq, hsign, hnumeral, rfl⟩ := hinv z hz
          cases hsign with
          | absent =>
            obtain ⟨d, t, rfl, hd⟩ := hnumeral.cons
            rw [← (List.cons.inj heq).1, hminus] at hd
            exact absurd hd (by decide)
          | plus => exact absurd (List.cons.inj heq).1 hplus
          | minus => exact ⟨n, (List.cons.inj heq).2 ▸ hnumeral, rfl⟩
        · rintro ⟨n, hn, rfl⟩
          exact hminus ▸ Number.of_sign .minus hn
      · -- no sign
        have hnumber : ∀ z, Number (c :: s) z ↔
            ∃ n : ℕ, Numeral (c :: s) n ∧ z = if false then -(n : ℤ) else n := by
          refine fun z => ⟨fun hz => ?_, ?_⟩
          · obtain ⟨sign, numeral, negative, n, heq, hsign, hnumeral, rfl⟩ := hinv z hz
            cases hsign with
            | absent => exact ⟨n, heq ▸ hnumeral, rfl⟩
            | plus => exact absurd (List.cons.inj heq).1 hplus
            | minus => exact absurd (List.cons.inj heq).1 hminus
          · rintro ⟨n, hn, rfl⟩
            exact Number.of_sign .absent hn
        rw [hatol, if_neg hplus, if_neg hminus]
        by_cases hdigit : isdigit c = true
        · rw [if_pos hdigit]
          exact result_of_part false h hfuel hnumber
        · refine ⟨0, if_neg hdigit, .zero fun z hz => ?_⟩
          obtain ⟨n, hn, -⟩ := (hnumber z).1 hz
          obtain ⟨d, t, heq, hd⟩ := hn.cons
          exact hdigit ((List.cons.inj heq).1 ▸ hd)

/-- `atol` does what is promised of it on exactly the strings that do not begin with white
space: on the others it does not return. -/
theorem atol_exact_iff (h : mem.StringAt a s) :
    AtolExact mem a s ↔ ∀ c ∈ s.head?, isspace c = false := by
  constructor
  · intro hexact c hc
    obtain ⟨v, fuel, hv⟩ := hexact.returns
    by_contra hspace
    have hmem : mem a = c := by
      rw [h.head, List.headD_eq_head?_getD, Option.mem_def.1 hc]
      rfl
    rw [atol_of_space (by rw [hmem]; simpa using hspace)] at hv
    cases hv
  · intro hs
    obtain ⟨v, hv, hresult⟩ := atol_result h hs (Nat.lt_succ_self s.length)
    refine ⟨⟨v, _, hv⟩, fun z hz => ⟨s.length + 1, ?_⟩, fun hno => ⟨s.length + 1, ?_⟩⟩
    · exact hresult.number z hz ▸ hv
    · exact hresult.other hno ▸ hv

/-- The text `-0x1F`. -/
def hexText : List UInt8 := ['-', '0', 'x', '1', 'F'].map Char.toUInt8

theorem atol_exact_iff_hexText : AtolExact (.ofList hexText) 0 hexText := by
  refine (@atol_exact_iff (.ofList hexText) 0 hexText (Bytes.stringAt_ofList hexText 0)).2 ?_
  intro c hc
  obtain rfl : '-'.toUInt8 = c := Option.some.inj hc
  decide

/-- A blank and a digit: no number of rounds is enough. -/
theorem atol_loops_on_blank :
    (Bytes.ofList [32, 55]).StringAt 0 [32, 55] ∧ Number [32, 55] 7 ∧
      (∀ fuel, atol (.ofList [32, 55]) (some 0) fuel = none) ∧
      ¬ AtolExact (.ofList [32, 55]) 0 [32, 55] := by
  have hloop : ∀ fuel, atol (.ofList [32, 55]) (some 0) fuel = none :=
    atol_of_space (by decide)
  refine ⟨⟨rfl, by decide, rfl, by decide, rfl⟩, ?_, hloop, fun hexact => ?_⟩
  · refine @Number.mk [32] [] [55] false _ (fun c hc => ?_) .absent
      (.decimal (by simp) fun d hd => ?_)
    · rw [List.mem_singleton.1 hc]
      decide
    · rw [List.mem_singleton.1 hd]
      decide
  · obtain ⟨v, fuel, hv⟩ := hexact.returns
    rw [hloop] at hv
    cases hv

end User
end UcasKernel
