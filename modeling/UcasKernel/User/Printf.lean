/-
Writing numbers: `printf` of `tiny_libc/printf.c`, and what `atol` makes of them.

`mini_vsnprintf` is the one of the kernel, apart from `mini_itoa`, which here divides with a
sign.  What it leaves in the buffer is the beginning of what the format says, and a number that
it has written is the number that `atol` reads.
-/
import Mathlib.Data.List.TakeWhile
import UcasKernel.Drivers.Printk
import UcasKernel.User.Atoi

namespace UcasKernel
namespace User

open Drivers (VaArg Mode putc puts vaNum cString)

/-! ## The functions -/

/-- A digit of `mini_itoa`, which may be negative. -/
def itoaChar (uppercase : Bool) (digit : ℤ) : UInt8 :=
  if digit < 10 then ⟨.ofInt 8 (48 + digit)⟩
  else ⟨.ofInt 8 ((if uppercase then 65 else 97) + digit - 10)⟩

/-- The loop of `mini_itoa`: the digits from the last one on, at most as many as given. -/
def itoaLoop (radix : ℕ) (uppercase : Bool) : ℕ → ℤ → List UInt8
  | 0, _ => []
  | n + 1, value =>
    itoaChar uppercase (value.tmod radix) ::
      if value.tdiv radix > 0 then itoaLoop radix uppercase n (value.tdiv radix) else []

/-- `mini_itoa` into the 24 bytes of `bf`.  The smallest `long` has no negation. -/
def miniItoa (value : BitVec 64) (radix : ℕ) (uppercase unsig : Bool) (zeroPad : ℕ) :
    Option (List UInt8) :=
  if radix > 16 then some []
  else
    let negative := value.msb && !unsig
    let value := if negative then -value else value
    if negative && value.msb then none
    else
      let digits := itoaLoop radix uppercase 64 value.toInt
      let padded := digits ++ List.replicate (zeroPad - digits.length) 48
      let pbuffer := if negative then padded ++ [45] else padded
      if pbuffer.length < 24 then some pbuffer.reverse else none

/-- What `mini_itoa` is called with, and the digits that it leaves. -/
abbrev Itoa := BitVec 64 → ℕ → Bool → Bool → ℕ → Option (List UInt8)

/-- The text of the conversions `%u`, `%d`, `%x` and `%X`. -/
def numText (itoa : Itoa) (radix : ℕ) (uppercase unsig longflag : Bool) (zeroPad : ℕ)
    (va : List VaArg) : Option (List VaArg × List UInt8) := do
  let (value, va) ← vaNum longflag va
  let bf ← itoa value radix uppercase unsig zeroPad
  some (va, bf)

/-- The conversion character, with the flag and the padding read before it. -/
def convertWith (itoa : Itoa) (bufferLen : ℕ) (ch : UInt8) (longflag : Bool) (zeroPad : ℕ)
    (va : List VaArg) (b : List UInt8) : Option (List VaArg × List UInt8) :=
  if ch = 108 then some (va, b)
  else if ch = 117 ∨ ch = 100 then
    (numText itoa 10 false (ch = 117) longflag zeroPad va).map fun (va, bf) =>
      (va, puts bufferLen b bf)
  else if ch = 120 ∨ ch = 88 then
    (numText itoa 16 (ch = 88) true longflag zeroPad va).map fun (va, bf) =>
      (va, puts bufferLen b bf)
  else if ch = 99 then
    match va with
    | .num v :: va => some (va, putc bufferLen b (UInt8.ofNat v.toNat))
    | _ => none
  else if ch = 115 then
    match va with
    | .str s :: va => some (va, puts bufferLen b (cString s))
    | _ => none
  else some (va, putc bufferLen b ch)

/-- `mini_vsnprintf` on the rest of the format.  `zero_pad` is a `char`. -/
def vsnprintfWith (itoa : Itoa) (bufferLen : ℕ) :
    Mode → List UInt8 → List VaArg → List UInt8 → Option (List UInt8)
  | _, [], _, b => some b
  | .text, ch :: fmt, va, b =>
    if b.length + 1 ≥ bufferLen then some b
    else if ch ≠ 37 then vsnprintfWith itoa bufferLen .text fmt va (putc bufferLen b ch)
    else vsnprintfWith itoa bufferLen .percent fmt va b
  | .percent, ch :: fmt, va, b =>
    if ch = 48 then vsnprintfWith itoa bufferLen (.zeroPad 0) fmt va b
    else if ch = 108 then vsnprintfWith itoa bufferLen (.long 0) fmt va b
    else do
      let (va, b) ← convertWith itoa bufferLen ch false 0 va b
      vsnprintfWith itoa bufferLen .text fmt va b
  | .zeroPad n, ch :: fmt, va, b =>
    if 48 ≤ ch ∧ ch ≤ 57 then
      vsnprintfWith itoa bufferLen (.zeroPad ((n * 10 + ch.toNat - 48) % 256)) fmt va b
    else if ch = 108 then vsnprintfWith itoa bufferLen (.long n) fmt va b
    else do
      let (va, b) ← convertWith itoa bufferLen ch false n va b
      vsnprintfWith itoa bufferLen .text fmt va b
  | .long n, ch :: fmt, va, b => do
    let (va, b) ← convertWith itoa bufferLen ch true n va b
    vsnprintfWith itoa bufferLen .text fmt va b

/-- `mini_vsnprintf`. -/
def miniVsnprintf : ℕ → Mode → List UInt8 → List VaArg → List UInt8 → Option (List UInt8) :=
  vsnprintfWith miniItoa

/-- `vprintf`: what is in `buff` when it is given to `sys_write`. -/
def vprintf (fmt : List UInt8) (va : List VaArg) : Option (List UInt8) :=
  miniVsnprintf 256 .text (cString fmt) va []

variable {itoa : Itoa} {bufferLen n : ℕ} {mode : Mode} {fmt b out : List UInt8}
  {va va' : List VaArg} {ch : UInt8} {longflag : Bool}

/-- The formatter of the kernel is the same function, with its own `mini_itoa`. -/
lemma convertWith_printk : convertWith Drivers.miniItoa bufferLen ch longflag n va b =
    Drivers.convert bufferLen ch longflag n va b := by
  have hnum : ∀ (radix : ℕ) (uppercase unsig : Bool),
      ((numText Drivers.miniItoa radix uppercase unsig longflag n va).map fun x =>
        (x.1, puts bufferLen b x.2)) =
        Drivers.convertNum bufferLen radix uppercase unsig longflag n va b := by
    intro radix uppercase unsig
    rw [numText, Drivers.convertNum]
    cases hva : vaNum longflag va with
    | none => rfl
    | some x =>
      obtain ⟨v, va⟩ := x
      simp only [Option.bind_eq_bind, Option.bind_some]
      cases Drivers.miniItoa v radix uppercase unsig n <;> rfl
  unfold convertWith Drivers.convert
  split_ifs <;> first | exact hnum .. | rfl

lemma vsnprintfWith_printk : vsnprintfWith Drivers.miniItoa bufferLen mode fmt va b =
    Drivers.miniVsnprintf bufferLen mode fmt va b := by
  induction fmt generalizing mode va b with
  | nil => cases mode <;> rfl
  | cons ch fmt ih =>
    cases mode <;>
      simp only [vsnprintfWith, Drivers.miniVsnprintf, convertWith_printk, ih]

/-! ## What the format says -/

/-- The text of a conversion. -/
def conversion (itoa : Itoa) (ch : UInt8) (longflag : Bool) (zeroPad : ℕ) (va : List VaArg) :
    Option (List VaArg × List UInt8) :=
  if ch = 108 then some (va, [])
  else if ch = 117 ∨ ch = 100 then numText itoa 10 false (ch = 117) longflag zeroPad va
  else if ch = 120 ∨ ch = 88 then numText itoa 16 (ch = 88) true longflag zeroPad va
  else if ch = 99 then
    match va with
    | .num v :: va => some (va, [UInt8.ofNat v.toNat])
    | _ => none
  else if ch = 115 then
    match va with
    | .str s :: va => some (va, cString s)
    | _ => none
  else some (va, [ch])

lemma putc_eq_puts (bufferLen : ℕ) (b : List UInt8) (ch : UInt8) :
    putc bufferLen b ch = puts bufferLen b [ch] := by
  rw [putc, puts]
  split_ifs with h
  · rw [show bufferLen - b.length - 1 = 0 by omega, List.take_zero, List.append_nil]
  · rw [List.take_of_length_le]
    simp only [List.length_singleton]
    omega

lemma puts_nil (bufferLen : ℕ) (b : List UInt8) : puts bufferLen b [] = b := by simp [puts]

lemma convertWith_eq : convertWith itoa bufferLen ch longflag n va b =
    (conversion itoa ch longflag n va).map fun x => (x.1, puts bufferLen b x.2) := by
  unfold convertWith conversion
  split_ifs
  · simp [puts_nil]
  · rfl
  · rfl
  · split <;> simp [putc_eq_puts]
  · split <;> simp
  · simp [putc_eq_puts]

/-- The digits of the two bases, as `atol` reads them. -/
lemma digit_cases (uppercase : Bool) {d : ℕ} (hd : d < 16) :
    digitValue (Drivers.itoaDigit uppercase d) = d ∧
      isxdigit (Drivers.itoaDigit uppercase d) = true ∧
      (d < 10 → isdigit (Drivers.itoaDigit uppercase d) = true) ∧
      itoaChar uppercase d = Drivers.itoaDigit uppercase d := by
  have hall : ∀ d < 16, ∀ uppercase : Bool, digitValue (Drivers.itoaDigit uppercase d) = d ∧
      isxdigit (Drivers.itoaDigit uppercase d) = true ∧
      (d < 10 → isdigit (Drivers.itoaDigit uppercase d) = true) ∧
      itoaChar uppercase d = Drivers.itoaDigit uppercase d := by decide
  exact hall d hd uppercase

variable {radix value : ℕ} {uppercase unsig : Bool} {ds text : List UInt8} {v : BitVec 64}
  {zeroPad : ℕ}

lemma mem_itoaDigits (hpos : 0 < radix) {c : UInt8}
    (hc : c ∈ Drivers.itoaDigits radix uppercase n value) :
    ∃ d < radix, c = Drivers.itoaDigit uppercase d := by
  induction n generalizing value with
  | zero => cases hc
  | succ n ih =>
    rw [Drivers.itoaDigits, List.mem_cons] at hc
    rcases hc with rfl | hc
    · exact ⟨_, Nat.mod_lt _ hpos, rfl⟩
    · split_ifs at hc
      · cases hc
      · exact ih hc

/-- The value of the digits. -/
lemma ofDigits_itoaDigits (hradix : 1 < radix) (hle : radix ≤ 16) (hvalue : value < radix ^ n) :
    Nat.ofDigits radix ((Drivers.itoaDigits radix uppercase n value).map digitValue) = value := by
  induction n generalizing value with
  | zero =>
    rw [Nat.pow_zero, Nat.lt_one_iff] at hvalue
    rw [hvalue]
    rfl
  | succ n ih =>
    have hmod : value % radix < 16 := (Nat.mod_lt _ (by omega)).trans_le hle
    have hsplit : value % radix + radix * (value / radix) = value := Nat.mod_add_div value radix
    rw [Drivers.itoaDigits, List.map_cons, Nat.ofDigits_cons, (digit_cases uppercase hmod).1]
    split_ifs with hzero
    · rw [hzero, Nat.mul_zero, Nat.add_zero] at hsplit
      simpa using hsplit
    · rw [ih (Nat.div_lt_of_lt_mul (by rwa [Nat.pow_succ'] at hvalue))]
      exact hsplit

/-- Without a sign the loops of the two `mini_itoa` are the same. -/
lemma itoaLoop_natCast (hpos : 0 < radix) (hle : radix ≤ 16) :
    itoaLoop radix uppercase n value = Drivers.itoaDigits radix uppercase n value := by
  induction n generalizing value with
  | zero => rfl
  | succ n ih =>
    have hmod : value % radix < 16 := (Nat.mod_lt _ hpos).trans_le hle
    have htmod : (value : ℤ).tmod radix = (value % radix : ℕ) := rfl
    have htdiv : (value : ℤ).tdiv radix = (value / radix : ℕ) := rfl
    rw [itoaLoop, Drivers.itoaDigits, htmod, htdiv, (digit_cases uppercase hmod).2.2.2, ih]
    by_cases hzero : value / radix = 0
    · rw [if_pos hzero, if_neg (by simp [hzero])]
    · rw [if_neg hzero, if_pos (Int.natCast_pos.2 (Nat.pos_of_ne_zero hzero))]

/-- The two `mini_itoa` differ on what is unsigned and does not fit a `long` only. -/
lemma miniItoa_eq (hpos : 0 < radix) (hv : unsig = true → v.msb = false) :
    miniItoa v radix uppercase unsig zeroPad =
      Drivers.miniItoa v radix uppercase unsig zeroPad := by
  unfold miniItoa Drivers.miniItoa
  by_cases hle : radix > 16
  · rw [if_pos hle, if_pos hle]
  rw [if_neg hle, if_neg hle]
  have hloop : ∀ x : BitVec 64, x.msb = false →
      itoaLoop radix uppercase 64 x.toInt = Drivers.itoaDigits radix uppercase 64 x.toNat := by
    intro x hx
    rw [BitVec.toInt_eq_toNat_of_msb hx, itoaLoop_natCast hpos (Nat.le_of_not_gt hle)]
  cases hneg : v.msb && !unsig with
  | true =>
    cases hmin : (-v).msb with
    | true => simp [hmin]
    | false => simp [hmin, hloop (-v) hmin]
  | false =>
    have hmsb : v.msb = false := by
      cases hu : unsig with
      | true => exact hv hu
      | false => simpa [hu] using hneg
    simp [hloop v hmsb]

/-- A number that does not begin with white space. -/
def Written (s : List UInt8) (z : ℤ) : Prop := Number s z ∧ ∀ c ∈ s.head?, isspace c = false

lemma written_of_sign {sign numeral : List UInt8} {negative : Bool} {n : ℕ}
    (hsign : Sign sign negative) (hnumeral : Numeral numeral n) :
    Written (sign ++ numeral) (if negative then -(n : ℤ) else n) := by
  refine ⟨Number.of_sign hsign hnumeral, fun c hc => ?_⟩
  have hdigit : ∀ c, isdigit c = true → isspace c = false := by
    intro c hc
    rw [← Bool.not_eq_true]
    intro hspace
    simp only [isspace, Bool.or_eq_true, decide_eq_true_eq] at hspace
    rcases hspace with ((((rfl | rfl) | rfl) | rfl) | rfl) | rfl
    all_goals exact absurd hc (by decide)
  cases hsign with
  | absent =>
    obtain ⟨d, t, rfl, hd⟩ := hnumeral.cons
    obtain rfl : d = c := Option.some.inj hc
    exact hdigit d hd
  | plus =>
    obtain rfl : '+'.toUInt8 = c := Option.some.inj hc
    decide
  | minus =>
    obtain rfl : '-'.toUInt8 = c := Option.some.inj hc
    decide

/-- `atol` reads a number that is written at an address. -/
lemma Written.returns {mem : Bytes} {a : ℕ} {s : List UInt8} {z : ℤ} (h : Written s z)
    (hs : mem.StringAt a s) : Returns mem a (.ofInt 64 z) := by
  obtain ⟨v, hv, hresult⟩ := atol_result hs h.2 (Nat.lt_succ_self s.length)
  exact ⟨_, hv.trans (congrArg some (hresult.number z h.1))⟩

/-- The digits and the zeros in front of them, in the order in which they are read. -/
lemma padded_digits (hradix : 1 < radix) (hle : radix ≤ 16) (hvalue : value < radix ^ 64) (k : ℕ)
    (hds : (Drivers.itoaDigits radix uppercase 64 value ++ List.replicate k 48).reverse = ds) :
    (∀ d ∈ ds, ∃ j < radix, d = Drivers.itoaDigit uppercase j) ∧ ds ≠ [] ∧
      Nat.ofDigits radix (ds.map digitValue).reverse = value := by
  subst hds
  refine ⟨fun d hd => ?_, ?_, ?_⟩
  · rw [List.mem_reverse, List.mem_append] at hd
    rcases hd with hd | hd
    · exact mem_itoaDigits (by omega) hd
    · exact ⟨0, by omega, List.eq_of_mem_replicate hd⟩
  · simp [Drivers.itoaDigits]
  · have hzero : digitValue 48 = 0 := by decide
    rw [List.map_reverse, List.reverse_reverse, List.map_append, List.map_replicate, hzero,
      Nat.ofDigits_append_replicate_zero, ofDigits_itoaDigits hradix hle hvalue]

/-- What `mini_itoa` has written in decimal. -/
lemma number_of_itoa (h : Drivers.miniItoa v 10 uppercase unsig zeroPad = some text) :
    Written text (if unsig then v.toNat else v.toInt) := by
  have hvalue : ∀ x : BitVec 64, x.toNat < 10 ^ 64 := fun x => x.isLt.trans (by decide)
  unfold Drivers.miniItoa at h
  rw [if_neg (by decide)] at h
  cases hneg : v.msb && !unsig with
  | true =>
    obtain ⟨hmsb, hu⟩ : v.msb = true ∧ unsig = false := by simpa using hneg
    simp only [hneg, if_true, Bool.true_and] at h
    split_ifs at h with hmin hlen
    rw [Option.some.injEq, List.reverse_append, List.reverse_singleton] at h
    obtain ⟨hall, hne, hval⟩ := padded_digits (by decide) (by decide) (hvalue (-v)) _ rfl
    have hnumeral := Numeral.decimal hne fun d hd => by
      obtain ⟨j, hj, rfl⟩ := hall d hd
      exact (digit_cases uppercase (hj.trans (by decide))).2.2.1 hj
    rw [hval] at hnumeral
    have hnum := written_of_sign .minus hnumeral
    have hz : v.toInt = -((-v).toNat : ℤ) := by
      have hlt := v.isLt
      rw [BitVec.msb_eq_decide, decide_eq_true_eq] at hmsb
      rw [BitVec.toInt_eq_toNat_cond, BitVec.toNat_neg]
      split_ifs <;> omega
    rw [hu, ← h, if_neg Bool.false_ne_true, hz]
    exact hnum
  | false =>
    simp only [hneg, Bool.false_eq_true, if_false, Bool.false_and] at h
    split_ifs at h with hlen
    rw [Option.some.injEq] at h
    obtain ⟨hall, hne, hval⟩ := padded_digits (by decide) (by decide) (hvalue v) _ h
    have hnumeral := Numeral.decimal hne fun d hd => by
      obtain ⟨j, hj, rfl⟩ := hall d hd
      exact (digit_cases uppercase (hj.trans (by decide))).2.2.1 hj
    rw [hval] at hnumeral
    have hnum := written_of_sign .absent hnumeral
    have hz : (if unsig then (v.toNat : ℤ) else v.toInt) = v.toNat := by
      cases hu : unsig with
      | true => rfl
      | false =>
        have hmsb : v.msb = false := by simpa [hu] using hneg
        exact BitVec.toInt_eq_toNat_of_msb hmsb
    rw [hz]
    exact hnum

/-- What `mini_itoa` has written in hexadecimal, behind `0x`. -/
lemma number_of_itoa_hex (h : Drivers.miniItoa v 16 uppercase true zeroPad = some text) :
    Written (48 :: 120 :: text) v.toNat := by
  unfold Drivers.miniItoa at h
  simp only [Bool.not_true, Bool.and_false, Bool.false_eq_true, if_false, Bool.false_and] at h
  split_ifs at h with hradix hlen
  · omega
  rw [Option.some.injEq] at h
  obtain ⟨hall, -, hval⟩ :=
    padded_digits (by decide) (by decide) (v.isLt.trans (by decide : 2 ^ 64 < 16 ^ 64)) _ h
  have hnumeral := Numeral.hexadecimal (Or.inl rfl) fun d hd => by
    obtain ⟨j, hj, rfl⟩ := hall d hd
    exact (digit_cases uppercase hj).2.1
  rw [hval] at hnumeral
  exact written_of_sign .absent hnumeral

/-! ## A number in a format -/

/-- The value that `va_arg` gives for a number. -/
def argument (longflag : Bool) (v : BitVec 64) : BitVec 64 :=
  if longflag then v else .ofNat 64 (v.toNat % 2 ^ 32)

/-- A format for one number: `%`, a zero and the digits of a width if there is one, an `l`, and the
conversion character.  Before a hexadecimal number stands `0x`. -/
def numFormat (width : Option (List UInt8)) (longflag : Bool) (ch : UInt8) : List UInt8 :=
  (if ch = 120 ∨ ch = 88 then [48, 120] else []) ++
    (37 :: (width.elim [] (48 :: ·) ++ ((if longflag then [108] else []) ++ [ch])))

section Format

variable {width : Option (List UInt8)}

/-- The conversion characters of numbers. -/
def IsNum (ch : UInt8) : Prop := ch = 117 ∨ ch = 100 ∨ ch = 120 ∨ ch = 88

instance (ch : UInt8) : Decidable (IsNum ch) := inferInstanceAs (Decidable (_ ∨ _))

lemma IsNum.not_flag (h : IsNum ch) :
    ch ≠ 0 ∧ ch ≠ 48 ∧ ch ≠ 108 ∧ ¬ (48 ≤ ch ∧ ch ≤ 57) ∧ ch ≠ 99 ∧ ch ≠ 115 := by
  rcases h with rfl | rfl | rfl | rfl <;> decide

lemma cString_numFormat (hch : IsNum ch) (hwidth : ∀ ds ∈ width, ∀ d ∈ ds, isdigit d = true) :
    cString (numFormat width longflag ch) = numFormat width longflag ch := by
  have hdigit : ∀ d, isdigit d = true → d ≠ 0 := by
    rintro d hd rfl
    exact absurd hd (by decide)
  rw [cString, List.takeWhile_eq_self_iff]
  intro c hc
  rw [decide_eq_true_eq]
  rw [numFormat, List.mem_append, List.mem_cons, List.mem_append, List.mem_append] at hc
  rcases hc with hc | rfl | hc | hc | hc
  · split_ifs at hc
    · rcases List.mem_pair.1 hc with rfl | rfl <;> decide
    · cases hc
  · decide
  · cases width with
    | none => cases hc
    | some ds =>
      rcases List.mem_cons.1 hc with rfl | hc
      · decide
      · exact hdigit c (hwidth ds rfl c hc)
  · split_ifs at hc
    · rw [List.mem_singleton.1 hc]
      decide
    · cases hc
  · rw [List.mem_singleton.1 hc]
    exact hch.not_flag.1

/-- Behind the width stand the `l` and the character. -/
lemma vsnprintfWith_flag (hch : IsNum ch) (hmode : mode = .percent ∧ n = 0 ∨ mode = .zeroPad n) :
    vsnprintfWith itoa bufferLen mode ((if longflag then [108] else []) ++ [ch]) va b =
      (convertWith itoa bufferLen ch longflag n va b).map Prod.snd := by
  obtain ⟨-, h48, h108, hdigit, -⟩ := hch.not_flag
  have hend : ∀ x : Option (List VaArg × List UInt8), (x >>= fun y =>
      vsnprintfWith itoa bufferLen .text [] y.1 y.2) = x.map Prod.snd := by
    rintro (_ | ⟨va, b⟩) <;> rfl
  cases longflag with
  | true =>
    rcases hmode with ⟨rfl, rfl⟩ | rfl
    · exact hend _
    · exact hend _
  | false =>
    rcases hmode with ⟨rfl, rfl⟩ | rfl
    · rw [← hend]
      simp only [Bool.false_eq_true, if_false, List.nil_append]
      rw [vsnprintfWith, if_neg h48, if_neg h108]
    · rw [← hend]
      simp only [Bool.false_eq_true, if_false, List.nil_append]
      rw [vsnprintfWith, if_neg hdigit, if_neg h108]

/-- The digits of the width are read first. -/
lemma vsnprintfWith_width {ds rest : List UInt8} (hds : ∀ d ∈ ds, isdigit d = true) :
    ∃ n', vsnprintfWith itoa bufferLen (.zeroPad n) (ds ++ rest) va b =
      vsnprintfWith itoa bufferLen (.zeroPad n') rest va b := by
  induction ds generalizing n with
  | nil => exact ⟨n, rfl⟩
  | cons d ds ih =>
    have hd : 48 ≤ d ∧ d ≤ 57 := by
      have hd := hds d List.mem_cons_self
      rw [isdigit, Bool.and_eq_true, decide_eq_true_eq, decide_eq_true_eq] at hd
      exact hd
    obtain ⟨n', hn'⟩ := @ih ((n * 10 + d.toNat - 48) % 256)
      fun c hc => hds c (List.mem_cons_of_mem _ hc)
    refine ⟨n', ?_⟩
    rw [List.cons_append, vsnprintfWith, if_pos hd, hn']

lemma vsnprintfWith_percent (hch : IsNum ch) (hwidth : ∀ ds ∈ width, ∀ d ∈ ds, isdigit d = true)
    (hb : b.length + 1 < bufferLen) :
    ∃ n, vsnprintfWith itoa bufferLen .text
      (37 :: (width.elim [] (48 :: ·) ++ ((if longflag then [108] else []) ++ [ch]))) va b =
        (convertWith itoa bufferLen ch longflag n va b).map Prod.snd := by
  rw [vsnprintfWith, if_neg (by omega), if_neg (by decide)]
  cases width with
  | none => exact ⟨0, vsnprintfWith_flag hch (.inl ⟨rfl, rfl⟩)⟩
  | some ds =>
    rw [Option.elim_some, List.cons_append, vsnprintfWith, if_pos rfl]
    obtain ⟨n, hn⟩ : ∃ n, vsnprintfWith itoa bufferLen (.zeroPad 0)
        (ds ++ ((if longflag then [108] else []) ++ [ch])) va b =
          vsnprintfWith itoa bufferLen (.zeroPad n) ((if longflag then [108] else []) ++ [ch]) va
            b :=
      vsnprintfWith_width (hwidth ds rfl)
    exact ⟨n, hn.trans (vsnprintfWith_flag hch (.inr rfl))⟩

/-- The number that stands in the buffer, and what is before it. -/
lemma exists_of_printed {s : List UInt8} (hch : IsNum ch)
    (hwidth : ∀ ds ∈ width, ∀ d ∈ ds, isdigit d = true)
    (h : vsnprintfWith itoa 256 .text (cString (numFormat width longflag ch)) [.num v] [] =
      some s) :
    ∃ n text, itoa (argument longflag v) (if ch = 120 ∨ ch = 88 then 16 else 10) (ch = 88)
        (ch ≠ 100) n = some text ∧
      s = puts 256 (if ch = 120 ∨ ch = 88 then [48, 120] else []) text := by
  obtain ⟨hzero, h48, h108, hdigit, h99, h115⟩ := hch.not_flag
  rw [cString_numFormat hch hwidth, numFormat] at h
  obtain ⟨b, hb⟩ : ∃ b, (if ch = 120 ∨ ch = 88 then [48, 120] else [] : List UInt8) = b :=
    ⟨_, rfl⟩
  have hlen : b.length + 1 < 256 := by
    rw [← hb]
    split_ifs <;> decide
  -- the text before the `%`
  have hprefix : ∀ rest, vsnprintfWith itoa 256 .text (b ++ rest) [.num v] [] =
      vsnprintfWith itoa 256 .text rest [.num v] b := by
    intro rest
    rw [← hb]
    split_ifs <;> rfl
  rw [hb, hprefix] at h
  obtain ⟨n, hn⟩ : ∃ n, vsnprintfWith itoa 256 .text
      (37 :: (width.elim [] (48 :: ·) ++ ((if longflag then [108] else []) ++ [ch]))) [.num v] b =
        (convertWith itoa 256 ch longflag n [.num v] b).map Prod.snd :=
    vsnprintfWith_percent hch hwidth hlen
  rw [hn, convertWith_eq, Option.map_map, Option.map_eq_some_iff] at h
  obtain ⟨⟨va', text⟩, htext, hs⟩ := h
  refine ⟨n, text, ?_, by rw [hb, ← hs]; rfl⟩
  have hnum : ∀ (radix : ℕ) (uppercase unsig : Bool),
      numText itoa radix uppercase unsig longflag n [.num v] =
        (itoa (argument longflag v) radix uppercase unsig n).map fun text => ([], text) := by
    intro radix uppercase unsig
    rw [numText, show vaNum longflag [.num v] = some (argument longflag v, []) from rfl]
    simp only [Option.bind_eq_bind, Option.bind_some]
    cases itoa (argument longflag v) radix uppercase unsig n <;> rfl
  rw [conversion, if_neg h108, hnum, hnum] at htext
  rcases hch with rfl | rfl | rfl | rfl
  all_goals
    obtain ⟨text', htext', heq⟩ := Option.map_eq_some_iff.1 htext
    simp only [Prod.mk.injEq] at heq
    rw [← heq.2]
    exact htext'

lemma length_of_miniItoa {up : Bool} (h : Drivers.miniItoa v radix up unsig n = some text) :
    text.length < 24 := by
  unfold Drivers.miniItoa at h
  dsimp only at h
  by_cases hradix : radix > 16
  · rw [if_pos hradix] at h
    rw [← Option.some.inj h]
    decide
  · rw [if_neg hradix, Option.ite_none_left_eq_some, Option.ite_none_right_eq_some,
      Option.some.injEq] at h
    obtain ⟨-, hlen, rfl⟩ := h
    rwa [List.length_reverse]

end Format

/-- The text of a number is one, and no longer than the buffer. -/
lemma written_of_printed {s : List UInt8} (hch : IsNum ch)
    (htext : Drivers.miniItoa v (if ch = 120 ∨ ch = 88 then 16 else 10) (ch = 88) (ch ≠ 100) n =
      some text)
    (hs : s = puts 256 (if ch = 120 ∨ ch = 88 then [48, 120] else []) text) :
    ∃ z, Written s z ∧ BitVec.ofInt 64 z = v := by
  have hlen := length_of_miniItoa htext
  have hnat : BitVec.ofInt 64 (v.toNat : ℤ) = v := by simp
  have hputs : s = (if ch = 120 ∨ ch = 88 then [48, 120] else []) ++ text := by
    rw [hs, puts, List.take_of_length_le]
    split_ifs
    · simp only [List.length_cons, List.length_nil]
      omega
    · simp only [List.length_nil]
      omega
  rw [hputs]
  rcases hch with rfl | rfl | rfl | rfl
  · exact ⟨_, number_of_itoa htext, hnat⟩
  · exact ⟨_, number_of_itoa htext, BitVec.ofInt_toInt⟩
  · exact ⟨_, number_of_itoa_hex htext, hnat⟩
  · exact ⟨_, number_of_itoa_hex htext, hnat⟩

/-- What `printf` writes of a number that is unsigned has to fit a `long`. -/
lemma reads_of_printed {mem : Bytes} {a : ℕ} {s : List UInt8} {width : Option (List UInt8)}
    (hch : IsNum ch) (hwidth : ∀ ds ∈ width, ∀ d ∈ ds, isdigit d = true)
    (hs : mem.StringAt a s)
    (hprint : vprintf (numFormat width longflag ch) [.num v] = some s ∧
        (ch = 100 ∨ (argument longflag v).msb = false) ∨
      Drivers.vprint (numFormat width longflag ch) [.num v] = some s) :
    Returns mem a (argument longflag v) := by
  obtain ⟨n, text, htext, heq⟩ : ∃ n text, Drivers.miniItoa (argument longflag v)
      (if ch = 120 ∨ ch = 88 then 16 else 10) (ch = 88) (ch ≠ 100) n = some text ∧
      s = puts 256 (if ch = 120 ∨ ch = 88 then [48, 120] else []) text := by
    rcases hprint with ⟨hprint, hfits⟩ | hprint
    · obtain ⟨n, text, htext, heq⟩ := exists_of_printed hch hwidth hprint
      refine ⟨n, text, ?_, heq⟩
      rw [← htext, miniItoa_eq]
      · split_ifs <;> decide
      · intro hu
        exact hfits.resolve_left (of_decide_eq_true hu)
    · rw [Drivers.vprint, ← vsnprintfWith_printk] at hprint
      exact exists_of_printed hch hwidth hprint
  obtain ⟨z, hz, hv⟩ := written_of_printed hch htext heq
  rw [← hv]
  exact hz.returns hs

/-- An `int` that `printf` has written with `%d`, `atoi` reads as the `int`, although its sign is
not written. -/
theorem atoi_reads_printed {mem : Bytes} {a : ℕ} {s : List UInt8} {width : Option (List UInt8)}
    (hwidth : ∀ ds ∈ width, ∀ d ∈ ds, isdigit d = true) (hs : mem.StringAt a s)
    (hprint : vprintf (numFormat width false 100) [.num v] = some s) :
    ∃ fuel, atoi mem (some a) fuel = some (v.setWidth 32).toInt := by
  obtain ⟨fuel, hfuel⟩ := reads_of_printed (by decide) hwidth hs (.inl ⟨hprint, .inl rfl⟩)
  refine ⟨fuel, ?_⟩
  rw [atoi, hfuel, Option.map_some]
  have hset : (argument false v).setWidth 32 = v.setWidth 32 := by
    refine BitVec.eq_of_toNat_eq ?_
    simp [argument]
  rw [hset]

end User
end UcasKernel
