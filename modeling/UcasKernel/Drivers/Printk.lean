/-
The formatter of `libs/printk.c`.

`mini_vsnprintf` goes through the format once.  The local variables that say what
the characters read since the last `%` mean are the `Mode`; a call of `va_arg` for
which there is no argument of the kind, and digits that overrun `bf`, have no
defined result.
-/
import Mathlib.Algebra.Group.Nat.Defs
import Mathlib.Data.List.Basic

namespace UcasKernel
namespace Drivers

/-- The characters of a C string in a buffer. -/
def cString (buff : List UInt8) : List UInt8 := buff.takeWhile (· ≠ 0)

/-- An argument behind the format: a register, or a pointer to a string. -/
inductive VaArg
  | num (v : BitVec 64)
  | str (s : List UInt8)
deriving DecidableEq, Repr

/-! ## Numbers -/

/-- A digit of `mini_itoa`. -/
def itoaDigit (uppercase : Bool) (digit : ℕ) : UInt8 :=
  if digit < 10 then UInt8.ofNat (48 + digit)
  else UInt8.ofNat ((if uppercase then 65 else 97) + digit - 10)

/-- The digits of a number from the last one on, at most as many as given. -/
def itoaDigits (radix : ℕ) (uppercase : Bool) : ℕ → ℕ → List UInt8
  | 0, _ => []
  | n + 1, value =>
    itoaDigit uppercase (value % radix) ::
      if value / radix = 0 then [] else itoaDigits radix uppercase n (value / radix)

/-- `mini_itoa` into the 24 bytes of `bf`.  The smallest `long` has no negation. -/
def miniItoa (value : BitVec 64) (radix : ℕ) (uppercase unsig : Bool) (zeroPad : ℕ) :
    Option (List UInt8) :=
  if radix > 16 then some []
  else
    let negative := value.msb && !unsig
    let magnitude := if negative then -value else value
    if negative && magnitude.msb then none
    else
      let digits := itoaDigits radix uppercase 64 magnitude.toNat
      let padded := digits ++ List.replicate (zeroPad - digits.length) 48
      let pbuffer := if negative then padded ++ [45] else padded
      if pbuffer.length < 24 then some pbuffer.reverse else none

/-! ## The buffer -/

/-- `_putc`. -/
def putc (bufferLen : ℕ) (b : List UInt8) (ch : UInt8) : List UInt8 :=
  if b.length + 1 ≥ bufferLen then b else b ++ [ch]

/-- `_puts`. -/
def puts (bufferLen : ℕ) (b s : List UInt8) : List UInt8 := b ++ s.take (bufferLen - b.length - 1)

/-- `va_arg` of an `unsigned int` or an `unsigned long`. -/
def vaNum (longflag : Bool) : List VaArg → Option (BitVec 64 × List VaArg)
  | .num v :: va => some (if longflag then v else BitVec.ofNat 64 (v.toNat % 2 ^ 32), va)
  | _ => none

/-- The conversions `%u`, `%d`, `%x` and `%X`. -/
def convertNum (bufferLen : ℕ) (radix : ℕ) (uppercase unsig longflag : Bool) (zeroPad : ℕ)
    (va : List VaArg) (b : List UInt8) : Option (List VaArg × List UInt8) := do
  let (value, va) ← vaNum longflag va
  let bf ← miniItoa value radix uppercase unsig zeroPad
  some (va, puts bufferLen b bf)

/-- The conversion character, with the flag and the padding read before it. -/
def convert (bufferLen : ℕ) (ch : UInt8) (longflag : Bool) (zeroPad : ℕ) (va : List VaArg)
    (b : List UInt8) : Option (List VaArg × List UInt8) :=
  if ch = 108 then some (va, b)
  else if ch = 117 ∨ ch = 100 then
    convertNum bufferLen 10 false (ch = 117) longflag zeroPad va b
  else if ch = 120 ∨ ch = 88 then
    convertNum bufferLen 16 (ch = 88) true longflag zeroPad va b
  else if ch = 99 then
    match va with
    | .num v :: va => some (va, putc bufferLen b (UInt8.ofNat v.toNat))
    | _ => none
  else if ch = 115 then
    match va with
    | .str s :: va => some (va, puts bufferLen b (cString s))
    | _ => none
  else some (va, putc bufferLen b ch)

/-- Where in the format `mini_vsnprintf` reads: in the text, behind a `%`, in the
digits behind `%0`, behind an `l`. -/
inductive Mode
  | text
  | percent
  | zeroPad (n : ℕ)
  | long (zeroPad : ℕ)
deriving DecidableEq, Repr

/-- `mini_vsnprintf` on the rest of the format.  `zero_pad` is a `char`. -/
def miniVsnprintf (bufferLen : ℕ) :
    Mode → List UInt8 → List VaArg → List UInt8 → Option (List UInt8)
  | _, [], _, b => some b
  | .text, ch :: fmt, va, b =>
    if b.length + 1 ≥ bufferLen then some b
    else if ch ≠ 37 then miniVsnprintf bufferLen .text fmt va (putc bufferLen b ch)
    else miniVsnprintf bufferLen .percent fmt va b
  | .percent, ch :: fmt, va, b =>
    if ch = 48 then miniVsnprintf bufferLen (.zeroPad 0) fmt va b
    else if ch = 108 then miniVsnprintf bufferLen (.long 0) fmt va b
    else do
      let (va, b) ← convert bufferLen ch false 0 va b
      miniVsnprintf bufferLen .text fmt va b
  | .zeroPad n, ch :: fmt, va, b =>
    if 48 ≤ ch ∧ ch ≤ 57 then
      miniVsnprintf bufferLen (.zeroPad ((n * 10 + ch.toNat - 48) % 256)) fmt va b
    else if ch = 108 then miniVsnprintf bufferLen (.long n) fmt va b
    else do
      let (va, b) ← convert bufferLen ch false n va b
      miniVsnprintf bufferLen .text fmt va b
  | .long n, ch :: fmt, va, b => do
    let (va, b) ← convert bufferLen ch true n va b
    miniVsnprintf bufferLen .text fmt va b

/-- `_vprint`: what is in `buff` when it is given to the output function. -/
def vprint (fmt : List UInt8) (va : List VaArg) : Option (List UInt8) :=
  miniVsnprintf 256 .text (cString fmt) va []

/-! ## The output fits the buffer -/

section Length

variable {bufferLen n : ℕ} {b b' : List UInt8} {va va' : List VaArg} {mode : Mode}

lemma length_putc (h : b.length < bufferLen) (ch : UInt8) :
    (putc bufferLen b ch).length < bufferLen := by
  rw [putc]
  split
  · exact h
  · rw [List.length_append, List.length_singleton]
    omega

lemma length_puts (h : b.length < bufferLen) (s : List UInt8) :
    (puts bufferLen b s).length < bufferLen := by
  rw [puts, List.length_append, List.length_take]
  omega

lemma length_convertNum {radix : ℕ} {uppercase unsig longflag : Bool} (h : b.length < bufferLen)
    (hconvert : convertNum bufferLen radix uppercase unsig longflag n va b = some (va', b')) :
    b'.length < bufferLen := by
  obtain ⟨x, -, hrest⟩ := Option.bind_eq_some_iff.1 hconvert
  obtain ⟨bf, -, hrest⟩ := Option.bind_eq_some_iff.1 hrest
  cases hrest
  exact length_puts h bf

lemma length_convert {ch : UInt8} {longflag : Bool} (h : b.length < bufferLen)
    (hconvert : convert bufferLen ch longflag n va b = some (va', b')) :
    b'.length < bufferLen := by
  unfold convert at hconvert
  by_cases h1 : ch = 108
  · rw [if_pos h1] at hconvert
    cases hconvert
    exact h
  rw [if_neg h1] at hconvert
  by_cases h2 : ch = 117 ∨ ch = 100
  · rw [if_pos h2] at hconvert
    exact length_convertNum h hconvert
  rw [if_neg h2] at hconvert
  by_cases h3 : ch = 120 ∨ ch = 88
  · rw [if_pos h3] at hconvert
    exact length_convertNum h hconvert
  rw [if_neg h3] at hconvert
  split at hconvert
  · split at hconvert
    · cases hconvert
      exact length_putc h _
    · cases hconvert
  split at hconvert
  · split at hconvert
    · cases hconvert
      exact length_puts h _
    · cases hconvert
  · cases hconvert
    exact length_putc h _

lemma length_miniVsnprintf {fmt : List UInt8} (h : b.length < bufferLen)
    (hprint : miniVsnprintf bufferLen mode fmt va b = some b') : b'.length < bufferLen := by
  induction fmt generalizing mode va b with
  | nil =>
    rw [miniVsnprintf, Option.some.injEq] at hprint
    exact hprint ▸ h
  | cons ch fmt ih =>
    have hconvert : ∀ {longflag : Bool} {n : ℕ},
        (convert bufferLen ch longflag n va b >>= fun x =>
          miniVsnprintf bufferLen .text fmt x.1 x.2) = some b' → b'.length < bufferLen := by
      intro longflag n hbind
      obtain ⟨x, hx, hrest⟩ := Option.bind_eq_some_iff.1 hbind
      exact ih (length_convert h hx) hrest
    cases mode with
    | text =>
      rw [miniVsnprintf] at hprint
      split at hprint
      · cases hprint
        exact h
      split at hprint
      · exact ih (length_putc h ch) hprint
      · exact ih h hprint
    | percent =>
      rw [miniVsnprintf] at hprint
      split at hprint
      · exact ih h hprint
      split at hprint
      · exact ih h hprint
      · exact hconvert hprint
    | zeroPad m =>
      rw [miniVsnprintf] at hprint
      split at hprint
      · exact ih h hprint
      split at hprint
      · exact ih h hprint
      · exact hconvert hprint
    | long m =>
      rw [miniVsnprintf] at hprint
      exact hconvert hprint

/-- The terminator behind the output is in `buff`. -/
theorem length_vprint {fmt buff : List UInt8} (h : vprint fmt va = some buff) :
    buff.length < 256 :=
  length_miniVsnprintf (by decide) h

end Length

/-- `printk("%d\n", 42)`. -/
example : vprint [37, 100, 10] [.num 42] = some [52, 50, 10] := by decide

end Drivers
end UcasKernel
