/-
The shell: `read_keyboard` and `parse_input` of `test/shell.c`.

The line buffer has `INPUT_BUF_SIZE` bytes and `argv` has `MAX_ARG` entries; an access
outside of them, and a null pointer that is followed, end the computation with a `Fault`.
A `char *` is an offset of the line buffer or null.  What the shell asks of the kernel is
a list of calls; a string that is handed over is given by its bytes.
-/
import UcasKernel.User.Atoi

namespace UcasKernel
namespace User

/-- `INPUT_BUF_SIZE`. -/
def inputBufSize : ℕ := 128

/-- `MAX_ARG`. -/
def maxArg : ℕ := 16

/-- How the shell goes wrong. -/
inductive Fault
  /-- a write to the line buffer outside of its bytes -/
  | bufWrite (i : ℕ)
  | bufRead (i : ℕ)
  /-- an access to `argv` outside of its entries -/
  | argvIndex (i : ℤ)
  /-- a null pointer is followed -/
  | null
  /-- `atoi` does not return -/
  | hangs
deriving DecidableEq, Repr

/-- An argument of `printf`. -/
inductive Arg
  | str (s : List UInt8)
  | int (d : ℤ)
deriving DecidableEq, Repr

/-- The system calls of the shell, and its calls of `printf`. -/
inductive Call
  | write (buff : List UInt8)
  | reflush
  | backspace (promptLen : ℕ)
  | moveCursor (x y : ℕ)
  | printf (fmt : String) (args : List Arg)
  | clear
  | ps
  | exec (name : Option (List UInt8)) (argc : ℕ) (argv : List (Option (List UInt8)))
  | waitpid (pid : ℤ)
  | kill (pid : ℤ)
  | mkfs
  | statfs
  | mkdir (path : Option (List UInt8))
  | ls (path : Option (List UInt8)) (option : ℤ)
  | cd (path : Option (List UInt8))
  | rmdir (path : Option (List UInt8))
  | touch (path : Option (List UInt8))
  | cat (path : Option (List UInt8))
  | ln (src dst : Option (List UInt8))
  | rm (path : Option (List UInt8))
deriving DecidableEq, Repr

/-- What the kernel answers to `sys_exec` and `sys_kill`. -/
structure Replies where
  pid : ℤ
  killed : ℤ

/-! ## The keyboard -/

/-- The line buffer, the number of characters in it, and the calls so far. -/
structure Line where
  buf : Bytes
  i : ℕ
  calls : List Call

/-- `buf[i] = c`. -/
def setBuf (buf : Bytes) (i : ℕ) (c : UInt8) : Except Fault Bytes :=
  if i < inputBufSize then .ok (Function.update buf i c) else .error (.bufWrite i)

/-- `clear_buf`. -/
def clearBuf (buf : Bytes) (size : ℕ) : Bytes := fun x => if x < size then 0 else buf x

/-- The carriage return that the Enter key sends. -/
def enter : UInt8 := 13

/-- `BACKSPACE_QEMU` and `BACKSPACE_FPGA`. -/
def isBackspace (ch : UInt8) : Bool := ch = 127 || ch = 8

/-- The `switch` of `read_keyboard`, and the `sys_reflush` behind it. -/
def Line.press (s : Line) (ch : UInt8) : Except Fault Line :=
  if ch = enter then do
    let buf ← setBuf s.buf s.i 0
    .ok { s with buf := buf, calls := s.calls ++ [.write [10], .reflush, .reflush] }
  else if isBackspace ch then
    let calls := s.calls ++ [.backspace 16, .reflush]
    if s.i > 0 then do
      let buf ← setBuf s.buf (s.i - 1) 0
      .ok { buf := buf, i := s.i - 1, calls := calls }
    else .ok { s with calls := calls }
  else do
    let buf ← setBuf s.buf s.i ch
    .ok { buf := buf, i := s.i + 1, calls := s.calls ++ [.write ([ch].takeWhile (· ≠ 0)), .reflush] }

/-- The loop of `read_keyboard` on the answers of `sys_getchar`, where -1 is `none`.  The
result is `none` when the answers end before Enter. -/
def Line.readKeyboard : List (Option UInt8) → Line → Except Fault (Option Line)
  | [], _ => .ok none
  | none :: keys, s => readKeyboard keys s
  | some ch :: keys, s => do
    let s ← s.press ch
    if ch = enter then .ok (some s) else readKeyboard keys s

/-- `read_keyboard`. -/
def readKeyboard (buf : Bytes) (keys : List (Option UInt8)) : Except Fault (Option Line) :=
  Line.readKeyboard keys ⟨buf, 0, []⟩

/-! ## The arguments -/

/-- The line buffer, `argc` and `argv`. -/
structure Args where
  buf : Bytes
  argc : ℕ
  argv : ℕ → Option ℕ

/-- The first loop of `parse_input`, from `ptr` on; `left` bytes of the buffer are left. -/
def splitLoop : ℕ → ℕ → Args → Except Fault Args
  | 0, ptr, _ => .error (.bufRead ptr)
  | left + 1, ptr, s =>
    if s.buf ptr = 0 then .ok s
    else if s.buf ptr = 32 then
      if s.argc < maxArg then
        splitLoop left (ptr + 1)
          { buf := Function.update s.buf ptr 0
            argc := s.argc + 1
            argv := Function.update s.argv s.argc (some (ptr + 1)) }
      else .error (.argvIndex s.argc)
    else splitLoop left (ptr + 1) s

/-- `argv[i]`. -/
def Args.entry (s : Args) (i : ℤ) : Except Fault (Option ℕ) :=
  if 0 ≤ i ∧ i < maxArg then .ok (s.argv i.toNat) else .error (.argvIndex i)

/-- `p[i]` for a pointer into the line buffer. -/
def deref (buf : Bytes) (p : Option ℕ) (i : ℕ) : Except Fault UInt8 :=
  match p with
  | none => .error .null
  | some a => if a + i < inputBufSize then .ok (buf (a + i)) else .error (.bufRead (a + i))

/-- The string at a pointer. -/
def string (buf : Bytes) (p : Option ℕ) : Option (List UInt8) :=
  p.map fun a => (buf.slice a (inputBufSize - a)).takeWhile (· ≠ 0)

/-- A string that `printf` reads. -/
def text (buf : Bytes) (p : Option ℕ) : Except Fault (List UInt8) :=
  match string buf p with
  | none => .error .null
  | some s => .ok s

/-- `if ( *argv[argc - 1] == '&')`: the new `wait`, and the arguments without the marker. -/
def Args.stripMarker (s : Args) : Except Fault (Bool × Args) := do
  let p ← s.entry (s.argc - 1)
  let c ← deref s.buf p 0
  if c = '&'.toUInt8 then
    .ok (false, { s with argc := s.argc - 1, argv := Function.update s.argv (s.argc - 1) none })
  else .ok (true, s)

/-! ## The commands -/

/-- `enum cmds`. -/
inductive Cmd
  | clear
  | ps
  | exec
  | kill
  | mkfs
  | statfs
  | mkdir
  | ls
  | cd
  | rmdir
  | touch
  | cat
  | ln
  | rm
deriving DecidableEq, Repr

namespace Cmd

/-- The strings of `commands`. -/
def name (c : Cmd) : List UInt8 :=
  (match c with
    | clear => ['c', 'l', 'e', 'a', 'r']
    | ps => ['p', 's']
    | exec => ['e', 'x', 'e', 'c']
    | kill => ['k', 'i', 'l', 'l']
    | mkfs => ['m', 'k', 'f', 's']
    | statfs => ['s', 't', 'a', 't', 'f', 's']
    | mkdir => ['m', 'k', 'd', 'i', 'r']
    | ls => ['l', 's']
    | cd => ['c', 'd']
    | rmdir => ['r', 'm', 'd', 'i', 'r']
    | touch => ['t', 'o', 'u', 'c', 'h']
    | cat => ['c', 'a', 't']
    | ln => ['l', 'n']
    | rm => ['r', 'm']).map Char.toUInt8

/-- The commands in the order of `commands`. -/
def all : List Cmd :=
  [clear, ps, exec, kill, mkfs, statfs, mkdir, ls, cd, rmdir, touch, cat, ln, rm]

/-- The loop over `commands`. -/
def lookup (s : List UInt8) : Option Cmd := all.find? fun c => c.name = s

end Cmd

/-- `init_shell`. -/
def initShell : List Call :=
  [.moveCursor 0 20, .printf "------------------- COMMAND -------------------\n" []]

section Dispatch

variable (replies : Replies) (s : Args) (wait : Bool)

/-- `case EXEC`. -/
def caseExec : Except Fault (List Call) := do
  let name ← text s.buf (s.argv 0)
  .ok ([.exec (string s.buf (s.argv 0)) s.argc
      ((List.range maxArg).map fun i => string s.buf (s.argv i)),
    if replies.pid > 0 then
      .printf "execute %s successfully, pid = %d.\n" [.str name, .int replies.pid]
    else .printf "execute %s failed!\n" [.str name]] ++
    if wait ∧ replies.pid ≠ 0 then [.waitpid replies.pid] else [])

/-- `case KILL`. -/
def caseKill : Except Fault (List Call) :=
  match atoi s.buf (s.argv 0) (inputBufSize + 1) with
  | none => .error .hangs
  | some pid => do
    let name ← text s.buf (s.argv 0)
    .ok [.kill pid,
      if replies.killed ≠ 0 then .printf "kill pid %s successfully.\n" [.str name]
      else .printf "task with pid %s not found!\n" [.str name]]

/-- The `path` of `case LS`. -/
def lsPath : Except Fault (Option (List UInt8)) :=
  if s.argv 0 = none then .ok (some ['.'.toUInt8])
  else do
    let c ← deref s.buf (s.argv 0) 0
    .ok (if c = '-'.toUInt8 then some ['.'.toUInt8] else string s.buf (s.argv 0))

/-- The `option_str` of `case LS`. -/
def lsOptionStr : Except Fault (Option ℕ) := do
  let c ← deref s.buf (s.argv 0) 0
  if c = '-'.toUInt8 then .ok (s.argv 0)
  else do
    let c ← deref s.buf (s.argv 1) 0
    .ok (if c = '-'.toUInt8 then s.argv 1 else none)

/-- `case LS`. -/
def caseLs : Except Fault (List Call) := do
  let path ← lsPath s
  let optionStr ← lsOptionStr s
  let c ← deref s.buf optionStr 1
  .ok [.ls path (if c = 'a'.toUInt8 then 1 else if c = 'l'.toUInt8 then 2 else 0)]

/-- The `switch` of `parse_input`. -/
def dispatch : Except Fault (List Call) :=
  let argv0 := string s.buf (s.argv 0)
  match Cmd.lookup ((string s.buf (some 0)).getD []) with
  | some .clear => .ok (.clear :: initShell)
  | some .ps => .ok [.ps]
  | some .exec => caseExec replies s wait
  | some .kill => caseKill replies s
  | some .mkfs => .ok [.mkfs]
  | some .statfs => .ok [.statfs]
  | some .mkdir => .ok [.mkdir argv0]
  | some .ls => caseLs s
  | some .cd => .ok [.cd argv0]
  | some .rmdir => .ok [.rmdir argv0]
  | some .touch => .ok [.touch argv0]
  | some .cat => .ok [.cat argv0]
  | some .ln => .ok [.ln argv0 (string s.buf (s.argv 1))]
  | some .rm => .ok [.rm argv0]
  | none => .ok [.printf "Error: Unknown Command %s\n" [.str ((string s.buf (some 0)).getD [])]]

end Dispatch

/-- `argc` and `argv` in the `switch` of `parse_input`, and the calls. -/
structure Parsed where
  args : Args
  calls : List Call

/-- `parse_input`. -/
def parseInput (replies : Replies) (buf : Bytes) : Except Fault Parsed := do
  let s ← splitLoop inputBufSize 0 ⟨buf, 0, fun _ => none⟩
  let (wait, s) ← s.stripMarker
  let calls ← dispatch replies s wait
  .ok ⟨s, calls⟩

end User
end UcasKernel
