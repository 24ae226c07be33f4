import ZeroOS.Zeos.Sched

/-!
# Zeos: `sys.c`

The system calls.  Each gives the value left in `%eax` and the state, or stops in a page fault.

`sys_fork` is cut where its comments number it: the code pages (3.0), the frames (3.1), the
mappings (3.2), (3.3), the clean-up (3.4) and the new PCB (4), (5).
-/

set_option linter.unusedVariables false

namespace Zeos
open Programs

/-- a C `int` passed as an `unsigned` -/
def uint32 (x : Int) : Nat := (x % 4294967296).toNat

def checkFd (fd permissions : Int) : Int :=
  if fd ≠ 1 then -ebadf
  else if permissions ≠ 1 then -eacces
  else 0

/-- `sys_write_console`: every character of the buffer goes to `printc`.  Its stores to the cells of
the screen at 0xb8000 are kept in `out` and not in `mem`: a buffer that lies in the screen page
itself would change while it is printed, and does not here. -/
def sysWriteConsole (buffer : Nat → Byte) (size : Int) (s : State) : Int × State :=
  (size, { s with out := forUp (fun i out => out ++ [buffer i]) size.toNat s.out })

/-- `copy_from_user (buffer + written, &buff2, size)`, then `sys_write_console (&buff2, size)` -/
def writeChunk (buffer : DWord) (written size : Int) (s : State) : Except State (Int × State) :=
  match copyFromUser fromUserBus (buffer.toNat + written.toNat) 0 size (s, fun _ => 0) with
  | .ok (s, buff2) => .ok (sysWriteConsole buff2 size s)
  | .error (s, _) => .error s

/-- `while (size >= MAX_WRITE)`; `n` bounds the number of rounds -/
def writeLoop (buffer : DWord) : Nat → Int → Int → State → Except State (Int × Int × State)
  | 0, size, written, s => .ok (size, written, s)
  | n + 1, size, written, s =>
    if size ≥ maxWrite then
      (writeChunk buffer written maxWrite s).bind fun (w, s) =>
        writeLoop buffer n (size - w) (written + w) s
    else .ok (size, written, s)

def sysWrite (fd : Int) (buffer : DWord) (size : Int) (s : State) : Except State (Int × State) :=
  let s := actTicksUser2kernel s
  if checkFd fd 1 < 0 then .ok (-ebadf, actTicksKernel2user s)
  else if buffer = 0 then .ok (-efault, actTicksKernel2user s)
  else if size < 0 then .ok (-einval, actTicksKernel2user s)
  else
    (writeLoop buffer size.toNat size 0 s).bind fun (size, written, s) =>
      (writeChunk buffer written size s).bind fun (w, s) =>
        let written := written + w
        let size := size - w
        if size = 0 then .ok (written, actTicksKernel2user s)
        -- the end of the function without a `return`
        else .ok (0, s)

def sysGettime (s : State) : Int × State :=
  let s := actTicksUser2kernel s
  let s := actTicksKernel2user s
  (s.zeosTicks, s)

def sysGetpid (s : State) : Int × State :=
  let s := actTicksUser2kernel s
  let s := actTicksKernel2user s
  ((s.task s.current).pid, s)

def retFromFork (s : State) : Int × State := (0, actTicksKernel2user s)

def freePCB (t : Task) (s : State) : State :=
  s.setLinks (listAdd s.links (.list t) (.queue .freequeue))

/-! ## fork -/

/-- `copy_data (parent, child, KERNEL_STACK_SIZE*4)`: the whole PCB, its `list` field included -/
def copyPCB (parent child : Task) (s : State) : State :=
  let s := s.setTask child (s.task parent)
  let h := s.links.setNext (.list child) (s.links.next (.list parent))
  s.setLinks (h.setPrev (.list child) (h.prev (.list parent)))

/-- (3.0) -/
def mapCode (parentPage childPage : Task) (mm : Mm) : Mm :=
  forUp (fun i mm =>
    let parentFrame := getFrame mm parentPage (i + numPagKernel)
    setSsPag mm childPage (i + numPagKernel) parentFrame) numPagCode mm

/-- `while (i >= 0) free_frame (child_frames[i--])`; the frames are listed last one first -/
def freeFrames : List Int → Mm → Mm
  | [], mm => mm
  | f :: fs, mm => freeFrames fs (freeFrame mm (uint32 f))

/-- (3.1), with `n` frames still to get.  If the frames run out, all of them are given back. -/
def allocChildFrames : Nat → List Int → Mm → Except Mm (List Int × Mm)
  | 0, childFrames, mm => .ok (childFrames, mm)
  | n + 1, childFrames, mm =>
    let (f, mm) := allocFrame mm
    let childFrames := childFrames ++ [f]
    if f = -1 then .error (freeFrames childFrames.reverse mm)
    else allocChildFrames n childFrames mm

/-- (3.2) and (3.3) -/
def mapData (parentPage childPage : Task) (childFrames : List Int) (mm : Mm) : Mm :=
  forUp (fun k mm =>
    let i := numPagKernel + k
    let childFrame := uint32 (childFrames.getD (i - numPagKernel) 0)
    let mm := setSsPag mm parentPage (i + (numPagCode + numPagData)) childFrame
    setSsPag mm childPage (i + numPagCode) childFrame) numPagData mm

/-- (3.4) -/
def unmapData (parentPage : Task) (mm : Mm) : Mm :=
  forUp (fun k mm =>
    let i := numPagKernel + k
    delSsPag mm parentPage (i + (numPagCode + numPagData))) numPagData mm

def dirIni : Nat := lUserStart + numPagCode * pageSize
def dirDest : Nat := lUserStart + (numPagCode + numPagData) * pageSize

/-- (4), (5), `set_ini_stats` and the insertion in the ready queue -/
def startChild (child : Task) (s : State) : Int × State :=
  let pid := int32 (s.pidMax + 1)
  let x := s.task child
  let s := s.setTask child { x with pid := pid, kernelEsp := .retFromFork }
  let s := setIniStats child { s with pidMax := pid }
  (pid, s.setLinks (listAddTail s.links (.list child) (.queue .readyqueue)))

/-- from (3.4) to the end -/
def forkDone (parent child parentPage : Task) (s : State) : Int × State :=
  let s := s.setMm (unmapData parentPage s.mm)
  /- (6) -/
  let s := { s with cr3 := getDIR s parent }
  let (pid, s) := startChild child s
  (pid, actTicksKernel2user s)

/-- from `get_PT (parent)` to the end -/
def forkSpace (parent child : Task) (s : State) : Except State (Int × State) :=
  let parentPage := getPT s parent
  let (allocDirRet, s) := allocateDIR child s
  if allocDirRet ≠ 1 then .ok (-enomem, actTicksKernel2user (freePCB child s))
  else
    let childPage := getPT s child
    match allocChildFrames numPagData [] (mapCode parentPage childPage s.mm) with
    | .error mm => .ok (-enomem, actTicksKernel2user (freePCB child (s.setMm mm)))
    | .ok (childFrames, mm) =>
      let s := s.setMm (mapData parentPage childPage childFrames mm)
      /- (3) -/
      (copyData kernelBus dirIni dirDest (numPagData * pageSize) s).bind fun s =>
        .ok (forkDone parent child parentPage s)

def sysFork (s : State) : Except State (Int × State) :=
  let s := actTicksUser2kernel s
  if listEmpty s.links (.queue .freequeue) then .ok (-eagain, actTicksKernel2user s)
  else
    /- (1) -/
    let (child, s) := takeFirst .freequeue s
    /- (2) -/
    let parent := s.current
    forkSpace parent child (copyPCB parent child s)

/-! ## exit and get_stats -/

/-- the loop of `sys_exit` -/
def freeData (actPag : Task) (mm : Mm) : Mm :=
  forUp (fun i mm =>
    let frameAct := getFrame mm actPag (numPagKernel + numPagCode + i)
    freeFrame mm frameAct) numPagData mm

def sysExit (s : State) : State :=
  let s := actTicksUser2kernel s
  let act := s.current
  let actPag := getPT s act
  let s := s.setMm (freeData actPag s.mm)
  let x := s.task act
  let s := s.setTask act { x with pid := -1 }
  schedNextRr .sysExit (updateCurrentStateRr .freequeue s)

def sysGetStats (pid : Int) (st : DWord) (s : State) : Except State (Int × State) :=
  let s := actTicksUser2kernel s
  if pid < 0 then .ok (-einval, actTicksKernel2user s)
  else if st = 0 ∨ st.toNat < lUserStart ∨
      st.toNat > lUserStart + (numPagData + numPagCode) * pageSize then
    .ok (-efault, actTicksKernel2user s)
  else if (s.task s.current).pid = pid then
    let s := actTicksKernel2user s
    (copyToUser (toUserBus (s.task s.current).statics.bytes) 0 st.toNat sizeofStats s).map
      fun s => (0, s)
  else
    (getStatPID pid st s).bind fun (err, s) =>
      if err = -1 then .ok (-esrch, actTicksKernel2user s)
      else .ok (0, actTicksKernel2user s)

end Zeos
