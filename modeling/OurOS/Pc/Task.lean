import OurOS.Lib.Links
import OurOS.Pc.Pid

namespace OurOS

inductive TaskState
  | preparing
  | running
  | interruptible
  | stopped
  | zombie
deriving DecidableEq, Repr

inductive TaskMode
  | user
  | kernel
deriving DecidableEq, Repr

inductive Signal
  | sigstop
  | sigchild
  | sigwait
  | sigreserve
deriving DecidableEq, Repr

def Signal.value : Signal → BitVec 32
  | .sigstop => 1
  | .sigchild => 2
  | .sigwait => 4
  | .sigreserve => 8

structure RegsContext where
  epc : BitVec 32
  «at» : BitVec 32
  v0 : BitVec 32
  v1 : BitVec 32
  a0 : BitVec 32
  a1 : BitVec 32
  a2 : BitVec 32
  a3 : BitVec 32
  t0 : BitVec 32
  t1 : BitVec 32
  t2 : BitVec 32
  t3 : BitVec 32
  t4 : BitVec 32
  t5 : BitVec 32
  t6 : BitVec 32
  t7 : BitVec 32
  s0 : BitVec 32
  s1 : BitVec 32
  s2 : BitVec 32
  s3 : BitVec 32
  s4 : BitVec 32
  s5 : BitVec 32
  s6 : BitVec 32
  s7 : BitVec 32
  t8 : BitVec 32
  t9 : BitVec 32
  hi : BitVec 32
  lo : BitVec 32
  gp : BitVec 32
  sp : BitVec 32
  fp : BitVec 32
  ra : BitVec 32
deriving DecidableEq, Repr

def RegsContext.zero : RegsContext :=
  ⟨0, 0, 0, 0, 0, 0, 0, 0, 0, 0, 0, 0, 0, 0, 0, 0, 0, 0, 0, 0, 0, 0, 0, 0, 0, 0, 0, 0, 0, 0, 0, 0⟩

/-- The contents of `dst` after `copy_context(src, dst)`. -/
def copyContext (src dst : RegsContext) : RegsContext :=
  let dst := { dst with epc := src.epc, «at» := src.at, v0 := src.v0, v1 := src.v1 }
  let dst := { dst with a0 := src.a0, a1 := src.a1, a2 := src.a2, a3 := src.a3 }
  let dst := { dst with t0 := src.t0, t1 := src.t1, t2 := src.t2, t3 := src.t3 }
  let dst := { dst with t4 := src.t4, t5 := src.t5, t6 := src.t6, t7 := src.t7 }
  let dst := { dst with s0 := src.s0, s1 := src.s1, s2 := src.s2, s3 := src.s3 }
  let dst := { dst with s4 := src.s4, s5 := src.s5, s6 := src.s6, s7 := src.s7 }
  let dst := { dst with t8 := src.t8, t9 := src.t9, hi := src.hi, lo := src.lo }
  { dst with gp := src.gp, sp := src.sp, fp := src.fp, ra := src.ra }

@[simp] theorem copyContext_eq (src dst : RegsContext) : copyContext src dst = src := rfl

inductive TaskList
  | taskList
  | taskWaitList
  | taskExitList
  | taskScheduleList
deriving DecidableEq, Repr

inductive ListMember
  | node
  | nodeShedule
deriving DecidableEq, Repr

abbrev TaskNode : Type := TaskList ⊕ (ListMember × ℕ)

/-- `container_of(node, struct task_struct, member)`. The address is that of a task only where
`node` is that member of it. -/
def containerOf (member : ListMember) : TaskNode → Option ℕ
  | .inl _ => none
  | .inr (m, t) => if m = member then some t else none

@[simp] theorem containerOf_inl (m : ListMember) (h : TaskList) : containerOf m (.inl h) = none :=
  rfl

@[simp] theorem containerOf_self (m : ListMember) (t : ℕ) : containerOf m (.inr (m, t)) = some t :=
  if_pos rfl

structure Task where
  pid : ℕ
  parent : ℕ
  status : TaskState
  context : RegsContext
  mm : Option ℕ
  signals : BitVec 32
  handler : BitVec 32

/-- `current` is `none` where the pointer is not that of a task. `ptContext` is the frame of the
interrupted registers, `called` the handlers called so far. -/
structure PcSys where
  links : Links TaskNode
  task : ℕ → Task
  created : ℕ
  current : Option ℕ
  mmCurrent : Option ℕ
  pidStatus : PidStatus
  ptContext : RegsContext
  called : List (BitVec 32)

def kernelStackSize : ℕ := 4096

def Task.has (t : Task) (sig : Signal) : Bool := t.signals &&& sig.value != 0

def taskListInit (l : Links TaskNode) (list : TaskList) : Links TaskNode := l.reset (.inl list)

def taskListAdd (l : Links TaskNode) (list : TaskList) (node : TaskNode) : Links TaskNode :=
  l.link node (l.prev (.inl list)) (.inl list)

def taskListDelete (l : Links TaskNode) (node : TaskNode) : Links TaskNode :=
  l.unlink (l.prev node) (l.next node)

namespace PcSys

def setTask (s : PcSys) (t : ℕ) (task : Task) : PcSys :=
  { s with task := Function.update s.task t task }

def move (s : PcSys) (t : ℕ) (list : TaskList) : PcSys :=
  let node := .inr (.nodeShedule, t)
  { s with links := taskListAdd (taskListDelete s.links node) list node }

end PcSys

/-- `idle` and `memory` are what the memory holds before the call. -/
def initPc (memory : Links TaskNode) (idle : Task) (mmCurrent : Option ℕ)
    (ptContext : RegsContext) : PcSys :=
  let l := taskListInit memory .taskList
  let l := taskListInit l .taskWaitList
  let l := taskListInit l .taskExitList
  let l := taskListInit l .taskScheduleList
  let idle := { idle with pid := 0, parent := 0, status := .running, signals := 0, mm := none }
  let l := taskListAdd l .taskList (.inr (.node, 0))
  let l := taskListAdd l .taskScheduleList (.inr (.nodeShedule, 0))
  { links := l
    task := fun _ => idle
    created := 1
    current := some 0
    mmCurrent := mmCurrent
    pidStatus := initPidStatus
    ptContext := ptContext
    called := [] }

/-- The arguments of `task_create`, the addresses its allocations return and the linker's `_gp`. -/
structure CreateArgs where
  entry : BitVec 32
  argc : BitVec 32
  argv : BitVec 32
  mode : TaskMode
  taskNew : Option (BitVec 32)
  mmNew : Option ℕ
  gp : BitVec 32

def initialContext (args : CreateArgs) (taskNew : BitVec 32) : RegsContext :=
  { RegsContext.zero with
    epc := args.entry
    sp := taskNew + BitVec.ofNat 32 kernelStackSize
    gp := args.gp
    a0 := args.argc
    a1 := args.argv }

/-- The address space of the new task, stuck where `create_mm_struct` gets no memory. -/
def CreateArgs.mm (args : CreateArgs) : Option (Option ℕ) :=
  match args.mode with
  | .kernel => some none
  | .user => args.mmNew.map some

/-- A null pointer from an allocation is written through, and the function is stuck. -/
def taskCreate (args : CreateArgs) (s : PcSys) : Option PcSys :=
  match pidAlloc s.pidStatus with
  | (none, status) => some { s with pidStatus := status }
  | (some pid, status) => do
    let taskNew ← args.taskNew
    let current ← s.current
    let mm ← args.mm
    let t := s.created
    let task : Task :=
      { pid := pid
        parent := (s.task current).pid
        status := .running
        context := initialContext args taskNew
        mm := mm
        signals := 0
        handler := (s.task t).handler }
    let l := taskListAdd s.links .taskList (.inr (.node, t))
    let l := taskListAdd l .taskScheduleList (.inr (.nodeShedule, t))
    some { s.setTask t task with links := l, created := t + 1, pidStatus := status }

def findTask (node : TaskNode) : Option ℕ := containerOf .node node

def findNextTask (s : PcSys) : Option ℕ := findTask (s.links.next (.inl .taskScheduleList))

/-- The walk of `find_task_pid` from `node` on. A node that is not the `node` member of a task
makes it read a pid from a wrong address. -/
def findTaskPid (s : PcSys) (head : TaskList) (pid : ℕ) : ℕ → TaskNode → Option (Option ℕ)
  | 0, _ => none
  | fuel + 1, node =>
    if node = .inl head then some none
    else do
      let task ← containerOf .node node
      if (s.task task).pid = pid then some (some task)
      else findTaskPid s head pid fuel (s.links.next node)

def kill (pid : ℕ) (sig : Signal) (s : PcSys) : Option PcSys := do
  let addSignal (t : ℕ) : PcSys :=
    s.setTask t { s.task t with signals := (s.task t).signals ||| sig.value }
  match ← findTaskPid s .taskList pid (s.created + 1) (s.links.next (.inl .taskList)) with
  | some t => some (addSignal t)
  | none => do
    let r ← findTaskPid s .taskWaitList pid (s.created + 1) (s.links.next (.inl .taskWaitList))
    let t ← r
    some ((addSignal t).move t .taskScheduleList)

def sigHandler (sig : Signal) (handler : BitVec 32) (s : PcSys) : Option PcSys := do
  let current ← s.current
  let r ← findTaskPid s .taskList (s.task current).pid (s.created + 1)
    (s.links.next (.inl .taskList))
  if sig = .sigreserve then do
    let t ← r
    some (s.setTask t { s.task t with handler := handler })
  else some s

/-- The part of `waitpid` before its busy loop, which the next ticks interrupt. -/
def waitpid (s : PcSys) : Option PcSys := do
  let c ← s.current
  let s := s.move c .taskWaitList
  some (s.setTask c { s.task c with status := .interruptible })

def wakeup (s : PcSys) : Option PcSys := do
  let c ← s.current
  kill (s.task c).parent .sigchild s

def taskExit (s : PcSys) : Option PcSys := do
  let c ← s.current
  let s ← wakeup (s.setTask c { s.task c with status := .zombie })
  let l := taskListDelete s.links (.inr (.nodeShedule, c))
  let l := taskListAdd l .taskExitList (.inr (.node, c))
  let s := { s with links := l, pidStatus := pidDelete (s.task c).pid s.pidStatus }
  some { s with current := findNextTask s }

def PcSys.activateMemory (mm : Option ℕ) (s : PcSys) : PcSys := { s with mmCurrent := mm }

/-- The loop of `clearup`, which deletes `node` again and again. -/
def clearup : ℕ → TaskNode → PcSys → Option PcSys
  | 0, _, _ => none
  | fuel + 1, node, s =>
    if node = .inl .taskExitList then some s
    else do
      let taskExit ← containerOf .nodeShedule node
      let l := taskListDelete s.links node
      let l := taskListDelete l (.inr (.node, taskExit))
      clearup fuel node { s with links := l }

end OurOS
