import OurOS.Pc.Task

namespace OurOS

namespace PcSys

/-- A task with SIGSTOP pending is moved to the exit list. -/
def stop (s : PcSys) (next : ℕ) : PcSys :=
  let s := s.move next .taskExitList
  let s := { s with pidStatus := pidDelete (s.task next).pid s.pidStatus }
  s.setTask next
    { s.task next with signals := (s.task next).signals ^^^ Signal.sigstop.value }

def wait (s : PcSys) (next : ℕ) : PcSys :=
  let s := s.move next .taskWaitList
  s.setTask next
    { s.task next with
      status := .interruptible
      signals := (s.task next).signals ^^^ Signal.sigwait.value }

def wake (s : PcSys) (next : ℕ) : PcSys :=
  if (s.task next).status = .interruptible then
    let s := s.move next .taskScheduleList
    s.setTask next
      { s.task next with
        status := .running
        signals := (s.task next).signals ^^^ Signal.sigchild.value }
  else s

def rotate (s : PcSys) (current : ℕ) : PcSys :=
  if (s.task current).status = .running then s.move current .taskScheduleList else s

end PcSys

/-- The walk of the wait list in `pc_schedule`. The task is that of `goto finded`, and there is
none where the code goes on at `find`. -/
def scanWaiters : ℕ → TaskNode → PcSys → Option (Option ℕ × PcSys)
  | 0, _, _ => none
  | fuel + 1, it, s =>
    if it = .inl .taskWaitList then some (none, s)
    else do
      let next ← containerOf .nodeShedule it
      if (s.task next).signals = 0 then scanWaiters fuel (s.links.next it) s
      else if (s.task next).has .sigstop then some (none, s.stop next)
      else if (s.task next).has .sigchild then some (some next, s.wake next)
      else scanWaiters fuel (s.links.next it) s

/-- The code from `find` to `finded`, with the handler where `flag` is set. -/
def findRunnable : ℕ → PcSys → Option (ℕ × Option (BitVec 32) × PcSys)
  | 0, _ => none
  | fuel + 1, s => do
    let next ← containerOf .nodeShedule (s.links.next (.inl .taskScheduleList))
    let task := s.task next
    if task.signals = 0 then some (next, none, s)
    else if task.has .sigstop then findRunnable fuel (s.stop next)
    else if task.has .sigwait then findRunnable fuel (s.wait next)
    else if task.has .sigchild then some (next, none, s.wake next)
    else if task.has .sigreserve then
      let signals := task.signals ^^^ Signal.sigreserve.value
      some (next, some task.handler, s.setTask next { task with signals := signals })
    else some (next, none, s)

def switchTo (current next : ℕ) (f : Option (BitVec 32)) (s : PcSys) : PcSys :=
  if next = current then s
  else
    let saved := copyContext s.ptContext (s.task current).context
    let s := s.setTask current { s.task current with context := saved }
    let s := if (s.task next).mm.isSome then s.activateMemory (s.task next).mm else s
    let s := { s with
      current := some next
      ptContext := copyContext (s.task next).context s.ptContext }
    { s with called := s.called ++ f.toList }

def pcSchedule (s : PcSys) : Option PcSys := do
  let s ← clearup (s.created + 1) (s.links.next (.inl .taskExitList)) s
  let current ← s.current
  let s := s.rotate current
  let (finded, s) ← scanWaiters (s.created + 1) (s.links.next (.inl .taskWaitList)) s
  let (next, f, s) ← match finded with
    | some next => some (next, none, s)
    | none => findRunnable (s.created + 1) s
  some (switchTo current next f s)

inductive PcOp
  | taskCreate (args : CreateArgs)
  | kill (pid : ℕ) (sig : Signal)
  | sigHandler (sig : Signal) (handler : BitVec 32)
  | waitpid
  | taskExit
  | tick (ptContext : RegsContext)

/-- What a handler does is in the operations after the tick that called it, which is where
`pc_schedule` calls it. -/
def pcStep (s : PcSys) : PcOp → Option PcSys
  | .taskCreate args => taskCreate args s
  | .kill pid sig => kill pid sig s
  | .sigHandler sig handler => sigHandler sig handler s
  | .waitpid => waitpid s
  | .taskExit => taskExit s
  | .tick ptContext => pcSchedule { s with ptContext := ptContext }

def listNodes (l : Links TaskNode) (head : TaskNode) : ℕ → TaskNode → List TaskNode
  | 0, _ => []
  | fuel + 1, node => if node = head then [] else node :: listNodes l head fuel (l.next node)

def PcSys.tasksOn (s : PcSys) (list : TaskList) : List ℕ :=
  (listNodes s.links (.inl list) (s.created + 1) (s.links.next (.inl list))).filterMap
    (containerOf .nodeShedule)

end OurOS
