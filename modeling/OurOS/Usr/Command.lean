import Mathlib.Tactic.Common
import OurOS.Utils

namespace OurOS.Usr

def maxCommandLength : ℕ := 64

def maxArgumentLength : ℕ := 8

/-- The list of arguments begins after the node that `arg_list` points to. -/
structure Command where
  cmdName : List ℕ
  args : List (List ℕ)
deriving DecidableEq

section Parser

/-- `thisArgument` holds the characters that were read of the token so far. -/
structure Scan where
  cmdIndex : ℕ
  thisArgument : List ℕ
  status : ℕ
  thisCmd : Command

variable (alloc : ℕ → Bool)

/-- A node that could not be allocated is written through a null pointer. -/
def newArg (cmd : Command) (argName : List ℕ) : Option Command :=
  if alloc (2 + cmd.args.length) then some { cmd with args := cmd.args ++ [argName] } else none

def storeToken (s : Scan) : Option Scan :=
  if s.status = 0 then
    some { s with thisCmd := { s.thisCmd with cmdName := s.thisArgument }, status := 1 }
  else if s.status = 1 then
    (newArg alloc s.thisCmd s.thisArgument).map fun cmd => { s with thisCmd := cmd }
  else some s

/-- The loop of `parse_cmd`: whether it reports an argument as too long, and the command that is
executed after it. -/
def parseLoop (cmd : List ℕ) : ℕ → Scan → Option (Bool × Command)
  | 0, _ => none
  | fuel + 1, s =>
    match (cmd ++ [0])[s.cmdIndex]? with
    | none => none
    | some c =>
      if c ≠ 0 ∧ s.cmdIndex < maxCommandLength then
        if c ≠ ' '.toNat ∧ c ≠ 0 ∧ c ≠ '\n'.toNat then
          if s.thisArgument.length < maxArgumentLength - 1 then
            parseLoop cmd fuel
              { s with cmdIndex := s.cmdIndex + 1, thisArgument := s.thisArgument ++ [c] }
          else some (true, s.thisCmd)
        else if s.thisArgument.length ≠ 0 then
          match storeToken alloc s with
          | none => none
          | some s =>
            if c = 0 ∨ c = '\n'.toNat then some (false, s.thisCmd)
            else parseLoop cmd fuel { s with thisArgument := [] }
        else if c = 0 ∨ c = '\n'.toNat then some (false, s.thisCmd)
        else parseLoop cmd fuel { s with cmdIndex := s.cmdIndex + 1 }
      else some (false, s.thisCmd)

def parseCmd (cmd : List ℕ) : Option (Bool × Command) :=
  if alloc 0 ∧ alloc 1 then parseLoop alloc cmd (2 * cmd.length + 2) ⟨0, [], 0, ⟨[], []⟩⟩ else none

end Parser

section Executor

/-- What `exec_cmd` does. -/
inductive Builtin where
  | nothing
  | pwd
  | ls (name : Option (List ℕ))
  | cd (name : Option (List ℕ))
  | cat (name : List ℕ)
  | loadUserProgram (name : List ℕ)
  | printBuddyInfo
  | printSlabInfo
  | printTlb
  | printNothing
  | testBuddy (digit : ℤ)
  | testSlab
  | testPageFault (digit : ℤ)
  | testNothing
  | testSig
  | testShm
  | rm (name : List ℕ)
  | mkdir (name : List ℕ)
  | touch (name : List ℕ)
  | mv (src dst : List ℕ)
  | app (name text : List ℕ)
  | notEnoughArguments
  | unknownCommand
deriving DecidableEq

def nameOf (text : String) : List ℕ := text.toList.map Char.toNat

/-- A pointer to a node of the list of arguments is the list from that node on, and null is `[]`. A null
pointer has no name and no next node. -/
abbrev ArgPtr : Type := List (List ℕ)

def ArgPtr.argName : ArgPtr → Option (List ℕ) := List.head?

def ArgPtr.nextArg : ArgPtr → Option ArgPtr := List.tail?

def firstDigit (argName : List ℕ) : ℤ := argName.headD 0 - '0'.toNat

def nameOrNull (first : ArgPtr) (f : Option (List ℕ) → Builtin) : Option Builtin :=
  if first ≠ [] then do
    let name ← first.argName
    return f (some name)
  else some (f none)

def withName (first : ArgPtr) (f : List ℕ → Builtin) : Option Builtin :=
  if first = [] then some .notEnoughArguments
  else do
    let name ← first.argName
    return f name

def execPrint (first : ArgPtr) : Option Builtin :=
  withName first fun name =>
    if name = nameOf "buddy" then .printBuddyInfo
    else if name = nameOf "slab" then .printSlabInfo
    else if name = nameOf "tlb" then .printTlb
    else .printNothing

/-- The sub-commands that check for a second argument and use its first character. -/
def withDigit (first : ArgPtr) (f : ℤ → Builtin) : Option Builtin := do
  let second ← first.nextArg
  if second ≠ [] then
    let name ← second.argName
    return f (firstDigit name)
  else return .notEnoughArguments

def execTest (first : ArgPtr) : Option Builtin :=
  if first = [] then some .notEnoughArguments
  else do
    let name ← first.argName
    if name = nameOf "buddy" then withDigit first .testBuddy
    else if name = nameOf "slab" then return .testSlab
    else if name = nameOf "pf" then withDigit first .testPageFault
    else return .testNothing

def execMv (first : ArgPtr) : Option Builtin :=
  if first = [] then some .notEnoughArguments
  else do
    let second ← first.nextArg
    if second = [] then return .notEnoughArguments
    else
      let src ← first.argName
      let dst ← second.argName
      return .mv src dst

/-- Unlike `mv`, it does not check for a second argument. -/
def execApp (first : ArgPtr) : Option Builtin :=
  if first = [] then some .notEnoughArguments
  else do
    let name ← first.argName
    let second ← first.nextArg
    let text ← second.argName
    return .app name text

/-- It is stuck where it follows a null pointer. -/
def execCmd (cmd : Command) : Option Builtin :=
  if cmd.cmdName = nameOf "" then some .nothing
  else if cmd.cmdName = nameOf "pwd" then some .pwd
  else if cmd.cmdName = nameOf "ls" then nameOrNull cmd.args .ls
  else if cmd.cmdName = nameOf "cd" then nameOrNull cmd.args .cd
  else if cmd.cmdName = nameOf "cat" then withName cmd.args .cat
  else if cmd.cmdName = nameOf "exec" then withName cmd.args .loadUserProgram
  else if cmd.cmdName = nameOf "print" then execPrint cmd.args
  else if cmd.cmdName = nameOf "test" then execTest cmd.args
  else if cmd.cmdName = nameOf "sig" then some .testSig
  else if cmd.cmdName = nameOf "ipc" then some .testShm
  else if cmd.cmdName = nameOf "rm" then withName cmd.args .rm
  else if cmd.cmdName = nameOf "mkdir" then withName cmd.args .mkdir
  else if cmd.cmdName = nameOf "touch" then withName cmd.args .touch
  else if cmd.cmdName = nameOf "mv" then execMv cmd.args
  else if cmd.cmdName = nameOf "app" then execApp cmd.args
  else some .unknownCommand

theorem nameOrNull_isSome (first : ArgPtr) (f : Option (List ℕ) → Builtin) :
    (nameOrNull first f).isSome := by
  cases first <;> rfl

theorem withName_isSome (first : ArgPtr) (f : List ℕ → Builtin) : (withName first f).isSome := by
  cases first <;> rfl

theorem withDigit_isSome {first : ArgPtr} (h : first ≠ []) (f : ℤ → Builtin) :
    (withDigit first f).isSome := by
  cases first with
  | nil => exact absurd rfl h
  | cons name rest => cases rest <;> rfl

theorem execTest_isSome (first : ArgPtr) : (execTest first).isSome := by
  cases first with
  | nil => rfl
  | cons name rest =>
    rw [execTest, if_neg (List.cons_ne_nil name rest)]
    change (if name = nameOf "buddy" then withDigit (name :: rest) .testBuddy
      else if name = nameOf "slab" then some .testSlab
      else if name = nameOf "pf" then withDigit (name :: rest) .testPageFault
      else some .testNothing).isSome
    have hdigit (f : ℤ → Builtin) := withDigit_isSome (List.cons_ne_nil name rest) f
    split_ifs
    · exact hdigit .testBuddy
    · rfl
    · exact hdigit .testPageFault
    · rfl

theorem execMv_isSome (first : ArgPtr) : (execMv first).isSome := by
  cases first with
  | nil => rfl
  | cons name rest => cases rest <;> rfl

theorem execApp_isSome_iff (first : ArgPtr) : (execApp first).isSome ↔ first.length ≠ 1 := by
  cases first with
  | nil => exact iff_of_true rfl (by decide)
  | cons name rest =>
    cases rest with
    | nil => exact iff_of_false (fun h => by cases h) (fun h => h rfl)
    | cons text rest => exact iff_of_true rfl (by simp)

theorem ite_isSome {c : Prop} [Decidable c] {a b : Option Builtin} (ha : c → a.isSome)
    (hb : b.isSome) : (if c then a else b).isSome := by
  split
  · exact ha ‹c›
  · exact hb

theorem execCmd_isSome_iff (cmd : Command) :
    (execCmd cmd).isSome ↔ ¬ (cmd.cmdName = nameOf "app" ∧ cmd.args.length = 1) := by
  by_cases happ : cmd.cmdName = nameOf "app"
  · have hexec : execCmd cmd = execApp cmd.args := by
      rw [execCmd, happ]
      rfl
    rw [hexec, execApp_isSome_iff, not_and]
    exact ⟨fun h _ => h, fun h => h happ⟩
  · refine iff_of_true ?_ fun h => happ h.1
    rw [execCmd]
    refine ite_isSome (fun _ => rfl) (ite_isSome (fun _ => rfl) ?_)
    refine ite_isSome (fun _ => nameOrNull_isSome _ _) (ite_isSome (fun _ => nameOrNull_isSome _ _) ?_)
    refine ite_isSome (fun _ => withName_isSome _ _) (ite_isSome (fun _ => withName_isSome _ _) ?_)
    refine ite_isSome (fun _ => withName_isSome _ _) (ite_isSome (fun _ => execTest_isSome _) ?_)
    refine ite_isSome (fun _ => rfl) (ite_isSome (fun _ => rfl) ?_)
    refine ite_isSome (fun _ => withName_isSome _ _) (ite_isSome (fun _ => withName_isSome _ _) ?_)
    refine ite_isSome (fun _ => withName_isSome _ _) (ite_isSome (fun _ => execMv_isSome _) ?_)
    exact ite_isSome (fun h => absurd h happ) rfl

theorem execCmd_app_stuck : ¬ (execCmd ⟨nameOf "app", [nameOf "notes"]⟩).isSome := by decide

section Nothing

variable {first : ArgPtr}

theorem nameOrNull_ne_nothing {f : Option (List ℕ) → Builtin} (hf : ∀ name, f name ≠ .nothing) :
    nameOrNull first f ≠ some .nothing := by
  cases first with
  | nil => exact fun h => hf none (Option.some.inj h)
  | cons name rest => exact fun h => hf (some name) (Option.some.inj h)

theorem withName_ne_nothing {f : List ℕ → Builtin} (hf : ∀ name, f name ≠ .nothing) :
    withName first f ≠ some .nothing := by
  cases first with
  | nil => exact fun h => nomatch h
  | cons name rest => exact fun h => hf name (Option.some.inj h)

theorem withDigit_ne_nothing {f : ℤ → Builtin} (hf : ∀ digit, f digit ≠ .nothing) :
    withDigit first f ≠ some .nothing := by
  cases first with
  | nil => exact fun h => nomatch h
  | cons name rest =>
    cases rest with
    | nil => exact fun h => nomatch h
    | cons second rest => exact fun h => hf _ (Option.some.inj h)

theorem execPrint_ne_nothing : execPrint first ≠ some .nothing := by
  refine withName_ne_nothing fun name => ?_
  split_ifs <;> exact Builtin.noConfusion

theorem execTest_ne_nothing : execTest first ≠ some .nothing := by
  cases first with
  | nil => exact fun h => nomatch h
  | cons name rest =>
    change (if name = nameOf "buddy" then withDigit (name :: rest) .testBuddy
      else if name = nameOf "slab" then some .testSlab
      else if name = nameOf "pf" then withDigit (name :: rest) .testPageFault
      else some .testNothing) ≠ some .nothing
    split_ifs
    · exact withDigit_ne_nothing fun _ => Builtin.noConfusion
    · exact fun h => nomatch h
    · exact withDigit_ne_nothing fun _ => Builtin.noConfusion
    · exact fun h => nomatch h

theorem execMv_ne_nothing : execMv first ≠ some .nothing := by
  cases first with
  | nil => exact fun h => nomatch h
  | cons name rest => cases rest <;> exact fun h => nomatch h

theorem execApp_ne_nothing : execApp first ≠ some .nothing := by
  cases first with
  | nil => exact fun h => nomatch h
  | cons name rest => cases rest <;> exact fun h => nomatch h

theorem ite_ne_nothing {c : Prop} [Decidable c] {a b : Option Builtin} (ha : a ≠ some .nothing)
    (hb : b ≠ some .nothing) : (if c then a else b) ≠ some .nothing := by
  split
  · exact ha
  · exact hb

theorem execCmd_eq_nothing_iff (cmd : Command) :
    execCmd cmd = some .nothing ↔ cmd.cmdName = [] := by
  have hempty : nameOf "" = [] := rfl
  by_cases hnil : cmd.cmdName = []
  · refine iff_of_true ?_ hnil
    rw [execCmd, hempty, if_pos hnil]
  · refine iff_of_false ?_ hnil
    rw [execCmd, hempty, if_neg hnil]
    have hsimple {b : Builtin} (h : b ≠ .nothing) : some b ≠ some .nothing := fun e =>
      h (Option.some.inj e)
    have hname {f : List ℕ → Builtin} (h : ∀ name, f name ≠ .nothing) :
        withName cmd.args f ≠ some .nothing := withName_ne_nothing h
    refine ite_ne_nothing (hsimple Builtin.noConfusion) ?_
    refine ite_ne_nothing (nameOrNull_ne_nothing fun _ => Builtin.noConfusion) ?_
    refine ite_ne_nothing (nameOrNull_ne_nothing fun _ => Builtin.noConfusion) ?_
    refine ite_ne_nothing (hname fun _ => Builtin.noConfusion) ?_
    refine ite_ne_nothing (hname fun _ => Builtin.noConfusion) ?_
    refine ite_ne_nothing execPrint_ne_nothing (ite_ne_nothing execTest_ne_nothing ?_)
    refine ite_ne_nothing (hsimple Builtin.noConfusion) ?_
    refine ite_ne_nothing (hsimple Builtin.noConfusion) ?_
    refine ite_ne_nothing (hname fun _ => Builtin.noConfusion) ?_
    refine ite_ne_nothing (hname fun _ => Builtin.noConfusion) ?_
    refine ite_ne_nothing (hname fun _ => Builtin.noConfusion) ?_
    refine ite_ne_nothing execMv_ne_nothing (ite_ne_nothing execApp_ne_nothing ?_)
    exact hsimple Builtin.noConfusion

end Nothing

end Executor

end OurOS.Usr
