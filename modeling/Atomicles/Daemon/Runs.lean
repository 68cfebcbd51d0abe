import Atomicles.Daemon.World

/-!
# Runs of a daemon

Where a run begins, and how runs on fixed inputs are computed.
-/

namespace Atomicles.Daemon

open Interaction

/-- The world in which no process has done anything: default dispositions,
and the mask that all processes inherit. -/
def World.initial (store : Store) (inherited : Signal → Bool)
    (labels : Pid → Option Label) : World where
  store := store
  mask _ := inherited
  disposition _ _ := .default
  pending _ _ := false
  buffer _ := none
  living process := (labels process).isSome
  children _ := []

/-- Processes that are about to run from their labels on. -/
def begin (store : Store) (inherited : Signal → Bool)
    (labels : Pid → Option Label) : Processes where
  state := World.initial store inherited labels
  procs process := (labels process).map .done
  log := []

theorem begin_procs {store : Store} {inherited : Signal → Bool}
    {labels : Pid → Option Label} {process : Pid} {program : Prog Label}
    (running : (begin store inherited labels).procs process = some program) :
    ∃ label, labels process = some label ∧ program = .done label := by
  rcases Option.map_eq_some_iff.mp running with ⟨label, isLabel, same⟩
  exact ⟨label, isLabel, same.symm⟩

/-- The processes that were forked. -/
def forked : List Moves → List Pid
  | [] => []
  | .fork _ child _ :: earlier => child :: forked earlier
  | _ :: earlier => forked earlier

/-- Who is alive was there at the beginning or was forked. -/
theorem alive_or_forked
    {platform : Platform signature Pid World Label Raise}
    {admitted : Processes → Moves → Prop} {initial crew : Processes}
    (reach : Crew.Reach platform admitted initial crew) {process : Pid}
    (lives : crew.procs process ≠ none) :
    initial.procs process ≠ none ∨ process ∈ forked crew.log := by
  induction reach with
  | start => exact Or.inl lives
  | @step crew after move before step fine ih =>
      have updated : ∀ actor next, crew.procs actor ≠ none →
          Function.update crew.procs actor next process ≠ none →
            crew.procs process ≠ none := by
        intro actor next running lives
        by_cases same : process = actor
        · rwa [same]
        · rwa [Function.update_of_ne same] at lives
      cases step with
      | call running exec => exact ih (updated _ _ (by simp [running]) lives)
      | @fork parent child call next here there running fresh forks =>
          by_cases isChild : process = child
          · exact Or.inr (by simp [forked, isChild])
          · rw [Crew.record_procs, Function.update_of_ne isChild] at lives
            rcases ih (updated _ _ (by simp [running]) lives) with
              first | later
            · exact Or.inl first
            · exact Or.inr (by simp [forked, later])
      | enter running code => exact ih (updated _ _ (by simp [running]) lives)
      | jump running jumps => exact ih (updated _ _ (by simp [running]) lives)
      | leave running exits => exact ih (updated _ _ (by simp [running]) lives)
      | kill running => exact ih (updated _ _ (by simp [running]) lives)
      | outside event => exact ih lives

/-! ## Computed runs -/

variable (paths : KeyPaths) (decay : UInt → Nat)

/-- What is to happen next. -/
inductive Turn where
  | call (process : Pid) (choice : Choice)
  | fork (parent child : Pid)
  | enter (process : Pid) (stack : WaitStatus)
  | caught (process : Pid) (signal : Signal)
  | exec (process : Pid)
  | leave (process : Pid)
  | kill (process : Pid)
  | raise (process : Pid) (signal : Signal)

/-- A number of calls of one process, to all of which the kernel agrees. -/
def calls (process : Pid) (number : Nat) : List Turn :=
  List.replicate number (.call process {})

/-- A place where a process may leave. -/
def isOver : Prog Label → Bool
  | .done (.ended _) => true
  | .done .command => true
  | .issue (.die _) _ => true
  | _ => false

theorem over_of_isOver {program : Prog Label}
    (ends : isOver program = true) : Over program := by
  unfold isOver at ends
  unfold Over
  split at ends
  · trivial
  · trivial
  · trivial
  · cases ends

/-- The move a turn stands for, and what it leads to. -/
def turn (crew : Processes) : Turn → Option (Moves × Processes)
  | .call process choice =>
      match crew.procs process with
      | some (.issue call next) =>
          match crew.state.serve process choice call with
          | some (answer, world) =>
              some (.call process ⟨call, answer⟩,
                crew.record (.call process ⟨call, answer⟩) world
                  (Function.update crew.procs process (some (next answer))))
          | none => none
      | _ => none
  | .fork parent child =>
      match crew.procs parent with
      | some (.issue .fork next) =>
          if crew.procs child |>.isNone then
            if 0 < child ∧ child < PID_MAX_LIMIT then
              some (.fork parent child .fork,
                crew.record (.fork parent child .fork)
                  (crew.state.clone parent child)
                  (Function.update
                    (Function.update crew.procs parent
                      (some (next (child : Int))))
                    child (some (next (0 : Int)))))
            else none
          else none
      | _ => none
  | .enter process stack =>
      match crew.procs process with
      | some (.done label) =>
          match code paths decay stack label with
          | some program =>
              some (.enter process label,
                crew.record (.enter process label)
                  (Daemon.enter process label crew.state)
                  (Function.update crew.procs process (some program)))
          | none => none
      | _ => none
  | .caught process signal =>
      match crew.procs process, crew.state.buffer process with
      | some _, some saved =>
          if crew.state.deliverable process signal then
            some (.jump process (.caught signal saved),
              crew.record (.jump process (.caught signal saved))
                (crew.state.catch process signal)
                (Function.update crew.procs process
                  (some (.done (.caught signal saved)))))
          else none
      | _, _ => none
  | .exec process =>
      match crew.procs process with
      | some (.issue .execvp _) =>
          some (.jump process .command,
            crew.record (.jump process .command) (crew.state.exec process)
              (Function.update crew.procs process (some (.done .command))))
      | _ => none
  | .leave process =>
      match crew.procs process with
      | some program =>
          if isOver program then
            some (.leave process,
              crew.record (.leave process) (crew.state.leave process)
                (Function.update crew.procs process none))
          else none
      | none => none
  | .kill process =>
      match crew.procs process with
      | some _ =>
          some (.kill process,
            crew.record (.kill process) (crew.state.leave process)
              (Function.update crew.procs process none))
      | none => none
  | .raise process signal =>
      some (.outside ⟨process, signal⟩,
        crew.record (.outside ⟨process, signal⟩)
          (crew.state.post process signal) crew.procs)

/-- The choice of a turn is admitted. -/
def Turn.Admitted (admits : Choice → Prop) : Turn → Prop
  | .call _ choice => admits choice
  | _ => True

/-- A kernel that may do anything admits all choices. -/
theorem Turn.admitted_any {schedule : List Turn} :
    ∀ entry ∈ schedule, entry.Admitted fun _ => True := by
  intro entry _
  cases entry <;> trivial

/-- The check that the kernel grants a call. -/
def Turn.isGranted : Turn → Bool
  | .call _ choice => choice.refuse.isNone && choice.memory
  | _ => true

theorem Turn.admitted_grants {schedule : List Turn}
    (granted : schedule.all isGranted = true) :
    ∀ entry ∈ schedule, entry.Admitted Grants := by
  intro entry member
  have isGranted := List.all_eq_true.mp granted entry member
  cases entry with
  | call process choice =>
      rcases Bool.and_eq_true_iff.mp isGranted with ⟨unrefused, memory⟩
      exact ⟨Option.isNone_iff_eq_none.mp unrefused, memory⟩
  | _ => trivial

/-- A turn is a step. -/
theorem turn_step {admits : Choice → Prop} {entry : Turn}
    {crew after : Processes} {move : Moves} (admitted : entry.Admitted admits)
    (turned : turn paths decay crew entry = some (move, after)) :
    Crew.Step (system paths decay admits) crew move after := by
  cases entry with
  | call process choice =>
      simp only [turn] at turned
      split at turned
      · rename_i call next running
        split at turned
        · rename_i answer world served
          cases turned
          exact .call running ⟨choice, admitted, served⟩
        · cases turned
      · cases turned
  | fork parent child =>
      simp only [turn] at turned
      split at turned
      · rename_i next running
        split at turned
        · rename_i fresh
          split at turned
          · rename_i proper
            cases turned
            have isFresh : crew.procs child = none := by
              simpa using fresh
            apply Crew.Step.fork running isFresh
            simp only [system]
            rw [if_pos proper]
          · cases turned
        · cases turned
      · cases turned
  | enter process stack =>
      simp only [turn] at turned
      split at turned
      · rename_i label running
        split at turned
        · rename_i program piece
          cases turned
          exact .enter running ⟨stack, piece⟩
        · cases turned
      · cases turned
  | caught process signal =>
      simp only [turn] at turned
      split at turned
      · rename_i program saved running jmpbuf
        split at turned
        · rename_i deliverable
          cases turned
          exact .jump running (.caught deliverable jmpbuf rfl rfl)
        · cases turned
      · cases turned
  | exec process =>
      simp only [turn] at turned
      split at turned
      · rename_i next running
        cases turned
        exact .jump running .exec
      · cases turned
  | leave process =>
      simp only [turn] at turned
      split at turned
      · rename_i program running
        split at turned
        · rename_i ends
          cases turned
          exact .leave running (over_of_isOver ends)
        · cases turned
      · cases turned
  | kill process =>
      simp only [turn] at turned
      split at turned
      · rename_i program running
        cases turned
        exact .kill running
      · cases turned
  | raise process signal =>
      simp only [turn, Option.some.injEq, Prod.mk.injEq] at turned
      rcases turned with ⟨rfl, rfl⟩
      exact Crew.Step.outside (Raise.mk process signal)

/-- Take turns as scheduled, as long as the moves pass a check. -/
def follow (check : Processes → Moves → Bool) :
    List Turn → Processes → Option Processes
  | [], crew => some crew
  | entry :: rest, crew =>
      match turn paths decay crew entry with
      | some (move, after) =>
          if check crew move then follow check rest after else none
      | none => none

/-- A schedule whose outcome has a computable property leads to such a crew,
by moves that are admitted as far as the check is sound for the crews
reached. -/
theorem follow_reaches {admits : Choice → Prop}
    {admitted : Processes → Moves → Prop} {check : Processes → Moves → Bool}
    {schedule : List Turn} {initial : Processes} {property : Processes → Bool}
    (sound : ∀ crew move,
      Crew.Reach (system paths decay admits) Crew.Unrestricted initial crew →
        check crew move = true → admitted crew move)
    (choices : ∀ entry ∈ schedule, entry.Admitted admits)
    (computed : (follow paths decay check schedule initial).any property =
      true) :
    ∃ crew, Crew.Reach (system paths decay admits) admitted initial crew ∧
      property crew = true := by
  suffices extend : ∀ before,
      Crew.Reach (system paths decay admits) admitted initial before →
        (follow paths decay check schedule before).any property = true →
          ∃ crew, Crew.Reach (system paths decay admits) admitted initial
            crew ∧ property crew = true from extend initial .start computed
  clear computed
  induction schedule with
  | nil =>
      intro before reach computed
      exact ⟨before, reach, computed⟩
  | cons entry rest ih =>
      intro before reach computed
      unfold follow at computed
      split at computed
      · rename_i move after turned
        split at computed
        · rename_i passed
          have step : Crew.Step (system paths decay admits) before move after :=
            turn_step paths decay (choices entry (by simp)) turned
          have fine : admitted before move :=
            sound before move (reach.mono fun _ _ _ => trivial) passed
          exact ih (fun entry member => choices entry (by simp [member])) after
            (reach.step step fine) computed
        · cases computed
      · cases computed

/-- The check that passes everything. -/
def anything (_ : Processes) (_ : Moves) : Bool :=
  true

/-- The same without a condition on the moves and on the kernel. -/
theorem follow_reaches_any {schedule : List Turn} {initial : Processes}
    {property : Processes → Bool}
    (computed : (follow paths decay anything schedule initial).any property =
      true) :
    ∃ crew, Crew.Reach (system paths decay fun _ => True) Crew.Unrestricted
      initial crew ∧ property crew = true := by
  apply follow_reaches paths decay _ _ computed
  · intro _ _ _ _
    trivial
  · exact Turn.admitted_any

/-! ## A channel to compute with -/

def mutexId : IpcId :=
  ⟨KeyPaths.devtmpfs.semKey (5 + 128), 1⟩

def segmentId : IpcId :=
  ⟨KeyPaths.devtmpfs.shmKey 5, 1⟩

/-- A handle of the segment. -/
def handle : SharedMemory :=
  { key := 5
    id := segmentId
    size := Member.assign SHMEM_SIZE
    addr := .mapped segmentId
    shsem := some { key := 5 + 128, id := mutexId, count := 1, size := 1 } }

/-- The mutex is free, and some processes are attached to a segment of
zeros. -/
def channel (attached : List Pid) : Store :=
  { sems := fun id =>
      if id = mutexId then
        some { semvals := [1], semadj := fun _ _ => 0, sem_ctime := 0 }
      else none
    semGen := fun key => if key = mutexId.key then 1 else 0
    shms := fun id =>
      if id = segmentId then
        some
          { size := SHMEM_SIZE, bytes := fun _ => 0, attached, dest := false }
      else none
    shmGen := fun key => if key = segmentId.key then 1 else 0
    now := 0 }

/-- What `daemonize` enters its loop with. -/
def firstLocals : Locals :=
  { shmem := handle, count := 0, timer := 0, failure_time := 0
    exec_time := 0 }

/-- A supervisor before its first round. -/
def supervised : Processes :=
  begin (channel [1]) (fun _ => false)
    fun process => if process = 1 then some (.round firstLocals) else none

end Atomicles.Daemon
