import Atomicles.Interaction.Crew
import Atomicles.Kernel.Memory
import Atomicles.Source.Daemonize

/-!
# The world of a daemon

What the kernel keeps of each process besides the IPC store: the signal mask,
the dispositions and the pending signals, the place `setjmp` has saved, and
which of its children live.  A caught signal runs `handler`, which does not
return: with everything blocked it ignores the signal from then on and jumps
to the saved place, and nothing takes the mask back.

`SA_NOCLDWAIT` is set for `SIGCHLD`, so a dead child is gone at once, and
`waitpid` reports a child only when it stops or continues.  A signal to a
process group reaches its members as signals from outside.
-/

namespace Atomicles.Daemon

open Interaction

/-- What a process does with a signal. -/
inductive Disposition where
  | default
  | ignore
  | handler
deriving DecidableEq, Repr

/-- The store, and the kernel's part of each process. -/
structure World where
  store : Store
  mask : Pid → Signal → Bool
  disposition : Pid → Signal → Disposition
  pending : Pid → Signal → Bool
  /-- What `g_state_buf` holds. -/
  buffer : Pid → Option Locals
  living : Pid → Bool
  /-- The living children. -/
  children : Pid → List Pid

/-- A signal that comes from outside. -/
structure Raise where
  process : Pid
  signal : Signal

/-- The processes of a daemon, of the programs that start and stop it, and
the commands it runs. -/
abbrev Processes := Crew signature Pid World Label Raise

/-- A step of one of them. -/
abbrev Moves := Move signature Pid Label Raise

/-- No process has a larger identifier. -/
def PID_MAX_LIMIT : Nat := 0x400000

namespace World

/-- A signal is dropped where it is neither blocked nor of any effect. -/
def discards (world : World) (process : Pid) (signal : Signal) : Bool :=
  !world.mask process signal &&
    (world.disposition process signal = .ignore ||
      world.disposition process signal = .default && signal = .SIGCHLD)

/-- A signal comes to a process. -/
def post (process : Pid) (signal : Signal) (world : World) : World :=
  if world.living process && !world.discards process signal then
    { world with
      pending := Function.update world.pending process
        (Function.update (world.pending process) signal true) }
  else world

/-- The handler is called next. -/
def deliverable (world : World) (process : Pid) (signal : Signal) : Bool :=
  world.pending process signal && !world.mask process signal &&
    world.disposition process signal = .handler

/-- `sigaction(signal, &sa, NULL)`. -/
def install (process : Pid) (signal : Signal) (world : World) : World :=
  { world with
    disposition := Function.update world.disposition process
      (Function.update (world.disposition process) signal .handler) }

/-- `handler` has run: everything was blocked for it and stays blocked, and
the signal is ignored. -/
def «catch» (process : Pid) (signal : Signal) (world : World) : World :=
  { world with
    mask := Function.update world.mask process fun _ => true
    disposition := Function.update world.disposition process
      (Function.update (world.disposition process) signal .ignore)
    pending := Function.update world.pending process
      (Function.update (world.pending process) signal false) }

/-- The dispositions after `execvp`. -/
def inherited : Disposition → Disposition
  | .default => .default
  | .ignore => .ignore
  | .handler => .default

/-- `execvp` has replaced the program: mappings and handlers are gone, the
mask and the undo adjustments are not. -/
def exec (process : Pid) (world : World) : World :=
  { world with
    store :=
      { world.store with
        shms := fun id => (world.store.shms id).bind fun segment =>
          Store.keepMapped segment (segment.attached.filter (· ≠ process)) }
    disposition := Function.update world.disposition process fun signal =>
      inherited (world.disposition process signal)
    buffer := Function.update world.buffer process none }

/-- A process has ended, which its parent is told. -/
def leave (process : Pid) (world : World) : World :=
  { world with
    store := world.store.leave process
    pending := fun other signal =>
      world.pending other signal ||
        signal = .SIGCHLD && process ∈ world.children other &&
          !world.discards other .SIGCHLD
    buffer := Function.update world.buffer process none
    living := Function.update world.living process false
    children := Function.update
      (fun other => (world.children other).filter (· ≠ process)) process [] }

/-- `fork`: the child is a copy, without pending signals. -/
def clone (parent child : Pid) (world : World) : World :=
  { store := granting.clone parent child world.store
    mask := Function.update world.mask child (world.mask parent)
    disposition :=
      Function.update world.disposition child (world.disposition parent)
    pending := Function.update world.pending child fun _ => false
    buffer := Function.update world.buffer child (world.buffer parent)
    living := Function.update world.living child true
    children := Function.update
      (Function.update world.children child []) parent
        (child :: world.children parent) }

/-- The living children that `waitpid(pid)` waits for. -/
def awaited (world : World) (process : Pid) (pid : Int) : List Pid :=
  (world.children process).filter fun child => pid ≤ 0 ∨ pid = child

/-- The answer to a call, as the choice has it; `none` if the call has to
wait, or has no answer. -/
def serve (process : Pid) (choice : Choice) :
    (call : Call) → World → Option (call.Answer × World)
  -- A fork that succeeds is a step of its own.
  | .fork, world => some ((-1 : Int), world)
  -- So is an `execvp` that succeeds.
  | .execvp, world => some (choice.refuse.getD .ENOENT, world)
  | .sigaction signal, world =>
      match choice.refuse with
      | some errno => some ((.error errno : Except Errno Unit), world)
      | none => some ((.ok () : Except Errno Unit), world.install process signal)
  | .kill pid signal, world =>
      match choice.refuse with
      | some errno => some ((.error errno : Except Errno Unit), world)
      | none =>
          if pid ≤ 0 then some ((.ok () : Except Errno Unit), world)
          else if world.living pid.toNat then
            some ((.ok () : Except Errno Unit),
              match signal with
              | some signal => world.post pid.toNat signal
              | none => world)
          else some ((.error .ESRCH : Except Errno Unit), world)
  | .waitpid pid, world =>
      if world.awaited process pid = [] then
        -- The `SIGCHLD` of a child that has ended comes first.
        if signals.any (world.deliverable process) then none
        else some ((.error .ECHILD : Except Errno (Int × WaitStatus)), world)
      else if !statusEnds choice.status.2 ∧
          ∃ child ∈ world.awaited process pid, choice.status.1 = child then
        some ((.ok choice.status : Except Errno (Int × WaitStatus)), world)
      else none
  | call, world =>
      (Atomicles.serve process choice call world.store).map fun served =>
        (served.1, { world with store := served.2 })

end World

variable (paths : KeyPaths) (decay : UInt → Nat)

/-- The jumps of a process: its handler is called, after which the variables
that were assigned since `setjmp` may hold anything, or its program is
replaced. -/
inductive Jumps (process : Pid) :
    Prog Label → World → Label → World → Prop where
  | caught {program : Prog Label} {world : World} {signal : Signal}
      {saved locals : Locals}
      (deliverable : world.deliverable process signal = true)
      (jmpbuf : world.buffer process = some saved)
      (shmem : locals.shmem = saved.shmem)
      (count : locals.count = saved.count) :
      Jumps process program world (.caught signal locals)
        (world.catch process signal)
  | exec {next : Errno → Prog Label} {world : World} :
      Jumps process (.issue .execvp next) world .command (world.exec process)

/-- The places where a process may leave. -/
def Over : Prog Label → Prop
  | .done (.ended _) => True
  | .done .command => True
  | .issue (.die _) _ => True
  | _ => False

/-- What going on from a label does: `setjmp` saves the place, and the return
from `daemonize` makes it useless. -/
def enter (process : Pid) (label : Label) (world : World) : World :=
  match label with
  | .round locals =>
      { world with buffer := Function.update world.buffer process (some locals) }
  | .returned _ =>
      { world with buffer := Function.update world.buffer process none }
  | _ => world

/-- The kernel under a daemon, with the choices it admits. -/
def system (admits : Choice → Prop) :
    Platform signature Pid World Label Raise where
  exec process call world answer after :=
    ∃ choice, admits choice ∧
      world.serve process choice call = some (answer, after)
  leave := World.leave
  fork call child :=
    match call with
    | .fork =>
        if 0 < child ∧ child < PID_MAX_LIMIT then
          some ((child : Int), (0 : Int))
        else none
    | _ => none
  clone := World.clone
  code label program :=
    ∃ stack, Daemon.code paths decay stack label = some program
  enter := enter
  jump := Jumps
  exits := Over
  disturb event := World.post event.process event.signal

/-! ## What a call leaves alone -/

namespace World

variable {world after : World} {process target : Pid} {signal : Signal}

@[simp]
theorem post_store : (world.post target signal).store = world.store := by
  unfold post
  split <;> rfl

@[simp]
theorem post_mask : (world.post target signal).mask = world.mask := by
  unfold post
  split <;> rfl

@[simp]
theorem post_disposition :
    (world.post target signal).disposition = world.disposition := by
  unfold post
  split <;> rfl

@[simp]
theorem post_buffer : (world.post target signal).buffer = world.buffer := by
  unfold post
  split <;> rfl

@[simp]
theorem post_living : (world.post target signal).living = world.living := by
  unfold post
  split <;> rfl

@[simp]
theorem post_children :
    (world.post target signal).children = world.children := by
  unfold post
  split <;> rfl

/-- A call installs a handler, posts a signal, or changes the store only. -/
theorem serve_frame {choice : Choice} {call : Call} {answer : call.Answer}
    (served : world.serve process choice call = some (answer, after)) :
    (∃ signal, call = .sigaction signal ∧
        after = world.install process signal) ∨
      (∃ target signal, after = world.post target signal) ∨
        ∃ store, after = { world with store } := by
  cases call with
  | fork =>
      cases served
      exact Or.inr (Or.inr ⟨world.store, rfl⟩)
  | execvp =>
      cases served
      exact Or.inr (Or.inr ⟨world.store, rfl⟩)
  | sigaction signal =>
      simp only [serve] at served
      split at served
      · cases served
        exact Or.inr (Or.inr ⟨world.store, rfl⟩)
      · cases served
        exact Or.inl ⟨signal, rfl, rfl⟩
  | kill pid signal =>
      simp only [serve] at served
      split at served
      · cases served
        exact Or.inr (Or.inr ⟨world.store, rfl⟩)
      · split at served
        · cases served
          exact Or.inr (Or.inr ⟨world.store, rfl⟩)
        · split at served
          · cases signal with
            | some signal =>
                cases served
                exact Or.inr (Or.inl ⟨pid.toNat, signal, rfl⟩)
            | none =>
                cases served
                exact Or.inr (Or.inr ⟨world.store, rfl⟩)
          · cases served
            exact Or.inr (Or.inr ⟨world.store, rfl⟩)
  | waitpid pid =>
      simp only [serve] at served
      split at served
      · split at served
        · cases served
        · cases served
          exact Or.inr (Or.inr ⟨world.store, rfl⟩)
      · split at served
        · cases served
          exact Or.inr (Or.inr ⟨world.store, rfl⟩)
        · cases served
  | _ =>
      rcases Option.map_eq_some_iff.mp served with ⟨⟨_, store⟩, _, same⟩
      cases same
      exact Or.inr (Or.inr ⟨store, rfl⟩)

end World

/-- The calls that are not about the store. -/
def ofProcess : Call → Bool
  | .fork => true
  | .execvp => true
  | .sigaction _ => true
  | .kill .. => true
  | .waitpid _ => true
  | _ => false

section Store

variable {admits : Choice → Prop} {process : Pid} {call : Call}
variable {world after : World} {answer : call.Answer}

/-- A call leaves the store alone or is served by the kernel of the IPC
calls. -/
theorem exec_store
    (exec : (system paths decay admits).exec process call world answer after) :
    (ofProcess call = true ∧ after.store = world.store) ∨
      (kernel admits).exec process call world.store answer after.store := by
  rcases exec with ⟨choice, admitted, served⟩
  have ipc : ∀ outcome : Option (call.Answer × Store),
      Atomicles.serve process choice call world.store = outcome →
        (outcome.map fun served =>
          (served.1, { world with store := served.2 })) =
            some (answer, after) →
          (kernel admits).exec process call world.store answer
            after.store := by
    intro outcome isOutcome mapped
    rcases Option.map_eq_some_iff.mp mapped with ⟨⟨_, store⟩, found, same⟩
    cases same
    exact ⟨choice, admitted, isOutcome.trans found⟩
  cases call with
  | fork =>
      cases served
      exact Or.inl ⟨rfl, rfl⟩
  | execvp =>
      cases served
      exact Or.inl ⟨rfl, rfl⟩
  | sigaction signal =>
      simp only [World.serve] at served
      split at served
      · cases served
        exact Or.inl ⟨rfl, rfl⟩
      · cases served
        exact Or.inl ⟨rfl, rfl⟩
  | kill pid signal =>
      simp only [World.serve] at served
      split at served
      · cases served
        exact Or.inl ⟨rfl, rfl⟩
      · split at served
        · cases served
          exact Or.inl ⟨rfl, rfl⟩
        · split at served
          · cases signal with
            | some signal =>
                cases served
                exact Or.inl ⟨rfl, World.post_store⟩
            | none =>
                cases served
                exact Or.inl ⟨rfl, rfl⟩
          · cases served
            exact Or.inl ⟨rfl, rfl⟩
  | waitpid pid =>
      simp only [World.serve] at served
      split at served
      · split at served
        · cases served
        · cases served
          exact Or.inl ⟨rfl, rfl⟩
      · split at served
        · cases served
          exact Or.inl ⟨rfl, rfl⟩
        · cases served
  | _ => exact Or.inr (ipc _ rfl served)

/-- A call that is no operation on semaphore sets spares them. -/
theorem exec_sems (spares : call.sparesSems = true)
    (exec : (system paths decay admits).exec process call world answer after) :
    SameSems world.store after.store := by
  rcases exec_store paths decay exec with ⟨_, same⟩ | ipc
  · rw [same]
    exact ⟨rfl, rfl⟩
  · exact exec_sameSems spares ipc

end Store

/-! ## What the other steps leave alone -/

section Steps

variable {process : Pid} {label : Label} {world : World} {addr : Addr}
variable {offset : Nat} {word : UInt}

theorem enter_store : (enter process label world).store = world.store := by
  cases label <;> rfl

theorem enter_mask : (enter process label world).mask = world.mask := by
  cases label <;> rfl

theorem enter_disposition :
    (enter process label world).disposition = world.disposition := by
  cases label <;> rfl

theorem clone_word {parent child : Pid} :
    wordAt (world.clone parent child).store addr offset =
      wordAt world.store addr offset := by
  cases addr with
  | mapped id =>
      simp only [wordAt, World.clone, kernel, Option.map_map]
      rfl
  | _ => rfl

theorem exec_word
    (found : wordAt (world.exec process).store addr offset = some word) :
    wordAt world.store addr offset = some word := by
  cases addr with
  | mapped id =>
      simp only [wordAt, World.exec, Option.map_eq_some_iff,
        Option.bind_eq_some_iff] at found ⊢
      rcases found with ⟨kept, ⟨segment, before, keeps⟩, same⟩
      exact ⟨segment, before, by rw [← same, Store.keepMapped_word keeps]⟩
  | _ => cases found

/-- No jump changes a word. -/
theorem jumps_word {program : Prog Label} {after : World}
    (jumps : Jumps process program world label after)
    (found : wordAt after.store addr offset = some word) :
    wordAt world.store addr offset = some word := by
  cases jumps with
  | caught _ _ _ _ => exact found
  | exec => exact exec_word found

/-- Where a word may come from. -/
theorem call_word {admits : Choice → Prop} {call : Call}
    {answer : call.Answer} {after : World} (words : call.writesBytes = false)
    (exec : (system paths decay admits).exec process call world answer after)
    (found : wordAt after.store addr offset = some word) :
    wordAt world.store addr offset = some word ∨
      (∃ key size excl, call = .shmget key size true excl ∧ word = 0) ∨
      call = .store addr offset word ∨
      ∃ n, call = .memset addr n ∧ 4 * offset < n ∧
        (4 * offset + 4 ≤ n → word = 0) := by
  rcases exec_store paths decay exec with ⟨_, same⟩ | ipc
  · rw [same] at found
    exact Or.inl found
  · exact Atomicles.exec_word words ipc found

/-- A load gives the word there is. -/
theorem call_load {admits : Choice → Prop} {after : World}
    (exec : (system paths decay admits).exec process (.load addr offset) world
      (some word) after) :
    wordAt world.store addr offset = some word := by
  rcases exec_store paths decay exec with ⟨impossible, _⟩ | ipc
  · cases impossible
  · exact exec_load ipc

/-- A store that is answered has been made. -/
theorem call_stored {admits : Choice → Prop} {after : World}
    (exec : (system paths decay admits).exec process
      (.store addr offset word) world (some () : Option Unit) after) :
    Maps after.store process addr ∧
      wordAt after.store addr offset = some word := by
  rcases exec_store paths decay exec with ⟨impossible, _⟩ | ipc
  · cases impossible
  · rcases exec_cases ipc with ⟨choice, _, ⟨_, refused, _⟩ | granted⟩
    · cases refused
    · have stored : (world.store.advance choice.tick).storeWord process addr
          offset word = (some (), after.store) := Option.some.inj granted
      have before : Maps world.store process addr :=
        (Store.storeWord_maps stored).of_same rfl
      have maps : Maps after.store process addr := by
        apply exec_maps rfl _ _ ipc before
        · intro _ _ _ impossible
          cases impossible
        · intro _ impossible
          cases impossible
      refine ⟨maps, ?_⟩
      rcases maps.word offset with ⟨value, found⟩
      rw [found, exec_store_word ipc found]

/-- What `shmget` and `shmat` give. -/
theorem call_shmget {admits : Choice → Prop} {after : World} {name : Key}
    {size : Nat} {creat excl : Bool} {id : IpcId}
    (exec : (system paths decay admits).exec process
      (.shmget name size creat excl) world (.ok id : Except Errno IpcId)
      after) : after.store.findShm name = some id := by
  rcases exec_store paths decay exec with ⟨impossible, _⟩ | ipc
  · cases impossible
  · exact exec_shmget ipc

theorem call_shmat {admits : Choice → Prop} {after : World} {id : IpcId}
    (exec : (system paths decay admits).exec process (.shmat id) world
      (.ok addr : Except Errno Addr) after) : addr = .mapped id := by
  rcases exec_store paths decay exec with ⟨impossible, _⟩ | ipc
  · cases impossible
  · exact exec_shmat ipc

/-- The segment under a key stays there until it is marked. -/
theorem call_findShm {admits : Choice → Prop} {call : Call}
    {answer : call.Answer} {after : World} {name : Key} {id : IpcId}
    (words : call.writesBytes = false)
    (keeps : ∀ target, call ≠ .shmctlRmid target)
    (exec : (system paths decay admits).exec process call world answer after)
    (found : world.store.findShm name = some id) :
    after.store.findShm name = some id := by
  rcases exec_store paths decay exec with ⟨_, same⟩ | ipc
  · rw [same]
    exact found
  · exact exec_findShm words keeps ipc found

/-- A new segment takes no word from the one under a key. -/
theorem call_making_word {admits : Choice → Prop} {after : World}
    {name other : Key} {size : Nat} {creat excl : Bool} {id : IpcId}
    {answer : Except Errno IpcId}
    (exec : (system paths decay admits).exec process
      (.shmget other size creat excl) world answer after)
    (found : world.store.findShm name = some id)
    (before : wordAt world.store (.mapped id) offset = some word) :
    wordAt after.store (.mapped id) offset = some word := by
  rcases exec_store paths decay exec with ⟨impossible, _⟩ | ipc
  · cases impossible
  · apply exec_found_word rfl _ _ _ ipc found before
    · intro _ impossible
      cases impossible
    · intro _ impossible
      cases impossible
    · intro _ impossible
      cases impossible

/-- A call of `fork` that is answered has failed. -/
theorem call_fork {admits : Choice → Prop} {after : World} {answer : Int}
    (exec : (system paths decay admits).exec process .fork world answer
      after) :
    answer = -1 ∧ after = world := by
  rcases exec with ⟨choice, _, served⟩
  cases served
  exact ⟨rfl, rfl⟩

end Steps

section Found

variable {process : Pid} {world : World} {name : Key} {id : IpcId}

theorem clone_findShm {parent child : Pid}
    (found : world.store.findShm name = some id) :
    (world.clone parent child).store.findShm name = some id := by
  rcases Store.findShm_eq_some_iff.mp found with
    ⟨isKey, last, segment, isSegment, unmarked⟩
  exact Store.findShm_eq_some_iff.mpr
    ⟨isKey, last, _, congrArg (Option.map _) isSegment, unmarked⟩

/-- The segment under a key and its words stay when a process goes. -/
theorem filter_findShm {store : Store}
    (found : world.store.findShm name = some id)
    (last : store.shmGen = world.store.shmGen)
    (same : store.shms = fun id => (world.store.shms id).bind fun segment =>
      Store.keepMapped segment (segment.attached.filter (· ≠ process))) :
    store.findShm name = some id ∧ ∀ offset,
      wordAt store (.mapped id) offset =
        wordAt world.store (.mapped id) offset := by
  rcases Store.findShm_eq_some_iff.mp found with
    ⟨isKey, isLast, segment, isSegment, unmarked⟩
  rcases Store.keepMapped_unmarked unmarked with ⟨kept, isKept, unmarked'⟩
  have remains : store.shms id = some kept := by
    rw [same]
    dsimp only
    rw [isSegment]
    exact isKept
  refine ⟨Store.findShm_eq_some_iff.mpr
    ⟨isKey, by rw [last, isLast], kept, remains, unmarked'⟩, ?_⟩
  intro offset
  simp only [wordAt, remains, isSegment, Option.map_some]
  rw [Store.keepMapped_word isKept]

end Found

section Others

variable {process other : Pid} {world after : World} {addr : Addr}

/-- The mappings of a process last through the calls of the others. -/
theorem call_maps {admits : Choice → Prop} {call : Call}
    {answer : call.Answer} (words : call.writesBytes = false)
    (known : ∀ key size excl, call ≠ .shmget key size true excl)
    (keeps : ∀ target, call = .shmdt target → other ≠ process)
    (exec : (system paths decay admits).exec other call world answer after)
    (maps : Maps world.store process addr) : Maps after.store process addr := by
  rcases exec_store paths decay exec with ⟨_, same⟩ | ipc
  · rw [same]
    exact maps
  · exact exec_maps words known keeps ipc maps

/-- They last when another process goes. -/
theorem filter_maps {store : Store} (different : process ≠ other)
    (maps : Maps world.store process addr)
    (same : store.shms = fun id => (world.store.shms id).bind fun segment =>
      Store.keepMapped segment (segment.attached.filter (· ≠ other))) :
    Maps store process addr := by
  rcases maps with ⟨id, segment, isMapped, found, member⟩
  have remains : process ∈ segment.attached.filter (· ≠ other) := by
    simpa using ⟨member, different⟩
  have survives : ∃ kept, Store.keepMapped segment
      (segment.attached.filter (· ≠ other)) = some kept ∧
        process ∈ kept.attached :=
    Maps.keepMapped remains
  rcases survives with ⟨kept, isKept, isMember⟩
  refine ⟨id, kept, isMapped, ?_, isMember⟩
  rw [same]
  dsimp only
  rw [found]
  exact isKept

theorem leave_maps (different : process ≠ other)
    (maps : Maps world.store process addr) :
    Maps (world.leave other).store process addr :=
  filter_maps different maps rfl

end Others

/-- No call changes which children live. -/
theorem call_children {admits : Choice → Prop} {process : Pid} {call : Call}
    {world after : World} {answer : call.Answer}
    (exec : (system paths decay admits).exec process call world answer after) :
    after.children = world.children := by
  rcases exec with ⟨choice, _, served⟩
  rcases World.serve_frame served with
    ⟨signal, _, rfl⟩ | ⟨target, signal, rfl⟩ | ⟨store, rfl⟩
  · rfl
  · exact World.post_children
  · rfl

/-- No call changes the place that `setjmp` has saved. -/
theorem call_buffer {admits : Choice → Prop} {process : Pid} {call : Call}
    {world after : World} {answer : call.Answer}
    (exec : (system paths decay admits).exec process call world answer after) :
    after.buffer = world.buffer := by
  rcases exec with ⟨choice, _, served⟩
  rcases World.serve_frame served with
    ⟨signal, _, rfl⟩ | ⟨target, signal, rfl⟩ | ⟨store, rfl⟩
  · rfl
  · exact World.post_buffer
  · rfl

/-- What `waitpid` tells: a stopped or continued child, or that there is
none. -/
theorem call_waitpid {admits : Choice → Prop} {process : Pid} {pid : Int}
    {world after : World} {answer : Except Errno (Int × WaitStatus)}
    (exec : (system paths decay admits).exec process (.waitpid pid) world
      answer after) :
    after = world ∧
      ((answer = .error .ECHILD ∧ world.awaited process pid = []) ∨
        ∃ status, answer = .ok status ∧ statusEnds status.2 = false) := by
  rcases exec with ⟨choice, _, served⟩
  simp only [World.serve] at served
  split at served
  · rename_i nobody
    split at served
    · cases served
    · cases served
      exact ⟨rfl, Or.inl ⟨rfl, nobody⟩⟩
  · split at served
    · rename_i reported
      cases served
      refine ⟨rfl, Or.inr ⟨choice.status, rfl, ?_⟩⟩
      simpa using reported.1
    · cases served

/-- No call changes a signal mask. -/
theorem exec_mask {admits : Choice → Prop} {process : Pid} {call : Call}
    {world after : World} {answer : call.Answer}
    (exec : (system paths decay admits).exec process call world answer after) :
    after.mask = world.mask := by
  rcases exec with ⟨choice, _, served⟩
  rcases World.serve_frame served with
    ⟨signal, _, rfl⟩ | ⟨target, signal, rfl⟩ | ⟨store, rfl⟩
  · rfl
  · exact World.post_mask
  · rfl

end Atomicles.Daemon
