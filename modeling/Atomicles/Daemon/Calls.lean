import Atomicles.Source.Calls
import Atomicles.Source.Daemonize

/-!
# Which calls the daemon makes

A property of programs that sequences have by their parts, and reads, some
writes and some other calls on their own, is one of the functions of
`daemonize.c` that make no other calls.
-/

namespace Atomicles

open Interaction

variable {Value : Type}

namespace Daemon

/-- The calls besides `time` that concern neither the store nor another
process. -/
def Calm : Call → Prop
  | .kill _ none => True
  | .sleep _ => True
  | .getrlimit => True
  | .die _ => True
  | _ => False

/-- A property of programs that sequences have by their parts, and which
reads, some writes and some other calls have. -/
structure Compositional (quiet : Call → Prop) (writes : UShort → UInt → Prop)
    (good : (Value : Type) → Prog Value → Prop) : Prop where
  calm : ∀ call, Calm call → quiet call
  value : ∀ {Value : Type} (value : Value), good Value (.done value)
  bind : ∀ {Value Result : Type} {program : Prog Value}
    {continuation : Value → Prog Result}, good Value program →
      (∀ value, good Result (continuation value)) →
        good Result (program >>= continuation)
  issue : ∀ {Value : Type} {call : Call} {next : call.Answer → Prog Value},
    quiet call → (∀ answer, good Value (next answer)) →
      good Value (.issue call next)
  read : ∀ this offset, good UInt (SharedMemory.readUint this offset)
  write : ∀ this offset n, writes offset n →
    good Unit (SharedMemory.writeUint this offset n)

namespace Compositional

variable {quiet : Call → Prop} {writes : UShort → UInt → Prop}
variable {good : (Value : Type) → Prog Value → Prop}
variable (compositional : Compositional quiet writes good)
variable (shmem : Option SharedMemory)
include compositional

theorem within {program : Prog Value} (calls : program.Within quiet) :
    good Value program := by
  induction program with
  | done value => exact compositional.value value
  | issue call next ih =>
      exact compositional.issue calls.1 fun answer => ih answer (calls.2 answer)

theorem ends (cause : Death) : good Value (Atomicles.die cause) :=
  compositional.within (within_die cause (compositional.calm _ trivial))

theorem deref : good SharedMemory (deref shmem) := by
  cases shmem with
  | none => exact compositional.ends _
  | some this => exact compositional.value this

/-- Every accessor that writes. -/
theorem writeWord {offset : UShort} {n : UInt} (allowed : writes offset n) :
    good Unit (do SharedMemory.writeUint (← Daemon.deref shmem) offset n) :=
  compositional.bind (compositional.deref shmem) fun this =>
    compositional.write this offset n allowed

/-- Every accessor that reads. -/
theorem getWord (offset : UShort) : good Int (getWord shmem offset) := by
  cases shmem with
  | none => exact compositional.value 0
  | some this =>
      exact compositional.bind (compositional.read this offset) fun word =>
        compositional.value word.toInt

theorem active : good UInt (active shmem) :=
  compositional.bind (compositional.deref shmem) fun this =>
    compositional.read this OFFSET_ACTIVE

theorem kill {pid : Int} {signal : Option Signal}
    (allowed : quiet (.kill pid signal)) : good Int (kill pid signal) := by
  rw [← bind_pure (Atomicles.kill pid signal), kill_bind]
  exact compositional.issue allowed fun _ => compositional.value _

theorem probe (pid : Int) : good Int (Atomicles.kill pid none) :=
  compositional.kill (compositional.calm _ trivial)

theorem daemonstr (pid cpid : Int) : good Unit (daemonstr pid cpid) :=
  compositional.bind (compositional.probe pid) fun _ =>
    compositional.bind (compositional.probe cpid) fun _ =>
      compositional.value ()

theorem poll (shmem : SharedMemory) :
    ∀ c pid cpid, good (Int × Int) (poll shmem c pid cpid)
  | 0, _, _ => compositional.value _
  | c + 1, _, _ => by
      apply compositional.bind (compositional.getWord _ _)
      intro pid
      apply compositional.bind (compositional.getWord _ _)
      intro cpid
      split
      · exact compositional.value _
      · rw [sleep_bind]
        exact compositional.issue (compositional.calm _ trivial) fun _ =>
          poll shmem c pid cpid

theorem returned (locals : Locals) : good Label (returned locals) := by
  apply compositional.bind (compositional.poll _ _ _ _)
  rintro ⟨pid, cpid⟩
  exact compositional.bind (compositional.daemonstr pid cpid) fun _ =>
    compositional.value _

theorem status : good Label (status shmem) := by
  apply compositional.bind (compositional.getWord _ _)
  intro pid
  apply compositional.bind (compositional.getWord _ _)
  intro cpid
  apply compositional.bind (compositional.getWord _ _)
  intro count
  apply compositional.bind (compositional.daemonstr pid cpid)
  intro _
  split
  · apply compositional.bind (compositional.probe _)
    intro failed
    split
    · apply compositional.bind (compositional.probe _)
      intro _
      exact compositional.value _
    · exact compositional.value _
  · exact compositional.value _

/-! ### Where the segment may be removed -/

section Removing

variable (erases : ∀ offset, writes offset 0)
variable (removes : ∀ call : Call, call.removes = true → quiet call)
include erases removes

theorem cleanup : good Unit (cleanup shmem) := by
  apply compositional.bind (compositional.writeWord shmem (erases OFFSET_PID))
  intro _
  apply compositional.bind (compositional.writeWord shmem (erases OFFSET_CPID))
  intro _
  apply compositional.bind (compositional.deref shmem)
  intro this
  exact compositional.within (SharedMemory.within_remove removes this)

theorem die : good Value (die shmem) := by
  apply compositional.bind (compositional.writeWord shmem (erases OFFSET_PID))
  intro _
  apply compositional.bind (compositional.writeWord shmem (erases OFFSET_CPID))
  intro _
  cases shmem with
  | none => exact compositional.ends _
  | some this =>
      apply compositional.bind
        (compositional.writeWord (some this) (erases OFFSET_ACTIVE))
      intro _
      apply compositional.bind
        (compositional.within (SharedMemory.within_remove removes this))
      intro _
      exact compositional.ends _

theorem endRound (decay : UInt → Nat) (locals : Locals) :
    good Label (endRound decay locals) := by
  apply compositional.bind (compositional.active _)
  intro _
  apply compositional.bind (compositional.active _)
  intro isActive
  split
  · apply compositional.bind (compositional.cleanup _ erases removes)
    intro _
    exact compositional.ends _
  · rw [sleep_bind]
    refine compositional.issue (compositional.calm _ trivial) ?_
    intro _
    apply compositional.bind (compositional.active _)
    intro stillActive
    split
    · exact compositional.value _
    · exact compositional.value _

/-- As far as the calls of `sigaction` are among the quiet ones. -/
theorem installHandlers (shmem : SharedMemory) (list : List Signal)
    (allowed : ∀ signal, quiet (.sigaction signal)) :
    good Unit (installHandlers shmem list) := by
  induction list with
  | nil => exact compositional.value ()
  | cons signal list ih =>
      unfold Daemon.installHandlers
      rw [sigaction_bind]
      refine compositional.issue (allowed signal) ?_
      intro (outcome : Except Errno Unit)
      split
      · exact compositional.die _ erases removes
      · exact ih

theorem closeFileDescriptors : good Unit closeFileDescriptors := by
  unfold Daemon.closeFileDescriptors
  rw [getrlimit_bind]
  refine compositional.issue (compositional.calm _ trivial) ?_
  intro (limit : Except Errno Unit)
  split
  · exact compositional.die none erases removes
  · exact compositional.value ()

section Killing

variable (kills : ∀ pid signal, quiet (.kill pid signal))
include kills

theorem caught (decay : UInt → Nat) (signal : Signal) (locals : Locals) :
    good Label (caught decay signal locals) := by
  unfold Daemon.caught
  dsimp only
  split
  · apply compositional.bind (compositional.getWord _ _)
    intro cpid
    exact compositional.bind (compositional.kill (kills cpid signal)) fun _ =>
      compositional.die _ erases removes
  · split
    · exact compositional.die _ erases removes
    · apply compositional.bind (compositional.getWord _ _)
      intro cpid
      exact compositional.bind (compositional.kill (kills cpid signal))
        fun _ => compositional.endRound erases removes decay locals

theorem stop (shmem : SharedMemory) : good Label (stop shmem) := by
  apply compositional.bind (compositional.getWord _ _)
  intro pid
  apply compositional.bind (compositional.getWord _ _)
  intro cpid
  apply compositional.bind (compositional.getWord _ _)
  intro count
  apply compositional.bind (compositional.daemonstr pid cpid)
  intro _
  split
  · apply compositional.bind (compositional.kill (kills cpid _))
    intro failed
    split
    · exact compositional.value _
    · apply compositional.bind (compositional.kill (kills pid _))
      intro failed
      split
      · exact compositional.value _
      · apply compositional.bind (compositional.cleanup _ erases removes)
        intro _
        exact compositional.value _
  · exact compositional.value _

end Killing

end Removing

theorem incCount (counted : ∀ n, writes OFFSET_COUNT n) :
    good Unit (incCount shmem) :=
  compositional.bind (compositional.getWord shmem OFFSET_COUNT) fun _ =>
    compositional.writeWord shmem (counted _)

/-- As far as `execvp` is allowed. -/
theorem child (shmem : SharedMemory) (counted : ∀ n, writes OFFSET_COUNT n)
    (erases : ∀ offset, writes offset 0)
    (removes : ∀ call : Call, call.removes = true → quiet call)
    (execvp : quiet .execvp) : good Label (child shmem) := by
  apply compositional.bind (compositional.incCount _ counted)
  intro _
  apply compositional.bind (compositional.getWord _ _)
  intro _
  rw [execvp_bind]
  exact compositional.issue execvp fun _ =>
    compositional.die _ erases removes

/-! ### Where all writes and all other calls are good -/

section All

variable (written : ∀ offset n, writes offset n)
include written

variable (removes : ∀ call : Call, call.removes = true → quiet call)
include removes

variable (fork : quiet .fork)
include fork

theorem daemonize (shmem : SharedMemory) (count : Int) :
    good Label (daemonize shmem count) := by
  unfold Daemon.daemonize
  dsimp only
  rw [fork_bind]
  refine compositional.issue fork ?_
  intro (pid : Int)
  split
  · exact compositional.value _
  · rw [fork_bind]
    refine compositional.issue fork ?_
    intro (pid : Int)
    split
    · apply compositional.bind
        (compositional.writeWord (some shmem) (written OFFSET_PID _))
      intro _
      exact compositional.ends _
    · apply compositional.bind
        (compositional.closeFileDescriptors
          (fun offset => written offset 0) removes)
      intro _
      exact compositional.value _

theorem start (shmem : SharedMemory) : good Label (start shmem) := by
  apply compositional.bind (compositional.getWord _ _)
  intro pid
  apply compositional.bind (compositional.getWord _ _)
  intro cpid
  apply compositional.bind (compositional.getWord _ _)
  intro count
  split
  · exact compositional.bind (compositional.daemonstr pid cpid) fun _ =>
      compositional.value _
  · exact compositional.daemonize written removes fork shmem count

theorem main (kills : ∀ pid signal, quiet (.kill pid signal))
    (opens : ∀ call : Call, call.opens = true → quiet call)
    (paths : KeyPaths) (action : Action) (key : Key) :
    good Label (main paths action key) := by
  cases action with
  | start =>
      apply compositional.bind (compositional.within
        (SharedMemory.within_new opens key SHMEM_SIZE true))
      intro shmem
      cases shmem with
      | none => exact compositional.value _
      | some shmem =>
          exact compositional.start written removes fork shmem
  | stop =>
      apply compositional.bind (compositional.within
        (SharedMemory.within_attach (opens_finds opens) key))
      intro shmem
      cases shmem with
      | none => exact compositional.value _
      | some shmem =>
          exact compositional.stop (fun offset => written offset 0) removes
            kills shmem
  | status =>
      apply compositional.bind (compositional.within
        (SharedMemory.within_attach (opens_finds opens) key))
      intro shmem
      exact compositional.status shmem

end All

end Compositional

/-- A round, call by call from its first `fork` on. -/
theorem round_eq (decay : UInt → Nat) (stack : WaitStatus) (locals : Locals) :
    round decay stack locals =
      installHandlers locals.shmem signals >>= fun _ =>
        .issue .time fun exec_time => .issue .fork fun (cpid : Int) =>
          if cpid = 0 then child locals.shmem
          else
            setCpid (some locals.shmem) cpid >>= fun _ =>
              activate (some locals.shmem) >>= fun _ =>
                .issue (.waitpid cpid)
                  fun (outcome : Except Errno (Int × WaitStatus)) =>
                    if statusEnds ((outcome.toOption.map Prod.snd).getD
                        stack) then
                      .issue .time fun failure_time =>
                        endRound decay
                          { locals with
                            timer :=
                              if locals.failure_time - locals.exec_time > 5
                              then 0 else locals.timer
                            exec_time, failure_time }
                    else
                      .done (.spinning
                        { locals with
                          timer :=
                            if locals.failure_time - locals.exec_time > 5
                            then 0 else locals.timer
                          exec_time }) := by
  unfold round
  dsimp only
  refine congrArg (installHandlers locals.shmem signals >>= ·)
    (funext fun _ => ?_)
  rw [time_bind]
  refine congrArg (Program.issue _) (funext fun (exec_time : Time) => ?_)
  rw [fork_bind]
  refine congrArg (Program.issue _) (funext fun (cpid : Int) => ?_)
  split
  · rfl
  · refine congrArg (setCpid (some locals.shmem) cpid >>= ·)
      (funext fun _ => ?_)
    refine congrArg (activate (some locals.shmem) >>= ·) (funext fun _ => ?_)
    rw [waitForSignal, bind_assoc, waitpid_bind]
    refine congrArg (Program.issue _)
      (funext fun (outcome : Except Errno (Int × WaitStatus)) => ?_)
    rw [pure_bind]
    rfl

/-- `die` does not return. -/
theorem die_eq {Value : Type} (shmem : Option SharedMemory) (value : Value) :
    (die shmem : Prog Value) =
      (die shmem : Prog Unit) >>= fun _ => .done value := by
  cases shmem with
  | none => simp [die]
  | some this => simp [die]

/-- An accessor that reads comes down to a read. -/
theorem getWord_bind {Result : Type} (this : SharedMemory) (offset : UShort)
    (continuation : Int → Prog Result) :
    (getWord (some this) offset >>= continuation) =
      this.readUint offset >>= fun word => continuation word.toInt := by
  simp only [getWord, bind_assoc, pure_bind]

end Daemon

end Atomicles
