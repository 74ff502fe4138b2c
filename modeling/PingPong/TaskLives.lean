import PingPong.TaskRecords

/-!
Lives of tasks, numbered in the order of their task_init. What the kernel keeps about a life, and
prints at its end, is compared with what happened: the clock is a counter of 32 bits and an id an
int, so ids repeat only when the numbers no longer fit.
-/
namespace TaskLives
open MachineModel CircularList QueueModel KernelModel KernelEffects TaskPlacement SystemModel
open SystemFrames TransitionRuns TaskConservation TaskRecords
variable {N : Type} [DecidableEq N]

section Diaries

/-- A finished life: which task_init began it, how many ticks it lasted, and how often the
    dispatcher switched to the task. -/
structure Life where
  number : Nat
  ticks : Nat
  turns : Nat
  deriving DecidableEq

structure Diary (N : Type) where
  ticks : Nat
  inits : Nat
  number : Tcb N → Nat
  born : Tcb N → Nat
  turns : Tcb N → Nat
  lives : List Life

namespace Diary

/-- main runs from the start, without a switch to it. -/
def fresh : Diary N :=
  { ticks := 0, inits := 0, number := fun _ => 0, born := fun _ => 0,
    turns := Function.update (fun _ => 0) .mainTask 1, lives := [] }

def note (d : Diary N) : Event N → Diary N
  | .none | .priority _ _ | .schedule _ => d
  | .tick => { d with ticks := d.ticks + 1 }
  | .begins t =>
    { d with inits := d.inits + 1, number := Function.update d.number t (d.inits + 1),
             born := Function.update d.born t d.ticks, turns := Function.update d.turns t 0 }
  | .ends t _ => { d with lives := d.lives ++ [⟨d.number t, d.ticks - d.born t, d.turns t⟩] }
  | .turn next => { d with turns := Function.update d.turns next (d.turns next + 1) }

end Diary

/-- What task_exit prints about a life, but for the processor time. -/
def Life.line (l : Life) : Int × UInt32 × UInt32 :=
  (idOf (UInt64.ofNat l.number), UInt32.ofNat l.ticks, UInt32.ofNat l.turns)

def lineOf (r : ExitReport) : Int × UInt32 × UInt32 := (r.id, r.executionTime, r.activations)

/-- The record of a task is that of the life the diary has for it. -/
structure Written (r : Registry N) (d : Diary N) (t : Tcb N) : Prop where
  id : (r.record t).id = idOf (UInt64.ofNat (d.number t))
  executionTime : (r.record t).executionTime = UInt32.ofNat (d.born t)
  activations : (r.record t).activations = UInt32.ofNat (d.turns t)
  number : d.number t ≤ d.inits
  born : d.born t ≤ d.ticks

structure Faithful (r : Registry N) (alive : Tcb N → Bool) (d : Diary N) : Prop where
  clock : r.sysclock = UInt32.ofNat d.ticks
  counter : r.lastTaskId = UInt64.ofNat d.inits
  written : ∀ t, alive t = true → t ≠ .dispatcherTask → Written r d t
  distinct : ∀ t u, alive t = true → alive u = true → t ≠ .dispatcherTask →
    u ≠ .dispatcherTask → d.number t = d.number u → t = u
  past : ∀ life ∈ d.lives, life.number ≤ d.inits ∧
    ∀ t, alive t = true → t ≠ .dispatcherTask → d.number t ≠ life.number
  once : (d.lives.map Life.number).Nodup
  printed : r.stdout.map lineOf = d.lives.map Life.line

variable {r r' : Registry N} {alive : Tcb N → Bool} {d : Diary N}

omit [DecidableEq N] in
theorem faithful_kept (f : Faithful r alive d) (counter : r'.lastTaskId = r.lastTaskId)
    (clock : r'.sysclock = r.sysclock) (stdout : r'.stdout = r.stdout)
    (ids : ∀ t, (r'.record t).id = (r.record t).id)
    (times : ∀ t, (r'.record t).executionTime = (r.record t).executionTime)
    (turns : ∀ t, (r'.record t).activations = (r.record t).activations) : Faithful r' alive d := by
  refine ⟨clock.trans f.clock, counter.trans f.counter, ?_, f.distinct, f.past, f.once, ?_⟩
  · intro t on user
    obtain ⟨id, time, turn, number, born⟩ := f.written t on user
    exact ⟨(ids t).trans id, (times t).trans time, (turns t).trans turn, number, born⟩
  · rw [stdout]
    exact f.printed

theorem faithful_reprioritised (f : Faithful r alive d) (t : Tcb N) (prio : Int) :
    Faithful (r.reprioritised t prio) alive d := by
  refine faithful_kept f rfl rfl rfl ?_ ?_ ?_ <;>
    · intro a
      by_cases same : a = t
      · subst same
        simp [Registry.reprioritised, Registry.set]
      · simp [Registry.reprioritised, Registry.set, same]

theorem faithful_scheduled (f : Faithful r alive d) (ready : List (Tcb N)) (next : Tcb N) :
    Faithful (r.scheduled ready next) alive d := by
  refine faithful_kept f rfl rfl rfl ?_ ?_ ?_ <;>
    · intro a
      simp only [Registry.scheduled]
      split
      · rfl
      · split
        · rfl
        · rfl

omit [DecidableEq N] in
theorem faithful_tick (f : Faithful r alive d) : Faithful r.tick alive { d with
    ticks := d.ticks + 1 } := by
  refine ⟨?_, f.counter, ?_, f.distinct, f.past, f.once, f.printed⟩
  · simp only [Registry.tick, f.clock]
    exact (UInt32.ofNat_add d.ticks 1).symm
  · intro t on user
    obtain ⟨id, time, turn, number, born⟩ := f.written t on user
    exact ⟨id, time, turn, number, Nat.le_succ_of_le born⟩

theorem faithful_begins (f : Faithful r alive d) {t : Tcb N} :
    Faithful (r.begins t) (Function.update alive t true) (d.note (.begins t)) := by
  have counted : r.lastTaskId + 1 = UInt64.ofNat (d.inits + 1) := by
    rw [f.counter]
    exact (UInt64.ofNat_add d.inits 1).symm
  have others : ∀ u, u ≠ t → Function.update alive t true u = true → alive u = true := by
    intro u ne on
    rwa [Function.update_of_ne ne] at on
  have old : ∀ u, u ≠ t → Function.update alive t true u = true → u ≠ .dispatcherTask →
      d.number u ≠ d.inits + 1 := by
    intro u ne on user same
    have small := (f.written u (others u ne on) user).number
    omega
  refine ⟨f.clock, counted, ?_, ?_, ?_, f.once, f.printed⟩
  · intro u on user
    by_cases same : u = t
    · subst same
      refine ⟨?_, ?_, ?_, ?_, ?_⟩
      · simp [Registry.begins, Registry.set, recordOf, initialTask, Diary.note, ← counted]
      · simp [Registry.begins, Registry.set, recordOf, initialTask, Diary.note, f.clock]
      · simp [Registry.begins, Registry.set, recordOf, initialTask, Diary.note]
      · simp [Diary.note]
      · simp [Diary.note]
    · obtain ⟨id, time, turn, number, born⟩ := f.written u (others u same on) user
      refine ⟨?_, ?_, ?_, ?_, ?_⟩
      · simpa [Registry.begins, Registry.set, Diary.note, same] using id
      · simpa [Registry.begins, Registry.set, Diary.note, same] using time
      · simpa [Registry.begins, Registry.set, Diary.note, same] using turn
      · simpa [Diary.note, same] using Nat.le_succ_of_le number
      · simpa [Diary.note, same] using born
  · intro u v onU onV userU userV same
    simp only [Diary.note, Function.update_apply] at same
    split at same
    · rename_i new
      split at same
      · rename_i new'
        exact new.trans new'.symm
      · rename_i ne
        exact absurd same.symm (old v ne onV userV)
    · rename_i ne
      split at same
      · exact absurd same (old u ne onU userU)
      · rename_i ne'
        exact f.distinct u v (others u ne onU) (others v ne' onV) userU userV same
  · intro life mem
    obtain ⟨small, apart⟩ := f.past life mem
    refine ⟨Nat.le_succ_of_le small, fun u on user => ?_⟩
    by_cases same : u = t
    · subst same
      simp only [Diary.note, Function.update_self]
      omega
    · simp only [Diary.note, Function.update_of_ne same]
      exact apart u (others u same on) user

theorem faithful_ends (f : Faithful r alive d) {t : Tcb N} (on : alive t = true)
    (user : t ≠ .dispatcherTask) (code : Int) (time : UInt32) :
    Faithful (r.ends t code time) (Function.update alive t false) (d.note (.ends t code)) := by
  have own := f.written t on user
  have others : ∀ u, Function.update alive t false u = true → u ≠ t ∧ alive u = true := by
    intro u still
    rw [Function.update_apply] at still
    split at still
    · cases still
    · rename_i ne
      exact ⟨ne, still⟩
  refine ⟨f.clock, f.counter, ?_, ?_, ?_, ?_, ?_⟩
  · intro u still user'
    obtain ⟨ne, alive'⟩ := others u still
    obtain ⟨id, time, turn, number, born⟩ := f.written u alive' user'
    refine ⟨?_, ?_, ?_, number, born⟩
    · simpa [Registry.ends, Registry.set, Diary.note, ne] using id
    · simpa [Registry.ends, Registry.set, Diary.note, ne] using time
    · simpa [Registry.ends, Registry.set, Diary.note, ne] using turn
  · intro u v onU onV
    exact f.distinct u v (others u onU).2 (others v onV).2
  · intro life mem
    rcases List.mem_append.mp mem with before | last
    · obtain ⟨small, apart⟩ := f.past life before
      exact ⟨small, fun u still => apart u (others u still).2⟩
    · rw [List.mem_singleton] at last
      subst last
      refine ⟨own.number, fun u still user' same => ?_⟩
      obtain ⟨ne, alive'⟩ := others u still
      exact ne (f.distinct u t alive' on user' user same)
  · simp only [Diary.note, List.map_append, List.map_cons, List.map_nil]
    refine List.nodup_append.mpr ⟨f.once, List.nodup_singleton _, ?_⟩
    intro n mem n' last
    rw [List.mem_singleton] at last
    obtain ⟨life, before, same⟩ := List.mem_map.mp mem
    rw [last, ← same]
    exact ((f.past life before).2 t on user).symm
  · have lived : r.sysclock - (r.record t).executionTime =
        UInt32.ofNat (d.ticks - d.born t) := by
      have whole := UInt32.ofNat_add (d.ticks - d.born t) (d.born t)
      rw [Nat.sub_add_cancel own.born] at whole
      rw [f.clock, own.executionTime, whole]
      grind
    simp only [Registry.ends, Diary.note, List.map_append, f.printed, List.map_cons, List.map_nil,
      lineOf, Life.line, own.id, own.activations, lived]

theorem faithful_turn (f : Faithful r alive d) {next : Tcb N} (user : next ≠ .dispatcherTask) :
    Faithful (r.turn next) alive (d.note (.turn next)) := by
  refine ⟨f.clock, f.counter, ?_, f.distinct, f.past, f.once, f.printed⟩
  intro t on user'
  obtain ⟨id, time, turn, number, born⟩ := f.written t on user'
  by_cases same : t = next
  · subst same
    refine ⟨?_, ?_, ?_, number, born⟩
    · simpa [Registry.turn, Registry.set, Diary.note, user] using id
    · simpa [Registry.turn, Registry.set, Diary.note, user] using time
    · simp only [Registry.turn, Registry.set, Diary.note, Function.update_self,
        Function.update_of_ne user, turn]
      exact (UInt32.ofNat_add (d.turns t) 1).symm
  · refine ⟨?_, ?_, ?_, number, born⟩
    · simpa [Registry.turn, Registry.set, Diary.note, same, user'] using id
    · simpa [Registry.turn, Registry.set, Diary.note, same, user'] using time
    · simpa [Registry.turn, Registry.set, Diary.note, same, user'] using turn

end Diaries

section Runs
variable [Fintype N]

structure Noted (N : Type) where
  system : System N
  diary : Diary N

def Notes (a : Noted N) (l : Label N) (b : Noted N) : Prop :=
  Operates a.system l b.system ∧ b.diary = a.diary.note (event a.system b.system l)

structure Opened (a : Noted N) : Prop where
  booted : Booted a.system
  diary : a.diary = .fresh

structure Kept (a : Noted N) : Prop where
  conserved : Conserved a.system
  faithful : Faithful (registry a.system.kernel) (liveTasks a.system) a.diary

theorem kept_step {a b : Noted N} {l : Label N} (kept : Kept a) (go : Notes a l b) : Kept b := by
  obtain ⟨operates, diary⟩ := go
  refine ⟨(step_kept kept.conserved operates.2 operates.1).conserved, ?_⟩
  have entry := step_entry kept.conserved operates
  have alive : liveTasks a.system a.system.curr = true := current_live kept.conserved.placed
  have f := kept.faithful
  rw [step_living kept.conserved operates, diary]
  generalize event a.system b.system l = e at entry ⊢
  cases entry with
  | none same => rw [same]; exact f
  | priority t prio set => rw [set]; exact faithful_reprioritised f t prio
  | schedule next _ aged => rw [aged]; exact faithful_scheduled f _ next
  | tick passed => rw [passed]; exact faithful_tick f
  | begins t _ fresh => rw [fresh]; exact faithful_begins f
  | ends code time user _ printed => rw [printed]; exact faithful_ends f alive user code time
  | turn next user counted => rw [counted]; exact faithful_turn f user

theorem opened_kept {a : Noted N} (opened : Opened a) : Kept a := by
  refine ⟨boot_conserved opened.booted, ?_⟩
  have only : ∀ t, liveTasks a.system t = true → t ≠ .dispatcherTask → t = .mainTask :=
    fun t on user => ((boot_live opened.booted t).mp on).resolve_right user
  obtain ⟨sem, run⟩ := opened.booted.kernel
  rw [pposInit_boot, Except.ok.injEq] at run
  rw [opened.diary, ← run]
  refine ⟨?_, ?_, ?_, ?_, ?_, List.nodup_nil, rfl⟩
  · simp [registry, bootKernel, zeroedKernel, Diary.fresh]
  · simp [registry, bootKernel, zeroedKernel, Diary.fresh]
  · intro t on user
    rw [only t on user]
    refine ⟨?_, ?_, ?_, Nat.le_refl 0, Nat.le_refl 0⟩
    · simp [registry, bootKernel, zeroedTask, Diary.fresh, recordOf, idOf, toInt]
    · simp [registry, bootKernel, zeroedTask, Diary.fresh, recordOf]
    · simp [registry, bootKernel, Diary.fresh, recordOf]
  · intro t u onT onU userT userU _
    rw [only t onT userT, only u onU userU]
  · intro life mem
    cases mem

theorem run_kept {a b : Noted N} {labels : List (Label N)} (opened : Opened a)
    (run : Run Notes a labels b) : Kept b :=
  run_invariant Kept (fun _ _ _ => kept_step) run (opened_kept opened)

def notedStep (a : Noted N) (l : Label N) : Option (Noted N) :=
  (guardedStep (fun s l _ => Permitted s l) a.system l).map fun s' =>
    ⟨s', a.diary.note (event a.system s' l)⟩

theorem exec_noted {labels : List (Label N)} {a b : Noted N}
    (done : exec notedStep a labels = some b) : Run Notes a labels b := by
  refine run_mono (fun a l b next => ?_) (exec_run done)
  obtain ⟨s', stepped, same⟩ := Option.map_eq_some_iff.mp next
  subst same
  exact ⟨guardedStep_eq stepped, rfl⟩

def opened : Noted (Fin 1) := ⟨bootSystem, .fresh⟩

theorem opened_starts : Opened opened := ⟨boot_booted, rfl⟩

/-- main starts a task and yields twice; the task runs for two ticks and exits. -/
def oneLife : List (Label (Fin 1)) :=
  [Label.call (.taskInit (.user 0) true), .call .taskYield] ++
  List.replicate 4 (.run true true) ++ [Label.call .taskYield] ++
  List.replicate 5 (.run true true) ++ [Label.tick, .tick, .call (.taskExit 7)]

/-- task_exit has printed one line for each life that has ended, in the order of the ends: the
    ticks that passed since its task_init and the turns the dispatcher gave it, in 32 bits. -/
theorem reports_tell_the_lives {a b : Noted N} {labels : List (Label N)} (opened : Opened a)
    (run : Run Notes a labels b) :
    b.system.kernel.stdout.map lineOf = b.diary.lives.map Life.line :=
  (run_kept opened run).faithful.printed

theorem one_life_is_told : ∃ b, Run Notes opened oneLife b ∧ b.diary.lives = [⟨1, 2, 1⟩] ∧
    b.system.kernel.stdout.map lineOf = [(1, 2, 1)] := by
  obtain ⟨b, found, lives⟩ := exec_reaches notedStep opened oneLife
    (fun b => b.diary.lives = [⟨1, 2, 1⟩]) (by decide +kernel)
  have run := exec_noted found
  have printed := reports_tell_the_lives opened_starts run
  rw [lives] at printed
  exact ⟨b, run, lives, printed.trans (by decide)⟩

end Runs

section Identities
variable [Fintype N]

theorem idOf_fits {n : Nat} (fits : (n : Int) ≤ intMax) : idOf (UInt64.ofNat n) = n := by
  simp only [intMax] at fits
  have room : n < UInt64.size := by
    change n < 18446744073709551616
    omega
  rw [idOf, UInt64.toNat_ofNat_of_lt' room]
  exact toInt_eq_self (by simp only [intMin]; omega) fits

theorem users_few {s : System N} {d : Diary N}
    (f : Faithful (registry s.kernel) (liveTasks s) d) : (users s).card ≤ d.inits + 1 := by
  have mine : ∀ t ∈ users s, liveTasks s t = true ∧ t ≠ .dispatcherTask := by
    intro t mem
    simp only [users, Finset.mem_filter, Finset.mem_univ, true_and] at mem
    exact ⟨mem.1, mem.2.1⟩
  have bound := Finset.card_le_card_of_injOn (s := users s) (t := Finset.range (d.inits + 1))
    d.number ?_ ?_
  · rwa [Finset.card_range] at bound
  · intro t mem
    obtain ⟨on, user⟩ := mine t mem
    have small := (f.written t on user).number
    simp only [Finset.coe_range, Set.mem_Iio]
    omega
  · intro t memT u memU same
    obtain ⟨onT, userT⟩ := mine t memT
    obtain ⟨onU, userU⟩ := mine u memU
    exact f.distinct t u onT onU userT userU same

/-- Until disk_mgr_init the driver has the id from ppos_init. -/
structure Small (a : Noted N) : Prop where
  kept : Kept a
  driver : liveTasks a.system .diskDriverTask = false →
    (a.system.kernel.task .diskDriverTask).id = -2
  counted : (a.diary.inits : Int) < intMax → Counted a.system

theorem next_differs {a : Noted N} (small : Small a) (fits : (a.diary.inits : Int) < intMax)
    (l : Label N) : IdDiffers a.system l := by
  have f := small.kept.faithful
  have driver : (a.system.kernel.task .diskDriverTask).id ≤ a.diary.inits := by
    by_cases on : liveTasks a.system .diskDriverTask = true
    · have written := f.written _ on (by simp)
      have id : (a.system.kernel.task .diskDriverTask).id = _ := written.id
      have number := written.number
      rw [id, idOf_fits (by omega)]
      omega
    · rw [small.driver (by simpa using on)]
      omega
  have counted : a.system.kernel.lastTaskId + 1 = UInt64.ofNat (a.diary.inits + 1) := by
    have counter : a.system.kernel.lastTaskId = _ := f.counter
    rw [counter]
    exact (UInt64.ofNat_add a.diary.inits 1).symm
  have next : nextId a.system.kernel = (a.diary.inits + 1 : Nat) := by
    rw [nextId, counted]
    exact idOf_fits (by omega)
  unfold IdDiffers
  split
  · rw [next]
    omega
  · trivial

theorem entry_ids {s s' : System N} {e : Event N} (entry : Entry s s' e) {t : Tcb N}
    (other : e ≠ .begins t) : (s'.kernel.task t).id = (s.kernel.task t).id := by
  suffices same : ((registry s'.kernel).record t).id = ((registry s.kernel).record t).id from same
  cases entry with
  | none same => rw [same]
  | priority u prio set =>
    rw [set]
    by_cases own : t = u
    · subst own
      simp [Registry.reprioritised, Registry.set]
    · simp [Registry.reprioritised, Registry.set, own]
  | schedule next _ aged =>
    rw [aged]
    simp only [Registry.scheduled]
    split
    · rfl
    · split
      · rfl
      · rfl
  | tick passed => rw [passed]; rfl
  | begins u _ fresh =>
    have apart : t ≠ u := fun same => other (same ▸ rfl)
    rw [fresh]
    simp [Registry.begins, Registry.set, apart]
  | ends code time user _ printed =>
    rw [printed]
    by_cases own : t = s.curr
    · subst own
      simp [Registry.ends, Registry.set]
    · simp [Registry.ends, Registry.set, own]
  | turn next user counted =>
    rw [counted]
    by_cases own : t = next
    · subst own
      simp [Registry.turn, Registry.set, user]
    · by_cases dispatcher : t = .dispatcherTask
      · subst dispatcher
        simp [Registry.turn, Registry.set, own]
      · simp [Registry.turn, Registry.set, own, dispatcher]

theorem dead_id {s s' : System N} {e : Event N} (entry : Entry s s' e)
    (living : liveTasks s' = e.living (liveTasks s))
    (dead : liveTasks s' .diskDriverTask = false) :
    liveTasks s .diskDriverTask = false ∧
      (s'.kernel.task .diskDriverTask).id = (s.kernel.task .diskDriverTask).id := by
  have other : e ≠ .begins .diskDriverTask := by
    rintro rfl
    rw [living, Event.living, Function.update_self] at dead
    cases dead
  refine ⟨?_, entry_ids entry other⟩
  rw [living] at dead
  cases entry with
  | begins t _ fresh =>
    have apart : (.diskDriverTask : Tcb N) ≠ t := by
      rintro rfl
      exact other rfl
    rwa [Event.living, Function.update_of_ne apart] at dead
  | ends code time _ program printed =>
    rwa [Event.living, Function.update_of_ne program.symm] at dead
  | none | priority | schedule | tick | turn => exact dead

theorem small_step {a b : Noted N} {l : Label N} (small : Small a) (go : Notes a l b) :
    Small b := by
  obtain ⟨operates, diary⟩ := go
  have entry := step_entry small.kept.conserved operates
  have living := step_living small.kept.conserved operates
  refine ⟨kept_step small.kept ⟨operates, diary⟩, ?_, ?_⟩
  · intro dead
    obtain ⟨before, same⟩ := dead_id entry living dead
    rw [same]
    exact small.driver before
  · intro fits
    have before : (a.diary.inits : Int) < intMax := by
      have grow : a.diary.inits ≤ b.diary.inits := by
        rw [diary]
        cases event a.system b.system l <;> simp [Diary.note]
      omega
    have counted := small.counted before
    refine step_counted counted operates ?_ (next_differs small before l)
    unfold CountFits
    split
    · rename_i t stack
      have next : b.diary.inits = a.diary.inits + 1 := by
        rw [diary]
        rfl
      have few := users_few small.kept.faithful
      rw [counted.num]
      omega
    · trivial

theorem opened_small {a : Noted N} (opened : Opened a) : Small a :=
  ⟨opened_kept opened, fun _ => (boot_lists opened.booted).2.2.2.2.2.1,
   fun _ => boot_counted opened.booted⟩

theorem live_id {a : Noted N} (kept : Kept a) (few : (a.diary.inits : Int) < intMax) {t : Tcb N}
    (on : liveTasks a.system t = true) (user : t ≠ .dispatcherTask) :
    (a.system.kernel.task t).id = a.diary.number t ∧ a.diary.number t ≤ a.diary.inits := by
  have written := kept.faithful.written t on user
  have number := written.number
  exact ⟨Eq.trans written.id (idOf_fits (by omega)), number⟩

theorem distinct_ids {a : Noted N} (kept : Kept a) (few : (a.diary.inits : Int) < intMax)
    {t u : Tcb N} (onT : liveTasks a.system t = true) (onU : liveTasks a.system u = true)
    (same : (a.system.kernel.task t).id = (a.system.kernel.task u).id) : t = u := by
  have dispatcher := kept.conserved.dispatcherId
  by_cases userT : t = .dispatcherTask
  · by_cases userU : u = .dispatcherTask
    · rw [userT, userU]
    · rw [userT, dispatcher, (live_id kept few onU userU).1] at same
      simp only [dispatcherPid] at same
      omega
  · by_cases userU : u = .dispatcherTask
    · rw [userU, dispatcher, (live_id kept few onT userT).1] at same
      simp only [dispatcherPid] at same
      omega
    · rw [(live_id kept few onT userT).1, (live_id kept few onU userU).1] at same
      exact kept.faithful.distinct t u onT onU userT userU (by omega)

/-- While fewer than 2 ^ 31 - 1 tasks have been initialised, no two lives share an id, whether
    they go on or their line is printed, and user_tasks_num counts the tasks of the program. -/
theorem ids_are_unique {a b : Noted N} {labels : List (Label N)} (opened : Opened a)
    (run : Run Notes a labels b) (few : (b.diary.inits : Int) < intMax) :
    (∀ t u, liveTasks b.system t = true → liveTasks b.system u = true →
      (b.system.kernel.task t).id = (b.system.kernel.task u).id → t = u) ∧
    (b.system.kernel.stdout.map ExitReport.id).Nodup ∧
    (∀ t, liveTasks b.system t = true →
      (b.system.kernel.task t).id ∉ b.system.kernel.stdout.map ExitReport.id) ∧
    b.system.kernel.userTasksNum = (users b.system).card := by
  have small : Small b := run_invariant Small (fun _ _ _ => small_step) run (opened_small opened)
  have f := small.kept.faithful
  have dispatcher := small.kept.conserved.dispatcherId
  have printed : b.system.kernel.stdout.map ExitReport.id =
      b.diary.lives.map fun life => (life.number : Int) := by
    have ids : b.system.kernel.stdout.map ExitReport.id =
        b.diary.lives.map fun life => life.line.1 := by
      have firsts := congrArg (List.map Prod.fst) f.printed
      rwa [List.map_map, List.map_map] at firsts
    rw [ids]
    refine List.map_congr_left fun life mem => ?_
    have number := (f.past life mem).1
    simp only [Life.line]
    rw [idOf_fits (by omega)]
  refine ⟨fun t u => distinct_ids small.kept few, ?_, ?_, (small.counted few).num⟩
  · have numbers := f.once.map (Nat.cast_injective (R := Int))
    rw [List.map_map] at numbers
    rw [printed]
    exact numbers
  · intro t on mem
    rw [printed] at mem
    obtain ⟨life, past, same⟩ := List.mem_map.mp mem
    by_cases user : t = .dispatcherTask
    · rw [user, dispatcher] at same
      simp only [dispatcherPid] at same
      omega
    · rw [(live_id small.kept few on user).1] at same
      exact (f.past life past).2 t on user (by omega)

theorem one_life_is_unique : ∃ b, Run Notes opened oneLife b ∧
    b.system.kernel.stdout.map ExitReport.id = [1] ∧
    (b.system.kernel.task .mainTask).id ≠ 1 ∧ b.system.kernel.userTasksNum = 1 := by
  obtain ⟨b, found, few, printed, alive, num⟩ := exec_reaches notedStep opened oneLife
    (fun b => (b.diary.inits : Int) < intMax ∧
      b.system.kernel.stdout.map ExitReport.id = [1] ∧
      liveTasks b.system .mainTask = true ∧ b.system.kernel.userTasksNum = 1) (by decide +kernel)
  have run := exec_noted found
  obtain ⟨-, -, apart, -⟩ := ids_are_unique opened_starts run few
  have other := apart .mainTask alive
  rw [printed, List.mem_singleton] at other
  exact ⟨b, run, printed, other, num⟩

end Identities
end TaskLives
